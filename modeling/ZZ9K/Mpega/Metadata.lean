import ZZ9K.Abi.BigEndian
import ZZ9K.Framework.Reading

namespace ZZ9K.Mpega

open ZZ9K.Framework

/-- `MPEGAParsedHeader` -/
structure ParsedHeader where
  norm : Nat
  layer : Nat
  mode : Nat
  bitrate : Nat
  frequency : Nat
  channels : Nat
  samplesPerFrame : Nat
  privateBit : Nat
  copyright : Nat
  original : Nat
  deriving DecidableEq, Repr

/-- `MPEGACompatStream`, what the probe of the metadata reads and writes -/
structure Metadata where
  norm : Nat
  layer : Nat
  mode : Nat
  bitrate : Int
  frequency : Nat
  channels : Nat
  msDuration : Nat
  privateBit : Nat
  copyright : Nat
  original : Nat
  streamSize : Int
  streamStartByte : Int
  xingStreamBytes : Nat
  xingToc : List UInt8
  xingHasToc : Bool
  deriving DecidableEq, Repr

/-- A program that reads `input_buffer` -/
abbrev Parsing (α : Type) := Reading UInt8 α

/-- A byte of the buffer -/
abbrev byte (i : Nat) : Parsing UInt8 := .ask i .ret

/-- `mpega_read_be32` -/
def readBe32 (i : Nat) : Parsing UInt32 := do
  let b0 ← byte i
  let b1 ← byte (i+1)
  let b2 ← byte (i+2)
  let b3 ← byte (i+3)
  return Abi.getBe32 ⟨b0,b1,b2,b3⟩

/-- What `mpega_is_sync_header` checks behind the sync bits: the layer, the bit rate and the sample
rate -/
def syncFields (b1 b2 : UInt8) : Bool :=
  (b1 >>> 1) &&& 0x03 ≠ 0 ∧ (b2 >>> 4) &&& 0x0f ≠ 0 ∧ (b2 >>> 4) &&& 0x0f ≠ 0x0f ∧
    (b2 >>> 2) &&& 0x03 ≠ 3

/-- `mpega_is_sync_header` -/
def isSyncHeader (i : Nat) : Parsing Bool := do
  let b0 ← byte i
  if b0 ≠ 0xff then return false
  let b1 ← byte (i+1)
  if b1 &&& 0xe0 ≠ 0xe0 then return false
  let b2 ← byte (i+2)
  return syncFields b1 b2

/-- `bitrate_mpeg1_layer1` -/
def bitrateMpeg1Layer1 : List Nat :=
  [0,32,64,96,128,160,192,224,256,288,320,352,384,416,448,0]

/-- `bitrate_mpeg1_layer2` -/
def bitrateMpeg1Layer2 : List Nat :=
  [0,32,48,56,64,80,96,112,128,160,192,224,256,320,384,0]

/-- `bitrate_mpeg1_layer3` -/
def bitrateMpeg1Layer3 : List Nat :=
  [0,32,40,48,56,64,80,96,112,128,160,192,224,256,320,0]

/-- `bitrate_mpeg2_layer1` -/
def bitrateMpeg2Layer1 : List Nat :=
  [0,32,48,56,64,80,96,112,128,144,160,176,192,224,256,0]

/-- `bitrate_mpeg2_layer23` -/
def bitrateMpeg2Layer23 : List Nat :=
  [0,8,16,24,32,40,48,56,64,80,96,112,128,144,160,0]

/-- `sample_rates` -/
def sampleRates : List Nat := [44100,48000,32000]

/-- What `mpega_parse_mpeg_header` stores -/
def headerFields (b1 b2 b3 : UInt8) : ParsedHeader :=
  let versionBits := (b1 >>> 3) &&& 0x03
  let layer := 4-((b1 >>> 1) &&& 0x03).toNat
  let bitrateIndex := ((b2 >>> 4) &&& 0x0f).toNat
  let sampleRateIndex := ((b2 >>> 2) &&& 0x03).toNat
  let mode := ((b3 >>> 6) &&& 0x03).toNat
  let bitrateTable :=
    if versionBits = 3 then
      if layer = 1 then bitrateMpeg1Layer1
      else if layer = 2 then bitrateMpeg1Layer2
      else bitrateMpeg1Layer3
    else if layer = 1 then bitrateMpeg2Layer1
    else bitrateMpeg2Layer23
  let sampleRate := sampleRates.getD sampleRateIndex 0
  { norm := if versionBits = 3 then 1 else 2
    layer := layer
    mode := mode
    bitrate := bitrateTable.getD bitrateIndex 0
    frequency :=
      if versionBits = 3 then sampleRate
      else sampleRate >>> if versionBits = 2 then 1 else 2
    channels := if mode = 3 then 1 else 2
    samplesPerFrame :=
      if layer = 1 then 384 else if layer = 3 ∧ versionBits ≠ 3 then 576 else 1152
    privateBit := (b2 &&& 0x01).toNat
    copyright := ((b3 >>> 3) &&& 0x01).toNat
    original := ((b3 >>> 2) &&& 0x01).toNat }

/-- `mpega_parse_mpeg_header` after the sync has been found -/
def parsedHeader (b1 b2 b3 : UInt8) : Option ParsedHeader :=
  let parsed := headerFields b1 b2 b3
  if 0 < parsed.bitrate ∧ 0 < parsed.frequency then some parsed else none

/-- `mpega_parse_mpeg_header` -/
def parseMpegHeader (i : Nat) : Parsing (Option ParsedHeader) := do
  let sync ← isSyncHeader i
  if !sync then return none
  let b1 ← byte (i+1)
  let b2 ← byte (i+2)
  let b3 ← byte (i+3)
  return parsedHeader b1 b2 b3

/-- Where a Xing header is in a frame: `xing_offset` of `mpega_apply_xing_info` -/
def ParsedHeader.xingOffset (parsed : ParsedHeader) (headerOffset : Nat) : Nat :=
  headerOffset+
    if parsed.norm = 1 then if parsed.channels = 1 then 21 else 36
    else if parsed.channels = 1 then 13 else 21

/-- An optional field of four bytes of a Xing header -/
def xingField (flagged : Bool) (length fieldOffset : Nat) : Parsing (Option UInt32) :=
  if flagged ∧ fieldOffset+4 ≤ length then some <$> readBe32 fieldOffset else return none

/-- The TOC of a Xing header. The number of its bytes is unsigned, so the end it is compared with
wraps. -/
def xingTocField (flagged : Bool) (length fieldOffset : Nat) : Parsing (Option (List UInt8)) :=
  if flagged ∧ (fieldOffset : Int) ≤ ((length : Int)-100)%2^32 then
    some <$> Reading.readAll 100 fieldOffset
  else return none

/-- What a Xing header says -/
structure XingInfo where
  frames : Option UInt32
  streamBytes : Option UInt32
  toc : Option (List UInt8)
  deriving DecidableEq, Repr

/-- The field behind one that is there or not -/
def fieldBehind (fieldOffset : Nat) (field : Option UInt32) : Nat :=
  if field.isSome then fieldOffset+4 else fieldOffset

/-- The flags of a Xing header, and its fields of four bytes -/
def readXingWords (length xingOffset : Nat) :
    Parsing (UInt32 × Option UInt32 × Option UInt32) := do
  let flags ← readBe32 (xingOffset+4)
  let frames ← xingField (flags &&& 0x01 ≠ 0) length (xingOffset+8)
  let streamBytes ← xingField (flags &&& 0x02 ≠ 0) length (fieldBehind (xingOffset+8) frames)
  return (flags,frames,streamBytes)

/-- Where the TOC of a Xing header is -/
def tocOffset (xingOffset : Nat) (frames streamBytes : Option UInt32) : Nat :=
  fieldBehind (fieldBehind (xingOffset+8) frames) streamBytes

/-- `"Xing"` -/
def xingTag : List UInt8 := [0x58,0x69,0x6e,0x67]

/-- `"Info"` -/
def infoTag : List UInt8 := [0x49,0x6e,0x66,0x6f]

/-- The reads of `mpega_apply_xing_info` before the TOC, if there is a Xing header in the frame -/
def readXingFront (parsed : ParsedHeader) (length headerOffset : Nat) :
    Parsing (Option (UInt32 × Option UInt32 × Option UInt32)) := do
  if parsed.frequency = 0 ∨ parsed.samplesPerFrame = 0 then return none
  let xingOffset := parsed.xingOffset headerOffset
  if length < xingOffset+16 then return none
  let tag ← Reading.readAll 4 xingOffset
  if tag ≠ xingTag ∧ tag ≠ infoTag then return none
  some <$> readXingWords length xingOffset

/-- The flag that a TOC follows -/
def tocFlag (flags : UInt32) : Bool := flags &&& 0x04 ≠ 0

/-- The reads of `mpega_apply_xing_info` -/
def readXingInfo (parsed : ParsedHeader) (length headerOffset : Nat) : Parsing (Option XingInfo) := do
  match ← readXingFront parsed length headerOffset with
  | none => return none
  | some (flags,frames,streamBytes) =>
    let fieldOffset := tocOffset (parsed.xingOffset headerOffset) frames streamBytes
    let toc ← xingTocField (tocFlag flags) length fieldOffset
    return some ⟨frames,streamBytes,toc⟩

/-- The loop of `mpega_stream_probe_metadata` over the received bytes, with so many places left: the
first header there -/
def findHeader : Nat → Nat → Parsing (Option (Nat × ParsedHeader))
  | 0,_ => return none
  | places+1,i => do
    match ← parseMpegHeader i with
    | some parsed => return some (i,parsed)
    | none => findHeader places (i+1)

namespace Metadata

variable (state : Metadata)

/-- `mpega_stream_update_estimated_duration` -/
def updateEstimatedDuration : Metadata :=
  if state.streamSize ≤ 0 ∨ state.bitrate ≤ 0 then state
  else
    let streamBytes :=
      if 0 < state.streamStartByte ∧ state.streamStartByte < state.streamSize then
        state.streamSize-state.streamStartByte
      else state.streamSize
    { state with msDuration := (streamBytes*8/state.bitrate).toNat%2^32 }

/-- `mpega_apply_mpeg_header` -/
def applyMpegHeader (parsed : ParsedHeader) (headerOffset : Nat) : Metadata :=
  updateEstimatedDuration { state with
    norm := parsed.norm
    layer := parsed.layer
    mode := parsed.mode
    bitrate := parsed.bitrate
    frequency := parsed.frequency
    channels := parsed.channels
    privateBit := parsed.privateBit
    copyright := parsed.copyright
    original := parsed.original
    streamStartByte := headerOffset }

/-- The bytes and the TOC of a Xing header in the state -/
def setXingFields (info : XingInfo) : Metadata :=
  { state with
    xingStreamBytes := (info.streamBytes.map UInt32.toNat).getD state.xingStreamBytes
    xingToc := info.toc.getD state.xingToc
    xingHasToc := info.toc.isSome || state.xingHasToc }

/-- The duration of so many frames -/
def setXingDuration (parsed : ParsedHeader) (frames : Nat) : Metadata :=
  if frames ≠ 0 then
    { state with msDuration := frames*parsed.samplesPerFrame*1000/parsed.frequency%2^32 }
  else state

/-- The stream's bytes where its Xing header does not say them -/
def estimateXingBytes (frames streamBytes : Nat) : Nat × Metadata :=
  if frames ≠ 0 ∧ streamBytes = 0 ∧ state.streamStartByte < state.streamSize then
    let streamBytes := (state.streamSize-state.streamStartByte).toNat
    (streamBytes,
      if streamBytes ≤ 0xffffffff then { state with xingStreamBytes := streamBytes } else state)
  else (streamBytes,state)

/-- The average bit rate of so many bytes -/
def setAverageBitrate (streamBytes : Nat) : Metadata :=
  if streamBytes ≠ 0 ∧ state.msDuration ≠ 0 then
    let averageBitrate := streamBytes*8/state.msDuration
    if averageBitrate ≠ 0 ∧ averageBitrate ≤ 32767 then { state with bitrate := averageBitrate }
    else state
  else state

/-- What `mpega_apply_xing_info` makes of a Xing header -/
def withXing (parsed : ParsedHeader) (info : XingInfo) : Metadata :=
  let frames := (info.frames.getD 0).toNat
  let state := (state.setXingFields info).setXingDuration parsed frames
  let (streamBytes,state) := state.estimateXingBytes frames (info.streamBytes.getD 0).toNat
  state.setAverageBitrate streamBytes

/-- What it makes of a frame with or without one -/
def withXingInfo (parsed : ParsedHeader) : Option XingInfo → Metadata
  | some info => state.withXing parsed info
  | none => state

/-- `mpega_apply_xing_info` -/
def applyXingInfo (parsed : ParsedHeader) (length headerOffset : Nat) : Parsing Metadata :=
  state.withXingInfo parsed <$> readXingInfo parsed length headerOffset

/-- What a round of `mpega_stream_probe_metadata` does with the bytes received so far: the state with
their first header, if there is one -/
def scanReceived (total : Nat) : Parsing (Option Metadata) := do
  match ← findHeader (total-3) 0 with
  | some (i,parsed) => some <$> (state.applyMpegHeader parsed i).applyXingInfo parsed total i
  | none => return none

end Metadata

/-! What is in some data -/

/-- A frame header at the front of some data -/
def frameHeader : List UInt8 → Option ParsedHeader
  | b0::b1::b2::b3::_ =>
    if b0 = 0xff ∧ b1 &&& 0xe0 = 0xe0 ∧ syncFields b1 b2 then parsedHeader b1 b2 b3 else none
  | _ => none

/-- The first frame header at one of so many places -/
def firstHeaderFrom (data : List UInt8) : Nat → Nat → Option (Nat × ParsedHeader)
  | 0,_ => none
  | places+1,i => match frameHeader (data.drop i) with
    | some parsed => some (i,parsed)
    | none => firstHeaderFrom data places (i+1)

/-- The first frame header in some data -/
def firstHeader (data : List UInt8) : Option (Nat × ParsedHeader) :=
  firstHeaderFrom data (data.length-3) 0

/-- A big-endian word in some data -/
def be32At (data : List UInt8) (i : Nat) : UInt32 :=
  Abi.getBe32 ⟨data.getD i 0,data.getD (i+1) 0,data.getD (i+2) 0,data.getD (i+3) 0⟩

/-- The tag of a Xing header and the words behind it are in some data. -/
def hasXing (data : List UInt8) (xingOffset : Nat) : Bool :=
  xingOffset+16 ≤ data.length ∧
    ((data.drop xingOffset).take 4 = xingTag ∨ (data.drop xingOffset).take 4 = infoTag)

/-- The flags of a Xing header -/
def xingFlags (data : List UInt8) (xingOffset : Nat) : UInt32 := be32At data (xingOffset+4)

/-- The number of frames, if the header says it -/
def xingFrames (data : List UInt8) (xingOffset : Nat) : Option UInt32 :=
  if xingFlags data xingOffset &&& 0x01 ≠ 0 then some (be32At data (xingOffset+8)) else none

/-- The number of bytes, if the header says it -/
def xingBytes (data : List UInt8) (xingOffset : Nat) : Option UInt32 :=
  if xingFlags data xingOffset &&& 0x02 ≠ 0 then
    some (be32At data (fieldBehind (xingOffset+8) (xingFrames data xingOffset)))
  else none

/-- Where the TOC is that a Xing header announces -/
def tocOffsetIn (data : List UInt8) (xingOffset : Nat) : Nat :=
  tocOffset xingOffset (xingFrames data xingOffset) (xingBytes data xingOffset)

/-- A Xing header in some data, and whether it announces a TOC -/
def announcesToc (data : List UInt8) : Bool :=
  match firstHeader data with
  | some (i,parsed) =>
    hasXing data (parsed.xingOffset i) && tocFlag (xingFlags data (parsed.xingOffset i))
  | none => false

section

variable {data : List UInt8}

theorem onBuffer_byte {i : Nat} (h : i < data.length) :
    Reading.onBuffer data (byte i) = some (data.getD i 0) := by
  rw [byte,Reading.onBuffer_ask data h,Reading.onBuffer_ret]
  simp [h]

theorem onBuffer_readBe32 {i : Nat} (h : i+4 ≤ data.length) :
    Reading.onBuffer data (readBe32 i) = some (be32At data i) := by
  simp only [readBe32,Reading.onBuffer_bind,onBuffer_byte (show i < data.length by omega),
    onBuffer_byte (show i+1 < data.length by omega),onBuffer_byte (show i+2 < data.length by omega),
    onBuffer_byte (show i+3 < data.length by omega),Option.bind_some]
  rfl

theorem drop_eq_bytes {i : Nat} (h : i+4 ≤ data.length) :
    data.drop i = data.getD i 0::data.getD (i+1) 0::data.getD (i+2) 0::data.getD (i+3) 0::
      data.drop (i+4) := by
  rw [List.drop_eq_getElem_cons (by omega),List.drop_eq_getElem_cons (by omega),
    List.drop_eq_getElem_cons (by omega),List.drop_eq_getElem_cons (by omega)]
  simp [show i < data.length by omega,show i+1 < data.length by omega,
    show i+2 < data.length by omega,show i+3 < data.length by omega]

/-- The parser reads only the four bytes of the header. -/
theorem onBuffer_parseMpegHeader {i : Nat} (h : i+4 ≤ data.length) :
    Reading.onBuffer data (parseMpegHeader i) = some (frameHeader (data.drop i)) := by
  have hb0 := onBuffer_byte (show i < data.length by omega)
  have hb1 := onBuffer_byte (show i+1 < data.length by omega)
  have hb2 := onBuffer_byte (show i+2 < data.length by omega)
  have hb3 := onBuffer_byte (show i+3 < data.length by omega)
  rw [drop_eq_bytes h,frameHeader]
  generalize data.getD i 0 = b0 at hb0 ⊢
  generalize data.getD (i+1) 0 = b1 at hb1 ⊢
  generalize data.getD (i+2) 0 = b2 at hb2 ⊢
  generalize data.getD (i+3) 0 = b3 at hb3 ⊢
  have hsync : Reading.onBuffer data (isSyncHeader i)
      = some (decide (b0 = 0xff ∧ b1 &&& 0xe0 = 0xe0 ∧ syncFields b1 b2)) := by
    rw [isSyncHeader,Reading.onBuffer_bind,hb0,Option.bind_some]
    by_cases h0 : b0 = 0xff
    · rw [if_neg (not_not.mpr h0),Reading.onBuffer_bind,hb1,Option.bind_some]
      by_cases h1 : b1 &&& 0xe0 = 0xe0
      · rw [if_neg (not_not.mpr h1),Reading.onBuffer_bind,hb2,Option.bind_some]
        simp [h0,h1]
      · rw [if_pos h1]
        simp [h1]
    · rw [if_pos h0]
      simp [h0]
  rw [parseMpegHeader,Reading.onBuffer_bind,hsync,Option.bind_some]
  by_cases hfound : b0 = 0xff ∧ b1 &&& 0xe0 = 0xe0 ∧ syncFields b1 b2
  · rw [if_pos hfound,decide_eq_true hfound]
    simp only [Bool.not_true,Bool.false_eq_true,if_false,Reading.onBuffer_bind,hb1,hb2,hb3,
      Option.bind_some]
    rfl
  · rw [if_neg hfound,decide_eq_false hfound]
    rfl

variable (data) in
theorem onBuffer_findHeader (places i : Nat) (h : places = 0 ∨ i+places+3 ≤ data.length) :
    Reading.onBuffer data (findHeader places i) = some (firstHeaderFrom data places i) := by
  induction places generalizing i with
  | zero => rfl
  | succ places ih =>
    have hi : i+4 ≤ data.length := by omega
    rw [findHeader,firstHeaderFrom,Reading.onBuffer_bind,onBuffer_parseMpegHeader hi,Option.bind_some]
    cases frameHeader (data.drop i) with
    | some parsed => rfl
    | none => exact ih (i+1) (by omega)

theorem fieldBehind_bounds (fieldOffset : Nat) (field : Option UInt32) :
    fieldOffset ≤ fieldBehind fieldOffset field ∧
      fieldBehind fieldOffset field ≤ fieldOffset+4 := by
  rw [fieldBehind]
  split_ifs <;> omega

theorem tocOffset_bounds (xingOffset : Nat) (frames streamBytes : Option UInt32) :
    xingOffset+8 ≤ tocOffset xingOffset frames streamBytes ∧
      tocOffset xingOffset frames streamBytes ≤ xingOffset+16 := by
  have hframes := fieldBehind_bounds (xingOffset+8) frames
  have hbytes := fieldBehind_bounds (fieldBehind (xingOffset+8) frames) streamBytes
  rw [tocOffset]
  omega

theorem onBuffer_xingField {fieldOffset : Nat} (flagged : Bool) (total : Nat)
    (h : fieldOffset+4 ≤ data.length) (htotal : fieldOffset+4 ≤ total) :
    Reading.onBuffer data (xingField flagged total fieldOffset)
      = some (if flagged then some (be32At data fieldOffset) else none) := by
  cases flagged with
  | false => simp [xingField]
  | true =>
    rw [xingField,if_pos ⟨rfl,htotal⟩]
    rw [Reading.onBuffer_map,onBuffer_readBe32 h]
    rfl

/-- Where the tag and the words behind it have arrived, the fields of four bytes have. -/
theorem onBuffer_readXingWords {xingOffset : Nat} (total : Nat) (h : xingOffset+16 ≤ data.length)
    (htotal : xingOffset+16 ≤ total) :
    Reading.onBuffer data (readXingWords total xingOffset)
      = some (xingFlags data xingOffset,xingFrames data xingOffset,xingBytes data xingOffset) := by
  have hframes : Reading.onBuffer data (xingField (xingFlags data xingOffset &&& 0x01 ≠ 0) total
      (xingOffset+8)) = some (xingFrames data xingOffset) := by
    rw [onBuffer_xingField _ _ (by omega) (by omega),xingFrames]
    simp
  have hbehind := fieldBehind_bounds (xingOffset+8) (xingFrames data xingOffset)
  have hbytes : Reading.onBuffer data (xingField (xingFlags data xingOffset &&& 0x02 ≠ 0) total
      (fieldBehind (xingOffset+8) (xingFrames data xingOffset)))
        = some (xingBytes data xingOffset) := by
    rw [onBuffer_xingField _ _ (by omega) (by omega),xingBytes]
    simp
  rw [readXingWords,Reading.onBuffer_bind,onBuffer_readBe32 (by omega),Option.bind_some,
    ← xingFlags,Reading.onBuffer_bind,hframes,Option.bind_some,Reading.onBuffer_bind,hbytes]
  rfl

variable (data) in
/-- What is read before the TOC has arrived. -/
theorem onBuffer_readXingFront {parsed : ParsedHeader} (i : Nat) (hfrequency : parsed.frequency ≠ 0)
    (hsamples : parsed.samplesPerFrame ≠ 0) :
    Reading.onBuffer data (readXingFront parsed data.length i)
      = some (if hasXing data (parsed.xingOffset i) then
          some (xingFlags data (parsed.xingOffset i),xingFrames data (parsed.xingOffset i),
            xingBytes data (parsed.xingOffset i))
        else none) := by
  have hguard : ¬(parsed.frequency = 0 ∨ parsed.samplesPerFrame = 0) :=
    not_or.mpr ⟨hfrequency,hsamples⟩
  rw [readXingFront,if_neg hguard]
  generalize parsed.xingOffset i = xingOffset
  by_cases hshort : data.length < xingOffset+16
  · have hxing : ¬hasXing data xingOffset = true := fun h => by
      have := (of_decide_eq_true h).1
      omega
    rw [if_pos hshort,if_neg hxing]
    rfl
  rw [if_neg hshort,Reading.onBuffer_bind,Reading.onBuffer_readAll data (by omega),Option.bind_some]
  by_cases htag : (data.drop xingOffset).take 4 = xingTag ∨ (data.drop xingOffset).take 4 = infoTag
  · have hxing : hasXing data xingOffset = true := decide_eq_true ⟨by omega,htag⟩
    rw [if_neg (by tauto),if_pos hxing]
    rw [Reading.onBuffer_map,onBuffer_readXingWords _ (by omega) (by omega)]
    rfl
  · have hxing : ¬hasXing data xingOffset = true := fun h => htag (of_decide_eq_true h).2
    rw [if_pos (not_or.mp htag),if_neg hxing]
    rfl

theorem tocInside_iff {total fieldOffset : Nat} (htotal : total < 2^32)
    (hoffset : fieldOffset < 2^32-100) :
    (fieldOffset : Int) ≤ ((total : Int)-100)%2^32 ↔ total < 100 ∨ fieldOffset+100 ≤ total := by
  omega

/-- A TOC is read beside the data where the data is shorter than any. -/
theorem onBuffer_xingTocField {fieldOffset : Nat} (flagged : Bool) (htotal : data.length < 2^32)
    (hpos : 0 < fieldOffset) (hoffset : fieldOffset < 2^32-100) :
    Reading.onBuffer data (xingTocField flagged data.length fieldOffset)
      = if flagged ∧ data.length < 100 then none
        else some (if flagged ∧ fieldOffset+100 ≤ data.length then
            some ((data.drop fieldOffset).take 100)
          else none) := by
  have hinside := tocInside_iff htotal hoffset
  cases flagged with
  | false => simp [xingTocField]
  | true =>
    simp only [xingTocField,true_and]
    by_cases hread : (fieldOffset : Int) ≤ ((data.length : Int)-100)%2^32
    · rw [if_pos hread]
      rw [Reading.onBuffer_map]
      rcases hinside.mp hread with hshort | hlong
      · rw [if_pos hshort,Reading.onBuffer_readAll_none data (by decide) (by omega)]
        rfl
      · rw [if_neg (by omega),if_pos hlong,Reading.onBuffer_readAll data hlong]
        rfl
    · have hout := not_or.mp fun h => hread (hinside.mpr h)
      rw [if_neg hread,if_neg hout.1,if_neg hout.2]
      rfl

theorem parsedHeader_pos {b1 b2 b3 : UInt8} {parsed : ParsedHeader}
    (h : parsedHeader b1 b2 b3 = some parsed) :
    parsed.bitrate ≠ 0 ∧ parsed.frequency ≠ 0 ∧ parsed.samplesPerFrame ≠ 0 := by
  rw [parsedHeader] at h
  split_ifs at h with hpos
  obtain rfl := Option.some.inj h
  refine ⟨Nat.ne_of_gt hpos.1,Nat.ne_of_gt hpos.2,?_⟩
  dsimp only [headerFields]
  split_ifs <;> decide

theorem frameHeader_pos {parsed : ParsedHeader} (h : frameHeader data = some parsed) :
    parsed.bitrate ≠ 0 ∧ parsed.frequency ≠ 0 ∧ parsed.samplesPerFrame ≠ 0 := by
  rcases data with _ | ⟨b0,_ | ⟨b1,_ | ⟨b2,_ | ⟨b3,rest⟩⟩⟩⟩
  all_goals first
    | cases h
    | rw [frameHeader] at h
      split_ifs at h
      exact parsedHeader_pos h

theorem frameHeader_length {parsed : ParsedHeader} (h : frameHeader data = some parsed) :
    4 ≤ data.length := by
  rcases data with _ | ⟨b0,_ | ⟨b1,_ | ⟨b2,_ | ⟨b3,rest⟩⟩⟩⟩
  all_goals first
    | cases h
    | simp

/-- What comes behind a header does not matter to it. -/
theorem frameHeader_append (more : List UInt8) (h : 4 ≤ data.length) :
    frameHeader (data++more) = frameHeader data := by
  rcases data with _ | ⟨b0,_ | ⟨b1,_ | ⟨b2,_ | ⟨b3,rest⟩⟩⟩⟩
  all_goals first
    | rfl
    | simp at h

theorem firstHeaderFrom_eq_some {places i j : Nat} {parsed : ParsedHeader} :
    firstHeaderFrom data places i = some (j,parsed) ↔
      i ≤ j ∧ j < i+places ∧ frameHeader (data.drop j) = some parsed ∧
        ∀ k, i ≤ k → k < j → frameHeader (data.drop k) = none := by
  induction places generalizing i with
  | zero =>
    rw [firstHeaderFrom]
    constructor
    · intro h
      cases h
    · intro h
      omega
  | succ places ih =>
    rw [firstHeaderFrom]
    cases hi : frameHeader (data.drop i) with
    | some first =>
      constructor
      · intro h
        obtain ⟨rfl,rfl⟩ := Prod.mk.inj (Option.some.inj h)
        exact ⟨le_rfl,by omega,hi,fun k hik hkj => by omega⟩
      · rintro ⟨hij,-,hj,hbefore⟩
        rcases Nat.lt_or_eq_of_le hij with hlt | rfl
        · rw [hbefore i le_rfl hlt] at hi
          cases hi
        · rw [hi] at hj
          rw [Option.some.inj hj]
    | none =>
      rw [ih]
      constructor
      · rintro ⟨hij,hend,hj,hbefore⟩
        refine ⟨by omega,by omega,hj,?_⟩
        intro k hik hkj
        rcases Nat.lt_or_eq_of_le hik with hlt | rfl
        · exact hbefore k hlt hkj
        · exact hi
      · rintro ⟨hij,hend,hj,hbefore⟩
        rcases Nat.lt_or_eq_of_le hij with hlt | rfl
        · exact ⟨hlt,by omega,hj,fun k hik hkj => hbefore k (by omega) hkj⟩
        · rw [hi] at hj
          cases hj

theorem firstHeader_eq_some {j : Nat} {parsed : ParsedHeader} :
    firstHeader data = some (j,parsed) ↔
      frameHeader (data.drop j) = some parsed ∧ ∀ k < j, frameHeader (data.drop k) = none := by
  rw [firstHeader,firstHeaderFrom_eq_some]
  constructor
  · rintro ⟨-,-,hj,hbefore⟩
    exact ⟨hj,fun k hk => hbefore k (Nat.zero_le k) hk⟩
  · rintro ⟨hj,hbefore⟩
    have hlong := frameHeader_length hj
    rw [List.length_drop] at hlong
    exact ⟨Nat.zero_le j,by omega,hj,fun k _ hk => hbefore k hk⟩

theorem firstHeader_length {j : Nat} {parsed : ParsedHeader} (h : firstHeader data = some (j,parsed)) :
    j+4 ≤ data.length := by
  have hlong := frameHeader_length (firstHeader_eq_some.mp h).1
  rw [List.length_drop] at hlong
  omega

/-- The first header stays the first when more arrives. -/
theorem firstHeader_append {j : Nat} {parsed : ParsedHeader} (more : List UInt8)
    (h : firstHeader data = some (j,parsed)) : firstHeader (data++more) = some (j,parsed) := by
  have hlong := firstHeader_length h
  obtain ⟨hj,hbefore⟩ := firstHeader_eq_some.mp h
  have hsame : ∀ k ≤ j, frameHeader ((data++more).drop k) = frameHeader (data.drop k) := by
    intro k hk
    rw [List.drop_append_of_le_length (by omega)]
    apply frameHeader_append
    rw [List.length_drop]
    omega
  rw [firstHeader_eq_some,hsame j le_rfl]
  exact ⟨hj,fun k hk => (hsame k hk.le).trans (hbefore k hk)⟩

theorem xingOffset_bounds (parsed : ParsedHeader) (i : Nat) :
    i+13 ≤ parsed.xingOffset i ∧ parsed.xingOffset i ≤ i+36 := by
  rw [ParsedHeader.xingOffset]
  split_ifs <;> omega

/-- What a Xing header says that has arrived -/
def xingInfo (data : List UInt8) (xingOffset : Nat) : XingInfo where
  frames := xingFrames data xingOffset
  streamBytes := xingBytes data xingOffset
  toc :=
    if tocFlag (xingFlags data xingOffset) ∧ tocOffsetIn data xingOffset+100 ≤ data.length then
      some ((data.drop (tocOffsetIn data xingOffset)).take 100)
    else none

/-- Only a TOC that is announced in less data than a TOC is read beside the data. -/
theorem onBuffer_readXingInfo {parsed : ParsedHeader} {i : Nat} (hfrequency : parsed.frequency ≠ 0)
    (hsamples : parsed.samplesPerFrame ≠ 0) (hlength : data.length ≤ 65536)
    (hi : i ≤ data.length) :
    Reading.onBuffer data (readXingInfo parsed data.length i) =
      if (hasXing data (parsed.xingOffset i) && tocFlag (xingFlags data (parsed.xingOffset i))) ∧
          data.length < 100 then none
      else some (if hasXing data (parsed.xingOffset i) then some (xingInfo data (parsed.xingOffset i))
        else none) := by
  have hxing := xingOffset_bounds parsed i
  have htoc := tocOffset_bounds (parsed.xingOffset i) (xingFrames data (parsed.xingOffset i))
    (xingBytes data (parsed.xingOffset i))
  rw [readXingInfo,Reading.onBuffer_bind,onBuffer_readXingFront data i hfrequency hsamples,
    Option.bind_some]
  cases hasXing data (parsed.xingOffset i) with
  | false => rfl
  | true =>
    simp only [if_true,Bool.true_and]
    rw [Reading.onBuffer_bind,onBuffer_xingTocField _ (by omega) (by omega) (by omega)]
    split_ifs
    · rfl
    · rw [xingInfo,tocOffsetIn,if_pos ‹_›]
      rfl
    · rw [xingInfo,tocOffsetIn,if_neg ‹_›]
      rfl

/-- A round reads only what has arrived, unless a TOC is announced in less data than a TOC. -/
theorem onBuffer_scanReceived (state : Metadata) (hlength : data.length ≤ 65536) :
    (Reading.onBuffer data (state.scanReceived data.length)).map Option.isSome =
      if announcesToc data ∧ data.length < 100 then none else some (firstHeader data).isSome := by
  have hfind := onBuffer_findHeader data (data.length-3) 0 (by omega)
  rw [← firstHeader] at hfind
  rw [Metadata.scanReceived,Reading.onBuffer_bind,hfind,Option.bind_some,announcesToc]
  cases hfirst : firstHeader data with
  | none => rfl
  | some found =>
    obtain ⟨i,parsed⟩ := found
    obtain ⟨-,hfrequency,hsamples⟩ := frameHeader_pos (firstHeader_eq_some.mp hfirst).1
    have hi := firstHeader_length hfirst
    dsimp only
    rw [Reading.onBuffer_map,Metadata.applyXingInfo,Reading.onBuffer_map,
      onBuffer_readXingInfo hfrequency hsamples hlength (by omega)]
    split_ifs <;> rfl

end

end ZZ9K.Mpega
