import ZZ9K.Framework.Overflow
import ZZ9K.Mpega.Metadata

namespace ZZ9K.Mpega

open ZZ9K.Framework

/-- `MPEGA_STREAM_CHUNK_BYTES` -/
def streamChunkBytes : Nat := 64*1024

/-- `MPEGA_DEFAULT_STREAM_BUFFER_BYTES` -/
def defaultStreamBufferBytes : Int := 16384

/-- `mpega_normalize_stream_buffer_size` -/
def normalizeStreamBufferSize (streamBufferSize : Int) : Int :=
  let size := if streamBufferSize ≤ 0 then defaultStreamBufferBytes else streamBufferSize
  let size := if size < 4 then 4 else size
  let size := if (streamChunkBytes : Int) < size then (streamChunkBytes : Int) else size
  let size := size-size%4
  if size ≤ 0 then 4 else size

/-- What a source answers to a read: an error, or the bytes it brings, none at its end -/
abbrev SourceReply := Option (List UInt8)

/-- `mpega_stream_read_source`: more than the request is an error. -/
def readReply (request : Nat) : SourceReply → SourceReply
  | some bytes => if request < bytes.length then none else some bytes
  | none => none

/-- `request` of `mpega_stream_probe_metadata` with so many bytes received -/
def probeRequest (inputChunkBytes : Int) (total : Nat) : Nat :=
  let request := if inputChunkBytes ≤ 0 then streamChunkBytes else inputChunkBytes.toNat
  if streamChunkBytes-total < request then streamChunkBytes-total else request

namespace Metadata

section

variable {M : Type → Type} [Monad M] (state : Metadata)
  (parse : List UInt8 → Parsing (Option Metadata) → M (Option Metadata)) (inputChunkBytes : Int)

/-- The loop of `mpega_stream_probe_metadata`, with the bytes received so far and what the source
answers from then on: whether no read has failed, and the state with the first header.
`parse` runs the round over the buffer that the bytes are at the front of. -/
def probeLoop : List UInt8 → List SourceReply → M (Bool × Option Metadata)
  | _,[] => return (true,none)
  | received,reply::replies =>
    if received.length < streamChunkBytes then
      match readReply (probeRequest inputChunkBytes received.length) reply with
      | none => return (false,none)
      | some [] => return (true,none)
      | some (b::bs) => do
        let received := received++b::bs
        match ← parse received (state.scanReceived received.length) with
        | some found => return (true,some found)
        | none => probeLoop received replies
    else return (true,none)

/-- `mpega_stream_probe_metadata`: the verdict, and the state after it. `rewinds` is whether the seek
to the start succeeds. -/
def probeMetadata (rewinds : Bool) (replies : List SourceReply) : M (Bool × Metadata) := do
  let (readOk,found) ← state.probeLoop parse inputChunkBytes [] replies
  if !rewinds then return (false,found.getD state)
  return (readOk && found.isSome,found.getD state)

end

/-- `mpega_stream_set_defaults`, in cleared memory -/
def defaults : Metadata where
  norm := 1
  layer := 3
  mode := 1
  bitrate := 128
  frequency := 44100
  channels := 2
  msDuration := 0
  privateBit := 0
  copyright := 0
  original := 0
  streamSize := 0
  streamStartByte := 0
  xingStreamBytes := 0
  xingToc := List.replicate 100 0
  xingHasToc := false

/-- The size that `mpega_stream_open_source` takes from what the source says, 0 where it says none -/
def openedSize (streamSize : Int32) : Int := if 0 < streamSize.toInt then streamSize.toInt else 0

/-- The state after `mpega_stream_open_source` -/
def opened (streamSize : Int32) : Metadata :=
  updateEstimatedDuration { defaults with streamSize := openedSize streamSize }

/-- The input buffer: the bytes received, and behind them what was in the memory before -/
def inputBuffer (before : Nat → UInt8) (received : List UInt8) (i : Nat) : UInt8 :=
  received.getD i (before i)

/-- A round over the input buffer -/
def parseInMemory (before : Nat → UInt8) (received : List UInt8) (round : Parsing (Option Metadata)) :
    Id (Option Metadata) :=
  Reading.onMemory (inputBuffer before received) round

variable (state : Metadata) (inputChunkBytes : Int) (rewinds : Bool)

/-- The probe as it runs, in a memory with these contents before -/
def probeInMemory (before : Nat → UInt8) (replies : List SourceReply) : Bool × Metadata :=
  Id.run (state.probeMetadata (parseInMemory before) inputChunkBytes rewinds replies)

/-- The probe that stops where it would read beside the bytes received so far -/
def probeReceived (replies : List SourceReply) : Option (Bool × Metadata) :=
  state.probeMetadata Reading.onBuffer inputChunkBytes rewinds replies

end Metadata

/-- The bytes that have arrived when the first frame header is among them, if the source ever brings
one: `received` has arrived before. -/
def bytesAtHeader (inputChunkBytes : Int) : List UInt8 → List SourceReply → Option (List UInt8)
  | _,[] => none
  | received,reply::replies =>
    if received.length < streamChunkBytes then
      match readReply (probeRequest inputChunkBytes received.length) reply with
      | none => none
      | some [] => none
      | some (b::bs) =>
        if (firstHeader (received++b::bs)).isSome then some (received++b::bs)
        else bytesAtHeader inputChunkBytes (received++b::bs) replies
    else none

section

variable {inputChunkBytes : Int}

theorem readReply_length {request : Nat} {reply : SourceReply} {bytes : List UInt8}
    (h : readReply request reply = some bytes) : bytes.length ≤ request := by
  cases reply with
  | none => cases h
  | some sent =>
    rw [readReply] at h
    split_ifs at h with hlong
    obtain rfl := Option.some.inj h
    exact Nat.le_of_not_lt hlong

variable (inputChunkBytes) in
theorem probeRequest_le (total : Nat) :
    probeRequest inputChunkBytes total ≤ streamChunkBytes-total := by
  rw [probeRequest]
  split_ifs <;> omega

theorem received_length {received bytes : List UInt8} {reply : SourceReply}
    (hroom : received.length < streamChunkBytes)
    (h : readReply (probeRequest inputChunkBytes received.length) reply = some bytes) :
    (received++bytes).length ≤ streamChunkBytes := by
  have hbytes := readReply_length h
  have hrequest := probeRequest_le inputChunkBytes received.length
  rw [List.length_append]
  omega

/-- What of the Xing header of a frame is in the input buffer when so much has arrived -/
def arrivedXing (before : Nat → UInt8) (data : List UInt8) (xingOffset : Nat) : Option XingInfo :=
  if hasXing data xingOffset then
    some
      { frames := xingFrames data xingOffset
        streamBytes := xingBytes data xingOffset
        toc :=
          if tocFlag (xingFlags data xingOffset) ∧
              (data.length < 100 ∨ tocOffsetIn data xingOffset+100 ≤ data.length) then
            some ((List.range' (tocOffsetIn data xingOffset) 100).map
              (Metadata.inputBuffer before data))
          else none }
  else none

theorem inputBuffer_received (before : Nat → UInt8) (data : List UInt8) (i : Nat)
    (h : i < data.length) : Metadata.inputBuffer before data i = data[i] := by
  rw [Metadata.inputBuffer,List.getD_eq_getElem data (before i) h]

variable (before : Nat → UInt8) {data : List UInt8}

theorem onMemory_xingTocField {fieldOffset : Nat} (flagged : Bool) (htotal : data.length < 2^32)
    (hoffset : fieldOffset < 2^32-100) :
    Reading.onMemory (Metadata.inputBuffer before data)
        (xingTocField flagged data.length fieldOffset)
      = if flagged ∧ (data.length < 100 ∨ fieldOffset+100 ≤ data.length) then
          some ((List.range' fieldOffset 100).map (Metadata.inputBuffer before data))
        else none := by
  have hinside := tocInside_iff htotal hoffset
  rw [xingTocField]
  by_cases hread : flagged ∧ (fieldOffset : Int) ≤ ((data.length : Int)-100)%2^32
  · rw [if_pos hread,if_pos ⟨hread.1,hinside.mp hread.2⟩,Reading.onMemory_map,
      Reading.onMemory_readAll]
  · rw [if_neg hread,if_neg fun h => hread ⟨h.1,hinside.mpr h.2⟩]
    rfl

theorem onMemory_readXingInfo {parsed : ParsedHeader} {i : Nat} (hfrequency : parsed.frequency ≠ 0)
    (hsamples : parsed.samplesPerFrame ≠ 0) (hlength : data.length ≤ 65536)
    (hi : i ≤ data.length) :
    Reading.onMemory (Metadata.inputBuffer before data) (readXingInfo parsed data.length i)
      = arrivedXing before data (parsed.xingOffset i) := by
  have hxing := xingOffset_bounds parsed i
  have htoc := tocOffset_bounds (parsed.xingOffset i) (xingFrames data (parsed.xingOffset i))
    (xingBytes data (parsed.xingOffset i))
  have hfront := Reading.onMemory_of_onBuffer data (inputBuffer_received before data)
    (onBuffer_readXingFront data i hfrequency hsamples)
  rw [readXingInfo,Reading.onMemory_bind,hfront,arrivedXing]
  by_cases hthere : hasXing data (parsed.xingOffset i) = true
  · rw [if_pos hthere,if_pos hthere]
    dsimp only
    rw [Reading.onMemory_bind,onMemory_xingTocField before _ (by omega) (by omega)]
    rfl
  · rw [if_neg hthere,if_neg hthere]
    rfl

/-- A round in the memory of the machine: the first header, and what of its Xing header is in the
input buffer -/
theorem onMemory_scanReceived (state : Metadata) (hlength : data.length ≤ 65536) :
    Reading.onMemory (Metadata.inputBuffer before data) (state.scanReceived data.length)
      = (firstHeader data).map fun (i,parsed) =>
          (state.applyMpegHeader parsed i).withXingInfo parsed
            (arrivedXing before data (parsed.xingOffset i)) := by
  have hfind := Reading.onMemory_of_onBuffer data (inputBuffer_received before data)
    (onBuffer_findHeader data (data.length-3) 0 (by omega))
  rw [← firstHeader] at hfind
  rw [Metadata.scanReceived,Reading.onMemory_bind,hfind]
  cases hfirst : firstHeader data with
  | none => rfl
  | some found =>
    obtain ⟨i,parsed⟩ := found
    obtain ⟨-,hfrequency,hsamples⟩ := frameHeader_pos (firstHeader_eq_some.mp hfirst).1
    have hi := firstHeader_length hfirst
    dsimp only
    rw [Reading.onMemory_map,Metadata.applyXingInfo,Reading.onMemory_map,
      onMemory_readXingInfo before hfrequency hsamples hlength (by omega)]
    rfl

theorem onMemory_scanReceived_isSome (state : Metadata) (hlength : data.length ≤ 65536) :
    (Reading.onMemory (Metadata.inputBuffer before data) (state.scanReceived data.length)).isSome
      = (firstHeader data).isSome := by
  rw [onMemory_scanReceived before state hlength,Option.isSome_map]

variable (inputChunkBytes) in
/-- What is known when the loop has ended: the first header was among the bytes that had arrived. -/
theorem probeLoop_inMemory (state : Metadata) (received : List UInt8) (replies : List SourceReply) :
    let r := Id.run (state.probeLoop (Metadata.parseInMemory before) inputChunkBytes received replies)
    r.2 = ((bytesAtHeader inputChunkBytes received replies).bind fun data =>
        Reading.onMemory (Metadata.inputBuffer before data) (state.scanReceived data.length)) ∧
      (r.1 && r.2.isSome) = (bytesAtHeader inputChunkBytes received replies).isSome := by
  induction replies generalizing received with
  | nil => exact ⟨rfl,rfl⟩
  | cons reply replies ih =>
    rw [Metadata.probeLoop,bytesAtHeader]
    split_ifs with hroom
    · cases hreply : readReply (probeRequest inputChunkBytes received.length) reply with
      | none => exact ⟨rfl,rfl⟩
      | some bytes =>
        cases bytes with
        | nil => exact ⟨rfl,rfl⟩
        | cons b bs =>
          have hlength := received_length hroom hreply
          have hsome := onMemory_scanReceived_isSome before state hlength
          dsimp only [Metadata.parseInMemory]
          cases hfound : Reading.onMemory (Metadata.inputBuffer before (received++b::bs))
              (state.scanReceived (received++b::bs).length) with
          | none =>
            have hno : ¬(firstHeader (received++b::bs)).isSome = true := by
              rw [← hsome,hfound]
              decide
            rw [if_neg hno]
            exact ih (received++b::bs)
          | some found =>
            have hyes : (firstHeader (received++b::bs)).isSome = true := by
              rw [← hsome,hfound]
              rfl
            rw [if_pos hyes]
            exact ⟨hfound.symm,rfl⟩
    · exact ⟨rfl,rfl⟩

theorem onBuffer_scanReceived_none (state : Metadata) (hlength : data.length ≤ 65536) :
    Reading.onBuffer data (state.scanReceived data.length) = none ↔
      announcesToc data ∧ data.length < 100 := by
  have hscan := onBuffer_scanReceived state hlength
  constructor
  · intro h
    rw [h] at hscan
    by_contra hno
    rw [if_neg hno] at hscan
    cases hscan
  · intro h
    rw [if_pos h] at hscan
    exact Option.map_eq_none_iff.mp hscan

theorem firstHeader_of_announcesToc (h : announcesToc data = true) : (firstHeader data).isSome := by
  rw [announcesToc] at h
  cases hfirst : firstHeader data with
  | none =>
    rw [hfirst] at h
    cases h
  | some found => rfl

/-- The loop reads only what has arrived just in case no round announces a TOC in less. -/
theorem probeLoop_received (state : Metadata) (received : List UInt8) (replies : List SourceReply) :
    (state.probeLoop Reading.onBuffer inputChunkBytes received replies).isSome ↔
      ∀ data, bytesAtHeader inputChunkBytes received replies = some data →
        announcesToc data → 100 ≤ data.length := by
  induction replies generalizing received with
  | nil => simp [Metadata.probeLoop,bytesAtHeader]
  | cons reply replies ih =>
    rw [Metadata.probeLoop,bytesAtHeader]
    split_ifs with hroom
    · cases hreply : readReply (probeRequest inputChunkBytes received.length) reply with
      | none => simp
      | some bytes =>
        cases bytes with
        | nil => simp
        | cons b bs =>
          have hlength := received_length hroom hreply
          have hnone := onBuffer_scanReceived_none state hlength
          have hscan := onBuffer_scanReceived state hlength
          dsimp only
          generalize received++b::bs = data at hlength hnone hscan ⊢
          cases hround : Reading.onBuffer data (state.scanReceived data.length) with
          | none =>
            obtain ⟨htoc,hshort⟩ := hnone.mp hround
            rw [if_pos (firstHeader_of_announcesToc htoc)]
            constructor
            · intro h
              cases h
            · intro h
              have := h data rfl htoc
              omega
          | some found =>
            have hread : ¬(announcesToc data ∧ data.length < 100) := fun h => by
              rw [hnone.mpr h] at hround
              cases hround
            rw [hround,if_neg hread] at hscan
            cases found with
            | none =>
              have hno : ¬(firstHeader data).isSome = true := by
                rw [← Option.some.inj hscan]
                decide
              rw [if_neg hno]
              exact ih data
            | some found =>
              have hyes : (firstHeader data).isSome = true := (Option.some.inj hscan).symm
              rw [if_pos hyes]
              constructor
              · rintro - data' hdata' htoc
                obtain rfl := Option.some.inj hdata'
                exact Nat.le_of_not_lt fun hshort => hread ⟨htoc,hshort⟩
              · exact fun _ => rfl
    · simp

theorem agrees_probeLoop (state : Metadata) (received : List UInt8) (replies : List SourceReply) :
    Agrees (state.probeLoop Reading.onBuffer inputChunkBytes received replies)
      (state.probeLoop (Metadata.parseInMemory before) inputChunkBytes received replies) := by
  induction replies generalizing received with
  | nil => exact agrees_pure _
  | cons reply replies ih =>
    rw [Metadata.probeLoop,Metadata.probeLoop]
    apply agrees_ite
    · cases readReply (probeRequest inputChunkBytes received.length) reply with
      | none => exact agrees_pure _
      | some bytes =>
        cases bytes with
        | nil => exact agrees_pure _
        | cons b bs =>
          have hround : Agrees
              (Reading.onBuffer (received++b::bs) (state.scanReceived (received++b::bs).length))
              (Metadata.parseInMemory before (received++b::bs)
                (state.scanReceived (received++b::bs).length)) := fun found hfound =>
            Reading.onMemory_of_onBuffer _ (inputBuffer_received before _) hfound
          apply hround.bind
          intro found
          cases found with
          | none => exact ih (received++b::bs)
          | some found => exact agrees_pure _
    · exact agrees_pure _

theorem agrees_probeMetadata (state : Metadata) (rewinds : Bool) (replies : List SourceReply) :
    Agrees (state.probeReceived inputChunkBytes rewinds replies)
      (state.probeInMemory inputChunkBytes rewinds before replies) := by
  apply (agrees_probeLoop before state [] replies).bind
  intro r
  apply agrees_ite
  · exact agrees_pure _
  · exact agrees_pure _

/-- The probe reads only bytes that have arrived just in case the first frame header does not
announce a TOC among less than 100 bytes, and what it then finds does not depend on what the memory
held before. -/
theorem probeMetadata_readsReceived (state : Metadata) (inputChunkBytes : Int) (rewinds : Bool)
    (replies : List SourceReply) :
    ((state.probeReceived inputChunkBytes rewinds replies).isSome ↔
      ∀ data, bytesAtHeader inputChunkBytes [] replies = some data → announcesToc data →
        100 ≤ data.length) ∧
      ∀ found, state.probeReceived inputChunkBytes rewinds replies = some found →
        ∀ before, state.probeInMemory inputChunkBytes rewinds before replies = found := by
  constructor
  · rw [← probeLoop_received state [] replies,Metadata.probeReceived,Metadata.probeMetadata]
    cases state.probeLoop Reading.onBuffer inputChunkBytes [] replies with
    | none => rfl
    | some r => cases rewinds <;> rfl
  · intro found hfound before
    exact agrees_probeMetadata before state rewinds replies found hfound

/-- A frame header with a Xing header that announces a TOC, in a file of 60 bytes -/
def shortXing : List UInt8 :=
  [0xff,0xfb,0x90,0x00]++List.replicate 32 0++xingTag++[0,0,0,4]++List.replicate 16 0

/-- The TOC of such a file is what the memory held before. -/
theorem probeMetadata_readsBeside :
    (Metadata.opened 60).probeReceived 65536 true [some shortXing] = none ∧
      ((Metadata.opened 60).probeInMemory 65536 true (fun _ => 0) [some shortXing]).2.xingToc
        ≠ ((Metadata.opened 60).probeInMemory 65536 true (fun _ => 1) [some shortXing]).2.xingToc := by
  decide +kernel

end

end ZZ9K.Mpega
