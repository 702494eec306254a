import ZZ9K.Mpega.MetadataProbe

namespace ZZ9K.Mpega

open ZZ9K.Framework

/-- The source delivers some content from what has been received on: each read brings a piece of at
least one byte and at most the request, until the content or the input buffer ends. -/
inductive Delivers (inputChunkBytes : Int) (content : List UInt8) :
    List UInt8 → List SourceReply → Prop
  | done {received : List UInt8} (h : received = content.take streamChunkBytes) :
      Delivers inputChunkBytes content received []
  | read {received bytes : List UInt8} {replies : List SourceReply} (hbytes : bytes ≠ [])
      (hfits : bytes.length ≤ probeRequest inputChunkBytes received.length)
      (hcontent : received++bytes <+: content)
      (hrest : Delivers inputChunkBytes content (received++bytes) replies) :
      Delivers inputChunkBytes content received (some bytes::replies)

section

variable {inputChunkBytes : Int} {content received : List UInt8} {replies : List SourceReply}

/-- However a source delivers its content, the first header is found when it has arrived. -/
theorem Delivers.bytesAtHeader (h : Delivers inputChunkBytes content received replies)
    (hnone : firstHeader received = none) :
    (bytesAtHeader inputChunkBytes received replies = none ∧
        firstHeader (content.take streamChunkBytes) = none) ∨
      ∃ data found, bytesAtHeader inputChunkBytes received replies = some data ∧
        data <+: content.take streamChunkBytes ∧ firstHeader data = some found ∧
        firstHeader (content.take streamChunkBytes) = some found := by
  induction h with
  | done h => exact .inl ⟨rfl,h ▸ hnone⟩
  | @read received bytes replies hbytes hfits hcontent hrest ih =>
    have hrequest := probeRequest_le inputChunkBytes received.length
    have hpos := List.length_pos_iff.mpr hbytes
    have hroom : received.length < streamChunkBytes := by omega
    have hreply : readReply (probeRequest inputChunkBytes received.length) (some bytes)
        = some bytes := if_neg (Nat.not_lt.mpr hfits)
    have hprefix : received++bytes <+: content.take streamChunkBytes :=
      List.prefix_take_iff.mpr ⟨hcontent,received_length hroom hreply⟩
    obtain ⟨b,bs,rfl⟩ := List.exists_cons_of_ne_nil hbytes
    rw [Mpega.bytesAtHeader,if_pos hroom,hreply]
    cases hfirst : firstHeader (received++b::bs) with
    | none =>
      simp only [hfirst,Option.isSome_none,Bool.false_eq_true,if_false]
      exact ih hfirst
    | some found =>
      simp only [hfirst,Option.isSome_some,if_true]
      obtain ⟨more,hmore⟩ := hprefix
      exact .inr ⟨_,found,rfl,⟨more,hmore⟩,hfirst,hmore ▸ firstHeader_append more hfirst⟩

end

section

variable (streamSize streamStartByte : Int) (msDuration : Nat) (parsed : ParsedHeader)

/-- A Xing header adds nothing to what is known of a stream without Xing data: it has no TOC, no
number of bytes, and no frames but, where no stream byte is behind the start, as many as last as
long. -/
def XingInfo.AddsNothing (info : XingInfo) : Prop :=
  info.toc = none ∧ (info.streamBytes.getD 0).toNat = 0 ∧
    ((info.frames.getD 0).toNat = 0 ∨
      streamSize ≤ streamStartByte ∧
        (info.frames.getD 0).toNat*parsed.samplesPerFrame*1000/parsed.frequency%2^32 = msDuration)

/-- What has arrived of a Xing header in two ways makes the same of a stream without Xing data. -/
def SameXing : Option XingInfo → Option XingInfo → Prop
  | none,none => True
  | some info,none => info.AddsNothing streamSize streamStartByte msDuration parsed
  | none,some info => info.AddsNothing streamSize streamStartByte msDuration parsed
  | some info,some info' => info.toc = info'.toc

end

namespace Metadata

variable (state : Metadata) (parsed : ParsedHeader) (info : XingInfo)

theorem setXingDuration_eq (frames : Nat) :
    state.setXingDuration parsed frames =
      { state with
        msDuration :=
          if frames ≠ 0 then frames*parsed.samplesPerFrame*1000/parsed.frequency%2^32
          else state.msDuration } := by
  rw [setXingDuration]
  split_ifs <;> rfl

theorem setAverageBitrate_eq (streamBytes : Nat) :
    state.setAverageBitrate streamBytes =
      { state with bitrate := (state.setAverageBitrate streamBytes).bitrate } := by
  rw [setAverageBitrate]
  dsimp only
  split_ifs <;> rfl

theorem estimateXingBytes_eq (frames streamBytes : Nat) :
    (state.estimateXingBytes frames streamBytes).2 =
      { state with
        xingStreamBytes := (state.estimateXingBytes frames streamBytes).2.xingStreamBytes } := by
  rw [estimateXingBytes]
  dsimp only
  split_ifs <;> rfl

theorem estimateXingBytes_xingStreamBytes (frames streamBytes : Nat) :
    (state.estimateXingBytes frames streamBytes).2.xingStreamBytes =
      if (frames ≠ 0 ∧ streamBytes = 0 ∧ state.streamStartByte < state.streamSize) ∧
          (state.streamSize-state.streamStartByte).toNat ≤ 0xffffffff then
        (state.streamSize-state.streamStartByte).toNat
      else state.xingStreamBytes := by
  rw [estimateXingBytes]
  by_cases hknown : frames ≠ 0 ∧ streamBytes = 0 ∧ state.streamStartByte < state.streamSize
  · rw [if_pos hknown]
    dsimp only
    by_cases hsmall : (state.streamSize-state.streamStartByte).toNat ≤ 0xffffffff
    · rw [if_pos hsmall,if_pos ⟨hknown,hsmall⟩]
    · rw [if_neg hsmall,if_neg fun h => hsmall h.2]
  · rw [if_neg hknown,if_neg fun h => hknown h.1]

theorem withXing_xingToc : (state.withXing parsed info).xingToc = info.toc.getD state.xingToc := by
  rw [withXing]
  dsimp only
  rw [setAverageBitrate_eq,estimateXingBytes_eq,setXingDuration_eq]
  rfl

theorem withXing_xingHasToc :
    (state.withXing parsed info).xingHasToc = (info.toc.isSome || state.xingHasToc) := by
  rw [withXing]
  dsimp only
  rw [setAverageBitrate_eq,estimateXingBytes_eq,setXingDuration_eq]
  rfl

theorem withXing_msDuration :
    (state.withXing parsed info).msDuration =
      if (info.frames.getD 0).toNat ≠ 0 then
        (info.frames.getD 0).toNat*parsed.samplesPerFrame*1000/parsed.frequency%2^32
      else state.msDuration := by
  rw [withXing]
  dsimp only
  rw [setAverageBitrate_eq,estimateXingBytes_eq,setXingDuration_eq]
  rfl

theorem withXing_xingStreamBytes :
    (state.withXing parsed info).xingStreamBytes =
      if ((info.frames.getD 0).toNat ≠ 0 ∧ (info.streamBytes.getD 0).toNat = 0 ∧
          state.streamStartByte < state.streamSize) ∧
          (state.streamSize-state.streamStartByte).toNat ≤ 0xffffffff then
        (state.streamSize-state.streamStartByte).toNat
      else (info.streamBytes.map UInt32.toNat).getD state.xingStreamBytes := by
  rw [withXing]
  dsimp only
  rw [setAverageBitrate_eq]
  dsimp only
  rw [estimateXingBytes_xingStreamBytes,setXingDuration_eq]
  rfl

theorem withXing_eq_self (hbytes : state.xingStreamBytes = 0) (htoc : state.xingHasToc = false)
    (hsize : state.streamSize-state.streamStartByte ≤ 0xffffffff) :
    state.withXing parsed info = state ↔
      info.AddsNothing state.streamSize state.streamStartByte state.msDuration parsed := by
  constructor
  · intro h
    have hhas := state.withXing_xingHasToc parsed info
    have hduration := state.withXing_msDuration parsed info
    have hstream := state.withXing_xingStreamBytes parsed info
    rw [h] at hhas hduration hstream
    have hnoToc : info.toc = none := by
      rw [htoc,Bool.or_false] at hhas
      exact Option.not_isSome_iff_eq_none.mp (by rw [← hhas]; decide)
    have hnoBytes : (info.streamBytes.getD 0).toNat = 0 := by
      rw [hbytes] at hstream
      cases hstreamBytes : info.streamBytes with
      | none => rfl
      | some streamBytes =>
        rw [hstreamBytes] at hstream
        split_ifs at hstream with hknown
        · exact hknown.1.2.1
        · exact hstream.symm
    refine ⟨hnoToc,hnoBytes,?_⟩
    by_cases hframes : (info.frames.getD 0).toNat = 0
    · exact .inl hframes
    · rw [if_pos hframes] at hduration
      refine .inr ⟨?_,hduration.symm⟩
      by_contra hbelow
      rw [hbytes,if_pos ⟨⟨hframes,hnoBytes,by omega⟩,by omega⟩] at hstream
      omega
  · rintro ⟨hnoToc,hnoBytes,hframes⟩
    have hfields : state.setXingFields info = state := by
      have hstream : (info.streamBytes.map UInt32.toNat).getD state.xingStreamBytes
          = state.xingStreamBytes := by
        cases hstreamBytes : info.streamBytes with
        | none => rfl
        | some streamBytes =>
          rw [hstreamBytes] at hnoBytes
          exact hnoBytes.trans hbytes.symm
      rw [setXingFields,hstream,hnoToc]
      rfl
    have hduration : state.setXingDuration parsed (info.frames.getD 0).toNat = state := by
      rw [setXingDuration]
      split_ifs with hsome
      · rcases hframes with hzero | ⟨-,hsame⟩
        · exact absurd hzero hsome
        · rw [hsame]
      · rfl
    have hestimate : state.estimateXingBytes (info.frames.getD 0).toNat 0 = (0,state) := by
      rw [estimateXingBytes,if_neg]
      rintro ⟨hsome,-,hbelow⟩
      rcases hframes with hzero | ⟨hsize,-⟩
      · exact hsome hzero
      · omega
    rw [withXing]
    dsimp only
    rw [hfields,hduration,hnoBytes,hestimate]
    exact if_neg fun h => h.1 rfl

theorem withXingInfo_eq_iff {here there : Option XingInfo} (hbytes : state.xingStreamBytes = 0)
    (htoc : state.xingHasToc = false)
    (hsize : state.streamSize-state.streamStartByte ≤ 0xffffffff)
    (hsame : ∀ info info', here = some info → there = some info' →
      info.frames = info'.frames ∧ info.streamBytes = info'.streamBytes) :
    state.withXingInfo parsed here = state.withXingInfo parsed there ↔
      SameXing state.streamSize state.streamStartByte state.msDuration parsed here there := by
  cases here with
  | none =>
    cases there with
    | none => simp [SameXing]
    | some info => exact eq_comm.trans (state.withXing_eq_self parsed info hbytes htoc hsize)
  | some info =>
    cases there with
    | none => exact state.withXing_eq_self parsed info hbytes htoc hsize
    | some info' =>
      obtain ⟨hframes,hstream⟩ := hsame info info' rfl rfl
      constructor
      · intro h
        have htocs := congrArg xingToc h
        have hhas := congrArg xingHasToc h
        simp only [withXingInfo,withXing_xingToc,withXing_xingHasToc,htoc,Bool.or_false]
          at htocs hhas
        change info.toc = info'.toc
        cases hto : info.toc with
        | none =>
          rw [hto] at hhas
          exact (Option.not_isSome_iff_eq_none.mp (by rw [← hhas]; decide)).symm
        | some toc =>
          rw [hto] at htocs hhas
          obtain ⟨toc',hto'⟩ := Option.isSome_iff_exists.mp hhas.symm
          rw [hto'] at htocs ⊢
          exact congrArg some htocs
      · intro h
        have hinfo : info = info' := by
          obtain ⟨frames,streamBytes,toc⟩ := info
          obtain ⟨frames',streamBytes',toc'⟩ := info'
          obtain rfl := hframes
          obtain rfl := hstream
          obtain rfl : toc = toc' := h
          rfl
        rw [hinfo]

theorem updateEstimatedDuration_eq :
    state.updateEstimatedDuration =
      { state with msDuration := state.updateEstimatedDuration.msDuration } := by
  rw [updateEstimatedDuration]
  split_ifs <;> rfl

/-- A stream that has just been opened has no Xing data. -/
theorem applyMpegHeader_opened (streamSize : Int32) (i : Nat) :
    ((opened streamSize).applyMpegHeader parsed i).xingStreamBytes = 0 ∧
      ((opened streamSize).applyMpegHeader parsed i).xingHasToc = false ∧
      ((opened streamSize).applyMpegHeader parsed i).streamSize = openedSize streamSize ∧
      ((opened streamSize).applyMpegHeader parsed i).streamStartByte = i := by
  rw [applyMpegHeader,updateEstimatedDuration_eq,opened,updateEstimatedDuration_eq]
  exact ⟨rfl,rfl,rfl,rfl⟩

end Metadata

section

variable {data : List UInt8} (more : List UInt8)

theorem be32At_append {i : Nat} (h : i+4 ≤ data.length) :
    be32At (data++more) i = be32At data i := by
  have hsame : ∀ j, j < data.length → (data++more).getD j 0 = data.getD j 0 :=
    fun j hj => List.getD_append data more 0 j hj
  rw [be32At,be32At,hsame i (by omega),hsame (i+1) (by omega),hsame (i+2) (by omega),
    hsame (i+3) (by omega)]

theorem xingFrames_append {xingOffset : Nat} (h : xingOffset+16 ≤ data.length) :
    xingFrames (data++more) xingOffset = xingFrames data xingOffset := by
  rw [xingFrames,xingFrames,xingFlags,xingFlags,be32At_append more (by omega),
    be32At_append more (by omega)]

theorem xingBytes_append {xingOffset : Nat} (h : xingOffset+16 ≤ data.length) :
    xingBytes (data++more) xingOffset = xingBytes data xingOffset := by
  have hbehind := fieldBehind_bounds (xingOffset+8) (xingFrames data xingOffset)
  rw [xingBytes,xingBytes,xingFlags,xingFlags,xingFrames_append more h,
    be32At_append more (by omega),be32At_append more (by omega)]

end

/-- What two deliveries bring of a Xing header, they bring alike. -/
theorem arrivedXing_fields {content data data' : List UInt8} (hdata : data <+: content)
    (hdata' : data' <+: content) (before before' : Nat → UInt8) (xingOffset : Nat)
    {info info' : XingInfo} (h : arrivedXing before data xingOffset = some info)
    (h' : arrivedXing before' data' xingOffset = some info') :
    info.frames = info'.frames ∧ info.streamBytes = info'.streamBytes := by
  have hfields : ∀ {data before info}, data <+: content →
      arrivedXing before data xingOffset = some info →
        info.frames = xingFrames content xingOffset ∧
          info.streamBytes = xingBytes content xingOffset := by
    rintro data before info ⟨more,rfl⟩ h
    rw [arrivedXing] at h
    by_cases hthere : hasXing data xingOffset = true
    · have hlong := (of_decide_eq_true hthere).1
      rw [if_pos hthere] at h
      obtain rfl := Option.some.inj h
      exact ⟨(xingFrames_append more hlong).symm,(xingBytes_append more hlong).symm⟩
    · rw [if_neg hthere] at h
      cases h
  obtain ⟨hframes,hbytes⟩ := hfields hdata h
  obtain ⟨hframes',hbytes'⟩ := hfields hdata' h'
  exact ⟨hframes.trans hframes'.symm,hbytes.trans hbytes'.symm⟩

/-- The duration that the bit rate of the first frame gives a stream that it is the start of -/
def headerDuration (streamSize : Int) (parsed : ParsedHeader) : Nat :=
  if streamSize ≤ 0 then 0 else (streamSize*8/parsed.bitrate).toNat%2^32

theorem applyMpegHeader_opened_msDuration {streamSize : Int32} {parsed : ParsedHeader} {i : Nat}
    (hbitrate : parsed.bitrate ≠ 0) (hsize : Metadata.openedSize streamSize ≤ i) :
    ((Metadata.opened streamSize).applyMpegHeader parsed i).msDuration
      = headerDuration (Metadata.openedSize streamSize) parsed := by
  have hbelow : ¬((0 : Int) < i ∧ (i : Int) < Metadata.openedSize streamSize) := by omega
  have hpos : ¬(parsed.bitrate : Int) ≤ 0 := by omega
  have hsizes : (Metadata.opened streamSize).streamSize = Metadata.openedSize streamSize := by
    rw [Metadata.opened,Metadata.updateEstimatedDuration_eq]
  have hzero : Metadata.openedSize streamSize ≤ 0 → (Metadata.opened streamSize).msDuration = 0 := by
    intro hknown
    rw [Metadata.opened,Metadata.updateEstimatedDuration,if_pos (.inl hknown)]
    rfl
  rw [Metadata.applyMpegHeader,Metadata.updateEstimatedDuration,headerDuration,hsizes]
  dsimp only
  by_cases hknown : Metadata.openedSize streamSize ≤ 0
  · rw [if_pos (.inl hknown),if_pos hknown]
    exact hzero hknown
  · rw [if_neg (not_or.mpr ⟨hknown,hpos⟩),if_neg hknown,if_neg hbelow]

theorem SameXing.congr {streamSize streamStartByte : Int} {msDuration msDuration' : Nat}
    {parsed : ParsedHeader} {here there : Option XingInfo}
    (h : streamSize ≤ streamStartByte → msDuration = msDuration') :
    SameXing streamSize streamStartByte msDuration parsed here there ↔
      SameXing streamSize streamStartByte msDuration' parsed here there := by
  have hinfo : ∀ info : XingInfo,info.AddsNothing streamSize streamStartByte msDuration parsed ↔
      info.AddsNothing streamSize streamStartByte msDuration' parsed := by
    intro info
    by_cases hsize : streamSize ≤ streamStartByte
    · rw [h hsize]
    · simp [XingInfo.AddsNothing,hsize]
  cases here with
  | none =>
    cases there with
    | none => rfl
    | some info => exact hinfo info
  | some info =>
    cases there with
    | none => exact hinfo info
    | some info' => rfl

/-- After the same frame header, what has arrived of the Xing header decides. -/
theorem sameXing_opened (streamSize : Int32) {parsed : ParsedHeader} {i : Nat} {data : List UInt8}
    (hheader : frameHeader data = some parsed) {here there : Option XingInfo}
    (hsame : ∀ info info', here = some info → there = some info' →
      info.frames = info'.frames ∧ info.streamBytes = info'.streamBytes) :
    ((Metadata.opened streamSize).applyMpegHeader parsed i).withXingInfo parsed here
        = ((Metadata.opened streamSize).applyMpegHeader parsed i).withXingInfo parsed there ↔
      SameXing (Metadata.openedSize streamSize) i
        (headerDuration (Metadata.openedSize streamSize) parsed) parsed here there := by
  obtain ⟨hbytes,htoc,hsize,hstart⟩ := Metadata.applyMpegHeader_opened parsed streamSize i
  have hlt := streamSize.toInt_lt
  have hopened : Metadata.openedSize streamSize < 2^31 := by
    rw [Metadata.openedSize]
    split_ifs <;> omega
  rw [Metadata.withXingInfo_eq_iff _ _ hbytes htoc (by omega) hsame,hsize,hstart]
  apply SameXing.congr
  intro hbehind
  exact applyMpegHeader_opened_msDuration (frameHeader_pos hheader).1 hbehind

/-- The probe's result: the verdict, and the state with what had arrived with the first header -/
theorem probeInMemory_eq (state : Metadata) (inputChunkBytes : Int) (rewinds : Bool)
    (before : Nat → UInt8) (replies : List SourceReply) :
    state.probeInMemory inputChunkBytes rewinds before replies =
      (rewinds && (bytesAtHeader inputChunkBytes [] replies).isSome,
        ((bytesAtHeader inputChunkBytes [] replies).bind fun data =>
          Reading.onMemory (Metadata.inputBuffer before data)
            (state.scanReceived data.length)).getD state) := by
  obtain ⟨hfound,hok⟩ := probeLoop_inMemory inputChunkBytes before state [] replies
  rw [← hfound,← hok]
  cases rewinds with
  | false => rfl
  | true => rfl

/-- Two deliveries of the same content leave the same just in case they bring the same of the Xing
header with the bytes that complete the first frame header. -/
theorem probeMetadata_split {content : List UInt8} {inputChunkBytes inputChunkBytes' : Int}
    {replies replies' : List SourceReply} (h : Delivers inputChunkBytes content [] replies)
    (h' : Delivers inputChunkBytes' content [] replies') (streamSize : Int32) (rewinds : Bool)
    (before before' : Nat → UInt8) :
    (Metadata.opened streamSize).probeInMemory inputChunkBytes rewinds before replies
        = (Metadata.opened streamSize).probeInMemory inputChunkBytes' rewinds before' replies' ↔
      ∀ i parsed data data', firstHeader (content.take streamChunkBytes) = some (i,parsed) →
        bytesAtHeader inputChunkBytes [] replies = some data →
        bytesAtHeader inputChunkBytes' [] replies' = some data' →
        SameXing (Metadata.openedSize streamSize) i
          (headerDuration (Metadata.openedSize streamSize) parsed) parsed
          (arrivedXing before data (parsed.xingOffset i))
          (arrivedXing before' data' (parsed.xingOffset i)) := by
  rw [probeInMemory_eq,probeInMemory_eq]
  rcases h.bytesAtHeader rfl with ⟨hbytes,hnone⟩ | ⟨data,⟨i,parsed⟩,hbytes,hdata,hfirst,hcontent⟩
  · rcases h'.bytesAtHeader rfl with ⟨hbytes',-⟩ | ⟨data',found',-,-,-,hcontent'⟩
    · rw [hbytes,hbytes',hnone]
      simp
    · rw [hnone] at hcontent'
      cases hcontent'
  · rcases h'.bytesAtHeader rfl with ⟨-,hnone'⟩ | ⟨data',found',hbytes',hdata',hfirst',hcontent'⟩
    · rw [hnone'] at hcontent
      cases hcontent
    · obtain rfl : (i,parsed) = found' := Option.some.inj (hcontent.symm.trans hcontent')
      have hlength : data.length ≤ 65536 :=
        hdata.length_le.trans ((List.length_take ..).trans_le (Nat.min_le_left ..))
      have hlength' : data'.length ≤ 65536 :=
        hdata'.length_le.trans ((List.length_take ..).trans_le (Nat.min_le_left ..))
      have hstates := sameXing_opened (i := i) streamSize (firstHeader_eq_some.mp hfirst).1
        fun info info' =>
        arrivedXing_fields hdata hdata' before before' (parsed.xingOffset i)
      rw [hbytes,hbytes',Option.bind_some,Option.bind_some,onMemory_scanReceived before _ hlength,
        onMemory_scanReceived before' _ hlength',hfirst,hfirst',hcontent]
      simp only [Option.isSome_some,Option.map_some,Option.getD_some,Prod.mk.injEq,true_and,hstates]
      constructor
      · rintro hsame _ _ _ _ hfound hdata hdata'
        obtain ⟨rfl,rfl⟩ := Prod.mk.inj (Option.some.inj hfound)
        obtain rfl := Option.some.inj hdata
        obtain rfl := Option.some.inj hdata'
        exact hsame
      · intro hsame
        exact hsame i parsed data data' rfl rfl rfl

/-- A frame header with a Xing header of 1000 frames -/
def thousandFrames : List UInt8 :=
  [0xff,0xfb,0x90,0x00]++List.replicate 32 0++xingTag++[0,0,0,1,0,0,0x03,0xe8]++List.replicate 8 0

/-- The stream in one read, and in two of which the first brings so many bytes -/
def inPieces (n : Nat) : List SourceReply := [some (thousandFrames.take n),some (thousandFrames.drop n)]

theorem delivers_whole : Delivers (normalizeStreamBufferSize 0) thousandFrames [] [some thousandFrames] :=
  .read (by decide) (by decide) ⟨[],by decide⟩ (.done (by decide))

theorem delivers_inPieces {n : Nat} (hpos : 0 < n) (hn : n < 56) :
    Delivers (normalizeStreamBufferSize 0) thousandFrames [] (inPieces n) := by
  have hall : thousandFrames.length = 56 := by decide
  have hrequest : ∀ total ≤ 56,56 ≤ probeRequest (normalizeStreamBufferSize 0) total := by decide
  refine .read ?_ ?_ (List.take_prefix n thousandFrames) (.read ?_ ?_ ?_ (.done ?_))
  · intro h
    have := congrArg List.length h
    rw [List.length_take,hall,List.length_nil] at this
    omega
  · have := hrequest 0 (by omega)
    rw [List.length_take,hall,List.length_nil]
    omega
  · intro h
    have := congrArg List.length h
    rw [List.length_drop,hall,List.length_nil] at this
    omega
  · have := hrequest n (by omega)
    rw [List.length_drop,hall,List.nil_append,List.length_take,hall,Nat.min_eq_left hn.le]
    omega
  · rw [List.nil_append,List.take_append_drop]
  · rw [List.nil_append,List.take_append_drop]
    decide

/-- Where the first piece ends with the words of the Xing header, the probe leaves the same as where
all comes at once. -/
theorem probeMetadata_split_behindWords :
    (Metadata.opened 0).probeInMemory (normalizeStreamBufferSize 0) true (fun _ => 0)
        [some thousandFrames]
      = (Metadata.opened 0).probeInMemory (normalizeStreamBufferSize 0) true (fun _ => 1)
        (inPieces 52) := by
  refine (probeMetadata_split delivers_whole (delivers_inPieces (by decide) (by decide)) 0 true
    (fun _ => 0) fun _ => 1).mpr ?_
  intro i parsed data data' hfirst hdata hdata'
  obtain rfl : data = thousandFrames := by
    refine (Option.some.inj (hdata.symm.trans ?_))
    decide +kernel
  obtain rfl : data' = thousandFrames.take 52 := by
    refine (Option.some.inj (hdata'.symm.trans ?_))
    decide +kernel
  obtain ⟨rfl,rfl⟩ : i = 0 ∧ parsed = headerFields 0xfb 0x90 0 := by
    have hheader : firstHeader (thousandFrames.take streamChunkBytes)
        = some (0,headerFields 0xfb 0x90 0) := by decide +kernel
    exact Prod.mk.inj (Option.some.inj (hfirst.symm.trans hheader))
  rfl

/-- Where it ends with the frame header, the number of frames is never seen. -/
theorem probeMetadata_split_behindHeader :
    Delivers (normalizeStreamBufferSize 0) thousandFrames [] [some thousandFrames] ∧
      Delivers (normalizeStreamBufferSize 0) thousandFrames [] (inPieces 4) ∧
      ((Metadata.opened 0).probeInMemory (normalizeStreamBufferSize 0) true (fun _ => 0)
        [some thousandFrames]).2.msDuration = 26122 ∧
      ((Metadata.opened 0).probeInMemory (normalizeStreamBufferSize 0) true (fun _ => 0)
        (inPieces 4)).2.msDuration = 0 := by
  refine ⟨delivers_whole,delivers_inPieces (by decide) (by decide),?_,?_⟩
  · decide +kernel
  · decide +kernel

end ZZ9K.Mpega
