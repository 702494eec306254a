import ZZ9K.Framework.Ask
import ZZ9K.Framework.Scan

namespace ZZ9K.Media

open ZZ9K.Framework

/-- `ZZPLAY_PROBE_BYTES` -/
def probeBytes : Nat := 256*1024

/-- `ZZPLAY_PROBE_CHUNK` -/
def probeChunk : Nat := 4096

/-- `ZZPLAY_PROBE_CARRY` -/
def probeCarry : Nat := 7

/-- `ZZPlayVideoInfo` -/
structure VideoInfo where
  width : UInt32
  height : UInt32
  frameRateMilli : UInt32
  isProgramStream : Bool
  hasVideoPes : Bool
  hasAudioPes : Bool
  deriving DecidableEq, Repr

/-- An info all of whose bytes are zero -/
def VideoInfo.zero : VideoInfo := ⟨0,0,0,false,false,false⟩

/-- `zzplay_mpeg_frame_rate_milli` -/
def mpegFrameRateMilli (code : UInt8) : UInt32 :=
  match (code &&& 0x0f).toNat with
  | 1 => 23976
  | 2 => 24000
  | 3 => 25000
  | 4 => 29970
  | 5 => 30000
  | 6 => 50000
  | 7 => 59940
  | 8 => 60000
  | _ => 0

/-- The width, the height and the rate that a sequence header gives -/
abbrev Header := UInt32 × UInt32 × UInt32

/-- A round of the loop of `zzplay_probe_mpeg_sequence`: the valid header at a place, if any -/
def sequenceHeader : List UInt8 → Option Header
  | d0::d1::d2::d3::d4::d5::d6::d7::_ =>
    if d0 ≠ 0x00 ∨ d1 ≠ 0x00 ∨ d2 ≠ 0x01 ∨ d3 ≠ 0xb3 then none
    else
      let width := d4.toUInt32<<<4 ||| (d5>>>4).toUInt32
      let height := (d5 &&& 0x0f).toUInt32<<<8 ||| d6.toUInt32
      let rate := mpegFrameRateMilli d7
      if width = 0 ∨ height = 0 ∨ rate = 0 then none else some (width,height,rate)
  | _ => none

/-- `zzplay_probe_mpeg_sequence`: whether a header is found, and the info after it -/
def probeMpegSequence (data : List UInt8) (info : VideoInfo) : Bool × VideoInfo :=
  match firstMatch sequenceHeader data with
  | none => (false,info)
  | some (width,height,rate) => (true,{info with width,height,frameRateMilli := rate})

/-- A round of the loop of `zzplay_probe_mpeg_program` -/
def noteStartCode (info : VideoInfo) : List UInt8 → VideoInfo
  | d0::d1::d2::streamId::_ =>
    if d0 ≠ 0x00 ∨ d1 ≠ 0x00 ∨ d2 ≠ 0x01 then info
    else if streamId = 0xba then {info with isProgramStream := true}
    else if 0xe0 ≤ streamId ∧ streamId ≤ 0xef then {info with hasVideoPes := true}
    else if 0xc0 ≤ streamId ∧ streamId ≤ 0xdf then {info with hasAudioPes := true}
    else info
  | _ => info

/-- `zzplay_probe_mpeg_program`: the loop at the places of the data -/
def probeMpegProgram : List UInt8 → VideoInfo → VideoInfo
  | [],info => info
  | d::rest,info => probeMpegProgram rest (noteStartCode info (d::rest))

/-- What the probe asks of the system: `fseek` to the start, `malloc` and `fread` -/
inductive ProbeCall
  | rewind
  | malloc
  | read (want : Nat)

/-- The answers: whether it is done, or the bytes read -/
def ProbeAnswer : ProbeCall → Type
  | .rewind => Bool
  | .malloc => Bool
  | .read want => {data : List UInt8 // data.length ≤ want}

/-- A program that reads a file to probe it -/
abbrev Probing := Ask ProbeCall ProbeAnswer

/-- How many bytes the next `fread` asks for -/
def probeWant (total : Nat) : Nat :=
  if probeBytes-total < probeChunk then probeBytes-total else probeChunk

/-- The loop of `zzplay_probe_file`: `carried` is at the front of the buffer. -/
def probeLoop (total : Nat) (carried : List UInt8) (found : Bool) (info : VideoInfo) :
    Probing (Bool × VideoInfo) :=
  if _h : total < probeBytes then
    .ask (.read (probeWant total)) fun (got : {data : List UInt8 // data.length ≤ probeWant total}) =>
      let window := carried++got.val
      let info := probeMpegProgram window info
      let (found,info) := if found then (found,info) else probeMpegSequence window info
      if _hgot : got.val.length = 0 then .ret (found,info)
      else
        let carry := if window.length < probeCarry then window.length else probeCarry
        probeLoop (total+got.val.length) (window.drop (window.length-carry)) found info
  else .ret (found,info)
termination_by probeBytes-total
decreasing_by omega

/-- `zzplay_probe_file`: what it returns, and the info after it -/
def probeFile (info : VideoInfo) : Probing (Bool × VideoInfo) :=
  .ask .rewind fun (rewound : Bool) =>
    if ¬rewound then .ret (false,info)
    else .ask .malloc fun (allocated : Bool) =>
      if ¬allocated then .ret (false,.zero)
      else do
        let (found,info) ← probeLoop 0 [] false .zero
        .ask .rewind fun (rewound : Bool) =>
          if ¬rewound then .ret (false,info) else .ret (found,info)

/-- The start code of a stream with `p` at a place -/
def startCode (p : UInt8 → Bool) : List UInt8 → Option Unit
  | d0::d1::d2::streamId::_ =>
    if d0 = 0x00 ∧ d1 = 0x00 ∧ d2 = 0x01 ∧ p streamId then some () else none
  | _ => none

/-- A start code of a stream with `p` is in the data. -/
def seen (p : UInt8 → Bool) (data : List UInt8) : Bool := (firstMatch (startCode p) data).isSome

def isPack (streamId : UInt8) : Bool := streamId = 0xba

def isVideo (streamId : UInt8) : Bool := 0xe0 ≤ streamId ∧ streamId ≤ 0xef

def isAudio (streamId : UInt8) : Bool := 0xc0 ≤ streamId ∧ streamId ≤ 0xdf

/-- The info with what is seen in the data noted -/
def VideoInfo.noted (info : VideoInfo) (pack video audio : Bool) : VideoInfo :=
  {info with
    isProgramStream := info.isProgramStream || pack
    hasVideoPes := info.hasVideoPes || video
    hasAudioPes := info.hasAudioPes || audio}

theorem local_sequenceHeader : Local 8 sequenceHeader where
  short l hl := by
    rcases l with _ | ⟨_,_ | ⟨_,_ | ⟨_,_ | ⟨_,_ | ⟨_,_ | ⟨_,_ | ⟨_,_ | ⟨_,l⟩⟩⟩⟩⟩⟩⟩⟩
    all_goals first
      | rfl
      | simp only [List.length_cons] at hl
        omega
  long l m hl := by
    rcases l with _ | ⟨_,_ | ⟨_,_ | ⟨_,_ | ⟨_,_ | ⟨_,_ | ⟨_,_ | ⟨_,_ | ⟨_,l⟩⟩⟩⟩⟩⟩⟩⟩
    all_goals first
      | rfl
      | simp only [List.length_cons,List.length_nil] at hl
        omega

theorem local_startCode (p : UInt8 → Bool) : Local 4 (startCode p) where
  short l hl := by
    rcases l with _ | ⟨_,_ | ⟨_,_ | ⟨_,_ | ⟨_,l⟩⟩⟩⟩
    all_goals first
      | rfl
      | simp only [List.length_cons] at hl
        omega
  long l m hl := by
    rcases l with _ | ⟨_,_ | ⟨_,_ | ⟨_,_ | ⟨_,l⟩⟩⟩⟩
    all_goals first
      | rfl
      | simp only [List.length_cons,List.length_nil] at hl
        omega

/-- A stream is of one kind only. -/
theorem not_video_of_audio {streamId : UInt8} (h : streamId ≤ 0xdf) : ¬0xe0 ≤ streamId := by
  rw [UInt8.le_iff_toNat_le] at h ⊢
  have hhigh : (0xdf : UInt8).toNat = 0xdf := rfl
  have hlow : (0xe0 : UInt8).toNat = 0xe0 := rfl
  omega

theorem noteStartCode_eq (info : VideoInfo) (data : List UInt8) :
    noteStartCode info data = info.noted (startCode isPack data).isSome
      (startCode isVideo data).isSome (startCode isAudio data).isSome := by
  rcases data with _ | ⟨d0,_ | ⟨d1,_ | ⟨d2,_ | ⟨streamId,rest⟩⟩⟩⟩
  · simp [noteStartCode,startCode,VideoInfo.noted]
  · simp [noteStartCode,startCode,VideoInfo.noted]
  · simp [noteStartCode,startCode,VideoInfo.noted]
  · simp [noteStartCode,startCode,VideoInfo.noted]
  rw [noteStartCode]
  by_cases hcode : d0 = 0x00 ∧ d1 = 0x00 ∧ d2 = 0x01
  · obtain ⟨rfl,rfl,rfl⟩ := hcode
    rw [if_neg (by decide)]
    by_cases hpack : streamId = 0xba
    · subst hpack
      simp [startCode,VideoInfo.noted,isPack,isVideo,isAudio]
    rw [if_neg hpack]
    by_cases hvideo : 0xe0 ≤ streamId ∧ streamId ≤ 0xef
    · have haudio : ¬(0xc0 ≤ streamId ∧ streamId ≤ 0xdf) :=
        fun h => not_video_of_audio h.2 hvideo.1
      simp [startCode,VideoInfo.noted,isPack,isVideo,isAudio,hpack,hvideo,haudio]
    rw [if_neg hvideo]
    by_cases haudio : 0xc0 ≤ streamId ∧ streamId ≤ 0xdf
    · simp [startCode,VideoInfo.noted,isPack,isVideo,isAudio,hpack,hvideo,haudio]
    · simp [startCode,VideoInfo.noted,isPack,isVideo,isAudio,hpack,hvideo,haudio]
  · have hguard : d0 ≠ 0x00 ∨ d1 ≠ 0x00 ∨ d2 ≠ 0x01 := by
      rwa [not_and_or,not_and_or] at hcode
    have hnone : ∀ p : UInt8 → Bool,
        ¬(d0 = 0x00 ∧ d1 = 0x00 ∧ d2 = 0x01 ∧ p streamId = true) :=
      fun p h => hcode ⟨h.1,h.2.1,h.2.2.1⟩
    rw [if_pos hguard]
    simp only [startCode,hnone,if_false,Option.isSome_none,VideoInfo.noted,Bool.or_false]

/-- The flags tell which streams have a start code somewhere in the data. -/
theorem probeMpegProgram_eq (data : List UInt8) (info : VideoInfo) :
    probeMpegProgram data info = info.noted (seen isPack data) (seen isVideo data)
      (seen isAudio data) := by
  induction data generalizing info with
  | nil => simp [probeMpegProgram,VideoInfo.noted,seen,firstMatch,startCode]
  | cons d rest ih =>
    rw [probeMpegProgram,ih,noteStartCode_eq]
    simp [VideoInfo.noted,seen,firstMatch,Bool.or_assoc]

/-- Both scans of some data, from an info of zeros -/
def scanOnce (data : List UInt8) : Bool × VideoInfo :=
  probeMpegSequence data (probeMpegProgram data .zero)

theorem seen_append {c : Nat} (hc : 3 ≤ c) (p : UInt8 → Bool) (data more : List UInt8) :
    seen p (data++more) = (seen p data || seen p (data.drop (data.length-c)++more)) := by
  rw [seen,firstMatch_append (local_startCode p) (by decide) (by omega : 4 ≤ c+1),
    Option.isSome_or]
  rfl

/-- The end of the data that the next round of the loop looks at again -/
def carryOf (data : List UInt8) : List UInt8 := data.drop (data.length-probeCarry)

/-- Nothing is found twice or missed: a round that scans the carried end and the new bytes makes
one scan of all. -/
theorem scanOnce_append (data more : List UInt8) :
    scanOnce (data++more) =
      let info := probeMpegProgram (carryOf data++more) (scanOnce data).2
      if (scanOnce data).1 then (true,info) else probeMpegSequence (carryOf data++more) info := by
  have hheader := firstMatch_append local_sequenceHeader (by decide) (by decide : 8 ≤ probeCarry+1)
    data more
  have hseen : ∀ p, seen p (data++more) = (seen p data || seen p (carryOf data++more)) :=
    fun p => seen_append (by decide) p data more
  rw [← carryOf] at hheader
  rw [scanOnce,scanOnce,probeMpegSequence,probeMpegSequence,hheader]
  simp only [probeMpegProgram_eq,hseen]
  cases firstMatch sequenceHeader data with
  | some header => simp [VideoInfo.noted,Bool.or_assoc]
  | none =>
    rw [probeMpegSequence]
    cases firstMatch sequenceHeader (carryOf data++more) with
    | some header => simp [VideoInfo.noted,Bool.or_assoc]
    | none => simp [VideoInfo.noted,Bool.or_assoc]

theorem carryOf_append (data more : List UInt8) :
    (carryOf data++more).drop ((carryOf data++more).length-
      if (carryOf data++more).length < probeCarry then (carryOf data++more).length
      else probeCarry) = carryOf (data++more) := by
  have hcarry : probeCarry = 7 := rfl
  have hwindow : carryOf data++more = (data++more).drop (data.length-probeCarry) := by
    rw [carryOf,List.drop_append_of_le_length (Nat.sub_le _ _)]
  rw [hwindow,List.drop_drop,carryOf]
  congr 1
  rw [List.length_drop,List.length_append]
  split_ifs <;> omega

/-- All the bytes that were read -/
def bytesRead (log : List (Answered ProbeCall ProbeAnswer)) : List UInt8 :=
  log.flatMap fun
    | ⟨.read _,got⟩ => got.val
    | _ => []

theorem probeWant_le (total : Nat) : probeWant total ≤ probeBytes-total := by
  rw [probeWant]
  split_ifs <;> omega

/-- The loop after some data, by what one scan of the data finds -/
def probeFrom (data : List UInt8) : Probing (Bool × VideoInfo) :=
  probeLoop data.length (carryOf data) (scanOnce data).1 (scanOnce data).2

theorem probeFrom_eq (data : List UInt8) :
    probeFrom data = if data.length < probeBytes then
      .ask (.read (probeWant data.length))
        fun (got : {data' : List UInt8 // data'.length ≤ probeWant data.length}) =>
          if got.val = [] then .ret (scanOnce data) else probeFrom (data++got.val)
    else .ret (scanOnce data) := by
  rw [probeFrom,probeLoop]
  by_cases hmore : data.length < probeBytes
  · rw [dif_pos hmore,if_pos hmore]
    congr 1
    funext got
    have hround : (if (scanOnce data).1 = true then
        ((scanOnce data).1,probeMpegProgram (carryOf data++got.val) (scanOnce data).2)
        else probeMpegSequence (carryOf data++got.val)
          (probeMpegProgram (carryOf data++got.val) (scanOnce data).2)) =
        scanOnce (data++got.val) := by
      rw [scanOnce_append]
      split_ifs with hfound
      · rw [hfound]
      · rfl
    dsimp only
    rw [hround,carryOf_append,← List.length_append]
    by_cases hgot : got.val = []
    · rw [hgot,List.append_nil,dif_pos List.length_nil,if_pos rfl]
    · rw [dif_neg (fun h => hgot (List.length_eq_zero_iff.mp h)),if_neg hgot,probeFrom]
  · rw [dif_neg hmore,if_neg hmore]

theorem probeFrom_runs {data : List UInt8} (hdata : data.length ≤ probeBytes)
    {log : List (Answered ProbeCall ProbeAnswer)} {result : Bool × VideoInfo}
    (h : Ask.Runs (probeFrom data) log result) :
    result = scanOnce (data++bytesRead log) ∧ (data++bytesRead log).length ≤ probeBytes := by
  induction hn : probeBytes-data.length using Nat.strong_induction_on generalizing data log with
  | _ n ih =>
    rw [probeFrom_eq] at h
    by_cases hmore : data.length < probeBytes
    · rw [if_pos hmore] at h
      obtain ⟨got,rest,rfl,hrest⟩ := Ask.runs_ask.mp h
      have hwant : got.val.length ≤ probeWant data.length := got.property
      have hle := probeWant_le data.length
      have hread : bytesRead (⟨.read (probeWant data.length),got⟩::rest) = got.val++bytesRead rest :=
        List.flatMap_cons
      rw [hread,← List.append_assoc]
      by_cases hgot : got.val = []
      · rw [if_pos hgot] at hrest
        obtain ⟨rfl,rfl⟩ := Ask.runs_ret.mp hrest
        rw [hgot,bytesRead,List.flatMap_nil,List.append_nil,List.append_nil]
        exact ⟨rfl,hdata⟩
      · rw [if_neg hgot] at hrest
        have hpos := List.length_pos_iff.mpr hgot
        have hlength : (data++got.val).length = data.length+got.val.length := List.length_append
        exact ih _ (by omega) (by omega) hrest rfl
    · rw [if_neg hmore] at h
      obtain ⟨rfl,rfl⟩ := Ask.runs_ret.mp h
      rw [bytesRead,List.flatMap_nil,List.append_nil]
      exact ⟨rfl,hdata⟩

/-- A sequence header that the second read cuts after its start code, behind a pack header -/
def straddling : List (Answered ProbeCall ProbeAnswer) :=
  [⟨.read 4096,⟨[0,0,1,0xba,7,0,0,1],by decide⟩⟩,⟨.read 4096,⟨[0xb3,0x16,0x01],by decide⟩⟩,
    ⟨.read 4096,⟨[0x20,0x13,0],by decide⟩⟩,⟨.read 4096,⟨[],by decide⟩⟩]

end ZZ9K.Media
