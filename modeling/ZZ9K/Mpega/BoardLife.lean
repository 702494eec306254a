import Mathlib.Logic.Relation
import ZZ9K.Mpega.BoardRuns

namespace ZZ9K.Mpega

open ZZ9K.Framework

/-- The library with the streams that are open, and what it has of the board -/
structure MpegaLibrary where
  base : MpegaBase
  streams : Multiset BoardStream
  onBoard : Board

namespace MpegaLibrary

/-- The library as it is loaded -/
def start : MpegaLibrary where
  base := { zz9kBase := false,zz9kOpenCount := 0 }
  streams := 0
  onBoard := { libraryOpens := 0,live := 0,sessions := 0,sound := True }

/-- One call of a client. A stream that is being opened counts as one of the streams. -/
inductive Call (l : MpegaLibrary) : MpegaLibrary → Prop
  | opened (layer frequency channels : Nat) (layer3 layer12 : MpegaLayer) (inputChunkBytes : Int)
      {base : MpegaBase} {s : BoardStream} {b : Board} (few : l.streams.card+1 < 65536)
      (h : board.Reaches ((BoardStream.defaults layer frequency channels layer3 layer12
        inputChunkBytes).callOpen l.base) l.onBoard (base,some s) b) :
      Call l ⟨base,s ::ₘ l.streams,b⟩
  | refused (layer frequency channels : Nat) (layer3 layer12 : MpegaLayer) (inputChunkBytes : Int)
      {base : MpegaBase} {b : Board} (few : l.streams.card+1 < 65536)
      (h : board.Reaches ((BoardStream.defaults layer frequency channels layer3 layer12
        inputChunkBytes).callOpen l.base) l.onBoard (base,none) b) :
      Call l ⟨base,l.streams,b⟩
  | decoded {s s' : BoardStream} {others : Multiset BoardStream} {result : Int}
      {samples : List (List Int16)} {b : Board} (hs : l.streams = s ::ₘ others)
      (h : board.Reaches s.callDecodeFrame l.onBoard (result,samples,s') b) :
      Call l ⟨l.base,s' ::ₘ others,b⟩
  | sought {s s' : BoardStream} {others : Multiset BoardStream} (bytePos : Int) {result : Int}
      {base : MpegaBase} {b : Board} (hs : l.streams = s ::ₘ others)
      (h : board.Reaches (s.callSeek l.base bytePos) l.onBoard (result,base,s') b) :
      Call l ⟨base,s' ::ₘ others,b⟩
  | closed {s : BoardStream} {others : Multiset BoardStream} {base : MpegaBase} {b : Board}
      (hs : l.streams = s ::ₘ others) (h : board.Reaches (s.callClose l.base) l.onBoard base b) :
      Call l ⟨base,others,b⟩

/-- The library after any calls, one after the other -/
def Reached (l : MpegaLibrary) : Prop := Relation.ReflTransGen Call start l

/-- What holds between the calls -/
structure Sound (l : MpegaLibrary) : Prop where
  owns : Owns l.streams l.base l.onBoard
  settled : ∀ s ∈ l.streams,s.Settled

theorem sound_start : start.Sound where
  owns :=
    { sound := trivial
      live := rfl
      nodup := Multiset.nodup_zero
      sessions := rfl
      numbers := Multiset.nodup_zero
      count := rfl
      opened := by decide
      library := rfl
      few := by decide
      valid := fun s hs => absurd hs (Multiset.notMem_zero s) }
  settled s hs := absurd hs (Multiset.notMem_zero s)

variable {l l' : MpegaLibrary} {others : Multiset BoardStream}

/-- One stream changes, and the others stay. -/
theorem Sound.changed (hothers : ∀ t ∈ others,BoardStream.Settled t) {s : BoardStream}
    {base : MpegaBase} {b : Board} (h : Owns (s ::ₘ others) base b ∧ s.Settled) :
    Sound ⟨base,s ::ₘ others,b⟩ where
  owns := h.1
  settled t ht := by
    cases Multiset.mem_cons.mp ht with
    | inl heq => exact heq ▸ h.2
    | inr hmem => exact hothers t hmem

/-- A call keeps the ownership, whatever fails in it. -/
theorem Sound.call (h : l.Sound) (hcall : Call l l') : l'.Sound := by
  cases hcall with
  | opened layer frequency channels layer3 layer12 inputChunkBytes few hreaches =>
    exact .changed h.settled (World.wp_reaches (callOpen_owns h.owns few layer frequency channels
      layer3 layer12 inputChunkBytes) hreaches)
  | refused layer frequency channels layer3 layer12 inputChunkBytes few hreaches =>
    exact ⟨World.wp_reaches (callOpen_owns h.owns few layer frequency channels layer3 layer12
      inputChunkBytes) hreaches,h.settled⟩
  | @decoded s s' others result samples b hs hreaches =>
    have howns := h.owns
    have hsettled := h.settled
    rw [hs] at howns hsettled
    have hmine := hsettled s (Multiset.mem_cons_self s others)
    exact .changed (fun t ht => hsettled t (Multiset.mem_cons_of_mem ht))
      (World.wp_reaches (callDecodeFrame_owns howns hmine) hreaches)
  | @sought s s' others bytePos result base b hs hreaches =>
    have howns := h.owns
    have hsettled := h.settled
    rw [hs] at howns hsettled
    have hmine := hsettled s (Multiset.mem_cons_self s others)
    exact .changed (fun t ht => hsettled t (Multiset.mem_cons_of_mem ht))
      (World.wp_reaches (callSeek_owns howns hmine bytePos) hreaches)
  | @closed s others base b hs hreaches =>
    have howns := h.owns
    have hsettled := h.settled
    rw [hs] at howns hsettled
    exact ⟨World.wp_reaches (callClose_owns howns) hreaches,
      fun t ht => hsettled t (Multiset.mem_cons_of_mem ht)⟩

theorem Reached.sound (h : l.Reached) : l.Sound := by
  induction h with
  | refl => exact sound_start
  | tail _ hcall ih => exact ih.call hcall

/-- The streams own the board's resources exactly. No call used a buffer or a session that was not
there any more, or freed one under a session; what is open is what the streams have to free and to
close, each once; and the library is open just while a stream has acquired it. -/
theorem streams_own (l : MpegaLibrary) (h : l.Reached) :
    l.onBoard.sound ∧
    l.onBoard.live = l.streams.bind BoardStream.handles ∧ l.onBoard.live.Nodup ∧
    l.onBoard.sessions = l.streams.bind BoardStream.sessions ∧
    (l.onBoard.sessions.map OpenSession.number).Nodup ∧
    (∀ o ∈ l.onBoard.sessions,o.mp3 ∈ l.onBoard.live ∧ o.pcm ∈ l.onBoard.live) ∧
    l.base.zz9kOpenCount = l.streams.countP (·.zz9kAcquired = true) ∧
    (l.base.zz9kBase = true ↔ 0 < l.base.zz9kOpenCount) ∧
    l.onBoard.libraryOpens = l.base.zz9kBase.toNat ∧
    (l.streams = 0 → l.onBoard.live = 0 ∧ l.onBoard.sessions = 0 ∧ l.onBoard.libraryOpens = 0) := by
  have howns := h.sound.owns
  refine ⟨howns.sound,howns.live,howns.nodup,howns.sessions,howns.numbers,?_,howns.count,
    howns.opened,howns.library,?_⟩
  · intro o ho
    rw [howns.sessions] at ho
    obtain ⟨s,hs,hos⟩ := Multiset.mem_bind.mp ho
    have hrings := rings_held (howns.valid s hs) hos
    rw [howns.live]
    exact ⟨Multiset.mem_bind.mpr ⟨s,hs,hrings.1⟩,Multiset.mem_bind.mpr ⟨s,hs,hrings.2⟩⟩
  · intro hnone
    have hcount := howns.count
    rw [hnone,Multiset.countP_zero] at hcount
    have hclosed : ¬ l.base.zz9kBase = true := by
      rw [howns.opened]
      omega
    refine ⟨?_,?_,?_⟩
    · rw [howns.live,hnone,Multiset.zero_bind]
    · rw [howns.sessions,hnone,Multiset.zero_bind]
    · rw [howns.library,Bool.not_eq_true _ |>.mp hclosed]
      rfl

/-- A layer that is put out as it is -/
def plainLayer : MpegaLayer where
  forceMono := 0
  mono := { freqDiv := 1,freqMax := 48000 }
  stereo := { freqDiv := 1,freqMax := 48000 }

/-- A stream is opened and nothing fails. -/
def openLog : List (Answered BoardCall BoardAnswer) :=
  [⟨.allocMem,true⟩,⟨.allocMem,true⟩,⟨.openSource,true⟩,⟨.probeMetadata,true⟩,⟨.openLibrary,true⟩,
    ⟨.queryService,true⟩,⟨.allocShared mp3RingCapacity,some ⟨10,mp3RingCapacity⟩⟩,
    ⟨.allocShared pcmRingCapacity,some ⟨11,pcmRingCapacity⟩⟩,
    ⟨.allocShared stagingBytes,some ⟨12,stagingBytes⟩⟩,
    ⟨.streamBegin 10 11,.ok { StreamResult.zero with session := 1 }⟩]

theorem openLog_runs : ∃ s,Ask.Runs ((BoardStream.defaults 3 44100 2 plainLayer plainLayer
    65536).callOpen start.base) openLog (⟨true,1⟩,some s) := by
  constructor
  refine Ask.runs_ask.mpr ⟨true,_,rfl,?_⟩
  refine Ask.runs_ask.mpr ⟨true,_,rfl,?_⟩
  refine Ask.runs_ask.mpr ⟨true,_,rfl,?_⟩
  refine Ask.runs_ask.mpr ⟨true,_,rfl,?_⟩
  refine Ask.runs_ask.mpr ⟨true,_,rfl,?_⟩
  refine Ask.runs_ask.mpr ⟨true,_,rfl,?_⟩
  refine Ask.runs_ask.mpr ⟨_,_,rfl,?_⟩
  refine Ask.runs_ask.mpr ⟨_,_,rfl,?_⟩
  refine Ask.runs_ask.mpr ⟨_,_,rfl,?_⟩
  refine Ask.runs_ask.mpr ⟨_,_,rfl,?_⟩
  exact .ret _

theorem openLog_allowed : board.Allows start.onBoard openLog := by
  refine ⟨trivial,trivial,trivial,trivial,trivial,trivial,?_,?_,?_,?_,trivial⟩
  · exact Multiset.notMem_zero _
  · show 11 ∉ ({10} : Multiset Nat)
    decide
  · show 12 ∉ ({11,10} : Multiset Nat)
    decide
  · exact fun o ho => absurd ho (Multiset.notMem_zero o)

/-- A stream is opened, and owns three buffers and a session. -/
theorem streams_own_opened : ∃ l : MpegaLibrary,l.Reached ∧ l.streams.card = 1 ∧
    l.onBoard.live = l.streams.bind BoardStream.handles ∧ l.onBoard.live = {12,11,10} := by
  obtain ⟨s,hs⟩ := openLog_runs
  have hcall : Call start ⟨⟨true,1⟩,{s},board.after start.onBoard openLog⟩ :=
    .opened 3 44100 2 plainLayer plainLayer 65536 (by decide) ⟨openLog,hs,openLog_allowed,rfl⟩
  have hreached : Reached ⟨⟨true,1⟩,{s},board.after start.onBoard openLog⟩ := .single hcall
  exact ⟨_,hreached,rfl,(streams_own _ hreached).2.1,rfl⟩

end MpegaLibrary

end ZZ9K.Mpega
