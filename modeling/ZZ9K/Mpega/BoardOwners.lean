import Mathlib.Data.Multiset.Bind
import ZZ9K.Mpega.Board
import ZZ9K.Mpega.DecodeRuns

namespace ZZ9K.Mpega

open ZZ9K.Framework

/-- A session that the firmware has open, and the rings it works on -/
structure OpenSession where
  number : Nat
  mp3 : Nat
  pcm : Nat

/-- What the library has of `zz9k.library` and of the board: how often it has opened the one, the
shared buffers and the sessions, and whether no call so far has used what was not there -/
structure Board where
  libraryOpens : Nat
  live : Multiset Nat
  sessions : Multiset OpenSession
  sound : Prop

/-- A feed or a read is served in the session it names, or refused before anything is touched. One
that fails later clears the result, and with it goes the only copy of the session's number. -/
def StreamAnswer.Serves (number : Nat) : StreamAnswer → Prop
  | ok result => result.session = number
  | failed => False
  | notEntered => True

namespace Board

variable (b : Board)

/-- The firmware decodes this session into this ring. -/
def Decoding (number pcm : Nat) : Prop := ∃ o ∈ b.sessions,o.number = number ∧ o.pcm = pcm

/-- What has to be there for a call: the library, the buffers that the call or the firmware uses on
it, and the session. A buffer may be freed only when no session works on it. -/
def Proper : BoardCall → Prop
  | .queryService | .closeLibrary | .allocShared _ => 0 < b.libraryOpens
  | .freeShared handle =>
    0 < b.libraryOpens ∧ handle ∈ b.live ∧ ∀ o ∈ b.sessions,handle ≠ o.mp3 ∧ handle ≠ o.pcm
  | .streamBegin mp3 pcm => 0 < b.libraryOpens ∧ mp3 ∈ b.live ∧ pcm ∈ b.live
  | .streamClose number => 0 < b.libraryOpens ∧ ∃ o ∈ b.sessions,o.number = number
  | .stream _ staging (.readSource _) => staging ∈ b.live
  | .stream pcm _ (.feed number staging _ _) =>
    0 < b.libraryOpens ∧ staging ∈ b.live ∧ b.Decoding number pcm
  | .stream pcm _ (.read number _) => 0 < b.libraryOpens ∧ b.Decoding number pcm
  | .stream pcm _ .ring => pcm ∈ b.live
  | _ => True

/-- What an answered call changes -/
def after : Answered BoardCall BoardAnswer → Board
  | ⟨.openLibrary,true⟩ => { b with libraryOpens := b.libraryOpens+1 }
  | ⟨.closeLibrary,_⟩ => { b with libraryOpens := b.libraryOpens-1 }
  | ⟨.allocShared _,some buffer⟩ => { b with live := buffer.handle ::ₘ b.live }
  | ⟨.freeShared handle,_⟩ => { b with live := b.live.erase handle }
  | ⟨.streamBegin mp3 pcm,.ok result⟩ =>
    { b with sessions := ⟨result.session,mp3,pcm⟩ ::ₘ b.sessions }
  | ⟨.streamClose number,_⟩ => { b with sessions := b.sessions.filter (·.number ≠ number) }
  | _ => b

end Board

/-- Any of the calls may fail. A new buffer is none of those in use, a new session neither. -/
abbrev board : World BoardCall BoardAnswer where
  State := Board
  allowed b
    | ⟨.allocShared _,some buffer⟩ => buffer.handle ∉ b.live
    | ⟨.streamBegin _ _,.ok result⟩ => ∀ o ∈ b.sessions,o.number ≠ result.session
    | ⟨.stream _ _ (.feed number _ _ _),answer⟩ => StreamAnswer.Serves number answer
    | ⟨.stream _ _ (.read number _),answer⟩ => StreamAnswer.Serves number answer
    | _ => True
  next b e := { b.after e with sound := b.sound ∧ b.Proper e.1 }

theorem next_proper {b : Board} {call : BoardCall} {x : BoardAnswer call} (hs : b.sound)
    (hp : b.Proper call) : board.next b ⟨call,x⟩ = { b.after ⟨call,x⟩ with sound := True } := by
  have hsound : (b.sound ∧ b.Proper call) = True := eq_true ⟨hs,hp⟩
  show { b.after ⟨call,x⟩ with sound := b.sound ∧ b.Proper call } = _
  rw [hsound]

/-- A proper call that changes nothing -/
theorem next_idle {b : Board} {call : BoardCall} {x : BoardAnswer call} (hs : b.sound)
    (hp : b.Proper call) (hafter : b.after ⟨call,x⟩ = b) : board.next b ⟨call,x⟩ = b := by
  rw [next_proper hs hp,hafter,← eq_true hs]

/-- A buffer that is there if it is allocated -/
def held (allocated : Bool) (handle : Nat) : Multiset Nat := if allocated then {handle} else 0

@[simp] theorem held_true (handle : Nat) : held true handle = {handle} := rfl

@[simp] theorem held_false (handle : Nat) : held false handle = 0 := rfl

namespace BoardStream

variable (s : BoardStream)

/-- The buffers that the stream has to free -/
def handles : Multiset Nat :=
  held s.mp3Allocated s.mp3Ring.handle+held s.pcmAllocated s.pcmHandle+
    held s.stagingAllocated s.stream.setup.stagingHandle

/-- The session that the stream has to close -/
def sessions : Multiset OpenSession :=
  if s.stream.sessionOpen then {⟨s.stream.result.session,s.mp3Ring.handle,s.pcmHandle⟩} else 0

/-- What the flags of a stream say of one another -/
structure Valid : Prop where
  acquired : s.mp3Allocated = true ∨ s.pcmAllocated = true ∨ s.stagingAllocated = true →
    s.zz9kAcquired = true
  opened : s.stream.sessionOpen = true →
    s.mp3Allocated = true ∧ s.pcmAllocated = true ∧ s.stagingAllocated = true
  unringed : s.pcmAllocated = false → s.stream.setup.pcmRingLength = 0

/-- A stream without a session has nothing to decode from. -/
def Settled : Prop :=
  s.stream.sessionOpen = true ∨ s.stream.setup.pcmRingLength = 0 ∨ s.stream.pcmAvailable = 0

end BoardStream

/-- The streams own what the library has open: every buffer and every session is that of one
stream, and the count is that of the streams that acquired `zz9k.library`. -/
structure Owns (streams : Multiset BoardStream) (base : MpegaBase) (b : Board) : Prop where
  sound : b.sound
  live : b.live = streams.bind BoardStream.handles
  nodup : b.live.Nodup
  sessions : b.sessions = streams.bind BoardStream.sessions
  numbers : (b.sessions.map OpenSession.number).Nodup
  count : base.zz9kOpenCount = streams.countP (·.zz9kAcquired = true)
  opened : base.zz9kBase = true ↔ 0 < base.zz9kOpenCount
  library : b.libraryOpens = base.zz9kBase.toNat
  few : streams.card < 65536
  valid : ∀ s ∈ streams,s.Valid

section

variable {others : Multiset BoardStream} {base : MpegaBase} {s : BoardStream} {b : Board}

theorem Owns.live_cons (h : Owns (s ::ₘ others) base b) :
    b.live = s.handles+others.bind BoardStream.handles := by
  rw [h.live,Multiset.cons_bind]

theorem Owns.sessions_cons (h : Owns (s ::ₘ others) base b) :
    b.sessions = s.sessions+others.bind BoardStream.sessions := by
  rw [h.sessions,Multiset.cons_bind]

theorem Owns.valid_head (h : Owns (s ::ₘ others) base b) : s.Valid :=
  h.valid s (Multiset.mem_cons_self s others)

/-- The library is open as long as a stream has acquired it. -/
theorem Owns.in_use (h : Owns (s ::ₘ others) base b) (hacquired : s.zz9kAcquired = true) :
    0 < b.libraryOpens := by
  have hcount : 0 < base.zz9kOpenCount := by
    rw [h.count,Multiset.countP_cons,if_pos hacquired]
    exact Nat.succ_pos _
  rw [h.library,h.opened.mpr hcount]
  exact Nat.one_pos

/-- The rings of a session are among the buffers of its stream. -/
theorem rings_held (hvalid : s.Valid) {o : OpenSession} (ho : o ∈ s.sessions) :
    o.mp3 ∈ s.handles ∧ o.pcm ∈ s.handles := by
  unfold BoardStream.sessions at ho
  by_cases hopen : s.stream.sessionOpen = true
  · obtain ⟨hmp3,hpcm,-⟩ := hvalid.opened hopen
    rw [if_pos hopen,Multiset.mem_singleton] at ho
    simp [BoardStream.handles,hmp3,hpcm,ho]
  · rw [if_neg hopen] at ho
    exact absurd ho (Multiset.notMem_zero o)

theorem Owns.others_rings (h : Owns (s ::ₘ others) base b) {o : OpenSession}
    (ho : o ∈ others.bind BoardStream.sessions) :
    o.mp3 ∈ others.bind BoardStream.handles ∧ o.pcm ∈ others.bind BoardStream.handles := by
  obtain ⟨t,ht,hot⟩ := Multiset.mem_bind.mp ho
  have hrings := rings_held (h.valid t (Multiset.mem_cons_of_mem ht)) hot
  exact ⟨Multiset.mem_bind.mpr ⟨t,ht,hrings.1⟩,Multiset.mem_bind.mpr ⟨t,ht,hrings.2⟩⟩

/-- What has to be seen to when a call changes one stream and the board, and the library stays
open as it is -/
theorem Owns.changed (h : Owns (s ::ₘ others) base b) {s' : BoardStream} {b' : Board}
    (hsound : b'.sound) (hlive : b'.live = s'.handles+others.bind BoardStream.handles)
    (hnodup : b'.live.Nodup) (hsessions : b'.sessions = s'.sessions+others.bind BoardStream.sessions)
    (hnumbers : (b'.sessions.map OpenSession.number).Nodup)
    (hlibrary : b'.libraryOpens = b.libraryOpens) (hacquired : s'.zz9kAcquired = s.zz9kAcquired)
    (hvalid : s'.Valid) : Owns (s' ::ₘ others) base b' where
  sound := hsound
  live := by rw [hlive,Multiset.cons_bind]
  nodup := hnodup
  sessions := by rw [hsessions,Multiset.cons_bind]
  numbers := hnumbers
  count := by
    have hcount := h.count
    rw [Multiset.countP_cons] at hcount ⊢
    rw [hcount,hacquired]
  opened := h.opened
  library := hlibrary.trans h.library
  few := by
    have hfew := h.few
    rwa [Multiset.card_cons] at hfew ⊢
  valid := by
    intro t ht
    cases Multiset.mem_cons.mp ht with
    | inl heq => exact heq ▸ hvalid
    | inr hmem => exact h.valid t (Multiset.mem_cons_of_mem hmem)

/-- A stream that holds what it held before still owns it. -/
theorem Owns.kept (h : Owns (s ::ₘ others) base b) {s' : BoardStream}
    (hhandles : s'.handles = s.handles) (hsessions : s'.sessions = s.sessions)
    (hacquired : s'.zz9kAcquired = s.zz9kAcquired) (hvalid : s'.Valid) :
    Owns (s' ::ₘ others) base b :=
  h.changed h.sound (hhandles ▸ h.live_cons) h.nodup (hsessions ▸ h.sessions_cons) h.numbers rfl
    hacquired hvalid

/-- A buffer that no session works on is freed. -/
theorem Owns.freed (h : Owns (s ::ₘ others) base b) (hacquired : s.zz9kAcquired = true)
    (hclosed : s.stream.sessionOpen = false) {s' : BoardStream} {handle : Nat}
    (hhandles : s.handles = handle ::ₘ s'.handles) (hclosed' : s'.stream.sessionOpen = false)
    (hacquired' : s'.zz9kAcquired = true) (hvalid : s'.Valid) :
    Owns (s' ::ₘ others) base (board.next b ⟨.freeShared handle,()⟩) := by
  have hlive := h.live_cons
  rw [hhandles,Multiset.cons_add] at hlive
  have hsessions := h.sessions_cons
  rw [BoardStream.sessions,if_neg (by simp [hclosed]),zero_add] at hsessions
  have hmem : handle ∈ b.live := hlive ▸ Multiset.mem_cons_self _ _
  have hfree : ∀ o ∈ b.sessions,handle ≠ o.mp3 ∧ handle ≠ o.pcm := by
    intro o ho
    have hnot := (Multiset.nodup_cons.mp (hlive ▸ h.nodup)).1
    have hrings := h.others_rings (hsessions ▸ ho)
    constructor
    · exact fun heq => hnot (Multiset.mem_add.mpr (.inr (heq ▸ hrings.1)))
    · exact fun heq => hnot (Multiset.mem_add.mpr (.inr (heq ▸ hrings.2)))
  have hproper : b.Proper (.freeShared handle) := ⟨h.in_use hacquired,hmem,hfree⟩
  rw [next_proper h.sound hproper]
  have herase : b.live.erase handle = s'.handles+others.bind BoardStream.handles := by
    rw [hlive,Multiset.erase_cons_head]
  refine h.changed trivial herase (h.nodup.erase handle) ?_ h.numbers rfl
    (hacquired'.trans hacquired.symm) hvalid
  rw [BoardStream.sessions,if_neg (by simp [hclosed']),zero_add]
  exact hsessions

/-- A new buffer is allocated. -/
theorem Owns.allocated (h : Owns (s ::ₘ others) base b) (hacquired : s.zz9kAcquired = true)
    {s' : BoardStream} {bytes : Nat} {buffer : SharedBuffer} (hnew : buffer.handle ∉ b.live)
    (hhandles : s'.handles = buffer.handle ::ₘ s.handles) (hsessions : s'.sessions = s.sessions)
    (hacquired' : s'.zz9kAcquired = true) (hvalid : s'.Valid) :
    Owns (s' ::ₘ others) base (board.next b ⟨.allocShared bytes,some buffer⟩) := by
  have hproper : b.Proper (.allocShared bytes) := h.in_use hacquired
  rw [next_proper h.sound hproper]
  refine h.changed trivial ?_ (Multiset.nodup_cons.mpr ⟨hnew,h.nodup⟩) (hsessions ▸ h.sessions_cons)
    h.numbers rfl (hacquired'.trans hacquired.symm) hvalid
  show buffer.handle ::ₘ b.live = _
  rw [hhandles,Multiset.cons_add,h.live_cons]

/-- An allocation that fails leaves everything as it is. -/
theorem Owns.unallocated (h : Owns (s ::ₘ others) base b) (hacquired : s.zz9kAcquired = true)
    {bytes : Nat} : Owns (s ::ₘ others) base (board.next b ⟨.allocShared bytes,none⟩) := by
  have hproper : b.Proper (.allocShared bytes) := h.in_use hacquired
  rwa [next_idle h.sound hproper rfl]

/-- A session is begun. -/
theorem Owns.begun (h : Owns (s ::ₘ others) base b) (hmp3 : s.mp3Allocated = true)
    (hpcm : s.pcmAllocated = true) (hclosed : s.stream.sessionOpen = false) {s' : BoardStream}
    {result : StreamResult}
    (hnew : ∀ o ∈ b.sessions,o.number ≠ result.session) (hhandles : s'.handles = s.handles)
    (hsessions : s'.sessions = {⟨result.session,s.mp3Ring.handle,s.pcmHandle⟩})
    (hacquired' : s'.zz9kAcquired = true) (hvalid : s'.Valid) :
    Owns (s' ::ₘ others) base
      (board.next b ⟨.streamBegin s.mp3Ring.handle s.pcmHandle,.ok result⟩) := by
  have hacquired := h.valid_head.acquired (.inl hmp3)
  have hlive := h.live_cons
  have hmp3live : s.mp3Ring.handle ∈ b.live := by
    simp [hlive,BoardStream.handles,hmp3]
  have hpcmlive : s.pcmHandle ∈ b.live := by
    simp [hlive,BoardStream.handles,hpcm]
  have hproper : b.Proper (.streamBegin s.mp3Ring.handle s.pcmHandle) :=
    ⟨h.in_use hacquired,hmp3live,hpcmlive⟩
  rw [next_proper h.sound hproper]
  have hsessions₀ := h.sessions_cons
  rw [BoardStream.sessions,if_neg (by simp [hclosed]),zero_add] at hsessions₀
  refine h.changed trivial (hhandles ▸ hlive) h.nodup ?_ ?_ rfl
    (hacquired'.trans hacquired.symm) hvalid
  · show _ ::ₘ b.sessions = _
    rw [hsessions,hsessions₀,Multiset.singleton_add]
  · show (Multiset.map OpenSession.number (_ ::ₘ b.sessions)).Nodup
    rw [Multiset.map_cons,Multiset.nodup_cons]
    refine ⟨?_,h.numbers⟩
    rw [Multiset.mem_map]
    rintro ⟨o,ho,heq⟩
    exact hnew o ho heq

/-- A beginning that fails leaves everything as it is. -/
theorem Owns.unbegun (h : Owns (s ::ₘ others) base b) (hmp3 : s.mp3Allocated = true)
    (hpcm : s.pcmAllocated = true) {answer : StreamAnswer} (hanswer : answer.isOk = false) :
    Owns (s ::ₘ others) base (board.next b ⟨.streamBegin s.mp3Ring.handle s.pcmHandle,answer⟩) := by
  have hacquired := h.valid_head.acquired (.inl hmp3)
  have hlive := h.live_cons
  have hmp3live : s.mp3Ring.handle ∈ b.live := by
    simp [hlive,BoardStream.handles,hmp3]
  have hpcmlive : s.pcmHandle ∈ b.live := by
    simp [hlive,BoardStream.handles,hpcm]
  have hproper : b.Proper (.streamBegin s.mp3Ring.handle s.pcmHandle) :=
    ⟨h.in_use hacquired,hmp3live,hpcmlive⟩
  cases answer with
  | ok result => simp [StreamAnswer.isOk] at hanswer
  | failed => rwa [next_idle h.sound hproper rfl]
  | notEntered => rwa [next_idle h.sound hproper rfl]

/-- The session is closed. -/
theorem Owns.closed (h : Owns (s ::ₘ others) base b) (hopen : s.stream.sessionOpen = true)
    {s' : BoardStream} (hhandles : s'.handles = s.handles)
    (hclosed : s'.stream.sessionOpen = false) (hacquired : s'.zz9kAcquired = s.zz9kAcquired)
    (hvalid : s'.Valid) :
    Owns (s' ::ₘ others) base (board.next b ⟨.streamClose s.stream.result.session,()⟩) := by
  have hsessions := h.sessions_cons
  rw [BoardStream.sessions,if_pos hopen,Multiset.singleton_add] at hsessions
  have huse := h.in_use (h.valid_head.acquired (.inl (h.valid_head.opened hopen).1))
  have hmine : ∃ o ∈ b.sessions,o.number = s.stream.result.session :=
    ⟨_,hsessions ▸ Multiset.mem_cons_self _ _,rfl⟩
  have hnumbers := h.numbers
  rw [hsessions,Multiset.map_cons,Multiset.nodup_cons] at hnumbers
  have hothers : b.sessions.filter (·.number ≠ s.stream.result.session) =
      others.bind BoardStream.sessions := by
    rw [hsessions,Multiset.filter_cons_of_neg _ (by simp),Multiset.filter_eq_self]
    intro o ho heq
    exact hnumbers.1 (Multiset.mem_map.mpr ⟨o,ho,heq⟩)
  have hproper : b.Proper (.streamClose s.stream.result.session) := ⟨huse,hmine⟩
  rw [next_proper h.sound hproper]
  refine h.changed trivial (hhandles ▸ h.live_cons) h.nodup ?_ ?_ rfl hacquired hvalid
  · show b.sessions.filter (·.number ≠ s.stream.result.session) = _
    rw [hothers,BoardStream.sessions,if_neg (by simp [hclosed]),zero_add]
  · show (Multiset.map _ (b.sessions.filter (·.number ≠ s.stream.result.session))).Nodup
    rw [hothers]
    exact hnumbers.2

end

end ZZ9K.Mpega
