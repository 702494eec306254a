import ZZ9K.Framework.Overflow
import ZZ9K.Framework.Resumption
import Mathlib.Data.UInt
import Mathlib.Data.List.FinRange

namespace ZZ9K.Framework.Seqlock

/-- A sequence word and the words it guards -/
structure Line (n : Nat) where
  sequence : UInt32
  words : Fin n → UInt32

/-- A finished read: how many updates had been begun when it started and when it ended, whether
it was stable, and what it read. -/
structure Read (n : Nat) where
  marked : Nat
  ended : Nat
  stable : Bool
  words : Fin n → UInt32

/-- A line and its history: the updates begun, those completed with what their commits found in
the sequence word and left there, and the finished reads. `marked` is how many updates had been
begun when the current read started. -/
structure State (n : Nat) (α : Type) where
  line : Line n
  begun : Nat := 0
  published : List α := []
  commits : List (UInt32 × UInt32) := []
  marked : Nat := 0
  reads : List (Read n) := []

variable {n : Nat} {α : Type}

/-- The sequence word neither moved nor is odd. -/
def stable (before after : UInt32) : Bool := before = after ∧ before &&& 1 = 0

/-- The even word an update that finds `sequence` commits. -/
def nextEven (sequence : UInt32) : UInt32 := (sequence+2) &&& ~~~1

def storeWords (v : Fin n → UInt32) : List (Fin n) → Res (State n α) Unit
  | [] => .ret ()
  | i :: is =>
      Res.store (fun s => {s with
        line := {s.line with words := Function.update s.line.words i (v i)}}) >>= fun _ =>
      storeWords v is

/-- One update: the sequence word is made odd, the words are stored, and the next even sequence
word commits them. -/
def publish (encode : α → Fin n → UInt32) (a : α) : Res (State n α) Unit :=
  Res.load (fun s => s.line.sequence) >>= fun sequence =>
  Res.store (fun s => {s with
    line := {s.line with sequence := nextEven sequence ||| 1}
    begun := s.begun+1}) >>= fun _ =>
  storeWords (encode a) (List.finRange n) >>= fun _ =>
  Res.store fun s => {s with
    line := {s.line with sequence := nextEven sequence}
    published := s.published++[a]
    commits := s.commits++[(sequence,nextEven sequence)]}

def loadWords : List (Fin n) → (Fin n → UInt32) → Res (State n α) (Fin n → UInt32)
  | [],got => .ret got
  | i :: is,got => Res.load (fun s => s.line.words i) >>= fun w =>
      loadWords is (Function.update got i w)

/-- One read: the sequence word, the words, and the sequence word again. -/
def snapshot : Res (State n α) (Bool × (Fin n → UInt32)) :=
  .step (fun s => {s with marked := s.begun}) fun s =>
  let before := s.line.sequence
  loadWords (List.finRange n) (fun _ => 0) >>= fun got =>
  Res.atomic fun s =>
    let r := stable before s.line.sequence
    ((r,got),{s with reads := s.reads++[⟨s.marked,s.begun,r,got⟩]})

theorem and_one_eq_zero {x : UInt32} : x &&& 1 = 0 ↔ x.toNat % 2 = 0 := by
  have h : (x &&& 1).toNat = x.toNat % 2 := by
    rw [UInt32.toNat_and]
    exact Nat.and_two_pow_sub_one_eq_mod _ 1
  rw [← UInt32.toNat_inj,h]
  rfl

theorem stable_iff {before after : UInt32} :
    stable before after = true ↔ after = before ∧ before.toNat % 2 = 0 := by
  rw [stable,decide_eq_true_iff,and_one_eq_zero,@eq_comm _ before]

theorem and_not_one_toNat (x : UInt32) : (x &&& ~~~1).toNat = x.toNat/2*2 :=
  and_not_toNat (k := 1) (by decide)

/-- From an even word the commit goes two further, from an odd one it goes one further. -/
theorem nextEven_toNat (x : UInt32) : (nextEven x).toNat = (x.toNat/2*2+2) % 2^32 := by
  have hx := x.toNat_lt
  rw [nextEven,and_not_one_toNat,UInt32.toNat_add]
  simp
  omega

theorem nextOdd_toNat (x : UInt32) : (nextEven x ||| 1).toNat = (x.toNat/2*2+3) % 2^32 := by
  have hx := x.toNat_lt
  have he : (x.toNat/2*2+2) % 2^32 = 2^1*((x.toNat/2*2+2) % 2^32/2) := by omega
  have h1 := (Nat.two_pow_add_eq_or_of_lt (i := 1) (b := 1) (by decide)
    ((x.toNat/2*2+2) % 2^32/2)).symm
  rw [UInt32.toNat_or,nextEven_toNat,he]
  simp only [UInt32.reduceToNat]
  rw [h1]
  omega

/-- The parties at a line: one that updates it and one that reads it. -/
inductive Party
  | writer
  | reader
  deriving DecidableEq

/-- The writer performs updates and may stop dead anywhere in one; the reader reads. -/
def system (encode : α → Fin n → UInt32) : System Party (State n α) where
  ops
    | .writer,p => ∃ a, p = publish encode a
    | .reader,p => p = snapshot >>= fun _ => .ret ()
  env _ _ := False
  halts i := i = .writer

section

variable (encode : α → Fin n → UInt32) (initial : Fin n → UInt32) (e : Nat)

/-- The words are those the line started with or those of a completed update. -/
def Whole (s : State n α) (words : Fin n → UInt32) : Prop :=
  words = initial ∨ ∃ a ∈ s.published, words = encode a

/-- The words of the last completed update, or those the line started with -/
def last (s : State n α) : Fin n → UInt32 :=
  match s.published.getLast? with
  | none => initial
  | some a => encode a

/-- The sequence word counts the updates begun, and is odd while one is under way or was cut
short; where it is even, the line holds the last completed update. `e` is where it started. -/
structure Inv (s : State n α) : Prop where
  count : s.line.sequence.toNat = (e+2*s.begun+s.line.sequence.toNat % 2) % 2^32
  current : s.line.sequence.toNat % 2 = 0 → s.line.words = last encode initial s
  commits : ∀ c ∈ s.commits, c.2.toNat % 2 = 0 ∧ (c.2 = c.1+1 ∨ c.2 = c.1+2)
  reads : ∀ r ∈ s.reads, r.stable = true → r.ended-r.marked < 2^31 →
    Whole encode initial s r.words

/-- What the writer's steps keep for the reader: nothing changes on an even line unless an
update begins. -/
structure Writes (s t : State n α) : Prop where
  begun : s.begun ≤ t.begun
  published : s.published <+: t.published
  still : t.begun = s.begun → s.line.sequence.toNat % 2 = 0 → t.line = s.line
  marked : t.marked = s.marked
  reads : t.reads = s.reads

/-- The reader changes nothing of the line. -/
structure Reads (s t : State n α) : Prop where
  line : t.line = s.line
  begun : t.begun = s.begun
  published : t.published = s.published
  commits : t.commits = s.commits

def discipline : Discipline Party (State n α) where
  inv := Inv encode initial e
  guar
    | .writer => Writes
    | .reader => Reads
  cond _ _ := True

variable {encode initial e}

theorem Whole.mono {s t : State n α} (h : s.published <+: t.published) {words : Fin n → UInt32}
    (hw : Whole encode initial s words) : Whole encode initial t words :=
  hw.imp_right fun ⟨a,ha,hx⟩ => ⟨a,h.subset ha,hx⟩

theorem last_whole (s : State n α) : Whole encode initial s (last encode initial s) := by
  unfold last
  cases h : s.published.getLast? with
  | none => exact Or.inl rfl
  | some a => exact Or.inr ⟨a,List.mem_of_getLast? h,rfl⟩

/-- The reader cannot disturb what the writer knows of the line. -/
theorem writer_stable (P : Line n → Nat → List α → Prop) :
    Stable (system encode) (discipline encode initial e) .writer
      fun s => P s.line s.begun s.published := by
  rintro s t _ _ _ (he | ⟨j,hj,hg⟩) hP
  · exact he.elim
  · cases j with
    | writer => exact absurd rfl hj
    | reader =>
      have hr : Reads s t := hg
      rw [hr.line,hr.begun,hr.published]
      exact hP

theorem Writes.refl (s : State n α) : Writes s s :=
  ⟨le_rfl,List.prefix_refl _,fun _ _ => rfl,rfl,rfl⟩

theorem Reads.refl (s : State n α) : Reads s s := ⟨rfl,rfl,rfl,rfl⟩

/-- Storing the words while the sequence word is odd -/
theorem storeWords_sat (v : Fin n → UInt32) {odd : UInt32} (hodd : odd.toNat % 2 = 1)
    (is : List (Fin n)) :
    Sat (system encode) (discipline encode initial e) .writer (storeWords v is)
      (fun s => s.line.sequence = odd ∧ ∀ i, i ∉ is → s.line.words i = v i)
      fun _ s => s.line.sequence = odd ∧ s.line.words = v := by
  induction is with
  | nil => exact fun s _ h => ⟨h.1,funext fun i => h.2 i List.not_mem_nil⟩
  | cons j is ih =>
    refine Sat.bind (Q := fun _ s => s.line.sequence = odd ∧ ∀ i, i ∉ is → s.line.words i = v i)
      (Sat.store ?_ (writer_stable fun l _ _ => l.sequence = odd ∧
        ∀ i, i ∉ is → l.words i = v i)) fun _ => ih
    rintro s hs ⟨hseq,hw⟩ _
    refine ⟨⟨hs.count,fun h => ?_,hs.commits,hs.reads⟩,
      ⟨le_rfl,List.prefix_refl _,fun _ h => ?_,rfl,rfl⟩,hseq,fun i hi => ?_⟩
    · rw [show s.line.sequence = odd from hseq,hodd] at h
      exact absurd h (by decide)
    · rw [hseq,hodd] at h
      exact absurd h (by decide)
    · by_cases hij : i = j
      · simp [hij]
      · simpa [hij] using hw i (by simp [hij,hi])

theorem publish_sat (he : e % 2 = 0) (a : α) :
    Sat (system encode) (discipline encode initial e) .writer (publish encode a)
      (fun _ => True) fun _ _ => True := by
  refine Sat.bind (Q := fun q s => s.line.sequence = q)
    (Sat.load (fun s _ _ => ⟨Writes.refl s,rfl⟩)
      fun q => writer_stable fun l _ _ => l.sequence = q) fun q => ?_
  have hlt := q.toNat_lt
  have hodd : (nextEven q ||| 1).toNat % 2 = 1 := by
    rw [nextOdd_toNat]
    omega
  refine Sat.bind (Q := fun _ s => s.line.sequence = nextEven q ||| 1 ∧
      ∀ i, i ∉ List.finRange n → s.line.words i = encode a i)
    (Sat.store ?_ (writer_stable fun l _ _ => l.sequence = nextEven q ||| 1 ∧
      ∀ i, i ∉ List.finRange n → l.words i = encode a i)) fun _ =>
    Sat.bind (storeWords_sat (encode a) hodd _) fun _ => ?_
  · intro s hs hq _
    have hcount := hs.count
    rw [hq] at hcount
    refine ⟨⟨?_,fun h => ?_,hs.commits,hs.reads⟩,
      ⟨Nat.le_succ _,List.prefix_refl _,fun h => ?_,rfl,rfl⟩,rfl,fun i hi => ?_⟩
    · simp only [nextOdd_toNat]
      omega
    · exact absurd (hodd.symm.trans h) (by decide)
    · exact absurd h (Nat.succ_ne_self _)
    · exact absurd (List.mem_finRange i) hi
  · refine Sat.store (fun s hs hq _ => ?_) (stable_true _ _ _)
    obtain ⟨hseq,hwords⟩ := hq
    have hcount := hs.count
    rw [hseq,nextOdd_toNat] at hcount
    have hpre : s.published <+: s.published++[a] := List.prefix_append _ _
    refine ⟨⟨?_,fun _ => ?_,fun c hc => ?_,fun r hr h h' => (hs.reads r hr h h').mono hpre⟩,
      ⟨le_rfl,hpre,fun _ h => ?_,rfl,rfl⟩,trivial⟩
    · simp only [nextEven_toNat]
      omega
    · simp [last,hwords]
    · rcases List.mem_append.mp hc with hc | hc
      · exact hs.commits c hc
      · rw [List.mem_singleton.mp hc]
        have heven := nextEven_toNat q
        refine ⟨by simp only [heven]; omega,?_⟩
        by_cases hpar : q.toNat % 2 = 0
        · refine Or.inr (UInt32.toNat_inj.mp ?_)
          rw [heven,UInt32.toNat_add]
          simp
          omega
        · refine Or.inl (UInt32.toNat_inj.mp ?_)
          rw [heven,UInt32.toNat_add]
          simp
          omega
    · rw [hseq,hodd] at h
      exact absurd h (by decide)

/-- What the reader holds on to: as long as no update has begun since it started on an even
sequence word, the line and what it has read of it agree with one completed update. -/
def Holds (encode : α → Fin n → UInt32) (initial : Fin n → UInt32) (e : Nat) (before : UInt32)
    (is : List (Fin n)) (got : Fin n → UInt32) (s : State n α) : Prop :=
  s.marked ≤ s.begun ∧ before.toNat = (e+2*s.marked+before.toNat % 2) % 2^32 ∧
    ∃ words, Whole encode initial s words ∧ (before.toNat % 2 = 0 → s.begun = s.marked →
      s.line.sequence = before ∧ s.line.words = words ∧ ∀ i, i ∉ is → got i = words i)

theorem holds_stable (before : UInt32) (is : List (Fin n)) (got : Fin n → UInt32) :
    Stable (system encode) (discipline encode initial e) .reader
      (Holds encode initial e before is got) := by
  rintro s t _ _ _ (he | ⟨j,hj,hg⟩) ⟨hle,hcount,words,hw,hx⟩
  · exact he.elim
  · cases j with
    | reader => exact absurd rfl hj
    | writer =>
      have hwr : Writes s t := hg
      refine ⟨hwr.marked ▸ hle.trans hwr.begun,hwr.marked.symm ▸ hcount,words,
        hw.mono hwr.published,fun heven hbegun => ?_⟩
      have hsame : t.begun = s.begun :=
        le_antisymm (hbegun.le.trans (hwr.marked.le.trans hle)) hwr.begun
      obtain ⟨hseq,hwords,hgot⟩ := hx heven (hsame.symm.trans (hbegun.trans hwr.marked))
      rw [hwr.still hsame (hseq.symm ▸ heven)]
      exact ⟨hseq,hwords,hgot⟩

theorem loadWords_sat (before : UInt32) (is : List (Fin n)) (got : Fin n → UInt32) :
    Sat (system encode) (discipline encode initial e) .reader (loadWords is got)
      (Holds encode initial e before is got)
      fun got s => Holds encode initial e before [] got s := by
  induction is generalizing got with
  | nil => exact fun s _ h => h
  | cons j is ih =>
    refine Sat.bind (Q := fun w => Holds encode initial e before is (Function.update got j w))
      (Sat.load ?_ fun w => holds_stable before is _) fun w => ih _
    rintro s _ ⟨hle,hcount,words,hw,hx⟩
    refine ⟨Reads.refl s,hle,hcount,words,hw,fun heven hbegun => ?_⟩
    obtain ⟨hseq,hwords,hgot⟩ := hx heven hbegun
    refine ⟨hseq,hwords,fun i hi => ?_⟩
    by_cases hij : i = j
    · subst hij
      simp [hwords]
    · simpa [hij] using hgot i (by simp [hij,hi])

theorem snapshot_sat (he : e % 2 = 0) :
    Sat (system encode) (discipline encode initial e) .reader snapshot
      (fun _ => True) fun _ _ => True := by
  intro s hs _ _
  refine ⟨⟨hs.count,hs.current,hs.commits,hs.reads⟩,⟨rfl,rfl,rfl,rfl⟩,_,
    holds_stable s.line.sequence (List.finRange n) (fun _ => 0),
    ⟨le_rfl,hs.count,last encode initial s,last_whole s,fun heven _ =>
      ⟨rfl,hs.current heven,fun i hi => absurd (List.mem_finRange i) hi⟩⟩,?_⟩
  refine Sat.bind (loadWords_sat s.line.sequence _ _) fun got => ?_
  refine Sat.atomic (fun t ht hold _ => ?_) fun _ => stable_true _ _ _
  obtain ⟨hle,hcount,words,hw,hx⟩ := hold
  refine ⟨⟨ht.count,ht.current,ht.commits,fun r hr hst hfew => ?_⟩,⟨rfl,rfl,rfl,rfl⟩,trivial⟩
  rcases List.mem_append.mp hr with hr | hr
  · exact ht.reads r hr hst hfew
  · -- the sequence word can only come back after 2^31 updates were begun
    rw [List.mem_singleton] at hr
    subst hr
    obtain ⟨hsame,heven⟩ := stable_iff.mp hst
    have hnow := ht.count
    rw [hsame] at hnow
    have hbegun : t.begun = t.marked := by
      simp only at hfew
      omega
    obtain ⟨_,_,hgot⟩ := hx heven hbegun
    have hall : got = words := funext fun i => hgot i List.not_mem_nil
    exact hall ▸ hw

theorem system_sound (he : e % 2 = 0) :
    Sound (system encode) (discipline encode initial e) where
  ops
    | .writer,p,h => by
        obtain ⟨a,rfl⟩ := h
        exact publish_sat he a
    | .reader,p,h => by
        subst h
        exact (snapshot_sat he).bind fun _ _ _ _ => trivial
  rest i := stable_true _ _ _
  halts _ _ _ _ := trivial
  env _ _ _ h := h.elim

/-- Stable reads are whole, unless 2^31 updates or more begin while one goes on; every commit
leaves an even sequence word, one or two on from the one it found. -/
theorem reach_whole (line : Line n) (c : Config Party (State n α))
    (hc : Reach (system encode) (fun _ _ => True) ⟨fun _ => .ret (),{line}⟩ c) :
    (∀ r ∈ c.state.reads, r.stable = true → r.ended-r.marked < 2^31 →
      Whole encode line.words c.state r.words) ∧
    ∀ commit ∈ c.state.commits, commit.2.toNat % 2 = 0 ∧
      (commit.2 = commit.1+1 ∨ commit.2 = commit.1+2) := by
  have hlt := line.sequence.toNat_lt
  have he : line.sequence.toNat/2*2 % 2 = 0 := by omega
  have hv : Verified (system encode) (discipline encode line.words (line.sequence.toNat/2*2)) c := by
    refine verified_reach (system_sound he) (verified_idle (system_sound he) (fun _ => rfl) ?_
      fun _ => trivial) hc
    refine ⟨?_,fun _ => rfl,by simp,by simp⟩
    simp only
    omega
  have hinv : Inv encode line.words (line.sequence.toNat/2*2) c.state := hv.1
  exact ⟨hinv.reads,hinv.commits⟩

/-- A stable read, decoded, is what one completed update stored, or what the line started with. -/
theorem reach_decoded {decode : (Fin n → UInt32) → α} (hdecode : ∀ a, decode (encode a) = a)
    (line : Line n) (c : Config Party (State n α))
    (hc : Reach (system encode) (fun _ _ => True) ⟨fun _ => .ret (),{line}⟩ c) :
    ∀ r ∈ c.state.reads, r.stable = true → r.ended-r.marked < 2^31 →
      decode r.words = decode line.words ∨ decode r.words ∈ c.state.published := by
  intro r hr hst hfew
  rcases (reach_whole line c hc).1 r hr hst hfew with h | ⟨a,ha,h⟩
  · exact Or.inl (by rw [h])
  · exact Or.inr (by rwa [h,hdecode])

/-- The odd word an update that finds `sequence` marks the line with. -/
def nextOdd (sequence : UInt32) : UInt32 := nextEven sequence ||| 1

/-- The line after a writer has stopped dead `k` times right after marking it. -/
def State.crashed (k : Nat) (s : State n α) : State n α :=
  {s with line := {s.line with sequence := nextOdd^[k] s.line.sequence},begun := s.begun+k}

/-- However often a writer stops dead, it can begin again. -/
theorem reach_crashed (encode : α → Fin n → UInt32) (a : α) (k : Nat)
    {c : Config Party (State n α)} (hi : c.prog .writer = .ret ()) :
    Reach (system encode) (fun _ _ => True) c ⟨c.prog,c.state.crashed k⟩ := by
  induction k generalizing c with
  | zero => exact .refl
  | succ k ih =>
    have hend : Function.update c.prog Party.writer (.ret ()) = c.prog := by
      rw [← hi,Function.update_eq_self]
    have h1 : Reach (system encode) (fun _ _ => True) c
        (c.set .writer (publish encode a) c.state) :=
      .single ⟨.start c .writer _ hi ⟨a,rfl⟩,trivial⟩
    have h2 := reach_advance (S := system encode) (C := fun _ _ => True) Party.writer 2
      (c := c.set .writer (publish encode a) c.state) (Res.along_true ..)
    have h3 := Step.halt (S := system encode) ((c.set .writer (publish encode a) c.state).set
      .writer ((publish encode a).advance 2 c.state).1 ((publish encode a).advance 2 c.state).2)
      .writer rfl
    have h4 := ih (c := ⟨c.prog,c.state.crashed 1⟩) hi
    have hone : ((publish encode a).advance 2 c.state).2 = c.state.crashed 1 := rfl
    have htwo : (c.state.crashed 1).crashed k = c.state.crashed (k+1) := by
      simp only [State.crashed,Function.iterate_succ,Function.comp,Function.iterate_zero,id]
      congr 1
      omega
    simp only [Config.set,Function.update_self,Function.update_idem,hend,hone] at h2 h3
    rw [htwo] at h4
    exact ((h1.trans h2).tail ⟨h3,trivial⟩).trans h4

/-- From zero, stopping dead takes the sequence word through the odd words. -/
theorem nextOdd_iterate (k : Nat) : (nextOdd^[k+1] 0).toNat = (2*k+3) % 2^32 := by
  induction k with
  | zero => decide
  | succ k ih =>
    rw [Function.iterate_succ_apply',nextOdd,nextOdd_toNat,ih]
    omega

end

end ZZ9K.Framework.Seqlock
