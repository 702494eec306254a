import ZZ9K.Archive.LhaList

namespace ZZ9K.Archive

/-- The positions that the walk over the whole archive comes to -/
inductive LhaReaches (data : Bytes) : Nat → Prop
  | start : LhaReaches data 0
  | next {pos : Nat} {entry : ArchiveEntry} (h : LhaReaches data pos)
      (hfilled : byte data pos ≠ 0) (hroom : 24 ≤ data.length-pos)
      (hparse : lhaParseHeader (data.drop pos) (data.length-pos) = .ok entry) :
      LhaReaches data (lhaNext pos entry)

/-- The largest window the file walk comes to -/
def lhaWindowMax : Nat := 2^30

/-- The verdict on the header at `pos` needs more than the largest window, and there is more. -/
def LhaOversized (data : Bytes) (pos : Nat) : Prop :=
  lhaWindowMax < data.length-pos ∧
    lhaParseHeader (slice data pos lhaWindowMax) (data.length-pos) = .needsWindow

/-- The entries from `pos` on, if all of the rest can be read -/
def lhaMembers (data : Bytes) (pos : Nat) : Option (List ArchiveEntry) :=
  if byte data pos = 0 ∨ data.length-pos < 24 then some []
  else
    match _hparse : lhaParseHeader (data.drop pos) (data.length-pos) with
    | .ok entry => (lhaMembers data (lhaNext pos entry)).map (entry.at pos::·)
    | _ => none
termination_by data.length-pos
decreasing_by
  have hextent := lhaParseHeader_extent _hparse
  unfold lhaNext
  omega

section

variable {data : Bytes} {pos : Nat} {entry : ArchiveEntry}

theorem lhaMembers_end (h : byte data pos = 0 ∨ data.length-pos < 24) :
    lhaMembers data pos = some [] := by
  rw [lhaMembers,if_pos h]

theorem lhaMembers_ok (h : ¬(byte data pos = 0 ∨ data.length-pos < 24))
    (hparse : lhaParseHeader (data.drop pos) (data.length-pos) = .ok entry) :
    lhaMembers data pos = (lhaMembers data (lhaNext pos entry)).map (entry.at pos::·) := by
  rw [lhaMembers,if_neg h]
  split
  · next e he =>
    rw [hparse] at he
    cases he
    rfl
  · next he => exact absurd hparse (he entry)

theorem lhaMembers_bad (h : ¬(byte data pos = 0 ∨ data.length-pos < 24))
    (hparse : ∀ entry, lhaParseHeader (data.drop pos) (data.length-pos) ≠ .ok entry) :
    lhaMembers data pos = none := by
  rw [lhaMembers,if_neg h]
  split
  · next e he => exact absurd he (hparse e)
  · rfl

/-- The in-memory walk stores the first entries and counts them all. -/
theorem lhaListLoop_eq (data : Bytes) (maxEntries pos : Nat) (before : List ArchiveEntry) :
    lhaListLoop data maxEntries pos (before.take maxEntries) before.length =
      (lhaMembers data pos).map fun entries =>
        ((before++entries).take maxEntries,(before++entries).length) := by
  induction h : data.length-pos using Nat.strong_induction_on generalizing pos before with
  | _ n ih =>
    subst h
    rw [lhaListLoop]
    split
    · next hpos =>
      by_cases hend : byte data pos = 0 ∨ data.length-pos < 24
      · rw [lhaMembers_end hend]
        rcases hend with hzero | htail
        · simp [hzero]
        · simp [htail]
      · have hzero : ¬byte data pos = 0 := fun hz => hend (Or.inl hz)
        have htail : ¬data.length-pos < 24 := fun ht => hend (Or.inr ht)
        rw [if_neg hzero,if_neg htail]
        split
        · next entry hparse =>
          have hextent := lhaParseHeader_extent hparse
          have hstored : (if before.length < maxEntries then before.take maxEntries++[entry.at pos]
              else before.take maxEntries) = (before++[entry.at pos]).take maxEntries := by
            split
            · next hroom =>
              rw [List.take_of_length_le (by omega),List.take_of_length_le]
              rw [List.length_append,List.length_singleton]
              omega
            · rw [List.take_append_of_le_length (by omega)]
          have hnext := ih (data.length-lhaNext pos entry) (by unfold lhaNext; omega)
            (lhaNext pos entry) (before++[entry.at pos]) rfl
          rw [List.length_append,List.length_singleton] at hnext
          rw [hstored,hnext,lhaMembers_ok hend hparse,Option.map_map]
          simp [Function.comp_def]
        · next hparse =>
          rw [lhaMembers_bad hend fun entry he => hparse entry he]
          rfl
    · next hpos =>
      rw [lhaMembers_end (Or.inr (by omega))]
      simp

theorem lhaList_eq (data : Bytes) (maxEntries : Nat) :
    lhaList data maxEntries =
      (lhaMembers data 0).map fun entries => (entries.take maxEntries,entries.length) := by
  have h := lhaListLoop_eq data maxEntries 0 []
  simpa [lhaList] using h

end

/-- The window holds bytes of the file, and its size is a chunk grown four times over and over,
or all that was left of the archive at an earlier member. -/
structure LhaWalk.Sound (data : Bytes) (w : LhaWalk) : Prop where
  window : w.window = slice data w.windowBase w.window.length
  inside : w.windowBase+w.window.length ≤ data.length
  room : w.window.length ≤ w.windowAllocated
  positive : 0 < w.windowAllocated
  bounded : w.windowAllocated ≤ lhaWindowMax
  capacity : data.length-w.pos ≤ w.windowAllocated ∨ ∃ k, w.windowAllocated = lhaWalkChunk*4^k

/-- The window was filled at the position of the walk. -/
structure LhaWalk.Centred (data : Bytes) (w : LhaWalk) : Prop where
  sound : w.Sound data
  base : w.windowBase = w.pos
  filled : w.window.length = min (data.length-w.pos) w.windowAllocated

/-- At the head of the outer loop: the window starts before the position, or nothing is read
yet. -/
structure LhaWalk.Ready (data : Bytes) (w : LhaWalk) : Prop where
  sound : w.Sound data
  base : w.windowBase < w.pos ∨ w.window = []

/-- The position of the walk is in the window. -/
def LhaWalk.Holds (w : LhaWalk) : Prop :=
  w.windowBase ≤ w.pos ∧ w.pos < w.windowBase+w.window.length

/-- In the loop that retries: the window holds the position, and one that starts there was filled
there. -/
def LhaWalk.Placed (data : Bytes) (w : LhaWalk) : Prop :=
  w.Centred data ∨ w.Sound data ∧ w.Holds ∧ w.windowBase ≠ w.pos

section

variable {data : Bytes} {w : LhaWalk} {entry : ArchiveEntry}

theorem LhaWalk.ready_start (data : Bytes) : ({} : LhaWalk).Ready data where
  sound :=
    {window := rfl,inside := Nat.zero_le _,room := Nat.zero_le _,positive := by decide,bounded := by decide,
     capacity := Or.inr ⟨0,rfl⟩}
  base := Or.inr rfl

theorem LhaWalk.Sound.refill (h : w.Sound data) (hpos : w.pos < data.length) :
    (w.refill data).Centred data := by
  have hlen : (slice data w.pos (if data.length-w.pos < w.windowAllocated then data.length-w.pos
      else w.windowAllocated)).length = min (data.length-w.pos) w.windowAllocated := by
    rw [length_slice]
    · split <;> omega
    · split <;> omega
  refine ⟨⟨?_,?_,?_,h.positive,h.bounded,h.capacity⟩,rfl,hlen⟩
  · simp only [LhaWalk.refill,hlen]
    congr 1
    split <;> omega
  · simp only [LhaWalk.refill,hlen]
    omega
  · simp only [LhaWalk.refill,hlen]
    omega

theorem LhaWalk.Centred.holds (h : w.Centred data) (hpos : w.pos < data.length) : w.Holds := by
  have hpositive := h.sound.positive
  have hbase := h.base
  have hfilled := h.filled
  unfold Holds
  omega

/-- What the walk sees of the header is a prefix of the rest of the archive. -/
theorem LhaWalk.Sound.view (h : w.Sound data) (hw : w.Holds) :
    w.window.drop (w.pos-w.windowBase) =
      slice data w.pos (w.windowBase+w.window.length-w.pos) := by
  obtain ⟨hbase,hend⟩ := hw
  have hsum : w.windowBase+(w.pos-w.windowBase) = w.pos := by omega
  have hrest : w.window.length-(w.pos-w.windowBase) = w.windowBase+w.window.length-w.pos := by omega
  calc
    w.window.drop (w.pos-w.windowBase)
        = (slice data w.windowBase w.window.length).drop (w.pos-w.windowBase) := by rw [← h.window]
    _ = slice data w.pos (w.windowBase+w.window.length-w.pos) := by
      simp only [slice]
      rw [List.drop_take,List.drop_drop,hsum,hrest]

theorem slice_prefix_slice (data : Bytes) (pos : Nat) {n m : Nat} (h : n ≤ m) :
    slice data pos n <+: slice data pos m := by
  unfold slice
  rw [← Nat.min_eq_left h,← List.take_take]
  exact List.take_prefix n _

theorem slice_prefix_drop (data : Bytes) (pos n : Nat) : slice data pos n <+: data.drop pos :=
  List.take_prefix n _

theorem LhaWalk.Sound.view_onPrefix (h : w.Sound data) (hw : w.Holds) :
    w.window.drop (w.pos-w.windowBase) <+: data.drop w.pos := by
  rw [h.view hw]
  exact slice_prefix_drop data w.pos _

theorem LhaWalk.Sound.byte_view (h : w.Sound data) (hw : w.Holds) :
    byte w.window (w.pos-w.windowBase) = byte data w.pos := by
  obtain ⟨hbase,hend⟩ := hw
  rw [h.window,byte_slice data (by omega)]
  congr 1
  omega

theorem lhaWalkChunk_quadruple {k : Nat} (h : lhaWalkChunk*4^k < lhaWindowMax) :
    lhaWalkChunk*4^k*4 ≤ lhaWindowMax := by
  have hk : k < 9 := by
    by_contra hk
    have hpow : 4^9 ≤ 4^k := Nat.pow_le_pow_right (by omega) (by omega)
    simp only [lhaWalkChunk,lhaWindowMax] at h
    omega
  have hpow : 4^(k+1) ≤ 4^9 := Nat.pow_le_pow_right (by omega) (by omega)
  rw [Nat.pow_succ] at hpow
  simp only [lhaWalkChunk,lhaWindowMax]
  omega

/-- Growing makes the window four times as large, or as large as the rest of the archive. -/
theorem lhaGrownCapacity_of_lt {allocated avail k : Nat} (hk : allocated = lhaWalkChunk*4^k)
    (hmax : allocated < lhaWindowMax) (hlt : allocated < avail) :
    lhaGrownCapacity allocated avail = min (allocated*4) avail := by
  subst hk
  have hfour := lhaWalkChunk_quadruple hmax
  have hpositive : 0 < lhaWalkChunk*4^k := Nat.mul_pos (by decide) (Nat.pow_pos (by omega))
  have hu32 : u32 (lhaWalkChunk*4^k*4) = lhaWalkChunk*4^k*4 := by
    apply u32_of_lt
    unfold lhaWindowMax at hfour
    omega
  simp only [lhaGrownCapacity,hu32]
  split_ifs <;> omega

/-- At the largest window the product wraps to zero, and nothing grows. -/
theorem lhaGrownCapacity_max (avail : Nat) : lhaGrownCapacity lhaWindowMax avail = lhaWindowMax := by
  have hu32 : u32 (lhaWindowMax*4) = 0 := rfl
  simp [lhaGrownCapacity,hu32]

theorem LhaWalk.Sound.grow (h : w.Sound data) :
    ({w with windowAllocated := lhaGrownCapacity w.windowAllocated (data.length-w.pos)} :
      LhaWalk).Sound data := by
  by_cases hlt : w.windowAllocated < data.length-w.pos
  · obtain ⟨k,hk⟩ := h.capacity.resolve_left (by omega)
    have hbounded := h.bounded
    have hpositive := h.positive
    by_cases hmax : w.windowAllocated = lhaWindowMax
    · simp only [hmax,lhaGrownCapacity_max]
      exact ⟨h.window,h.inside,hmax ▸ h.room,hmax ▸ hpositive,Nat.le_refl _,Or.inr ⟨k,hmax ▸ hk⟩⟩
    · have hgrown := lhaGrownCapacity_of_lt hk (by omega) hlt
      have hfour := lhaWalkChunk_quadruple (k := k) (by omega)
      have hroom := h.room
      rw [hgrown]
      refine ⟨h.window,h.inside,?_,?_,?_,?_⟩
      · dsimp only
        omega
      · dsimp only
        omega
      · dsimp only
        omega
      · dsimp only
        by_cases hrest : data.length-w.pos ≤ w.windowAllocated*4
        · exact Or.inl (by omega)
        · exact Or.inr ⟨k+1,by rw [Nat.pow_succ,← Nat.mul_assoc]; omega⟩
  · have hsame : lhaGrownCapacity w.windowAllocated (data.length-w.pos) = w.windowAllocated := by
      simp only [lhaGrownCapacity]
      split_ifs <;> omega
    rw [hsame]
    exact h

theorem lhaWalkStep_ok
    (h : lhaParseHeader (w.window.drop (w.pos-w.windowBase)) (data.length-w.pos) = .ok entry) :
    lhaWalkStep data (.parse w) =
      .member {w with pos := lhaNext w.pos entry,entries := w.entries++[entry.at w.pos]} := by
  simp only [lhaWalkStep,h]

theorem lhaWalkStep_invalid
    (h : lhaParseHeader (w.window.drop (w.pos-w.windowBase)) (data.length-w.pos) = .invalid) :
    lhaWalkStep data (.parse w) = .done none := by
  simp only [lhaWalkStep,h]

theorem lhaWalkStep_recentre (hoffset : w.windowBase ≠ w.pos) (hw : w.Holds)
    (h : lhaParseHeader (w.window.drop (w.pos-w.windowBase)) (data.length-w.pos) = .needsWindow) :
    lhaWalkStep data (.parse w) = .parse (w.refill data) := by
  have hbase := hw.1
  have hne : w.pos-w.windowBase ≠ 0 := by omega
  simp only [lhaWalkStep,h,hne,ne_eq,not_false_eq_true,if_true]

theorem lhaWalkStep_full (hc : w.Centred data) (hfull : data.length-w.pos ≤ w.windowAllocated)
    (h : lhaParseHeader (w.window.drop (w.pos-w.windowBase)) (data.length-w.pos) = .needsWindow) :
    lhaWalkStep data (.parse w) = .done none := by
  have hzero : w.pos-w.windowBase = 0 := by rw [hc.base,Nat.sub_self]
  have hlen : data.length-w.pos ≤ w.window.length := by rw [hc.filled]; omega
  rw [hzero] at h
  simp only [lhaWalkStep,h,hzero,hlen,ne_eq,not_true_eq_false,if_false,if_true]

theorem lhaWalkStep_grow (hc : w.Centred data) (hmore : w.windowAllocated < data.length-w.pos)
    (h : lhaParseHeader (w.window.drop (w.pos-w.windowBase)) (data.length-w.pos) = .needsWindow) :
    lhaWalkStep data (.parse w) = .parse (LhaWalk.refill data
      {w with windowAllocated := lhaGrownCapacity w.windowAllocated (data.length-w.pos)}) := by
  have hzero : w.pos-w.windowBase = 0 := by rw [hc.base,Nat.sub_self]
  have hlen : ¬data.length-w.pos ≤ w.window.length := by rw [hc.filled]; omega
  rw [hzero] at h
  simp only [lhaWalkStep,h,hzero,hlen,ne_eq,not_true_eq_false,if_false]

/-- How the walk leaves the header at its position, when the in-memory walk sees `verdict`
there -/
def LhaSettles (data : Bytes) (w : LhaWalk) (s : LhaWalkState) : Prop :=
  match lhaParseHeader (data.drop w.pos) (data.length-w.pos) with
  | .ok entry => ∃ v, Framework.Leads (lhaWalkStep data) s (.member v) ∧ v.Ready data ∧
      v.pos = lhaNext w.pos entry ∧ v.entries = w.entries++[entry.at w.pos]
  | _ => Framework.Leads (lhaWalkStep data) s (.done none)

/-- A verdict on the window is the verdict on the rest of the archive. -/
theorem LhaWalk.Sound.settle (h : w.Sound data) (hw : w.Holds)
    (hv : lhaParseHeader (w.window.drop (w.pos-w.windowBase)) (data.length-w.pos) ≠
      .needsWindow) : LhaSettles data w (.parse w) := by
  have hfull := lhaParseHeader_onPrefix (h.view_onPrefix hw) hv
  unfold LhaSettles
  rw [hfull]
  cases hverdict : lhaParseHeader (w.window.drop (w.pos-w.windowBase)) (data.length-w.pos) with
  | needsWindow => exact absurd hverdict hv
  | invalid =>
    apply Framework.Leads.head
    rw [lhaWalkStep_invalid hverdict]
    exact Framework.Leads.refl _
  | ok entry =>
    have hextent := lhaParseHeader_extent hverdict
    have hbase := hw.1
    refine ⟨{w with pos := lhaNext w.pos entry,entries := w.entries++[entry.at w.pos]},
      ?_,⟨?_,?_⟩,rfl,rfl⟩
    · apply Framework.Leads.head
      rw [lhaWalkStep_ok hverdict]
      exact Framework.Leads.refl _
    · refine ⟨h.window,h.inside,h.room,h.positive,h.bounded,h.capacity.imp_left fun hle => ?_⟩
      unfold lhaNext
      dsimp only
      omega
    · left
      unfold lhaNext
      dsimp only
      omega

theorem LhaSettles.head {s : LhaWalkState} (h : LhaSettles data w (lhaWalkStep data s)) :
    LhaSettles data w s := by
  unfold LhaSettles at h ⊢
  split
  · next entry hparse =>
    rw [hparse] at h
    obtain ⟨v,hleads,hv⟩ := h
    exact ⟨v,hleads.head,hv⟩
  · next hparse =>
    split at h
    · next entry he => exact absurd he (hparse entry)
    · exact h.head

/-- Growing the window settles every header that is not oversized. The induction is on what the
window lacks of its largest size. -/
theorem LhaWalk.Centred.settle (hc : w.Centred data) (hpos : w.pos < data.length)
    (hsize : ¬LhaOversized data w.pos) : LhaSettles data w (.parse w) := by
  induction h : lhaWindowMax-w.windowAllocated using Nat.strong_induction_on generalizing w with
  | _ n ih =>
    subst h
    by_cases hv : lhaParseHeader (w.window.drop (w.pos-w.windowBase)) (data.length-w.pos) =
        .needsWindow
    · have hview := hc.sound.view (hc.holds hpos)
      rw [hc.base,hc.filled,Nat.add_sub_cancel_left] at hview
      by_cases hmore : w.windowAllocated < data.length-w.pos
      · have hbounded := hc.sound.bounded
        have hlt : w.windowAllocated < lhaWindowMax := by
          by_contra hmax
          have hmax : w.windowAllocated = lhaWindowMax := by omega
          apply hsize
          refine ⟨hmax ▸ hmore,?_⟩
          rw [hc.base,hview,Nat.min_eq_right (Nat.le_of_lt hmore),hmax] at hv
          exact hv
        obtain ⟨k,hk⟩ := hc.sound.capacity.resolve_left (by omega)
        have hgrown := lhaGrownCapacity_of_lt hk hlt hmore
        have hpositive := hc.sound.positive
        have hnext := ih (lhaWindowMax-lhaGrownCapacity w.windowAllocated (data.length-w.pos))
          (by rw [hgrown]; omega) (hc.sound.grow.refill hpos) hpos hsize rfl
        apply LhaSettles.head
        rw [lhaWalkStep_grow hc hmore hv]
        exact hnext
      · have hrest : data.drop w.pos = slice data w.pos (min (data.length-w.pos) w.windowAllocated) := by
          rw [Nat.min_eq_left (by omega)]
          unfold slice
          rw [List.take_of_length_le]
          rw [List.length_drop]
        rw [hc.base,hview,← hrest] at hv
        have hstep := lhaWalkStep_full hc (by omega) (by rw [hc.base,hview,← hrest]; exact hv)
        unfold LhaSettles
        rw [hv]
        apply Framework.Leads.head
        rw [hstep]
        exact Framework.Leads.refl _
    · exact hc.sound.settle (hc.holds hpos) hv

/-- Every header that is not oversized is settled, wherever the window starts. -/
theorem LhaWalk.Placed.settle (h : w.Placed data) (hpos : w.pos < data.length)
    (hsize : ¬LhaOversized data w.pos) : LhaSettles data w (.parse w) := by
  rcases h with hc | ⟨h,hw,hbase⟩
  · exact hc.settle hpos hsize
  · by_cases hv : lhaParseHeader (w.window.drop (w.pos-w.windowBase)) (data.length-w.pos) =
        .needsWindow
    · apply LhaSettles.head
      rw [lhaWalkStep_recentre hbase hw hv]
      exact (h.refill hpos).settle hpos hsize
    · exact h.settle hw hv

theorem LhaWalk.Placed.sound (h : w.Placed data) (hpos : w.pos < data.length) :
    w.Sound data ∧ w.Holds := by
  rcases h with hc | ⟨h,hw,-⟩
  · exact ⟨hc.sound,hc.holds hpos⟩
  · exact ⟨h,hw⟩

@[simp] theorem LhaWalk.focus_pos : (w.focus data).pos = w.pos := by
  unfold focus
  split <;> rfl

@[simp] theorem LhaWalk.focus_entries : (w.focus data).entries = w.entries := by
  unfold focus
  split <;> rfl

theorem LhaWalk.Ready.focus (h : w.Ready data) (hpos : w.pos < data.length) :
    (w.focus data).Placed data := by
  unfold LhaWalk.focus
  split
  · exact Or.inl (h.sound.refill hpos)
  · next hkept =>
    rcases h.base with hbase | hempty
    · exact Or.inr ⟨h.sound,⟨by omega,by omega⟩,by omega⟩
    · rw [hempty,List.length_nil] at hkept
      omega

theorem lhaWalkStep_end (h : w.Ready data) (hend : byte data w.pos = 0 ∨ data.length-w.pos < 24) :
    lhaWalkStep data (.member w) = .done (some w.entries) := by
  simp only [lhaWalkStep]
  split
  · rfl
  next hpos =>
  have hplaced := (h.focus (by omega)).sound (by simpa using hpos)
  have hbyte := hplaced.1.byte_view hplaced.2
  simp only [LhaWalk.focus_pos] at hbyte
  rw [LhaWalk.focus_entries,LhaWalk.focus_pos,hbyte]
  split
  · rfl
  next hzero =>
  rw [if_pos (hend.resolve_left hzero)]

theorem lhaWalkStep_member (h : w.Ready data)
    (hend : ¬(byte data w.pos = 0 ∨ data.length-w.pos < 24)) :
    lhaWalkStep data (.member w) = .parse (w.focus data) := by
  have hpos : ¬data.length ≤ w.pos := by omega
  have hzero : ¬byte data w.pos = 0 := fun hz => hend (Or.inl hz)
  have htail : ¬data.length-w.pos < 24 := fun ht => hend (Or.inr ht)
  have hplaced := (h.focus (by omega)).sound (by simpa using hpos)
  have hbyte := hplaced.1.byte_view hplaced.2
  simp only [LhaWalk.focus_pos] at hbyte
  simp only [lhaWalkStep,hpos,LhaWalk.focus_pos,hbyte,hzero,htail,if_false]

theorem LhaWalk.Ready.settle (h : w.Ready data)
    (hend : ¬(byte data w.pos = 0 ∨ data.length-w.pos < 24))
    (hsize : ¬LhaOversized data w.pos) : LhaSettles data w (.member w) := by
  have hpos : w.pos < data.length := by omega
  have hsettle := (h.focus hpos).settle (by simpa using hpos) (by simpa using hsize)
  apply LhaSettles.head
  rw [lhaWalkStep_member h hend]
  simpa [LhaSettles] using hsettle

/-- The walk over the file returns what the walk over the archive finds, if no header it comes to
is oversized. -/
theorem LhaWalk.Ready.run (h : w.Ready data) (hreach : LhaReaches data w.pos)
    (hsize : ∀ pos, LhaReaches data pos → ¬LhaOversized data pos) :
    Framework.Leads (lhaWalkStep data) (.member w)
      (.done ((lhaMembers data w.pos).map (w.entries++·))) := by
  induction hn : data.length-w.pos using Nat.strong_induction_on generalizing w with
  | _ n ih =>
    subst hn
    by_cases hend : byte data w.pos = 0 ∨ data.length-w.pos < 24
    · rw [lhaMembers_end hend]
      apply Framework.Leads.head
      rw [lhaWalkStep_end h hend]
      simpa using Framework.Leads.refl _
    · have hsettle := h.settle hend (hsize w.pos hreach)
      have hzero : byte data w.pos ≠ 0 := fun hz => hend (Or.inl hz)
      have hroom : 24 ≤ data.length-w.pos := by omega
      unfold LhaSettles at hsettle
      split at hsettle
      · next entry hparse =>
        obtain ⟨v,hleads,hv,hvpos,hventries⟩ := hsettle
        have hextent := lhaParseHeader_extent hparse
        have hrun := ih (data.length-v.pos) (by rw [hvpos]; unfold lhaNext; omega) hv
          (by rw [hvpos]; exact .next hreach hzero hroom hparse) rfl
        rw [lhaMembers_ok hend hparse,← hvpos,Option.map_map]
        have hentries : ((fun x => w.entries++x) ∘ fun x => entry.at w.pos::x) =
            fun x => v.entries++x := by
          funext x
          simp [hventries]
        rw [hentries]
        exact hleads.trans hrun
      · next hparse =>
        rw [lhaMembers_bad hend hparse]
        exact hsettle

/-- At an oversized header the walk only ever tries again. -/
theorem LhaWalk.Placed.stuck {pos : Nat} (hsize : LhaOversized data pos) {s : LhaWalkState}
    (h : ∃ v, s = .parse v ∧ v.Placed data ∧ v.pos = pos) :
    ∃ v, lhaWalkStep data s = .parse v ∧ v.Placed data ∧ v.pos = pos := by
  obtain ⟨v,rfl,hplaced,rfl⟩ := h
  have hpos : v.pos < data.length := by
    have hmore := hsize.1
    omega
  obtain ⟨hsound,hw⟩ := hplaced.sound hpos
  have hneeds : lhaParseHeader (v.window.drop (v.pos-v.windowBase)) (data.length-v.pos) =
      .needsWindow := by
    by_contra hv
    have hroom := hsound.room
    have hbounded := hsound.bounded
    have hprefix : v.window.drop (v.pos-v.windowBase) <+: slice data v.pos lhaWindowMax := by
      rw [hsound.view hw]
      apply slice_prefix_slice
      have hbase := hw.1
      omega
    have hsame := lhaParseHeader_onPrefix hprefix hv
    rw [hsize.2] at hsame
    exact hv hsame.symm
  by_cases hbase : v.windowBase = v.pos
  · have hc : v.Centred data := hplaced.resolve_right fun h => h.2.2 hbase
    have hbounded := hc.sound.bounded
    have hmore := hsize.1
    refine ⟨_,lhaWalkStep_grow hc (by omega) hneeds,Or.inl (hc.sound.grow.refill hpos),rfl⟩
  · exact ⟨_,lhaWalkStep_recentre hbase hw hneeds,Or.inl (hsound.refill hpos),rfl⟩

/-- At every position of the in-memory walk, the walk over the file comes there too or has met an
oversized header before. -/
theorem LhaReaches.follow {pos : Nat} (h : LhaReaches data pos) :
    (∃ v : LhaWalk, Framework.Leads (lhaWalkStep data) (.member {}) (.member v) ∧ v.Ready data ∧
      v.pos = pos) ∨
    ∃ bad v, Framework.Leads (lhaWalkStep data) (.member {}) (.parse v) ∧ v.Placed data ∧
      v.pos = bad ∧ LhaOversized data bad := by
  induction h with
  | start => exact Or.inl ⟨{},Framework.Leads.refl _,LhaWalk.ready_start data,rfl⟩
  | @next pos entry h hfilled hroom hparse ih =>
    rcases ih with ⟨v,hleads,hv,rfl⟩ | hstuck
    · have hend : ¬(byte data v.pos = 0 ∨ data.length-v.pos < 24) := by omega
      by_cases hsize : LhaOversized data v.pos
      · right
        refine ⟨_,v.focus data,hleads.trans ?_,hv.focus (by omega),LhaWalk.focus_pos,hsize⟩
        apply Framework.Leads.head
        rw [lhaWalkStep_member hv hend]
        exact Framework.Leads.refl _
      · left
        have hsettle := hv.settle hend hsize
        unfold LhaSettles at hsettle
        rw [hparse] at hsettle
        obtain ⟨u,hu,hready,hupos,-⟩ := hsettle
        exact ⟨u,hleads.trans hu,hready,hupos⟩
    · exact Or.inr hstuck

theorem LhaOversized.unfinished {pos : Nat} (h : LhaOversized data pos) :
    ¬(byte data pos = 0 ∨ data.length-pos < 24) := by
  obtain ⟨hmore,hneeds⟩ := h
  have hlen : (slice data pos lhaWindowMax).length = lhaWindowMax := length_slice data (by omega)
  have h24 : ¬(slice data pos lhaWindowMax).length < 24 := by
    rw [hlen]
    decide
  intro hend
  rcases hend with hzero | htail
  · have hbyte : byte (slice data pos lhaWindowMax) 0 = 0 := by
      rw [byte_slice data (by decide)]
      exact hzero
    simp [lhaParseHeader,h24,hbyte] at hneeds
  · unfold lhaWindowMax at hmore
    omega

/-- If the in-memory walk comes to an oversized header, the walk over the file never returns. -/
theorem LhaOversized.diverges {pos : Nat} (hreach : LhaReaches data pos)
    (hsize : LhaOversized data pos) (result : Option (List ArchiveEntry)) :
    ¬LhaListFile data result := by
  intro hdone
  have hstuck : ∃ bad v, Framework.Leads (lhaWalkStep data) (.member {}) (.parse v) ∧
      v.Placed data ∧ v.pos = bad ∧ LhaOversized data bad := by
    rcases hreach.follow with ⟨v,hleads,hv,rfl⟩ | hstuck
    · have hend := hsize.unfinished
      refine ⟨_,v.focus data,hleads.trans ?_,hv.focus (by omega),LhaWalk.focus_pos,hsize⟩
      apply Framework.Leads.head
      rw [lhaWalkStep_member hv hend]
      exact Framework.Leads.refl _
    · exact hstuck
  obtain ⟨bad,v,hleads,hplaced,hvpos,hbad⟩ := hstuck
  have hfinal : Framework.Leads (lhaWalkStep data) (.parse v) (.done result) :=
    Framework.Leads.final rfl hdone hleads
  have hinv := hfinal.invariant (I := fun s => ∃ v, s = .parse v ∧ v.Placed data ∧ v.pos = bad)
    (fun s hs => LhaWalk.Placed.stuck hbad hs) ⟨v,rfl,hplaced,hvpos⟩
  obtain ⟨u,hu,-⟩ := hinv
  cases hu

end

/-- The walk over a file returns what the walk over the archive returns, however many entries that
one may store. -/
def LhaWalksAgree (data : Bytes) : Prop :=
  ∃ result, LhaListFile data result ∧ ∀ maxEntries, lhaList data maxEntries =
    result.map fun entries => (entries.take maxEntries,entries.length)

/-- A verdict on a window is the verdict on all larger windows. -/
def LhaVerdictsFinal : Prop :=
  ∀ (w v : Bytes) (archiveAvail : Nat), w <+: v → lhaParseHeader w archiveAvail ≠ .needsWindow →
    lhaParseHeader v archiveAvail = lhaParseHeader w archiveAvail

/-- The walks agree exactly when no header they come to asks for more than 2^30 bytes while there
is more. -/
theorem lha_walks_agree (data : Bytes) :
    LhaWalksAgree data ∧ LhaVerdictsFinal ↔
      ∀ pos, LhaReaches data pos → ¬LhaOversized data pos := by
  constructor
  · rintro ⟨⟨result,hdone,-⟩,-⟩ pos hreach hsize
    exact hsize.diverges hreach result hdone
  · intro hsize
    refine ⟨⟨lhaMembers data 0,?_,lhaList_eq data⟩,fun w v avail h hv => lhaParseHeader_onPrefix h hv⟩
    have hrun := (LhaWalk.ready_start data).run .start hsize
    simpa [LhaListFile] using hrun

def lhaEndlessBase : Bytes := [3,3,0x2d,0x6c,0x68,0x30,0x2d,3,3,3,3,3,3,3,3,3,3,3,3,3,2]

/-- A level-2 header of which every size field reads 0x0303: a chain of extensions without end -/
def lhaEndless (n : Nat) : Bytes := lhaEndlessBase++List.replicate n 3

theorem lhaEndlessBase_length : lhaEndlessBase.length = 21 := rfl

theorem lhaEndless_length (n : Nat) : (lhaEndless n).length = 21+n := by
  rw [lhaEndless,List.length_append,List.length_replicate,lhaEndlessBase_length]

theorem lhaEndless_byte {n i : Nat} (h : 21 ≤ i) (hi : i < 21+n) : byte (lhaEndless n) i = 3 := by
  have hright : i-lhaEndlessBase.length < (List.replicate n (3 : UInt8)).length := by
    rw [List.length_replicate,lhaEndlessBase_length]
    omega
  unfold byte lhaEndless
  rw [List.getD_append_right _ _ _ _ (by rwa [lhaEndlessBase_length]),
    List.getD_eq_getElem _ _ hright,List.getElem_replicate]
  rfl

theorem lhaEndless_slice {n m : Nat} (h : m ≤ n) : slice (lhaEndless n) 0 (21+m) = lhaEndless m := by
  unfold slice lhaEndless
  rw [List.drop_zero,List.take_append,lhaEndlessBase_length,Nat.add_sub_cancel_left,
    List.take_of_length_le (by rw [lhaEndlessBase_length]; omega),List.take_replicate,
    Nat.min_eq_left h]

theorem lhaEndless_loop (n : Nat) {x : LhaExt} (hx : 21 ≤ x.pos) :
    lhaExtLoop (lhaEndless n) 771 x = .needsWindow := by
  induction h : 21+n-x.pos using Nat.strong_induction_on generalizing x with
  | _ k ih =>
    subst h
    rw [lhaExtLoop,if_neg (by decide)]
    split
    · rfl
    next hcut =>
    rw [lhaEndless_length] at hcut
    rw [dif_neg (by decide)]
    have h0 : byte (lhaEndless n) x.pos = 3 := lhaEndless_byte hx (by omega)
    have h1 : byte (lhaEndless n) (x.pos+771-2) = 3 := lhaEndless_byte (by omega) (by omega)
    have h2 : byte (lhaEndless n) (x.pos+771-2+1) = 3 := lhaEndless_byte (by omega) (by omega)
    have htext : lhaExtText (lhaEndless n) 771 x = some x := by
      simp [lhaExtText,h0]
    have hnext : getLe16 (lhaEndless n) (x.pos+771-2) = 771 := by
      simp only [getLe16,h1,h2]
      rfl
    simp only [htext,hnext]
    exact ih (21+n-(x.pos+771)) (by omega) (by dsimp only; omega) rfl

/-- However much of the header is seen, more is needed. -/
theorem lhaEndless_needsWindow (n archiveAvail : Nat) :
    lhaParseHeader (lhaEndless n) archiveAvail = .needsWindow := by
  have hlen := lhaEndless_length n
  have hlevel : lhaLevel (lhaEndless n) = 2 := rfl
  have hzero : byte (lhaEndless n) 0 = 3 := rfl
  have hsize : getLe16 (lhaEndless n) 0 = 771 := rfl
  have hlikely : lhaMethodPlausible (lhaEndless n) = true := rfl
  simp only [lhaParseHeader,hlevel,hzero]
  split
  · rfl
  next h24 =>
  rw [if_neg (by decide),if_neg (by decide)]
  split
  · rfl
  next hcut =>
  have h771 : 771 ≤ (lhaEndless n).length := by
    simp only [lhaBaseCut,hlevel,lhaLayout,if_true,hsize,true_and,ne_eq,not_true_eq_false,false_and,
      or_false,decide_eq_true_eq] at hcut
    omega
  have hchecksum : lhaHeaderChecksumValid (lhaEndless n) = true := by
    have hl : byte (lhaEndless n) 20 = 2 := rfl
    simp [lhaHeaderChecksumValid,h24,hzero,hl,hsize,h771]
  have hext : lhaExtensions (lhaEndless n) (lhaLayout (lhaEndless n)) = .needsWindow := by
    have h24' : byte (lhaEndless n) 24 = 3 := lhaEndless_byte (by omega) (by omega)
    have h25 : byte (lhaEndless n) 25 = 3 := lhaEndless_byte (by omega) (by omega)
    have hfirst : getLe16 (lhaEndless n) 24 = 771 := by
      simp only [getLe16,h24',h25]
      rfl
    simp only [lhaExtensions,lhaLayout,hlevel,or_true,if_true,hfirst]
    rw [if_neg (by omega)]
    exact lhaEndless_loop n (by decide)
  rw [hext,hchecksum,hlikely]
  simp [lhaLayout,hlevel,hsize]

/-- An archive of this one header and 2^30+1 bytes: the window stays at 2^30 bytes, and the walk
over the file goes on for ever. -/
theorem lha_walk_endless : (lhaEndless (lhaWindowMax-20)).length < 2^31 ∧
    ¬(LhaWalksAgree (lhaEndless (lhaWindowMax-20)) ∧ LhaVerdictsFinal) := by
  have hlen := lhaEndless_length (lhaWindowMax-20)
  have hmax : lhaWindowMax = 21+(lhaWindowMax-21) := by decide
  refine ⟨by rw [hlen]; decide,?_⟩
  rintro ⟨⟨result,hdone,-⟩,-⟩
  refine LhaOversized.diverges .start ⟨?_,?_⟩ result hdone
  · rw [hlen]
    decide
  · have hslice := lhaEndless_slice (n := lhaWindowMax-20) (m := lhaWindowMax-21) (by decide)
    rw [← hmax] at hslice
    rw [hslice]
    exact lhaEndless_needsWindow _ _

end ZZ9K.Archive
