import Mathlib.Data.Nat.Basic
import Mathlib.Tactic.SplitIfs

namespace ZZ9K.Framework

variable {ι β : Type}

/-- The place `n` further on in the same space -/
def ahead (p : ι × Nat) (n : Nat) : ι × Nat := (p.1,p.2+n)

@[simp] theorem ahead_zero (p : ι × Nat) : ahead p 0 = p := rfl

@[simp] theorem ahead_ahead (p : ι × Nat) (n m : Nat) : ahead (ahead p n) m = ahead p (n+m) := by
  simp [ahead,Nat.add_assoc]

/-- A place is among the `n` from `p` on. -/
def Inside (p : ι × Nat) (n : Nat) (x : ι × Nat) : Prop := x.1 = p.1 ∧ p.2 ≤ x.2 ∧ x.2 < p.2+n

instance [DecidableEq ι] (p : ι × Nat) (n : Nat) (x : ι × Nat) : Decidable (Inside p n x) :=
  inferInstanceAs (Decidable (_ ∧ _ ∧ _))

theorem inside_add {p x : ι × Nat} {n m : Nat} :
    Inside p (n+m) x ↔ Inside p n x ∨ Inside (ahead p n) m x := by
  simp only [Inside,ahead]
  constructor
  · rintro ⟨hspace,hlow,hhigh⟩
    by_cases hn : x.2 < p.2+n
    · exact .inl ⟨hspace,hlow,hn⟩
    · exact .inr ⟨hspace,by omega,by omega⟩
  · rintro (⟨hspace,hlow,hhigh⟩ | ⟨hspace,hlow,hhigh⟩)
    · exact ⟨hspace,hlow,by omega⟩
    · exact ⟨hspace,by omega,by omega⟩

/-- An ascending copy reads no place that it has stored before. -/
def Unspoiled (dst src : ι × Nat) (n : Nat) : Prop :=
  dst.1 = src.1 → dst.2 ≤ src.2 ∨ src.2+n ≤ dst.2

/-- A descending copy reads no place that it has stored before. -/
def UnspoiledDown (dst src : ι × Nat) (n : Nat) : Prop :=
  dst.1 = src.1 → src.2 ≤ dst.2 ∨ dst.2+n ≤ src.2

theorem Unspoiled.le {dst src : ι × Nat} {n m : Nat} (h : Unspoiled dst src n) (hm : m ≤ n) :
    Unspoiled dst src m := by
  intro hspace
  cases h hspace with
  | inl hle => exact .inl hle
  | inr hle => exact .inr (by omega)

theorem Unspoiled.ahead {dst src : ι × Nat} {n : Nat} (h : Unspoiled dst src n) (k : Nat) :
    Unspoiled (ahead dst k) (ahead src k) n := by
  intro hspace
  cases h hspace with
  | inl hle => exact .inl (by simp only [Framework.ahead]; omega)
  | inr hle => exact .inr (by simp only [Framework.ahead]; omega)

section

variable [DecidableEq ι] {cells : ι × Nat → β}

/-- `n` places take what `n` others had: all are read before the first is stored. -/
def moved (dst src : ι × Nat) (n : Nat) (cells : ι × Nat → β) : ι × Nat → β :=
  fun x => if Inside dst n x then cells (src.1,src.2+(x.2-dst.2)) else cells x

/-- `n` places take one value. -/
def overwritten (dst : ι × Nat) (n : Nat) (v : β) (cells : ι × Nat → β) : ι × Nat → β :=
  fun x => if Inside dst n x then v else cells x

/-- One place after the other takes what another has then, in ascending order. -/
def copiedUp (dst src : ι × Nat) : Nat → (ι × Nat → β) → ι × Nat → β
  | 0,cells => cells
  | n+1,cells => copiedUp (ahead dst 1) (ahead src 1) n (moved dst src 1 cells)

theorem filled_filled (dst : ι × Nat) (n m : Nat) (v : β) :
    overwritten (ahead dst n) m v (overwritten dst n v cells) = overwritten dst (n+m) v cells := by
  funext x
  simp only [overwritten,inside_add]
  by_cases hn : Inside dst n x
  · simp [hn]
  · simp [hn]

/-- A move in two parts, the first part first -/
theorem moved_moved {dst src : ι × Nat} {n m : Nat} (h : Unspoiled dst src (n+m)) :
    moved (ahead dst n) (ahead src n) m (moved dst src n cells) = moved dst src (n+m) cells := by
  funext x
  by_cases hm : Inside (ahead dst n) m x
  · obtain ⟨hspace,hlow,hhigh⟩ := hm
    simp only [ahead] at hspace hlow hhigh
    have hread : ¬ Inside dst n (src.1,src.2+n+(x.2-(dst.2+n))) := by
      rintro ⟨hsame,hge,hlt⟩
      dsimp only at hsame hge hlt
      have := h hsame.symm
      omega
    have hall : Inside dst (n+m) x := ⟨hspace,by omega,by omega⟩
    have hplace : src.2+n+(x.2-(dst.2+n)) = src.2+(x.2-dst.2) := by omega
    have hleft : moved (ahead dst n) (ahead src n) m (moved dst src n cells) x =
        moved dst src n cells (src.1,src.2+n+(x.2-(dst.2+n))) := if_pos ⟨hspace,hlow,hhigh⟩
    have hright : moved dst src (n+m) cells x = cells (src.1,src.2+(x.2-dst.2)) := if_pos hall
    rw [hleft,hright,moved,if_neg hread,hplace]
  · rw [moved,if_neg hm,moved,moved]
    by_cases hn : Inside dst n x
    · rw [if_pos hn,if_pos (inside_add.mpr (.inl hn))]
    · rw [if_neg hn,if_neg fun hall => (inside_add.mp hall).elim hn hm]

/-- A move in two parts, the second part first -/
theorem moved_moved_down {dst src : ι × Nat} {n m : Nat} (h : UnspoiledDown dst src (n+m)) :
    moved dst src n (moved (ahead dst n) (ahead src n) m cells) = moved dst src (n+m) cells := by
  funext x
  by_cases hn : Inside dst n x
  · obtain ⟨hspace,hlow,hhigh⟩ := hn
    have hread : ¬ Inside (ahead dst n) m (src.1,src.2+(x.2-dst.2)) := by
      rintro ⟨hsame,hge,hlt⟩
      simp only [ahead] at hsame hge hlt
      have := h hsame.symm
      omega
    rw [moved,if_pos ⟨hspace,hlow,hhigh⟩,moved,if_neg hread,moved,
      if_pos (inside_add.mpr (.inl ⟨hspace,hlow,hhigh⟩))]
  · rw [moved,if_neg hn,moved,moved]
    by_cases hm : Inside (ahead dst n) m x
    · have hplace : src.2+n+(x.2-(dst.2+n)) = src.2+(x.2-dst.2) := by
        obtain ⟨-,hlow,-⟩ := hm
        simp only [ahead] at hlow
        omega
      rw [if_pos hm,if_pos (inside_add.mpr (.inr hm))]
      dsimp only [ahead]
      rw [hplace]
    · rw [if_neg hm,if_neg fun hall => (inside_add.mp hall).elim hn hm]

theorem moved_zero (dst src : ι × Nat) : moved dst src 0 cells = cells := by
  funext x
  rw [moved,if_neg]
  rintro ⟨-,hlow,hhigh⟩
  omega

theorem moved_self (p : ι × Nat) (n : Nat) : moved p p n cells = cells := by
  funext x
  rw [moved]
  split_ifs with h
  · obtain ⟨hspace,hlow,-⟩ := h
    have hx : (p.1,p.2+(x.2-p.2)) = x := Prod.ext hspace.symm (by dsimp only; omega)
    rw [hx]
  · rfl

/-- An ascending copy that spoils none of its source is a move. -/
theorem copiedUp_eq {dst src : ι × Nat} {n : Nat} (h : Unspoiled dst src n) :
    copiedUp dst src n cells = moved dst src n cells := by
  induction n generalizing dst src cells with
  | zero => exact (moved_zero dst src).symm
  | succ n ih =>
    have hrest : Unspoiled (ahead dst 1) (ahead src 1) n := (h.le (Nat.le_succ n)).ahead 1
    rw [Nat.add_comm] at h
    rw [copiedUp,ih hrest,moved_moved h,Nat.add_comm]

theorem copiedUp_add (dst src : ι × Nat) (n m : Nat) :
    copiedUp (ahead dst n) (ahead src n) m (copiedUp dst src n cells) =
      copiedUp dst src (n+m) cells := by
  induction n generalizing dst src cells with
  | zero => simp [copiedUp]
  | succ n ih =>
    have hsucc : n+1+m = n+m+1 := by omega
    have hrest := @ih (moved dst src 1 cells) (ahead dst 1) (ahead src 1)
    rw [ahead_ahead,ahead_ahead,Nat.add_comm 1] at hrest
    rw [hsucc,copiedUp,copiedUp,hrest]

end

end ZZ9K.Framework
