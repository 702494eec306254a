import Mathlib.Data.Nat.Basic
import Mathlib.Tactic.Ring

namespace ZZ9K.Math

/-- The side that a fit scales: as long as the exact proportion lets it be, and one at least -/
def fitSide (side limit other : Nat) : Nat := max 1 (side*limit/other)

/-- A size fits into an area: one side is that of the area, and the other is in proportion to the
source, rounded down, or one. -/
structure AspectFit (srcW srcH areaW areaH w h : Nat) : Prop where
  width_pos : 1 ≤ w
  width_le : w ≤ areaW
  height_pos : 1 ≤ h
  height_le : h ≤ areaH
  sides : w = areaW ∧ h = fitSide srcH areaW srcW ∨ h = areaH ∧ w = fitSide srcW areaH srcH

/-- The fit that the side that binds decides -/
def fitSize (srcW srcH areaW areaH : Nat) : Nat × Nat :=
  if srcH*areaW < srcW*areaH then (areaW,fitSide srcH areaW srcW)
  else (fitSide srcW areaH srcH,areaH)

section

variable {srcW srcH areaW areaH w h : Nat}

/-- A side in proportion is no longer than the area where the source is not relatively longer. -/
theorem fitSide_le {side limit other bound : Nat} (hbound : 0 < bound) (hother : 0 < other)
    (h : side*limit ≤ other*bound) : fitSide side limit other ≤ bound := by
  have hdiv : side*limit/other ≤ bound := by
    calc side*limit/other ≤ other*bound/other := Nat.div_le_div_right h
      _ = bound := Nat.mul_div_cancel_left bound hother
  exact Nat.max_le.mpr ⟨hbound,hdiv⟩

theorem fitSide_pos (side limit other : Nat) : 1 ≤ fitSide side limit other :=
  Nat.le_max_left 1 _

theorem fitSize_fit (hsw : 0 < srcW) (hsh : 0 < srcH) (hw : 0 < areaW) (hh : 0 < areaH) :
    AspectFit srcW srcH areaW areaH (fitSize srcW srcH areaW areaH).1
      (fitSize srcW srcH areaW areaH).2 := by
  rw [fitSize]
  split_ifs with hwide
  · -- The source is relatively wider than the area: its height is scaled.
    exact {
      width_pos := hw
      width_le := Nat.le_refl areaW
      height_pos := fitSide_pos srcH areaW srcW
      height_le := fitSide_le hh hsw (Nat.le_of_lt hwide)
      sides := .inl ⟨rfl,rfl⟩ }
  · exact {
      width_pos := fitSide_pos srcW areaH srcH
      width_le := fitSide_le hw hsh (Nat.le_of_not_lt hwide)
      height_pos := hh
      height_le := Nat.le_refl areaH
      sides := .inr ⟨rfl,rfl⟩ }

/-- A side in exact proportion is no longer than the fit's, rounded down. -/
theorem le_fitSide {side limit other x y : Nat} (hother : 0 < other) (hx : x ≤ limit)
    (h : x*side = y*other) : y ≤ fitSide side limit other := by
  have hdiv : y ≤ side*limit/other := by
    rw [Nat.le_div_iff_mul_le hother]
    calc y*other = side*x := by rw [← h,Nat.mul_comm]
      _ ≤ side*limit := Nat.mul_le_mul_left side hx
  exact Nat.le_trans hdiv (Nat.le_max_right 1 _)

/-- No size in the source's exact proportion that lies in the area is longer than a fit. -/
theorem AspectFit.maximal (hfit : AspectFit srcW srcH areaW areaH w h) (hw : 0 < srcW)
    (hh : 0 < srcH) {x y : Nat} (hx : x ≤ areaW) (hy : y ≤ areaH) (hxy : x*srcH = y*srcW) :
    x ≤ w ∧ y ≤ h := by
  rcases hfit.sides with ⟨rfl,rfl⟩ | ⟨rfl,rfl⟩
  · exact ⟨hx,le_fitSide hw hx hxy⟩
  · exact ⟨le_fitSide hh hy hxy.symm,hy⟩

end

end ZZ9K.Math
