import Mathlib

namespace ZZ9K.Math

/-- The value at `s` between knots that are `d` apart, in units of a `d`th: the knot before `s`, and
the part of the way to the next that `s` has gone -/
def interpolate (g : Nat → Int) (d s : Nat) : Int :=
  g (s/d)*d+(g (s/d+1)-g (s/d))*(s%d : Nat)

section

variable {g : Nat → Int} {d : Nat}

/-- The value is between the two knots. -/
theorem interpolate_bounds (hg : Monotone g) (hd : 0 < d) (s : Nat) :
    g (s/d)*d ≤ interpolate g d s ∧ interpolate g d s ≤ g (s/d+1)*d := by
  have hstep : 0 ≤ g (s/d+1)-g (s/d) := sub_nonneg.mpr (hg (Nat.le_succ _))
  have hpart : ((s%d : Nat) : Int) ≤ d := by exact_mod_cast (Nat.mod_lt s hd).le
  have hpos : (0 : Int) ≤ (s%d : Nat) := Int.natCast_nonneg _
  rw [interpolate]
  constructor
  · have := mul_nonneg hstep hpos
    linarith
  · have := mul_le_mul_of_nonneg_left hpart hstep
    linarith

/-- Between nondecreasing knots the interpolation is nondecreasing. -/
theorem interpolate_mono (hg : Monotone g) (hd : 0 < d) : Monotone (interpolate g d) := by
  intro s t hst
  rcases Nat.lt_or_eq_of_le (Nat.div_le_div_right hst : s/d ≤ t/d) with hlt | heq
  · have hs := (interpolate_bounds hg hd s).2
    have ht := (interpolate_bounds hg hd t).1
    have hknots : g (s/d+1)*d ≤ g (t/d)*d :=
      mul_le_mul_of_nonneg_right (hg hlt) (Int.natCast_nonneg d)
    linarith
  · have hstep : 0 ≤ g (t/d+1)-g (t/d) := sub_nonneg.mpr (hg (Nat.le_succ _))
    have hpart : s%d ≤ t%d := by
      have hs := Nat.div_add_mod s d
      have ht := Nat.div_add_mod t d
      rw [heq] at hs
      omega
    have hcast : ((s%d : Nat) : Int) ≤ (t%d : Nat) := by exact_mod_cast hpart
    rw [interpolate,interpolate,heq]
    have := mul_le_mul_of_nonneg_left hcast hstep
    linarith

end

end ZZ9K.Math
