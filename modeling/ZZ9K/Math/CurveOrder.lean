import ZZ9K.Math.JacobianCurve
import Mathlib.GroupTheory.Perm.Cycle.Type
import Mathlib.Data.Finset.Card

namespace ZZ9K.Math

open WeierstrassCurve.Affine

variable {F : Type} [Field F] {b : F}

section Count

theorem toPair_injective : Function.Injective (toPair (b := b)) := by
  intro P Q h
  cases P with
  | zero =>
    cases Q with
    | zero => rfl
    | some x y hxy => cases h
  | some x y hxy =>
    cases Q with
    | zero => cases h
    | some x' y' hxy' =>
      have hpair := congrArg Subtype.val (Option.some.inj h)
      obtain ⟨rfl,rfl⟩ := Prod.mk.inj hpair
      rfl

variable [Fintype F] [DecidableEq F]

/-- There are at most two points for every `x`. -/
theorem card_pointPairs_le : Nat.card (pointPairs b) ≤ 2*Fintype.card F := by
  have hfinset : Nat.card (pointPairs b) =
      (Finset.univ.filter fun q : F × F => q.2^2 = q.1^3-3*q.1+b).card :=
    Nat.subtype_card _ fun q => by simp [pointPairs]
  rw [hfinset]
  refine Finset.card_le_mul_card_image_of_maps_to (f := Prod.fst) (t := Finset.univ)
    (fun _ _ => Finset.mem_univ _) 2 fun x _ => ?_
  by_cases hex : ∃ y : F,y^2 = x^3-3*x+b
  · obtain ⟨y,hy⟩ := hex
    refine (Finset.card_le_card (t := {(x,y),(x,-y)}) fun q hq => ?_).trans Finset.card_le_two
    simp only [Finset.mem_filter,Finset.mem_univ,true_and] at hq
    obtain ⟨hcurve,rfl⟩ := hq
    rcases sq_eq_sq_iff_eq_or_eq_neg.mp (hcurve.trans hy.symm) with h | h
    · simp [← h]
    · simp [← h]
  · rw [Finset.card_eq_zero.mpr]
    · exact Nat.zero_le 2
    · ext q
      simp only [Finset.mem_filter,Finset.mem_univ,true_and,Finset.notMem_empty,iff_false]
      rintro ⟨hcurve,rfl⟩
      exact hex ⟨q.2,hcurve⟩

instance : Finite (threeCurve b).Point := Finite.of_injective toPair toPair_injective

theorem card_points_le : Nat.card (threeCurve b).Point ≤ 2*Fintype.card F+1 := by
  have h := Nat.card_le_card_of_injective toPair (toPair_injective (b := b))
  rw [Finite.card_option] at h
  have := card_pointPairs_le (b := b)
  omega

end Count

section Order

variable [DecidableEq F]

/-- Without a root of the cubic no point is its own negative. -/
theorem add_self_ne_zero (h2 : (2 : F) ≠ 0) (hroot : ∀ x : F,x^3-3*x+b ≠ 0)
    {P : (threeCurve b).Point} (hP : P ≠ 0) : P+P ≠ 0 := by
  cases P with
  | zero => exact absurd rfl hP
  | some x y hxy =>
    have hy : y ≠ 0 := by
      rintro rfl
      have h := threeCurve_equation.mp hxy.1
      rw [zero_pow two_ne_zero] at h
      exact hroot x h.symm
    have hne : y ≠ (threeCurve b).negY x y := by
      rw [threeCurve_negY,Ne,← add_eq_zero_iff_eq_neg,← two_mul]
      exact mul_ne_zero h2 hy
    rw [Point.add_self_of_Y_ne hne]
    exact Point.some_ne_zero _

variable [Fintype F]

/-- A point of prime order `n`, where three times `n` points do not fit on the curve and none has
order two, gives the order of the group. -/
theorem nsmul_eq_zero_of_prime {n : Nat} (hn : n.Prime) (hbig : 2*Fintype.card F+1 < 3*n)
    (h2 : (2 : F) ≠ 0) (hroot : ∀ x : F,x^3-3*x+b ≠ 0) {G : (threeCurve b).Point} (hG : G ≠ 0)
    (hnG : n • G = 0) (Q : (threeCurve b).Point) : n • Q = 0 := by
  have hfact : Fact n.Prime := ⟨hn⟩
  have horder : addOrderOf G = n := addOrderOf_eq_prime hnG hG
  obtain ⟨k,hk⟩ : n ∣ Nat.card (threeCurve b).Point := horder ▸ addOrderOf_dvd_natCard G
  have hle := card_points_le (b := b)
  have hpos : 0 < Nat.card (threeCurve b).Point := Nat.card_pos
  have hk3 : k < 3 := by
    by_contra hge
    have := Nat.mul_le_mul_left n (not_lt.mp hge)
    omega
  have hk0 : k ≠ 0 := by
    rintro rfl
    omega
  have hk2 : k ≠ 2 := by
    rintro rfl
    have htwo : Fact (Nat.Prime 2) := ⟨Nat.prime_two⟩
    obtain ⟨P,hP⟩ := exists_prime_addOrderOf_dvd_card' 2 (hk ▸ Dvd.intro_left n rfl)
    have hne : P ≠ 0 := by
      rintro rfl
      rw [addOrderOf_zero] at hP
      omega
    have hzero := addOrderOf_nsmul_eq_zero P
    rw [hP,two_nsmul] at hzero
    exact add_self_ne_zero h2 hroot hne hzero
  have hcard : Nat.card (threeCurve b).Point = n := by
    rw [hk,show k = 1 by omega,mul_one]
  rw [← hcard]
  exact card_nsmul_eq_zero'

end Order

end ZZ9K.Math
