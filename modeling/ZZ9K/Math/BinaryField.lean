import Mathlib.RingTheory.AdjoinRoot
import Mathlib.Data.ZMod.Basic
import Mathlib.Algebra.CharP.Two
import Mathlib.FieldTheory.Finite.Extension

namespace ZZ9K.Math

open Polynomial Finset

variable {n : ℕ}

/-- One place on, and back below the bound by the rule `r` for the place that leaves -/
def shiftMod (r v : BitVec n) : BitVec n := if v.getLsbD 0 then (v >>> 1) ^^^ r else v >>> 1

/-- One round of the product: bit `i` of `x` decides whether the factor so far counts. -/
def mulModStep (r x : BitVec n) (s : BitVec n × BitVec n) (i : ℕ) : BitVec n × BitVec n :=
  (if x.getMsbD i then s.1 ^^^ s.2 else s.1,shiftMod r s.2)

/-- The product of polynomials over two elements, the constant place first, by the rule `r` for
the power `n` -/
def mulMod (r x y : BitVec n) : BitVec n := ((List.range n).foldl (mulModStep r x) (0#n,y)).1

/-- The polynomial of a bit string -/
noncomputable def bitPoly (v : BitVec n) : (ZMod 2)[X] :=
  ∑ i ∈ range n,if v.getMsbD i then X^i else 0

/-- The polynomial that is zero by the rule `r` -/
noncomputable def modulus (r : BitVec n) : (ZMod 2)[X] := X^n+bitPoly r

/-- What a bit string stands for -/
noncomputable def toRing (r v : BitVec n) : AdjoinRoot (modulus r) :=
  AdjoinRoot.mk (modulus r) (bitPoly v)

section Product

theorem bitPoly_xor (a b : BitVec n) : bitPoly (a ^^^ b) = bitPoly a+bitPoly b := by
  rw [bitPoly,bitPoly,bitPoly,← sum_add_distrib]
  refine sum_congr rfl fun i _ => ?_
  rw [BitVec.getMsbD_xor]
  cases a.getMsbD i <;> cases b.getMsbD i <;> simp [CharTwo.add_self_eq_zero]

@[simp] theorem bitPoly_zero : bitPoly 0#n = 0 := by
  simp [bitPoly]

/-- The places move on by one, and the last one leaves. -/
theorem X_mul_bitPoly (v : BitVec n) : X*bitPoly v =
    bitPoly (v >>> 1)+if v.getLsbD 0 then X^n else 0 := by
  cases n with
  | zero => simp [bitPoly]
  | succ m =>
    have hlast : v.getMsbD m = v.getLsbD 0 := by simp [BitVec.getMsbD_eq_getLsbD]
    have hfirst : (v >>> 1).getMsbD 0 = false := by simp
    rw [bitPoly,bitPoly,sum_range_succ,sum_range_succ',mul_add,mul_sum,hlast,hfirst]
    rw [if_neg (show ¬false = true by decide),add_zero]
    congr 1
    · refine sum_congr rfl fun i hi => ?_
      have hbit : (v >>> 1).getMsbD (i+1) = v.getMsbD i := by
        have := mem_range.mp hi
        simp [BitVec.getMsbD_ushiftRight]
        omega
      rw [hbit,mul_ite,mul_zero,pow_succ']
    · rw [mul_ite,mul_zero,pow_succ']

theorem adjoinRoot_add_self {f : (ZMod 2)[X]} (a : AdjoinRoot f) : a+a = 0 := by
  obtain ⟨p,rfl⟩ := AdjoinRoot.mk_surjective a
  rw [← map_add,CharTwo.add_self_eq_zero,map_zero]

theorem toRing_xor (r a b : BitVec n) : toRing r (a ^^^ b) = toRing r a+toRing r b := by
  rw [toRing,bitPoly_xor,map_add,toRing,toRing]

@[simp] theorem toRing_zero (r : BitVec n) : toRing r 0#n = 0 := by
  rw [toRing,bitPoly_zero,map_zero]

/-- A place on is the root once more. -/
theorem toRing_shiftMod (r v : BitVec n) :
    toRing r (shiftMod r v) = AdjoinRoot.root (modulus r)*toRing r v := by
  have hself : AdjoinRoot.mk (modulus r) (X^n) = toRing r r := by
    have h : AdjoinRoot.mk (modulus r) (X^n+bitPoly r) = 0 := AdjoinRoot.mk_self
    rw [map_add] at h
    exact (eq_neg_of_add_eq_zero_left h).trans (neg_eq_of_add_eq_zero_left (adjoinRoot_add_self _))
  rw [← AdjoinRoot.mk_X,toRing,toRing,← map_mul,X_mul_bitPoly,map_add,shiftMod]
  split_ifs
  · rw [hself,bitPoly_xor,map_add,toRing]
  · rw [map_zero,add_zero]

/-- After `k` rounds: the factor has moved on by `k` places, and the sum has the bits so far. -/
theorem toRing_mulModRounds (r x y : BitVec n) (k : ℕ) :
    toRing r ((List.range k).foldl (mulModStep r x) (0#n,y)).2 =
        AdjoinRoot.root (modulus r)^k*toRing r y ∧
      toRing r ((List.range k).foldl (mulModStep r x) (0#n,y)).1 =
        AdjoinRoot.mk (modulus r) (∑ i ∈ range k,if x.getMsbD i then X^i else 0)*toRing r y := by
  induction k with
  | zero => simp
  | succ k ih =>
    obtain ⟨hfactor,hsum⟩ := ih
    rw [List.range_succ,List.foldl_append,List.foldl_cons,List.foldl_nil,mulModStep]
    refine ⟨by rw [toRing_shiftMod,hfactor,pow_succ',mul_assoc],?_⟩
    rw [sum_range_succ,map_add,add_mul,← hsum]
    split_ifs
    · rw [toRing_xor,hfactor,map_pow,AdjoinRoot.mk_X]
    · rw [map_zero,zero_mul,add_zero]

theorem toRing_mulMod (r x y : BitVec n) :
    toRing r (mulMod r x y) = toRing r x*toRing r y :=
  (toRing_mulModRounds r x y n).2

/-- The constant place alone is one. -/
theorem toRing_one (r : BitVec (n+1)) : toRing r (1#(n+1) <<< n) = 1 := by
  have hbit : ∀ i ∈ range (n+1),(if (1#(n+1) <<< n).getMsbD i then X^i else 0 : (ZMod 2)[X]) =
      if i = 0 then 1 else 0 := by
    intro i hi
    have hlt := mem_range.mp hi
    rw [BitVec.getMsbD_shiftLeft]
    cases i with
    | zero => simp [BitVec.getMsbD_eq_getLsbD]
    | succ i => simp
  rw [toRing,bitPoly,sum_congr rfl hbit,sum_ite_eq' (range (n+1)) 0,
    if_pos (mem_range.mpr (Nat.succ_pos n)),map_one]

/-- The place after it is the root. -/
theorem toRing_root (r : BitVec (n+1)) :
    toRing r (shiftMod r (1#(n+1) <<< n)) = AdjoinRoot.root (modulus r) := by
  rw [toRing_shiftMod,toRing_one,mul_one]

theorem toRing_squarings (r v : BitVec n) (k : ℕ) :
    toRing r ((fun v => mulMod r v v)^[k] v) = toRing r v^2^k := by
  induction k with
  | zero => rw [Function.iterate_zero_apply,pow_zero,pow_one]
  | succ k ih => rw [Function.iterate_succ_apply',toRing_mulMod,ih,← pow_add,pow_succ,mul_two]

end Product

section Faithful

theorem degree_bitPoly_lt (v : BitVec n) : (bitPoly v).degree < n := by
  refine (degree_sum_le _ _).trans_lt ((Finset.sup_lt_iff (WithBot.bot_lt_coe n)).mpr fun i hi => ?_)
  split_ifs
  · rw [degree_X_pow]
    exact Nat.cast_lt.mpr (mem_range.mp hi)
  · rw [degree_zero]
    exact WithBot.bot_lt_coe n

theorem modulus_monic (r : BitVec n) : (modulus r).Monic :=
  monic_X_pow_add (degree_bitPoly_lt r)

theorem modulus_natDegree (r : BitVec n) : (modulus r).natDegree = n := by
  have h : (bitPoly r).degree < (X^n : (ZMod 2)[X]).degree := by
    rw [degree_X_pow]
    exact degree_bitPoly_lt r
  rw [modulus,natDegree_add_eq_left_of_degree_lt h,natDegree_X_pow]

theorem coeff_bitPoly (v : BitVec n) {i : ℕ} (hi : i < n) :
    (bitPoly v).coeff i = if v.getMsbD i then 1 else 0 := by
  rw [bitPoly,finsetSum_coeff,sum_eq_single i]
  · split_ifs <;> simp
  · intro j _ hj
    split_ifs
    · rw [coeff_X_pow,if_neg hj.symm]
    · exact coeff_zero i
  · intro h
    exact absurd (mem_range.mpr hi) h

/-- Only the zero string stands for zero. -/
theorem toRing_eq_zero {r v : BitVec n} : toRing r v = 0 ↔ v = 0#n := by
  constructor
  · intro h
    have hpoly : bitPoly v = 0 := by
      rw [toRing,AdjoinRoot.mk_eq_zero] at h
      refine eq_zero_of_dvd_of_degree_lt h ?_
      rw [degree_eq_natDegree (modulus_monic r).ne_zero,modulus_natDegree]
      exact degree_bitPoly_lt v
    refine BitVec.eq_of_getMsbD_eq fun i hi => ?_
    have hcoeff := coeff_bitPoly v hi
    rw [hpoly,coeff_zero] at hcoeff
    cases hbit : v.getMsbD i with
    | false => simp
    | true => simp [hbit] at hcoeff
  · rintro rfl
    exact toRing_zero r

theorem toRing_injective (r : BitVec n) : Function.Injective (toRing r) := by
  intro a b h
  have hzero : toRing r (a ^^^ b) = 0 := by rw [toRing_xor,h,adjoinRoot_add_self]
  rw [toRing_eq_zero] at hzero
  exact BitVec.xor_eq_zero_iff.mp hzero

end Faithful

section Irreducible

variable {f : (ZMod 2)[X]} {k : ℕ}

/-- A polynomial whose degree is a power of two has no factor of at most half of it, if the root
comes back after so many squarings and, at half of them, differs from itself by a unit. -/
theorem not_dvd_of_squarings (hroot : AdjoinRoot.root f^2^2^(k+1) = AdjoinRoot.root f)
    (hunit : IsUnit (AdjoinRoot.root f^2^2^k-AdjoinRoot.root f)) {g : (ZMod 2)[X]}
    (hg : Irreducible g) (hdeg : g.natDegree ≤ 2^k) : ¬g ∣ f := by
  intro hdvd
  have hcard : Nat.card (ZMod 2) = 2 := Nat.card_zmod 2
  have hwhole : g.natDegree ∣ 2^(k+1) := by
    rw [hg.natDegree_dvd_iff_dvd_X_pow_card_pow_sub_X,hcard]
    refine hdvd.trans (AdjoinRoot.mk_eq_zero.mp ?_)
    rw [map_sub,map_pow,AdjoinRoot.mk_X,hroot,sub_self]
  have hhalf : g.natDegree ∣ 2^k := by
    obtain ⟨j,-,hj⟩ := (Nat.dvd_prime_pow Nat.prime_two).mp hwhole
    rw [hj] at hdeg ⊢
    exact Nat.pow_dvd_pow 2 ((Nat.pow_le_pow_iff_right (by decide)).mp hdeg)
  rw [hg.natDegree_dvd_iff_dvd_X_pow_card_pow_sub_X,hcard] at hhalf
  obtain ⟨b,hb⟩ := hunit.exists_right_inv
  obtain ⟨h,rfl⟩ := AdjoinRoot.mk_surjective b
  rw [← AdjoinRoot.mk_X,← map_pow,← map_sub,← map_mul,← map_one (AdjoinRoot.mk f),
    AdjoinRoot.mk_eq_mk] at hb
  exact hg.not_isUnit (isUnit_of_dvd_one
    ((dvd_sub_right (hhalf.mul_right h)).mp (hdvd.trans hb)))

theorem irreducible_of_squarings (hf : f.Monic) (hn : f.natDegree = 2^(k+1))
    (hroot : AdjoinRoot.root f^2^2^(k+1) = AdjoinRoot.root f)
    (hunit : IsUnit (AdjoinRoot.root f^2^2^k-AdjoinRoot.root f)) : Irreducible f := by
  have hone : f ≠ 1 := by
    rintro rfl
    rw [natDegree_one] at hn
    exact (pow_pos (by decide) _).ne hn
  rw [hf.irreducible_iff_lt_natDegree_lt hone]
  intro g hg hdeg hdvd
  rw [hn,mem_Ioc] at hdeg
  obtain ⟨h,hirr,hhg⟩ := WfDvdMonoid.exists_irreducible_factor
    (fun hu => hdeg.1.ne' (natDegree_eq_zero_of_isUnit hu)) hg.ne_zero
  refine not_dvd_of_squarings hroot hunit hirr ?_ (hhg.trans hdvd)
  have := natDegree_le_of_dvd hhg hg.ne_zero
  rw [pow_succ] at hdeg
  omega

end Irreducible

end ZZ9K.Math
