import ZZ9K.Crypto.P256
import Mathlib.Algebra.Field.ZMod

namespace ZZ9K.Crypto

open ZZ9K.Math

section Represent

variable {α β : Type} {o : FpOps α} {o' : FpOps β} {f : α → β}

/-- One representation of the field as another -/
structure FpOps.Hom (o : FpOps α) (o' : FpOps β) (f : α → β) : Prop where
  add : ∀ a b,o'.add (f a) (f b) = f (o.add a b)
  sub : ∀ a b,o'.sub (f a) (f b) = f (o.sub a b)
  mul : ∀ a b,o'.mul (f a) (f b) = f (o.mul a b)
  isZero : ∀ a,o'.isZero (f a) = o.isZero a
  same : ∀ a b,o'.same (f a) (f b) = o.same a b
  zero : o'.zero = f o.zero
  one : o'.one = f o.one

variable (h : o.Hom o' f)
include h

theorem FpOps.Hom.sqr (a : α) : o'.sqr (f a) = f (o.sqr a) := h.mul a a

theorem p256Infinity_map : p256Infinity o' = (p256Infinity o).map f := by
  simp only [p256Infinity,Jac.map,h.zero,h.one]

theorem p256Double_map (P : Jac α) : p256Double o' (P.map f) = (p256Double o P).map f := by
  rw [p256Double,p256Double]
  simp only [Jac.map,h.isZero,h.add,h.sub,h.mul,h.sqr]
  split_ifs
  · exact p256Infinity_map h
  · rfl

theorem p256Add_map (P Q : Jac α) :
    p256Add o' (P.map f) (Q.map f) = (p256Add o P Q).map f := by
  have hdouble := p256Double_map h P
  rw [p256Add,p256Add]
  simp only [Jac.map,h.isZero,h.same,h.sub,h.mul,h.sqr] at hdouble ⊢
  split_ifs
  · rfl
  · rfl
  · exact p256Infinity_map h
  · exact hdouble
  · rfl

theorem p256Scalar_map (bit : Nat → Bool) (P : Jac α) :
    p256Scalar o' bit (P.map f) = (p256Scalar o bit P).map f := by
  rw [p256Scalar,p256Scalar,p256Infinity_map h]
  generalize p256Infinity o = acc
  generalize 256 = n
  induction n generalizing acc with
  | zero => rfl
  | succ n ih =>
    rw [scanBits,scanBits,← ih]
    congr 1
    rw [p256ScalarStep,p256ScalarStep,p256Double_map h]
    cases bit n with
    | false => rfl
    | true => exact p256Add_map h _ _

end Represent

section Group

variable {F : Type} [Field F] [DecidableEq F] {b : F}

/-- The field as its own representation -/
def fieldOps (F : Type) [Field F] [DecidableEq F] : FpOps F where
  add := (·+·)
  sub := (·-·)
  mul := (·*·)
  isZero a := a = 0
  same a b := a = b
  zero := 0
  one := 1

variable {T U : Jac F} {P Q : (threeCurve b).Point}

theorem p256Infinity_stands :
    (p256Infinity (fieldOps F)).Stands (0 : (threeCurve b).Point) := Jac.stands_zero.mpr rfl

/-- `p256_double` doubles the point. -/
theorem p256Double_stands (h2 : (2 : F) ≠ 0) (h : T.Stands P) :
    (p256Double (fieldOps F) T).Stands (P+P) := by
  rw [p256Double]
  split_ifs with hzero
  · rw [h.double_zero (by simpa [fieldOps] using hzero)]
    exact p256Infinity_stands
  · have hne : T.Z ≠ 0 ∧ T.Y ≠ 0 := by simpa [fieldOps] using hzero
    have hdouble := h.double h2 hne.1 hne.2
    suffices heq : p256Double (fieldOps F) T = T.double by
      rw [p256Double,if_neg hzero] at heq
      rw [heq]
      exact hdouble
    rw [p256Double,if_neg hzero]
    simp only [fieldOps,FpOps.sqr,Jac.double,Jac.mk.injEq]
    refine ⟨?_,?_,?_⟩ <;> ring

/-- `p256_add` adds the points, the same and opposite ones and the one at infinity too. -/
theorem p256Add_stands (h2 : (2 : F) ≠ 0) (hT : T.Stands P) (hU : U.Stands Q) :
    (p256Add (fieldOps F) T U).Stands (P+Q) := by
  by_cases hZT : T.Z = 0
  · have hP : P = 0 := hT.eq_zero_iff.mpr hZT
    rw [p256Add,if_pos (by simpa [fieldOps] using hZT),hP,zero_add]
    exact hU
  by_cases hZU : U.Z = 0
  · have hQ : Q = 0 := hU.eq_zero_iff.mpr hZU
    rw [p256Add,if_neg (by simpa [fieldOps] using hZT),if_pos (by simpa [fieldOps] using hZU),hQ,
      add_zero]
    exact hT
  rw [p256Add,if_neg (by simpa [fieldOps] using hZT),if_neg (by simpa [fieldOps] using hZU)]
  have hS1 : T.Y*U.Z*U.Z^2 = T.Y*U.Z^3 := by ring
  have hS2 : U.Y*T.Z*T.Z^2 = U.Y*T.Z^3 := by ring
  simp only [fieldOps,FpOps.sqr,decide_eq_true_eq,Bool.not_eq_true',decide_eq_false_iff_not,
    ← pow_two,ite_not]
  rw [hS1,hS2]
  split_ifs with hx hy
  · obtain rfl := (hT.add_same_x hU hZT hZU hx).1 hy
    exact p256Double_stands h2 hT
  · rw [(hT.add_same_x hU hZT hZU hx).2 hy]
    exact p256Infinity_stands
  · convert hT.add hU hZT hZU hx using 1
    simp only [Jac.add,Jac.mk.injEq]
    refine ⟨?_,?_,trivial⟩ <;> ring

/-- A round takes a multiple of the point to the next one. -/
theorem p256ScalarStep_stands (h2 : (2 : F) ≠ 0) (hT : T.Stands P) (bit : Bool) {k : Nat}
    (hU : U.Stands (k • P)) :
    (p256ScalarStep (fieldOps F) T bit U).Stands ((2*k+bit.toNat) • P) := by
  have hdouble := p256Double_stands h2 hU
  rw [← add_nsmul,← two_mul] at hdouble
  cases bit with
  | false => exact hdouble
  | true =>
    rw [Bool.toNat_true,succ_nsmul]
    exact p256Add_stands h2 hdouble hT

/-- `p256_scalar` multiplies the point by the scalar. -/
theorem p256Scalar_stands (h2 : (2 : F) ≠ 0) (hT : T.Stands P) {bit : Nat → Bool} {k : Nat}
    (hk : k < 2^256) (hbit : ∀ i < 256,bit i = k.testBit i) :
    (p256Scalar (fieldOps F) bit T).Stands (k • P) :=
  scanBits_of_lt (I := fun k (U : Jac F) => U.Stands (k • P)) hbit hk
    (fun _ bit _ hU => p256ScalarStep_stands h2 hT bit hU)
    (by rw [zero_nsmul]; exact p256Infinity_stands)

end Group

end ZZ9K.Crypto
