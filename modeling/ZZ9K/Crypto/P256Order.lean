import ZZ9K.Crypto.P256Field
import ZZ9K.Math.CurveOrder
import ZZ9K.Math.CubicRoot

namespace ZZ9K.Crypto

open ZZ9K.Math WeierstrassCurve.Affine

/-- The coefficient of the curve -/
def p256CurveB : Nat := bnNat p256B

/-- The curve secp256r1 -/
abbrev p256Curve : WeierstrassCurve.Affine Fp := threeCurve (p256CurveB : Fp)

section Numbers

/-- The field in numbers -/
def natOps : FpOps Nat where
  add a b := (a+b)%p256Prime
  sub a b := (a+(p256Prime-b%p256Prime))%p256Prime
  mul a b := a*b%p256Prime
  isZero a := a%p256Prime = 0
  same a b := a%p256Prime = b%p256Prime
  zero := 0
  one := 1

theorem p256Prime_pos : 0 < p256Prime := p256Prime_prime.out.pos

theorem natOps_field : natOps.Hom (fieldOps Fp) (fun x => (x : Fp)) where
  add a b := by simp only [natOps,fieldOps,ZMod.natCast_mod,Nat.cast_add]
  sub a b := by
    have hle : b%p256Prime ≤ p256Prime := (Nat.mod_lt b p256Prime_pos).le
    simp only [natOps,fieldOps,ZMod.natCast_mod,Nat.cast_add,Nat.cast_sub hle,CharP.cast_eq_zero]
    ring
  mul a b := by simp only [natOps,fieldOps,ZMod.natCast_mod,Nat.cast_mul]
  isZero a := by
    have h : (a : Fp) = 0 ↔ a%p256Prime = 0 := by
      rw [ZMod.natCast_eq_zero_iff,Nat.dvd_iff_mod_eq_zero]
    simp only [natOps,fieldOps,h]
  same a b := by
    have h : (a : Fp) = b ↔ a%p256Prime = b%p256Prime := ZMod.natCast_eq_natCast_iff' a b _
    simp only [natOps,fieldOps,h]
  zero := Nat.cast_zero.symm
  one := Nat.cast_one.symm

end Numbers

section Curve

theorem p256_two_ne_zero : (2 : Fp) ≠ 0 := by
  intro h
  have hdvd : p256Prime ∣ 2 := (ZMod.natCast_eq_zero_iff 2 p256Prime).mp (by exact_mod_cast h)
  exact absurd hdvd (by decide)

theorem p256_discriminant : p256Curve.Δ ≠ 0 := by
  have hΔ : p256Curve.Δ = ((432*4+432*(p256Prime-p256CurveB)*p256CurveB : Nat) : Fp) := by
    have hle : p256CurveB ≤ p256Prime := by decide
    have hp : (p256Prime : Fp) = 0 := CharP.cast_eq_zero Fp p256Prime
    rw [Nat.cast_add,Nat.cast_mul,Nat.cast_mul,Nat.cast_mul,Nat.cast_sub hle,hp]
    simp [p256Curve,threeCurve,WeierstrassCurve.Δ,WeierstrassCurve.b₂,WeierstrassCurve.b₄,
      WeierstrassCurve.b₆,WeierstrassCurve.b₈]
    ring
  rw [hΔ,Ne,ZMod.natCast_eq_zero_iff]
  decide

/-- The cubic of the curve has no root: what `x` to the power of the prime leaves differs from `x`
by a unit. -/
theorem p256_no_root (x : Fp) : x^3-3*x+p256CurveB ≠ 0 :=
  Quad.no_root
    (d := {c0 := 66434390973925144466073271287821796038003695194169110494110089305650096453661
           c1 := 12402202686218762177567235911775779164004716598278868847786114277539554646091
           c2 := 24678849118215552148312087830792888746041224110560601850711771001608500700145})
    (v := {c0 := 76626890310466861426869089647039036757962535851890885406097439786770458211455
           c1 := 74462945259064871768191128030512052509059297803194871526163573358218695456204
           c2 := 34768139465301476436978405170953382516735956999154666452188405812258086013549})
    (by decide +kernel) (by decide +kernel) x

/-- The base point -/
theorem p256G_equation :
    p256Curve.Equation ((bnNat p256Gx : Nat) : Fp) ((bnNat p256Gy : Nat) : Fp) := by
  have h : (bnNat p256Gy^2+3*bnNat p256Gx)%p256Prime =
      (bnNat p256Gx^3+p256CurveB)%p256Prime := by
    decide +kernel
  rw [← ZMod.natCast_eq_natCast_iff'] at h
  push_cast at h
  rw [threeCurve_equation]
  linear_combination h

def basePoint : p256Curve.Point :=
  .some _ _ ((equation_iff_nonsingular_of_Δ_ne_zero p256_discriminant).mp p256G_equation)

theorem basePoint_ne_zero : basePoint ≠ 0 := Point.some_ne_zero _

/-- The base point in numbers -/
def natG : Jac Nat := {X := bnNat p256Gx,Y := bnNat p256Gy,Z := 1}

theorem natG_stands : (natG.map fun x : Nat => (x : Fp)).Stands basePoint := by
  refine Jac.stands_some.mpr ⟨?_,?_,?_⟩
  · simp [Jac.map,natG]
  · simp [Jac.map,natG]
  · simp [Jac.map,natG]

theorem natG_order : (p256Scalar natOps p256Order.testBit natG).Z = 0 := by
  decide +kernel

theorem basePoint_order : p256Order • basePoint = 0 := by
  have hlt : p256Order < 2^256 := by decide
  have h := p256Scalar_stands p256_two_ne_zero natG_stands hlt fun _ _ => rfl
  rw [p256Scalar_map natOps_field] at h
  have hZ := congrArg (fun x : Nat => (x : Fp)) natG_order
  exact h.eq_zero_iff.mpr (hZ.trans Nat.cast_zero)

/-- The order of the group -/
theorem p256Order_nsmul (Q : p256Curve.Point) : p256Order • Q = 0 := by
  refine nsmul_eq_zero_of_prime p256Order_prime.out ?_ p256_two_ne_zero p256_no_root
    basePoint_ne_zero basePoint_order Q
  rw [ZMod.card]
  decide

/-- No multiple below the order is the point at infinity. -/
theorem nsmul_ne_zero {Q : p256Curve.Point} (hQ : Q ≠ 0) {d : Nat} (hd : 0 < d)
    (hlt : d < p256Order) : d • Q ≠ 0 := by
  intro h
  have hfact := p256Order_prime
  have horder : addOrderOf Q = p256Order := addOrderOf_eq_prime (p256Order_nsmul Q) hQ
  exact absurd (Nat.le_of_dvd hd (horder ▸ addOrderOf_dvd_of_nsmul_eq_zero h)) (by omega)

end Curve

end ZZ9K.Crypto
