import ZZ9K.Math.BitScan
import Mathlib.FieldTheory.Finite.Basic
import Mathlib.Tactic.LinearCombination

namespace ZZ9K.Math

/-- A polynomial `c0+c1*x+c2*x^2`, for a root of a cubic modulo `p` -/
structure Quad where
  c0 : Nat
  c1 : Nat
  c2 : Nat
  deriving DecidableEq

namespace Quad

/-- The product, where `x^3` is `3*x-b` -/
def mul (p b : Nat) (s t : Quad) : Quad :=
  let d0 := s.c0*t.c0
  let d1 := s.c0*t.c1+s.c1*t.c0
  let d2 := s.c0*t.c2+s.c1*t.c1+s.c2*t.c0
  let d3 := s.c1*t.c2+s.c2*t.c1
  let d4 := s.c2*t.c2
  {c0 := (d0+(p-b%p)*d3)%p,c1 := (d1+3*d3+(p-b%p)*d4)%p,c2 := (d2+3*d4)%p}

/-- A power of `x`, from the bits of the exponent -/
def powX (p b e : Nat) : Quad :=
  scanBits e.testBit
    (fun bit s => let s := mul p b s s; if bit then mul p b s {c0 := 0,c1 := 1,c2 := 0} else s)
    (e.log2+1) {c0 := 1,c1 := 0,c2 := 0}

variable {p b : Nat}

/-- The value at a root -/
def eval (r : ZMod p) (s : Quad) : ZMod p := s.c0+s.c1*r+s.c2*r^2

theorem eval_mul (hp : 0 < p) {r : ZMod p} (hr : r^3-3*r+b = 0) (s t : Quad) :
    (mul p b s t).eval r = s.eval r*t.eval r := by
  have hneg : ((p-b%p : Nat) : ZMod p) = -b := by
    rw [Nat.cast_sub (Nat.mod_lt b hp).le,CharP.cast_eq_zero,ZMod.natCast_mod,zero_sub]
  simp only [eval,mul,ZMod.natCast_mod,Nat.cast_add,Nat.cast_mul,hneg,Nat.cast_ofNat]
  linear_combination
    (-((s.c1 : ZMod p)*t.c2+s.c2*t.c1)-(s.c2 : ZMod p)*t.c2*r)*hr

theorem eval_powX (hp : 0 < p) {r : ZMod p} (hr : r^3-3*r+b = 0) (e : Nat) :
    (powX p b e).eval r = r^e := by
  refine scanBits_of_lt (I := fun k (s : Quad) => s.eval r = r^k) (fun _ _ => rfl)
    Nat.lt_log2_self ?_ (by simp [eval])
  intro k bit s hs
  have hsquare : (mul p b s s).eval r = r^(2*k) := by
    rw [eval_mul hp hr,hs,two_mul,pow_add]
  cases bit with
  | false => exact hsquare
  | true =>
    have hx : (Quad.mk 0 1 0).eval r = r := by simp [eval]
    rw [if_pos rfl,eval_mul hp hr,hsquare,hx,Bool.toNat_true,pow_succ]

/-- A root is its own power to `p`: where the difference of the two is a unit there is none. -/
theorem no_root [Fact p.Prime] {d v : Quad}
    (hd : powX p b p = {d with c1 := (d.c1+1)%p})
    (hv : mul p b v d = {c0 := 1,c1 := 0,c2 := 0}) (r : ZMod p) : r^3-3*r+b ≠ 0 := by
  intro hr
  have hp : 0 < p := (Fact.out : p.Prime).pos
  have hpow := eval_powX hp hr p
  rw [ZMod.pow_card,hd] at hpow
  have hzero : d.eval r = 0 := by
    simp only [eval,ZMod.natCast_mod,Nat.cast_add,Nat.cast_one] at hpow ⊢
    linear_combination hpow
  have hone := eval_mul hp hr v d
  rw [hzero,mul_zero,hv] at hone
  simp [eval] at hone

end Quad

end ZZ9K.Math
