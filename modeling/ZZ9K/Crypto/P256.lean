import ZZ9K.Crypto.BigNum
import ZZ9K.Math.JacobianCurve

namespace ZZ9K.Crypto

open ZZ9K.Math

/-- `p256_p`: the prime of the field -/
def p256P : Bn :=
  [0xFFFFFFFF,0xFFFFFFFF,0xFFFFFFFF,0x00000000,0x00000000,0x00000000,0x00000001,0xFFFFFFFF]

/-- `p256_n`: the order of the group -/
def p256N : Bn :=
  [0xFC632551,0xF3B9CAC2,0xA7179E84,0xBCE6FAAD,0xFFFFFFFF,0xFFFFFFFF,0x00000000,0xFFFFFFFF]

/-- `p256_b` -/
def p256B : Bn :=
  [0x27D2604B,0x3BCE3C3E,0xCC53B0F6,0x651D06B0,0x769886BC,0xB3EBBD55,0xAA3A93E7,0x5AC635D8]

/-- `p256_gx` -/
def p256Gx : Bn :=
  [0xD898C296,0xF4A13945,0x2DEB33A0,0x77037D81,0x63A440F2,0xF8BCE6E5,0xE12C4247,0x6B17D1F2]

/-- `p256_gy` -/
def p256Gy : Bn :=
  [0x37BF51F5,0xCBB64068,0x6B315ECE,0x2BCE3357,0x7C0F9E16,0x8EE7EB4A,0xFE1A7F9B,0x4FE342E2]

/-- A small number in the limbs of the field -/
def p256Small (x : UInt32) : Bn := [x,0,0,0,0,0,0,0]

/-- `fp_add` -/
def fpAdd (a b : Bn) : Bn :=
  let (t,c) := bnAdd a b 0
  if c ≠ 0 ∨ bnCmp t p256P ≠ .lt then (bnSub t p256P 0).1 else t

/-- `fp_sub` -/
def fpSub (a b : Bn) : Bn :=
  let (t,c) := bnSub a b 0
  if c ≠ 0 then (bnAdd t p256P 0).1 else t

/-- `fp_mul` -/
def fpMul (a b : Bn) : Bn := bnMulmod a b p256P

/-- `fp_inv` -/
def fpInv (a : Bn) : Bn := bnModexp a (bnSub p256P (p256Small 2) 0).1 256 p256P

/-- `fp_is_zero` -/
def fpIsZero (a : Bn) : Bool := a.foldl (· ||| ·) 0 = 0

/-- What the point functions use of the field, over some representation of its elements -/
structure FpOps (α : Type) where
  add : α → α → α
  sub : α → α → α
  mul : α → α → α
  isZero : α → Bool
  same : α → α → Bool
  zero : α
  one : α

/-- The field in limbs -/
def fpOps : FpOps Bn where
  add := fpAdd
  sub := fpSub
  mul := fpMul
  isZero := fpIsZero
  same a b := bnCmp a b = .eq
  zero := p256Small 0
  one := p256Small 1

section Points

variable {α : Type} (o : FpOps α)

/-- `fp_sqr` -/
def FpOps.sqr (a : α) : α := o.mul a a

/-- `p256_set_infinity` -/
def p256Infinity : Jac α := {X := o.one,Y := o.one,Z := o.zero}

/-- `p256_double` -/
def p256Double (P : Jac α) : Jac α :=
  if o.isZero P.Z || o.isZero P.Y then p256Infinity o
  else
    let Y2 := o.sqr P.Y
    let S := o.mul P.X Y2
    let S := o.add S S
    let S := o.add S S
    let t1 := o.sqr P.Z
    let t2 := o.sub P.X t1
    let t1 := o.add P.X t1
    let M := o.mul t2 t1
    let t1 := o.add M M
    let M := o.add t1 M
    let X3 := o.sub (o.sub (o.sqr M) S) S
    let t1 := o.sub S X3
    let Y3 := o.mul M t1
    let t2 := o.sqr Y2
    let t2 := o.add t2 t2
    let t2 := o.add t2 t2
    let t2 := o.add t2 t2
    let Y3 := o.sub Y3 t2
    let Z3 := o.mul P.Y P.Z
    let Z3 := o.add Z3 Z3
    {X := X3,Y := Y3,Z := Z3}

/-- `p256_add` -/
def p256Add (P Q : Jac α) : Jac α :=
  if o.isZero P.Z then Q
  else if o.isZero Q.Z then P
  else
    let Z1Z1 := o.sqr P.Z
    let Z2Z2 := o.sqr Q.Z
    let U1 := o.mul P.X Z2Z2
    let U2 := o.mul Q.X Z1Z1
    let S1 := o.mul (o.mul P.Y Q.Z) Z2Z2
    let S2 := o.mul (o.mul Q.Y P.Z) Z1Z1
    if o.same U1 U2 then
      if !o.same S1 S2 then p256Infinity o
      else p256Double o P
    else
      let H := o.sub U2 U1
      let R := o.sub S2 S1
      let H2 := o.sqr H
      let H3 := o.mul H2 H
      let U1H2 := o.mul U1 H2
      let X3 := o.sub (o.sub (o.sub (o.sqr R) H3) U1H2) U1H2
      let t := o.sub U1H2 X3
      let Y3 := o.mul R t
      let t := o.mul S1 H3
      let Y3 := o.sub Y3 t
      let Z3 := o.mul (o.mul H P.Z) Q.Z
      {X := X3,Y := Y3,Z := Z3}

/-- A round of `p256_scalar` -/
def p256ScalarStep (P : Jac α) (bit : Bool) (acc : Jac α) : Jac α :=
  let acc := p256Double o acc
  if bit then p256Add o acc P else acc

/-- `p256_scalar`, for the bits of a scalar -/
def p256Scalar (bit : Nat → Bool) (P : Jac α) : Jac α :=
  scanBits bit (p256ScalarStep o P) 256 (p256Infinity o)

end Points

/-- `p256_affine_x`, if the point is not the one at infinity -/
def p256AffineX (P : Jac Bn) : Option Bn :=
  if fpIsZero P.Z then none
  else
    let zinv := fpInv P.Z
    let zinv2 := fpOps.sqr zinv
    some (fpMul P.X zinv2)

/-- `p256_point_valid` -/
def p256PointValid (x y : Bn) : Bool :=
  if bnCmp x p256P ≠ .lt ∨ bnCmp y p256P ≠ .lt then false
  else
    let lhs := fpOps.sqr y
    let rhs := fpMul (fpOps.sqr x) x
    let threeX := fpAdd (fpAdd x x) x
    let rhs := fpSub rhs threeX
    let rhs := fpAdd rhs p256B
    bnCmp lhs rhs = .eq

/-- `p256_load_public` -/
def p256LoadPublic (publicPoint : List UInt8) : Option (Jac Bn) :=
  if publicPoint.getD 0 0 ≠ 0x04 then none
  else
    let X := bnFromBe 8 ((publicPoint.drop 1).take 32)
    let Y := bnFromBe 8 ((publicPoint.drop 33).take 32)
    if !p256PointValid X Y then none
    else some {X,Y,Z := p256Small 1}

/-- The base point, as the functions that use it set it up -/
def p256G : Jac Bn := {X := p256Gx,Y := p256Gy,Z := p256Small 1}

/-- Whether a scalar is in the range that the functions take: from 1 on and below `p256_n` -/
def p256InRange (d : Bn) : Bool := !(fpIsZero d || bnCmp d p256N ≠ .lt)

/-- `zz9k_soft_p256_ecdh`: the secret, if it returns 1 -/
def p256Ecdh (privateKey publicPoint : List UInt8) : Option (List UInt8) :=
  match p256LoadPublic publicPoint with
  | none => none
  | some Q =>
    let d := bnFromBe 8 privateKey
    if !p256InRange d then none
    else
      let R := p256Scalar fpOps (bnBit d) Q
      match p256AffineX R with
      | none => none
      | some x => some (bnToBe x)

/-- `zz9k_soft_p256_keygen`: the public point, if it returns 1 -/
def p256Keygen (privateKey : List UInt8) : Option (List UInt8) :=
  let d := bnFromBe 8 privateKey
  if !p256InRange d then none
  else
    let R := p256Scalar fpOps (bnBit d) p256G
    if fpIsZero R.Z then none
    else
      let zinv := fpInv R.Z
      let zinv2 := fpOps.sqr zinv
      let zinv3 := fpMul zinv2 zinv
      let x := fpMul R.X zinv2
      let y := fpMul R.Y zinv3
      some (0x04::(bnToBe x++bnToBe y))

/-- `zz9k_soft_ecdsa_verify_p256` -/
def ecdsaVerifyP256 (signatureR signatureS messageHash publicPoint : List UInt8) : Bool :=
  let r := bnFromBe 8 signatureR
  let s := bnFromBe 8 signatureS
  let z := bnFromBe 8 messageHash
  if !p256InRange r then false
  else if !p256InRange s then false
  else
    match p256LoadPublic publicPoint with
    | none => false
    | some Q =>
      let e := (bnSub p256N (p256Small 2) 0).1
      let w := bnModexp s e 256 p256N
      let u1 := bnMulmod z w p256N
      let u2 := bnMulmod r w p256N
      let R1 := p256Scalar fpOps (bnBit u1) p256G
      let R2 := p256Scalar fpOps (bnBit u2) Q
      let R := p256Add fpOps R1 R2
      match p256AffineX R with
      | none => false
      | some x => bnCmp (bnMod x p256N) r = .eq

end ZZ9K.Crypto
