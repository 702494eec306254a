import ZZ9K.Crypto.LimbValue
import ZZ9K.Math.BitScan

namespace ZZ9K.Crypto

open ZZ9K.Math

/-- `BN_MAX_LIMBS` -/
def bnMaxLimbs : Nat := 128

/-- A number in 32-bit limbs, lowest first -/
abbrev Bn := List UInt32

/-- `bn_cmp`: the highest limbs that differ decide. -/
def bnCmp : Bn → Bn → Ordering
  | a::as,b::bs => (bnCmp as bs).then (compare a b)
  | _,_ => .eq

/-- `bn_add`, with the carry so far: the sum and the carry out -/
def bnAdd : Bn → Bn → UInt32 → Bn × UInt32
  | a::as,b::bs,carry =>
    let sum := a.toUInt64+b.toUInt64+carry.toUInt64
    let (r,out) := bnAdd as bs (sum >>> 32).toUInt32
    (sum.toUInt32::r,out)
  | _,_,carry => ([],carry)

/-- `bn_sub`, with the borrow so far: the difference and the borrow out -/
def bnSub : Bn → Bn → UInt32 → Bn × UInt32
  | a::as,b::bs,borrow =>
    let diff := a.toUInt64-b.toUInt64-borrow.toUInt64
    let (r,out) := bnSub as bs ((diff >>> 32) &&& 1).toUInt32
    (diff.toUInt32::r,out)
  | _,_,borrow => ([],borrow)

/-- The inner loop of `bn_mul`, over the limbs of `b` and those of the result from `i` on: the limb
behind them takes the last carry. -/
def bnMulRow (x : UInt32) : Bn → Bn → UInt64 → Bn
  | b::bs,r::rs,carry =>
    let carry := carry+(x.toUInt64*b.toUInt64+r.toUInt64)
    carry.toUInt32::bnMulRow x bs rs (carry >>> 32)
  | _,_::rs,carry => carry.toUInt32::rs
  | _,[],_ => []

/-- The outer loop of `bn_mul`, over the limbs of `a`, with the limbs of the result from `i` on -/
def bnMulLoop : Bn → Bn → Bn → Bn
  | a::as,b,r =>
    match bnMulRow a b r 0 with
    | c::r => c::bnMulLoop as b r
    | [] => []
  | [],_,r => r

/-- `bn_mul` -/
def bnMul (a b : Bn) : Bn := bnMulLoop a b (List.replicate (a.length+b.length) 0)

/-- `bn_bit` -/
def bnBit (a : Bn) (i : Nat) : Bool := (a.getD (i/32) 0 >>> (i%32).toUInt32) &&& 1 ≠ 0

/-- The inner loop of `bn_bitlen`: the highest of the lowest bits of a limb that is set -/
def limbBitlen (a : UInt32) : Nat → Nat
  | 0 => 0
  | b+1 => if (a >>> b.toUInt32) &&& 1 ≠ 0 then b+1 else limbBitlen a b

/-- `bn_bitlen`: the highest limb that is not zero decides. -/
def bnBitlen : Bn → Nat
  | [] => 0
  | a::as => if bnBitlen as ≠ 0 then bnBitlen as+32 else limbBitlen a 32

/-- The shift of `bn_mod`, with the carry so far -/
def bnShl : Bn → UInt32 → Bn
  | a::as,carry => ((a <<< 1) ||| carry)::bnShl as (a >>> 31)
  | [],_ => []

/-- A bit in the lowest place -/
def bnOrLow : Bn → UInt32 → Bn
  | a::as,bit => (a ||| bit)::as
  | [],_ => []

/-- One round of `bn_mod`: `acc` and `mm` have a limb more than the modulus. -/
def bnModStep (mm : Bn) (bit : Bool) (acc : Bn) : Bn :=
  let acc := bnOrLow (bnShl acc 0) (if bit then 1 else 0)
  if bnCmp acc mm ≠ .lt then (bnSub acc mm 0).1 else acc

/-- `bn_mod` -/
def bnMod (x m : Bn) : Bn :=
  (scanBits (bnBit x) (bnModStep (m++[0])) (bnBitlen x) (List.replicate (m.length+1) 0)).take
    m.length

/-- `bn_mulmod` -/
def bnMulmod (a b m : Bn) : Bn := bnMod (bnMul a b) m

/-- One round of `bn_modexp` -/
def bnModexpStep (b m : Bn) (bit : Bool) (acc : Bn) : Bn :=
  let acc := bnMulmod acc acc m
  if bit then bnMulmod acc b m else acc

/-- `bn_modexp` -/
def bnModexp (base exp : Bn) (ebits : Nat) (m : Bn) : Bn :=
  scanBits (bnBit (exp.take ((ebits+31)/32))) (bnModexpStep (bnMod base m) m) ebits
    (1::List.replicate (m.length-1) 0)

/-- A big-endian word -/
def load32Be (p : List UInt8) : UInt32 :=
  ((p.getD 0 0).toUInt32 <<< 24) ||| ((p.getD 1 0).toUInt32 <<< 16) |||
    ((p.getD 2 0).toUInt32 <<< 8) ||| (p.getD 3 0).toUInt32

/-- `bn_from_be` of `n` limbs: the first word is the highest. -/
def bnFromBe : Nat → List UInt8 → Bn
  | 0,_ => []
  | n+1,be => bnFromBe n (be.drop 4)++[load32Be be]

/-- A word in big-endian bytes -/
def store32Be (v : UInt32) : List UInt8 :=
  [(v >>> 24).toUInt8,(v >>> 16).toUInt8,(v >>> 8).toUInt8,v.toUInt8]

/-- `bn_to_be` -/
def bnToBe (a : Bn) : List UInt8 := a.reverse.flatMap store32Be

end ZZ9K.Crypto
