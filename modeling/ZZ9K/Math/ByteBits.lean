import Mathlib.Data.Nat.Bitwise
import Mathlib.Data.UInt

namespace ZZ9K.Math

/-- A bit of a byte, as a shift and a mask read it -/
theorem byte_bit (b : UInt8) {k : Nat} (hk : k < 8) :
    (b >>> k.toUInt8) &&& 1 ≠ 0 ↔ b.toNat.testBit k := by
  have hshift : k.toUInt8.toNat%8 = k := by
    rw [Nat.toUInt8_eq,UInt8.toNat_ofNat']
    omega
  have hone : (1 : UInt8).toNat = 1 := rfl
  rw [Ne,← UInt8.toNat_inj,UInt8.toNat_and,UInt8.toNat_shiftRight,hshift,hone,Nat.testBit,
    Nat.and_comm]
  simp

/-- Another bit of the byte is set: this one is what it was. -/
theorem byte_bit_mark (b : UInt8) {j k : Nat} (hj : j < 8) (hk : k < 8) :
    ((b ||| (1 <<< j.toUInt8)) >>> k.toUInt8) &&& 1 ≠ 0 ↔
      (b >>> k.toUInt8) &&& 1 ≠ 0 ∨ k = j := by
  have hshift : j.toUInt8.toNat%8 = j := by
    rw [Nat.toUInt8_eq,UInt8.toNat_ofNat']
    omega
  have hone : (1 : UInt8).toNat = 1 := rfl
  have hpow : 2^j < 2^8 := Nat.pow_lt_pow_right (by decide) hj
  have hmark : ((1 : UInt8) <<< j.toUInt8).toNat = 2^j := by
    rw [UInt8.toNat_shiftLeft,hshift,hone,Nat.one_shiftLeft]
    exact Nat.mod_eq_of_lt hpow
  rw [byte_bit _ hk,byte_bit _ hk,UInt8.toNat_or,hmark,Nat.testBit_or,Nat.testBit_two_pow,
    Bool.or_eq_true,decide_eq_true_eq]
  exact or_congr Iff.rfl eq_comm

end ZZ9K.Math
