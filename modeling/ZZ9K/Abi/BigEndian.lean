import Mathlib.Data.UInt
import Mathlib.Data.Nat.Bitwise
import Mathlib.Tactic.Ring

namespace ZZ9K.Abi

/-- A big-endian 16-bit field of the wire format, lowest address first. -/
@[ext] structure Be16 where
  b0 : UInt8
  b1 : UInt8
  deriving DecidableEq, Repr

/-- A big-endian 32-bit field of the wire format, lowest address first. -/
@[ext] structure Be32 where
  b0 : UInt8
  b1 : UInt8
  b2 : UInt8
  b3 : UInt8
  deriving DecidableEq, Repr

/-- `zz9k_get_be16` -/
def getBe16 (b : Be16) : UInt16 := (b.b0.toUInt16 <<< 8) ||| b.b1.toUInt16

/-- `zz9k_get_be32` -/
def getBe32 (b : Be32) : UInt32 :=
  (b.b0.toUInt32 <<< 24) ||| (b.b1.toUInt32 <<< 16) ||| (b.b2.toUInt32 <<< 8) ||| b.b3.toUInt32

/-- `zz9k_put_be16` -/
def putBe16 (value : UInt16) : Be16 :=
  ⟨((value >>> 8) &&& 0xff).toUInt8,(value &&& 0xff).toUInt8⟩

/-- `zz9k_put_be32` -/
def putBe32 (value : UInt32) : Be32 :=
  ⟨((value >>> 24) &&& 0xff).toUInt8,((value >>> 16) &&& 0xff).toUInt8,
    ((value >>> 8) &&& 0xff).toUInt8,(value &&& 0xff).toUInt8⟩

/-- `zz9k_media_u64_from_be`, on the values of the two words -/
def mediaU64FromBe (hi lo : UInt32) : UInt64 := (hi.toUInt64 <<< 32) ||| lo.toUInt64

/-- The high word that `zz9k_media_u64_to_be` stores. -/
def mediaU64Hi (value : UInt64) : UInt32 := (value >>> 32).toUInt32

/-- The low word that `zz9k_media_u64_to_be` stores. -/
def mediaU64Lo (value : UInt64) : UInt32 := value.toUInt32

/-- The bytes carry the number most significant byte first. -/
theorem getBe32_toNat (b : Be32) : (getBe32 b).toNat =
    2^8*(2^8*(2^8*b.b0.toNat+b.b1.toNat)+b.b2.toNat)+b.b3.toNat := by
  have h0 := b.b0.toNat_lt
  have h1 := b.b1.toNat_lt
  have h2 := b.b2.toNat_lt
  have h3 := b.b3.toNat_lt
  have e0 : b.b0.toNat*2^24 % 2^32 = 2^24*b.b0.toNat := by
    rw [Nat.mul_comm,Nat.mod_eq_of_lt (by omega)]
  have e1 : b.b1.toNat*2^16 % 2^32 = 2^16*b.b1.toNat := by
    rw [Nat.mul_comm,Nat.mod_eq_of_lt (by omega)]
  have e2 : b.b2.toNat*2^8 % 2^32 = 2^8*b.b2.toNat := by
    rw [Nat.mul_comm,Nat.mod_eq_of_lt (by omega)]
  have s1 : 2^24*b.b0.toNat ||| 2^16*b.b1.toNat = 2^16*(2^8*b.b0.toNat+b.b1.toNat) := by
    rw [← Nat.two_pow_add_eq_or_of_lt (i := 24) (by omega)]
    ring
  have s2 : 2^16*(2^8*b.b0.toNat+b.b1.toNat) ||| 2^8*b.b2.toNat =
      2^8*(2^8*(2^8*b.b0.toNat+b.b1.toNat)+b.b2.toNat) := by
    rw [← Nat.two_pow_add_eq_or_of_lt (i := 16) (by omega)]
    ring
  have s3 := (Nat.two_pow_add_eq_or_of_lt (i := 8) (b := b.b3.toNat) (by omega)
    (2^8*(2^8*b.b0.toNat+b.b1.toNat)+b.b2.toNat)).symm
  simp only [getBe32,UInt32.toNat_or,UInt32.toNat_shiftLeft,UInt8.toNat_toUInt32,
    Nat.shiftLeft_eq,UInt32.reduceToNat,Nat.reduceMod]
  rw [e0,e1,e2,s1,s2,s3]

theorem getBe16_toNat (b : Be16) : (getBe16 b).toNat = 2^8*b.b0.toNat+b.b1.toNat := by
  have h0 := b.b0.toNat_lt
  have h1 := b.b1.toNat_lt
  have e0 : b.b0.toNat*2^8 % 2^16 = 2^8*b.b0.toNat := by omega
  have s1 := (Nat.two_pow_add_eq_or_of_lt (i := 8) (b := b.b1.toNat) (by omega) b.b0.toNat).symm
  simp only [getBe16,UInt16.toNat_or,UInt16.toNat_shiftLeft,UInt8.toNat_toUInt16,
    Nat.shiftLeft_eq,UInt16.reduceToNat,Nat.reduceMod]
  rw [e0,s1]

@[simp] theorem getBe32_putBe32 (v : UInt32) : getBe32 (putBe32 v) = v := by
  apply UInt32.toNat_inj.mp
  have hv := v.toNat_lt
  have mask (x : Nat) : x &&& 255 = x % 256 := Nat.and_two_pow_sub_one_eq_mod x 8
  rw [getBe32_toNat]
  simp only [putBe32,UInt32.toNat_toUInt8,UInt32.toNat_and,UInt32.toNat_shiftRight,
    Nat.shiftRight_eq_div_pow,UInt32.reduceToNat,Nat.reduceMod,mask]
  omega

@[simp] theorem getBe16_putBe16 (v : UInt16) : getBe16 (putBe16 v) = v := by
  apply UInt16.toNat_inj.mp
  have hv := v.toNat_lt
  have mask (x : Nat) : x &&& 255 = x % 256 := Nat.and_two_pow_sub_one_eq_mod x 8
  rw [getBe16_toNat]
  simp only [putBe16,UInt16.toNat_toUInt8,UInt16.toNat_and,UInt16.toNat_shiftRight,
    Nat.shiftRight_eq_div_pow,UInt16.reduceToNat,Nat.reduceMod,mask]
  omega

@[simp] theorem mediaU64_roundtrip (v : UInt64) :
    mediaU64FromBe (mediaU64Hi v) (mediaU64Lo v) = v := by
  apply UInt64.toNat_inj.mp
  have hv := v.toNat_lt
  have e0 : v.toNat / 2^32 % 2^32 * 2^32 % 2^64 = 2^32*(v.toNat / 2^32) := by omega
  have s1 := (Nat.two_pow_add_eq_or_of_lt (i := 32) (b := v.toNat % 2^32) (by omega)
    (v.toNat / 2^32)).symm
  simp only [mediaU64FromBe,mediaU64Hi,mediaU64Lo,UInt64.toNat_or,UInt64.toNat_shiftLeft,
    UInt32.toNat_toUInt64,UInt64.toNat_toUInt32,UInt64.toNat_shiftRight,
    Nat.shiftLeft_eq,Nat.shiftRight_eq_div_pow,UInt64.reduceToNat,Nat.reduceMod]
  rw [e0,s1]
  omega

end ZZ9K.Abi
