import ZZ9K.Crypto.Poly1305
import Mathlib.Data.Nat.Digits.Defs
import Mathlib.Data.Nat.ModEq
import Mathlib.Tactic.Ring

namespace ZZ9K.Crypto

/-- The number a byte string stands for, lowest byte first -/
def leNat (bs : List UInt8) : Nat := Nat.ofDigits 256 (bs.map UInt8.toNat)

@[simp] theorem leNat_nil : leNat [] = 0 := rfl

@[simp] theorem leNat_cons (b : UInt8) (bs : List UInt8) :
    leNat (b::bs) = b.toNat+256*leNat bs := by
  simp [leNat,Nat.ofDigits_cons]

theorem leNat_append (as bs : List UInt8) :
    leNat (as++bs) = leNat as+256^as.length*leNat bs := by
  simp [leNat,Nat.ofDigits_append]

theorem leNat_lt (bs : List UInt8) : leNat bs < 256^bs.length := by
  induction bs with
  | nil => simp
  | cons b bs ih =>
    have := b.toNat_lt
    rw [leNat_cons,List.length_cons,pow_succ]
    omega

/-- The number five limbs stand for -/
def Limbs.value (l : Limbs) : Nat :=
  l.l0.toNat+2^26*l.l1.toNat+2^52*l.l2.toNat+2^78*l.l3.toNat+2^104*l.l4.toNat

/-- Two parts of a word that do not overlap -/
theorem or_shiftLeft {x y k n : Nat} (hx : x < 2^k) (hk : k ≤ n) :
    x ||| (y <<< k) % 2^n = x+(y*2^k)%2^n := by
  have hmod : (y*2^k)%2^n = (y%2^(n-k))*2^k := by
    conv_lhs => rw [← Nat.sub_add_cancel hk,pow_add]
    rw [Nat.mul_mod_mul_right]
  rw [Nat.shiftLeft_eq,hmod,← Nat.shiftLeft_eq,Nat.or_comm,← Nat.shiftLeft_add_eq_or_of_lt hx,
    Nat.add_comm]

theorem toNat_low26 (x : UInt32) : (x &&& 0x3ffffff).toNat = x.toNat%2^26 := by
  rw [UInt32.toNat_and]
  exact Nat.and_two_pow_sub_one_eq_mod x.toNat 26

theorem load32Le_toNat (p : List UInt8) : (load32Le p).toNat =
    (p.getD 0 0).toNat+2^8*(p.getD 1 0).toNat+2^16*(p.getD 2 0).toNat+2^24*(p.getD 3 0).toNat := by
  have h0 := (p.getD 0 0).toNat_lt
  have h1 := (p.getD 1 0).toNat_lt
  have h2 := (p.getD 2 0).toNat_lt
  have h3 := (p.getD 3 0).toNat_lt
  simp only [load32Le,UInt32.toNat_or,UInt32.toNat_shiftLeft,UInt8.toNat_toUInt32,
    UInt32.reduceToNat,Nat.reduceMod]
  rw [or_shiftLeft (k := 8) h0 (by omega),or_shiftLeft (k := 16) (by omega) (by omega),
    or_shiftLeft (k := 24) (by omega) (by omega)]
  omega

/-- A word does not see what follows it. -/
theorem load32Le_take {p : List UInt8} {i n : Nat} (h : i+4 ≤ n) :
    load32Le ((p.take n).drop i) = load32Le (p.drop i) := by
  simp only [load32Le,List.getD_eq_getElem?_getD,List.getElem?_drop]
  rw [List.getElem?_take_of_lt (by omega),List.getElem?_take_of_lt (by omega),
    List.getElem?_take_of_lt (by omega),List.getElem?_take_of_lt (by omega)]

theorem leNat_load32Le {p : List UInt8} (h : 4 ≤ p.length) :
    leNat p = (load32Le p).toNat+2^32*leNat (p.drop 4) := by
  match p,h with
  | a::b::c::d::rest,_ =>
    rw [load32Le_toNat]
    simp
    omega

/-- The number of a 16 byte block, from its four words -/
theorem leNat_block {block : List UInt8} (h : block.length = 16) : leNat block =
    (load32Le block).toNat+2^32*(load32Le (block.drop 4)).toNat+
      2^64*(load32Le (block.drop 8)).toNat+2^96*(load32Le (block.drop 12)).toNat := by
  rw [leNat_load32Le (by omega),leNat_load32Le (p := block.drop 4) (by simp; omega),
    leNat_load32Le (p := (block.drop 4).drop 4) (by simp; omega),
    leNat_load32Le (p := ((block.drop 4).drop 4).drop 4) (by simp; omega)]
  simp only [List.drop_drop,Nat.reduceAdd]
  rw [List.drop_of_length_le (i := 16) (by omega),leNat_nil]
  omega

@[simp] theorem store32Le_length (v : UInt32) : (store32Le v).length = 4 := rfl

/-- Storing a word keeps its number. -/
theorem leNat_store32Le (v : UInt32) : leNat (store32Le v) = v.toNat := by
  have hv := v.toNat_lt
  have hbyte : ∀ x : UInt32, ((x &&& 0xff).toUInt8).toNat = x.toNat%2^8 := by
    intro x
    rw [UInt32.toNat_toUInt8,UInt32.toNat_and]
    have := Nat.and_two_pow_sub_one_eq_mod x.toNat 8
    rw [show (255 : UInt32).toNat = 2^8-1 from rfl,this,Nat.mod_mod]
  have hshift : ∀ {k : UInt32}, k.toNat < 32 → (v >>> k).toNat = v.toNat/2^k.toNat := by
    intro k hk
    rw [UInt32.toNat_shiftRight,Nat.mod_eq_of_lt hk]
    exact Nat.shiftRight_eq_div_pow _ _
  simp only [store32Le,leNat_cons,leNat_nil,hbyte]
  rw [hshift (k := 8) (by decide),hshift (k := 16) (by decide),hshift (k := 24) (by decide)]
  simp only [UInt32.reduceToNat]
  omega

/-- A word packed from the upper bits of one and the lower bits of the next -/
theorem toNat_pack (lo hi a b : UInt32) (ha : a.toNat < 32) (hb : b.toNat < 32)
    (h : lo.toNat/2^a.toNat < 2^b.toNat) : ((lo >>> a) ||| (hi <<< b)).toNat =
      lo.toNat/2^a.toNat+(hi.toNat*2^b.toNat)%2^32 := by
  rw [UInt32.toNat_or,UInt32.toNat_shiftRight,UInt32.toNat_shiftLeft,Nat.mod_eq_of_lt ha,
    Nat.mod_eq_of_lt hb,Nat.shiftRight_eq_div_pow,or_shiftLeft h (by omega)]

/-- The second piece of 26 bits of a number in words -/
theorem toNat_piece1 (lo hi : UInt32) : ((lo >>> 26) ||| (hi <<< 6)).toNat =
    lo.toNat/2^26+(hi.toNat*2^6)%2^32 := by
  have hlo := lo.toNat_lt
  exact toNat_pack lo hi 26 6 (by decide) (by decide) (by simp; omega)

/-- The third -/
theorem toNat_piece2 (lo hi : UInt32) : ((lo >>> 20) ||| (hi <<< 12)).toNat =
    lo.toNat/2^20+(hi.toNat*2^12)%2^32 := by
  have hlo := lo.toNat_lt
  exact toNat_pack lo hi 20 12 (by decide) (by decide) (by simp; omega)

/-- The fourth -/
theorem toNat_piece3 (lo hi : UInt32) : ((lo >>> 14) ||| (hi <<< 18)).toNat =
    lo.toNat/2^14+(hi.toNat*2^18)%2^32 := by
  have hlo := lo.toNat_lt
  exact toNat_pack lo hi 14 18 (by decide) (by decide) (by simp; omega)

/-- The fifth, with the bit above a full block -/
theorem toNat_piece4 {t hibit : UInt32} (hb : hibit = 0 ∨ hibit = fullBlockBit) :
    ((t >>> 8) ||| hibit).toNat = t.toNat/2^8+hibit.toNat := by
  have ht := t.toNat_lt
  have hshift : (t >>> 8).toNat = t.toNat/2^8 := by
    rw [UInt32.toNat_shiftRight]
    exact Nat.shiftRight_eq_div_pow _ _
  rw [UInt32.toNat_or,hshift]
  rcases hb with rfl | rfl
  · exact Nat.or_zero _
  · have hbit : fullBlockBit.toNat = (1 <<< 24)%2^32 := rfl
    rw [hbit,or_shiftLeft (k := 24) (by omega) (by omega),Nat.shiftLeft_eq]

end ZZ9K.Crypto
