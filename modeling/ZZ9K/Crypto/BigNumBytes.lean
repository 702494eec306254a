import ZZ9K.Crypto.BigNumValue
import Mathlib.Tactic.NormNum

namespace ZZ9K.Crypto

/-- The number a byte string stands for, highest byte first -/
def beNat (bs : List UInt8) : Nat := leNat bs.reverse

/-- A number as so many bytes, highest first -/
def beBytes (n x : Nat) : List UInt8 := (leBytes n x).reverse

@[simp] theorem beBytes_length (n x : Nat) : (beBytes n x).length = n := by simp [beBytes]

theorem beNat_append (as bs : List UInt8) :
    beNat (as++bs) = beNat bs+256^bs.length*beNat as := by
  simp [beNat,leNat_append]

theorem beNat_lt (bs : List UInt8) : beNat bs < 256^bs.length := by
  simpa [beNat] using leNat_lt bs.reverse

theorem beNat_beBytes (n x : Nat) : beNat (beBytes n x) = x%256^n := by
  rw [beNat,beBytes,List.reverse_reverse,leNat_leBytes]

theorem beBytes_beNat (bs : List UInt8) : beBytes bs.length (beNat bs) = bs := by
  have h := leBytes_leNat bs.reverse
  rw [List.length_reverse] at h
  rw [beBytes,beNat,h,List.reverse_reverse]

theorem load32Be_toNat {p : List UInt8} (h : 4 ≤ p.length) :
    (load32Be p).toNat = beNat (p.take 4) := by
  match p,h with
  | a::b::c::d::rest,_ =>
    have ha := a.toNat_lt
    have hb := b.toNat_lt
    have hc := c.toNat_lt
    have hd := d.toNat_lt
    simp only [load32Be,List.getD_cons_zero,List.getD_cons_succ]
    rw [UInt32.or_comm,UInt32.or_comm (_ ||| _) (c.toUInt32 <<< 8),
      UInt32.or_comm (a.toUInt32 <<< 24),← UInt32.or_assoc,← UInt32.or_assoc]
    simp only [UInt32.toNat_or,UInt32.toNat_shiftLeft,UInt8.toNat_toUInt32,UInt32.reduceToNat,
      Nat.reduceMod]
    rw [or_shiftLeft (k := 8) hd (by omega),or_shiftLeft (k := 16) (by omega) (by omega),
      or_shiftLeft (k := 24) (by omega) (by omega)]
    simp [beNat]
    omega

@[simp] theorem bnFromBe_length (n : Nat) (be : List UInt8) : (bnFromBe n be).length = n := by
  induction n generalizing be with
  | zero => rfl
  | succ n ih => simp [bnFromBe,ih]

/-- Limbs from exactly as many bytes -/
theorem bnFromBe_value {n : Nat} {be : List UInt8} (h : be.length = 4*n) :
    bnNat (bnFromBe n be) = beNat be := by
  induction n generalizing be with
  | zero =>
    obtain rfl := List.length_eq_zero_iff.mp h
    rfl
  | succ n ih =>
    have hdrop : (be.drop 4).length = 4*n := by rw [List.length_drop]; omega
    have hpow : 2^(32*n) = 256^(be.drop 4).length := by
      rw [hdrop,show (256 : Nat) = 2^8 from rfl,← pow_mul]
      congr 1
      omega
    rw [bnFromBe,bnNat_append,ih hdrop,bnFromBe_length,bnNat_cons,bnNat_nil,
      load32Be_toNat (by omega),hpow,Nat.mul_zero,Nat.add_zero,← beNat_append,List.take_append_drop]

@[simp] theorem store32Be_length (v : UInt32) : (store32Be v).length = 4 := rfl

theorem beNat_store32Be (v : UInt32) : beNat (store32Be v) = v.toNat := by
  have hv := v.toNat_lt
  have hshift : ∀ {k : UInt32}, k.toNat < 32 →
      (v >>> k).toUInt8.toNat = v.toNat/2^k.toNat%2^8 := by
    intro k hk
    rw [UInt32.toNat_toUInt8,UInt32.toNat_shiftRight,Nat.mod_eq_of_lt hk,Nat.shiftRight_eq_div_pow]
  simp only [beNat,store32Be,List.reverse_cons,List.reverse_nil,List.nil_append,List.cons_append,
    leNat_cons,leNat_nil,UInt32.toNat_toUInt8]
  have h8 := hshift (k := 8) (by decide)
  have h16 := hshift (k := 16) (by decide)
  have h24 := hshift (k := 24) (by decide)
  simp only [UInt32.toNat_toUInt8,UInt32.reduceToNat] at h8 h16 h24
  rw [h8,h16,h24]
  omega

/-- The bytes of limbs are those of their number. -/
theorem bnToBe_eq (a : Bn) : bnToBe a = beBytes (4*a.length) (bnNat a) := by
  have hlen : (bnToBe a).length = 4*a.length := by
    induction a with
    | nil => rfl
    | cons a as ih =>
      rw [bnToBe] at ih
      rw [bnToBe,List.reverse_cons,List.flatMap_append,List.length_append,ih,List.flatMap_singleton,
        store32Be_length,List.length_cons,Nat.mul_succ]
  have hvalue : beNat (bnToBe a) = bnNat a := by
    clear hlen
    induction a with
    | nil => rfl
    | cons a as ih =>
      rw [bnToBe] at ih
      rw [bnToBe,List.reverse_cons,List.flatMap_append,List.flatMap_singleton,beNat_append,ih,
        beNat_store32Be,bnNat_cons,store32Be_length]
      norm_num
  rw [← hlen,← hvalue,beBytes_beNat]

end ZZ9K.Crypto
