import ZZ9K.Crypto.Poly1305Finish
import Mathlib.Algebra.BigOperators.Group.Finset.Basic
import Mathlib.Algebra.BigOperators.Intervals

namespace ZZ9K.Crypto

/-- A number as so many bytes, lowest first -/
def leBytes : Nat → Nat → List UInt8
  | 0,_ => []
  | n+1,x => UInt8.ofNat x::leBytes n (x/256)

@[simp] theorem leBytes_length (n x : Nat) : (leBytes n x).length = n := by
  induction n generalizing x with
  | zero => rfl
  | succ n ih => rw [leBytes,List.length_cons,ih]

theorem leNat_leBytes (n x : Nat) : leNat (leBytes n x) = x%256^n := by
  induction n generalizing x with
  | zero => rw [leBytes,leNat_nil,pow_zero,Nat.mod_one]
  | succ n ih =>
    rw [leBytes,leNat_cons,ih,pow_succ',Nat.mod_mul,UInt8.toNat_ofNat']

/-- The bytes of a given number are determined by how many there are. -/
theorem leBytes_leNat (bs : List UInt8) : leBytes bs.length (leNat bs) = bs := by
  induction bs with
  | nil => rfl
  | cons b bs ih =>
    have hb := b.toNat_lt
    rw [List.length_cons,leBytes,leNat_cons]
    have hdiv : (b.toNat+256*leNat bs)/256 = leNat bs := by omega
    have hbyte : UInt8.ofNat (b.toNat+256*leNat bs) = b := by
      apply UInt8.toNat_inj.mp
      rw [UInt8.toNat_ofNat']
      omega
    rw [hdiv,ih,hbyte]

/-- The bits that clamping keeps -/
def clampMask : Nat := 0x0ffffffc0ffffffc0ffffffc0fffffff

/-- `r` of a key -/
def clampedHalf (key : List UInt8) : Nat := leNat (key.take 16) &&& clampMask

/-- `s` of a key -/
def padHalf (key : List UInt8) : Nat := leNat (key.drop 16)

/-- Block `i` of a message, its 1 byte appended -/
def blockNumber (message : List UInt8) (i : Nat) : Nat :=
  leNat ((message.drop (16*i)).take 16++[1])

/-- How many blocks a message has -/
def blockCount (message : List UInt8) : Nat := (message.length+15)/16

/-- The polynomial of a message at `r` -/
def blockSum (message : List UInt8) (r : Nat) : Nat :=
  ∑ i ∈ Finset.range (blockCount message),blockNumber message i*r^(blockCount message-i)

/-- The tag as RFC 8439 defines it -/
def poly1305Tag (message key : List UInt8) : List UInt8 :=
  leBytes 16 ((blockSum message (clampedHalf key)%poly1305Prime+padHalf key)%2^128)

/-- Masking goes piece by piece. -/
theorem and_pieces {k a c b d : Nat} (ha : a < 2^k) (hc : c < 2^k) :
    (a+2^k*b) &&& (c+2^k*d) = (a &&& c)+2^k*(b &&& d) := by
  apply Nat.eq_of_testBit_eq
  intro i
  have hac : (a &&& c) < 2^k := lt_of_le_of_lt Nat.and_le_left ha
  rw [Nat.testBit_and,Nat.add_comm a,Nat.add_comm c,Nat.add_comm (a &&& c),
    Nat.testBit_two_pow_mul_add b ha,Nat.testBit_two_pow_mul_add d hc,
    Nat.testBit_two_pow_mul_add _ hac]
  split
  · exact (Nat.testBit_and a c i).symm
  · exact (Nat.testBit_and b d _).symm

/-- A mask of 26 bits sees only them. -/
theorem and_low26 (x : Nat) {m : Nat} (hm : m < 2^26) : x &&& m = x%2^26 &&& m := by
  rw [← Nat.and_two_pow_sub_one_eq_mod,Nat.and_assoc,Nat.and_comm (2^26-1),
    Nat.and_two_pow_sub_one_eq_mod,Nat.mod_eq_of_lt hm]

/-- `r` of the initial state is the clamped half of the key. -/
theorem poly1305Init_r {key : List UInt8} (h : key.length = 32) :
    Clamped (poly1305Init key).r ∧ (poly1305Init key).r.value = clampedHalf key := by
  have hword := @leNat_block (key.take 16) (by simp; omega)
  have hfirst := load32Le_take (p := key) (i := 0) (n := 16) (by omega)
  simp only [List.drop_zero] at hfirst
  rw [hfirst,load32Le_take (by omega),load32Le_take (by omega),load32Le_take (by omega)] at hword
  rw [clampedHalf,hword]
  unfold poly1305Init
  dsimp only
  generalize load32Le key = t0
  generalize load32Le (key.drop 4) = t1
  generalize load32Le (key.drop 8) = t2
  generalize load32Le (key.drop 12) = t3
  have h0 := t0.toNat_lt
  have h1 := t1.toNat_lt
  have h2 := t2.toNat_lt
  have h3 := t3.toNat_lt
  have e0 : (t0 &&& 0x3ffffff).toNat = t0.toNat%2^26 &&& 0x3ffffff := by
    rw [UInt32.toNat_and]
    exact and_low26 _ (by decide)
  have e1 : (((t0 >>> 26) ||| (t1 <<< 6)) &&& 0x3ffff03).toNat =
      (t0.toNat/2^26+t1.toNat*2^6%2^32)%2^26 &&& 0x3ffff03 := by
    rw [UInt32.toNat_and,toNat_piece1]
    exact and_low26 _ (by decide)
  have e2 : (((t1 >>> 20) ||| (t2 <<< 12)) &&& 0x3ffc0ff).toNat =
      (t1.toNat/2^20+t2.toNat*2^12%2^32)%2^26 &&& 0x3ffc0ff := by
    rw [UInt32.toNat_and,toNat_piece2]
    exact and_low26 _ (by decide)
  have e3 : (((t2 >>> 14) ||| (t3 <<< 18)) &&& 0x3f03fff).toNat =
      (t2.toNat/2^14+t3.toNat*2^18%2^32)%2^26 &&& 0x3f03fff := by
    rw [UInt32.toNat_and,toNat_piece3]
    exact and_low26 _ (by decide)
  have e4 : ((t3 >>> 8) &&& 0x00fffff).toNat = t3.toNat/2^8 &&& 0x00fffff := by
    rw [UInt32.toNat_and,UInt32.toNat_shiftRight,Nat.shiftRight_eq_div_pow]
    rfl
  constructor
  · constructor
    · rw [e0]
      exact lt_of_le_of_lt Nat.and_le_right (by decide)
    · rw [e1]
      exact lt_of_le_of_lt Nat.and_le_right (by decide)
    · rw [e2]
      exact lt_of_le_of_lt Nat.and_le_right (by decide)
    · rw [e3]
      exact lt_of_le_of_lt Nat.and_le_right (by decide)
    · rw [e4]
      exact lt_of_le_of_lt Nat.and_le_right (by decide)
  · have hpieces : t0.toNat+2^32*t1.toNat+2^64*t2.toNat+2^96*t3.toNat =
        t0.toNat%2^26+2^26*((t0.toNat/2^26+t1.toNat*2^6%2^32)%2^26+
          2^26*((t1.toNat/2^20+t2.toNat*2^12%2^32)%2^26+
            2^26*((t2.toNat/2^14+t3.toNat*2^18%2^32)%2^26+2^26*(t3.toNat/2^8)))) := by
      omega
    have hmask : clampMask = 0x3ffffff+2^26*(0x3ffff03+2^26*(0x3ffc0ff+
        2^26*(0x3f03fff+2^26*0x00fffff))) := by decide
    have hlow : ∀ x : Nat,x%2^26 < 2^26 := fun x => Nat.mod_lt x (by decide)
    rw [hpieces,hmask,and_pieces (hlow _) (by decide),and_pieces (hlow _) (by decide),
      and_pieces (hlow _) (by decide),and_pieces (hlow _) (by decide),Limbs.value]
    dsimp only
    rw [e0,e1,e2,e3,e4]
    ring

theorem poly1305Init_pad {key : List UInt8} (h : key.length = 32) :
    (poly1305Init key).padNat = padHalf key := by
  rw [padHalf,leNat_block (by simp; omega)]
  simp only [List.drop_drop,Nat.reduceAdd]
  rfl

theorem poly1305Init_h (key : List UInt8) :
    Carried (poly1305Init key).h ∧ (poly1305Init key).h.value = 0 := by
  have hzero : (poly1305Init key).h = ⟨0,0,0,0,0⟩ := rfl
  rw [hzero]
  constructor
  · constructor <;> decide
  · rfl

theorem leNat_zeros (n : Nat) : leNat (List.replicate n 0) = 0 := by
  induction n with
  | zero => rfl
  | succ n ih =>
    rw [List.replicate_succ,leNat_cons,ih]
    rfl

/-- What one step of `zz9k_soft_poly1305_update` does with the next block, full or partial -/
theorem poly1305Update_step (st : SoftPoly1305) {message : List UInt8} (hne : message ≠ []) :
    ∃ block hibit,(hibit = 0 ∨ hibit = fullBlockBit) ∧
      poly1305Update st message =
        poly1305Update (poly1305Block st block hibit) (message.drop 16) ∧
      blockNat block hibit = leNat (message.take 16++[1]) := by
  by_cases hfull : 16 ≤ message.length
  · refine ⟨message.take 16,fullBlockBit,.inr rfl,?_,?_⟩
    · rw [poly1305Update,if_pos hfull]
    · have hlen : (message.take 16).length = 16 := by simp; omega
      rw [leNat_append,leNat_block hlen,hlen,blockNat]
      rfl
  · have hpos : 0 < message.length := List.length_pos_of_ne_nil hne
    refine ⟨message++1::List.replicate (15-message.length) 0,0,.inl rfl,?_,?_⟩
    · rw [poly1305Update,if_neg hfull,if_pos hpos,List.drop_of_length_le (by omega)]
      rw [poly1305Update,if_neg (by simp),if_neg (by simp)]
    · have hlen : (message++1::List.replicate (15-message.length) 0).length = 16 := by
        simp
        omega
      have hblock := leNat_block hlen
      rw [blockNat,← hblock,List.take_of_length_le (by omega),leNat_append,leNat_append,leNat_cons,
        leNat_zeros]
      rfl

theorem blockCount_pos {message : List UInt8} (hne : message ≠ []) :
    blockCount message = blockCount (message.drop 16)+1 := by
  have hpos : 0 < message.length := List.length_pos_of_ne_nil hne
  rw [blockCount,blockCount,List.length_drop]
  omega

/-- The first block of the polynomial, and the polynomial of the rest -/
theorem blockSum_step {message : List UInt8} (hne : message ≠ []) (r : Nat) :
    blockSum message r = leNat (message.take 16++[1])*r^(blockCount (message.drop 16)+1)+
      blockSum (message.drop 16) r := by
  rw [blockSum,blockCount_pos hne,Finset.sum_range_succ',Nat.add_comm,blockSum]
  congr 1
  apply Finset.sum_congr rfl
  intro i hi
  have hdrop : 16*(i+1) = 16+16*i := by omega
  rw [blockNumber,blockNumber,hdrop,List.drop_drop,Nat.add_sub_add_right]

/-- The state of a key's tag while its message goes by -/
structure Keyed (key : List UInt8) (st : SoftPoly1305) : Prop where
  r : st.r = (poly1305Init key).r
  pad : st.padNat = (poly1305Init key).padNat
  h : Carried st.h

/-- One block keeps it, with no overflow, and is one step of Horner's rule. -/
theorem Keyed.block {key : List UInt8} (hk : key.length = 32) {st : SoftPoly1305}
    (hst : Keyed key st) (block : List UInt8) {hibit : UInt32}
    (hb : hibit = 0 ∨ hibit = fullBlockBit) :
    poly1305BlockWith st block hibit = some (poly1305Block st block hibit) ∧
      Keyed key (poly1305Block st block hibit) ∧
      (poly1305Block st block hibit).h.value ≡
        (st.h.value+blockNat block hibit)*clampedHalf key [MOD poly1305Prime] := by
  obtain ⟨hclamped,hr⟩ := poly1305Init_r hk
  rw [← hst.r] at hclamped hr
  obtain ⟨hsome,hsame,hcarried,hvalue⟩ :=
    (fits_block block hclamped hst.h hb).machine (agrees_block st block hibit)
  rw [hr] at hvalue
  refine ⟨hsome,⟨?_,?_,hcarried⟩,hvalue⟩
  · rw [← hst.r,← hsame]
    rfl
  · rw [← hst.pad,← hsame]
    rfl

/-- `zz9k_soft_poly1305_update` evaluates the polynomial. -/
theorem Keyed.update {key : List UInt8} (hk : key.length = 32) (message : List UInt8)
    {st : SoftPoly1305} (hst : Keyed key st) :
    Keyed key (poly1305Update st message) ∧ (poly1305Update st message).h.value ≡
      st.h.value*clampedHalf key^blockCount message+blockSum message (clampedHalf key)
        [MOD poly1305Prime] := by
  induction hn : message.length using Nat.strong_induction_on generalizing message st with
  | _ n ih =>
    by_cases hne : message = []
    · subst hne
      rw [poly1305Update,if_neg (by simp),if_neg (by simp)]
      refine ⟨hst,?_⟩
      simp [blockSum,blockCount,Nat.ModEq.refl]
    · obtain ⟨block,hibit,hb,hupdate,hnat⟩ := poly1305Update_step st hne
      obtain ⟨-,hkeyed,hvalue⟩ := hst.block hk block hb
      have hpos : 0 < message.length := List.length_pos_of_ne_nil hne
      obtain ⟨hrest,hmod⟩ := ih (message.drop 16).length (by simp; omega) (message.drop 16) hkeyed
        rfl
      rw [hupdate]
      refine ⟨hrest,?_⟩
      apply hmod.trans
      rw [blockSum_step hne,blockCount_pos hne,← hnat]
      apply ((hvalue.mul_right _).add_right _).trans
      rw [← Nat.add_assoc]
      apply Nat.ModEq.add_right
      unfold Nat.ModEq
      congr 1
      ring

/-- A state of the accumulator that some blocks lead to -/
inductive Reachable (key : List UInt8) : SoftPoly1305 → Prop
  | init : Reachable key (poly1305Init key)
  | block {st : SoftPoly1305} {hibit : UInt32} (block : List UInt8) :
      Reachable key st → hibit = 0 ∨ hibit = fullBlockBit →
        Reachable key (poly1305Block st block hibit)

theorem Reachable.keyed {key : List UInt8} (hk : key.length = 32) {st : SoftPoly1305}
    (h : Reachable key st) : Keyed key st := by
  induction h with
  | init => exact ⟨rfl,rfl,(poly1305Init_h key).1⟩
  | block block _ hb ih => exact (ih.block hk block hb).2.1

/-- `zz9k_soft_poly1305` puts out the tag of RFC 8439. -/
theorem poly1305_eq {key : List UInt8} (hk : key.length = 32) (message : List UInt8) :
    poly1305 message key = poly1305Tag message key := by
  obtain ⟨hcarried,hzero⟩ := poly1305Init_h key
  have hinit : Keyed key (poly1305Init key) := ⟨rfl,rfl,hcarried⟩
  obtain ⟨hkeyed,hvalue⟩ := hinit.update hk message
  rw [hzero,Nat.zero_mul,Nat.zero_add] at hvalue
  obtain ⟨hlen,htag⟩ := poly1305Finish_value hkeyed.h
  rw [hkeyed.pad,poly1305Init_pad hk,hvalue] at htag
  rw [poly1305Tag,poly1305,← leBytes_leNat (poly1305Finish _),hlen,htag]

/-- Software Poly1305 is the polynomial of its definition, and no word of a block's arithmetic
overflows in any state it reaches. -/
theorem poly1305_defined (key : Vector UInt8 32) (message : List UInt8) :
    poly1305 message key.toList = poly1305Tag message key.toList ∧
      ∀ st block hibit,Reachable key.toList st → hibit = 0 ∨ hibit = fullBlockBit →
        poly1305BlockWith st block hibit = some (poly1305Block st block hibit) := by
  have hk : key.toList.length = 32 := key.size_toArray
  refine ⟨poly1305_eq hk message,?_⟩
  intro st block hibit hst hb
  exact ((hst.keyed hk).block hk block hb).1

/-- The key of 32 ones, at its first block -/
theorem poly1305_defined_ones : poly1305BlockWith (poly1305Init (List.replicate 32 1)) [] 0 =
    some (poly1305Block (poly1305Init (List.replicate 32 1)) [] 0) :=
  (poly1305_defined (Vector.replicate 32 1) []).2 _ [] 0 .init (.inl rfl)

end ZZ9K.Crypto
