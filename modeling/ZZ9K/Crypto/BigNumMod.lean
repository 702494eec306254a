import ZZ9K.Crypto.BigNumValue
import Mathlib.Data.Nat.ModEq

namespace ZZ9K.Crypto

open ZZ9K.Math

section Shift

/-- A limb of a shift: the bit that leaves it is the carry. -/
theorem shlLimb (a c : UInt32) (hc : c.toNat ≤ 1) :
    ((a <<< 1) ||| c).toNat = (2*a.toNat+c.toNat)%2^32 ∧
      (a >>> 31).toNat = (2*a.toNat+c.toNat)/2^32 := by
  have ha := a.toNat_lt
  have hone : (1 : UInt32).toNat%32 = 1 := rfl
  have hlast : (31 : UInt32).toNat%32 = 31 := rfl
  rw [UInt32.toNat_or,UInt32.toNat_shiftLeft,UInt32.toNat_shiftRight,hone,hlast,Nat.or_comm,
    or_shiftLeft (k := 1) (by omega) (by omega),Nat.shiftRight_eq_div_pow]
  omega

@[simp] theorem bnShl_length (a : Bn) (c : UInt32) : (bnShl a c).length = a.length := by
  induction a generalizing c with
  | nil => rfl
  | cons a as ih => simp [bnShl,ih]

theorem bnShl_value (a : Bn) {c : UInt32} (hc : c.toNat ≤ 1) :
    bnNat (bnShl a c) = (2*bnNat a+c.toNat)%2^(32*a.length) := by
  induction a generalizing c with
  | nil => simp [bnShl,Nat.mod_one]
  | cons a as ih =>
    have ha := a.toNat_lt
    obtain ⟨hlimb,hcarry⟩ := shlLimb a c hc
    have hlow : (2*(a.toNat+2^32*bnNat as)+c.toNat)%2^32 = (2*a.toNat+c.toNat)%2^32 := by omega
    have hhigh : (2*(a.toNat+2^32*bnNat as)+c.toNat)/2^32 =
        2*bnNat as+(2*a.toNat+c.toNat)/2^32 := by omega
    rw [bnShl,bnNat_cons,bnNat_cons,ih (by omega),List.length_cons,Nat.mul_succ,
      Nat.add_comm (32*as.length),pow_add,Nat.mod_mul,hlow,hhigh,hlimb,hcarry]

/-- The bit goes where the shift left room: it could have been shifted in. -/
theorem bnOrLow_bnShl (a : Bn) (bit : UInt32) : bnOrLow (bnShl a 0) bit = bnShl a bit := by
  cases a with
  | nil => rfl
  | cons a as => rw [bnShl,bnShl,bnOrLow,UInt32.or_zero]

end Shift

section Reduce

variable {m : Bn}

/-- A round keeps the remainder of the bits seen so far. -/
theorem bnModStep_value (hm : 0 < bnNat m) (bit : Bool) {k : Nat} {acc : Bn}
    (hlen : acc.length = m.length+1) (hacc : bnNat acc = k%bnNat m) :
    (bnModStep (m++[0]) bit acc).length = m.length+1 ∧
      bnNat (bnModStep (m++[0]) bit acc) = (2*k+bit.toNat)%bnNat m := by
  have hbit : (if bit then 1 else 0 : UInt32).toNat = bit.toNat := by cases bit <;> rfl
  have hone : bit.toNat ≤ 1 := Bool.toNat_le bit
  have hmm : bnNat (m++[0]) = bnNat m := by simp [bnNat_append]
  have hmlen : (m++[0]).length = m.length+1 := by simp
  have hmlt := bnNat_lt m
  have hlt : bnNat acc < bnNat m := hacc ▸ Nat.mod_lt k hm
  -- The limb more than the modulus has takes the bit that is shifted out.
  have hshift : bnNat (bnShl acc (if bit then 1 else 0)) = 2*bnNat acc+bit.toNat := by
    have hpow : 2^(32*acc.length) = 2^(32*m.length)*2^32 := by
      rw [hlen,Nat.mul_succ,pow_add]
    rw [bnShl_value acc (by omega),hbit,hpow,Nat.mod_eq_of_lt (by omega)]
  have hmod : (2*k+bit.toNat)%bnNat m = (2*bnNat acc+bit.toNat)%bnNat m := by
    rw [hacc]
    exact ((Nat.mod_modEq k (bnNat m)).mul_left 2).add_right bit.toNat |>.symm
  have hslen : (bnShl acc (if bit then 1 else 0)).length = (m++[0]).length := by
    rw [bnShl_length,hlen,hmlen]
  rw [bnModStep,bnOrLow_bnShl,hmod]
  generalize (if bit then 1 else 0 : UInt32) = low at *
  split_ifs with hcmp
  · rw [Ne,bnCmp_lt hslen,hshift,hmm,Nat.not_lt] at hcmp
    refine ⟨by rw [bnSub_length _ hslen,bnShl_length,hlen],?_⟩
    rw [bnSub_of_le hslen (by omega),hshift,hmm,Nat.mod_eq_sub_mod hcmp,Nat.mod_eq_of_lt (by omega)]
  · rw [not_not,bnCmp_lt hslen,hshift,hmm] at hcmp
    exact ⟨by rw [bnShl_length,hlen],by rw [hshift,Nat.mod_eq_of_lt hcmp]⟩

theorem bnMod_value (x : Bn) (hm : 0 < bnNat m) :
    bnNat (bnMod x m) = bnNat x%bnNat m ∧ (bnMod x m).length = m.length := by
  obtain ⟨hlen,hvalue⟩ := scanBits_of_lt
    (I := fun k (acc : Bn) => acc.length = m.length+1 ∧ bnNat acc = k%bnNat m)
    (fun i _ => bnBit_testBit x i) (lt_bnBitlen x)
    (fun k bit acc hI => bnModStep_value hm bit hI.1 hI.2)
    (s := List.replicate (m.length+1) 0) (by simp)
  have hlt := lt_trans (Nat.mod_lt (bnNat x) hm) (bnNat_lt m)
  rw [bnMod,bnNat_take,hvalue,List.length_take,hlen]
  exact ⟨Nat.mod_eq_of_lt hlt,by omega⟩

theorem bnMulmod_value (a b : Bn) (hm : 0 < bnNat m) :
    bnNat (bnMulmod a b m) = bnNat a*bnNat b%bnNat m ∧ (bnMulmod a b m).length = m.length := by
  rw [bnMulmod,← bnMul_value]
  exact bnMod_value _ hm

end Reduce

section Power

variable {m : Bn}

/-- After the bits `k` of the exponent, `acc` is the power to `k`, and reduced once a bit was set. -/
def IsPower (m : Bn) (base k : Nat) (acc : Bn) : Prop :=
  acc.length = m.length ∧ bnNat acc ≡ base^k [MOD bnNat m] ∧ (k ≠ 0 → bnNat acc < bnNat m)

theorem bnModexpStep_isPower (hm : 0 < bnNat m) {base k : Nat} {b acc : Bn}
    (hb : bnNat b ≡ base [MOD bnNat m]) (bit : Bool) (h : IsPower m base k acc) :
    IsPower m base (2*k+bit.toNat) (bnModexpStep b m bit acc) := by
  obtain ⟨-,hpow,-⟩ := h
  obtain ⟨hsquare,hlen⟩ := bnMulmod_value acc acc hm
  have hcong : bnNat (bnMulmod acc acc m) ≡ base^(2*k) [MOD bnNat m] := by
    rw [hsquare,two_mul,pow_add]
    exact (Nat.mod_modEq _ _).trans (hpow.mul hpow)
  rw [bnModexpStep]
  cases bit with
  | false => exact ⟨hlen,hcong,fun _ => hsquare ▸ Nat.mod_lt _ hm⟩
  | true =>
    obtain ⟨hprod,hplen⟩ := bnMulmod_value (bnMulmod acc acc m) b hm
    refine ⟨hplen,?_,fun _ => ?_⟩
    · rw [if_pos rfl,hprod,Bool.toNat_true,pow_succ]
      exact (Nat.mod_modEq _ _).trans (hcong.mul hb)
    · rw [if_pos rfl,hprod]
      exact Nat.mod_lt _ hm

/-- For an exponent that is not zero, in as many bits as are read -/
theorem bnModexp_value {base exp : Bn} {ebits : Nat} (hm : 0 < bnNat m)
    (hexp : exp.length ≤ (ebits+31)/32) (hbits : bnNat exp < 2^ebits) (hzero : bnNat exp ≠ 0) :
    bnNat (bnModexp base exp ebits m) = bnNat base^bnNat exp%bnNat m ∧
      (bnModexp base exp ebits m).length = m.length := by
  have hb : bnNat (bnMod base m) ≡ bnNat base [MOD bnNat m] := by
    rw [(bnMod_value base hm).1]
    exact Nat.mod_modEq _ _
  have hmlen : 0 < m.length := List.length_pos_of_ne_nil fun h => by simp [h] at hm
  obtain ⟨hlen,hpow,hlt⟩ := scanBits_of_lt (I := IsPower m (bnNat base))
    (fun i _ => bnBit_testBit exp i) hbits
    (fun k bit acc hI => bnModexpStep_isPower hm hb bit hI)
    (s := 1::List.replicate (m.length-1) 0)
    ⟨by simp; omega,by simpa using Nat.ModEq.refl 1,fun h => absurd rfl h⟩
  rw [bnModexp,List.take_of_length_le hexp]
  exact ⟨(Nat.mod_eq_of_lt (hlt hzero)).symm.trans hpow,hlen⟩

end Power

end ZZ9K.Crypto
