import ZZ9K.Crypto.BigNumMod
import ZZ9K.Crypto.P256Group
import ZZ9K.Math.Primality
import Mathlib.FieldTheory.Finite.Basic

namespace ZZ9K.Crypto

open ZZ9K.Math

section Primes

/-- The number that `p256_p` stands for -/
def p256Prime : Nat := 2^256-2^224+2^192+2^96-1

/-- The number that `p256_n` stands for -/
def p256Order : Nat := 0xffffffff00000000ffffffffffffffffbce6faada7179e84f3b9cac2fc632551

theorem p256P_value : bnNat p256P = p256Prime := by decide

theorem p256N_value : bnNat p256N = p256Order := by decide

def p256PrimeEntries : List LucasEntry :=
  [⟨6700417,5,[2,2,2,2,2,2,2,3,17449]⟩,
    ⟨204061199,11,[2,11,23,107,3769]⟩,
    ⟨34282281433,17,[2,2,2,3,7,204061199]⟩,
    ⟨66417393611,6,[2,5,53,173,197,3677]⟩,
    ⟨11290956913871,13,[2,5,17,66417393611]⟩,
    ⟨46076956964474543,5,[2,23,18169,78283,704251]⟩,
    ⟨774023187263532362759620327192479577272145303,3,[2,3,3,2411,34282281433,11290956913871,
      46076956964474543]⟩,
    ⟨835945042244614951780389953367877943453916927241,11,[2,2,2,3,3,3,5,
      774023187263532362759620327192479577272145303]⟩,
    ⟨115792089210356248762697446949407573530086143415290314195533631308867097853951,6,[2,3,5,5,17,
      257,641,1531,65537,490463,6700417,835945042244614951780389953367877943453916927241]⟩]

def p256OrderEntries : List LucasEntry :=
  [⟨9350987,2,[2,17,229,1201]⟩,
    ⟨187019741,2,[2,2,5,9350987]⟩,
    ⟨311245691,2,[2,5,7,17,29,29,311]⟩,
    ⟨622491383,5,[2,311245691]⟩,
    ⟨3969899,2,[2,19,104471]⟩,
    ⟨1002328039319,19,[2,126241,3969899]⟩,
    ⟨191039911,3,[2,3,5,41,155317]⟩,
    ⟨208150935158385979,2,[2,3,11,43,127,3023,191039911]⟩,
    ⟨2624747550333869278416773953,7,[2,2,2,2,2,2,3,3,1297,16879,208150935158385979]⟩,
    ⟨115792089210356248762697446949407573529996955224135760342422259061068512044369,7,[2,2,2,2,3,
      71,131,373,3407,17449,38189,187019741,622491383,1002328039319,2624747550333869278416773953]⟩]

instance p256Prime_prime : Fact p256Prime.Prime := by
  have h : certified [] p256PrimeEntries := by decide +kernel
  have hmem : p256Prime ∈ p256PrimeEntries.map (·.number) := by decide +kernel
  obtain ⟨e,he,heq⟩ := List.mem_map.mp hmem
  exact ⟨heq ▸ certified_prime (fun _ h => absurd h List.not_mem_nil) h e he⟩

instance p256Order_prime : Fact p256Order.Prime := by
  have h : certified [] p256OrderEntries := by decide +kernel
  have hmem : p256Order ∈ p256OrderEntries.map (·.number) := by decide +kernel
  obtain ⟨e,he,heq⟩ := List.mem_map.mp hmem
  exact ⟨heq ▸ certified_prime (fun _ h => absurd h List.not_mem_nil) h e he⟩

end Primes

section Element

/-- Limbs of a reduced element of the field -/
def IsFp (a : Bn) : Prop := a.length = 8 ∧ bnNat a < p256Prime

theorem p256Prime_bounds : 2^255 < p256Prime ∧ p256Prime < 2^256 := by decide

theorem p256P_length : p256P.length = 8 := rfl

variable {a b : Bn}

theorem limbs_lt (h : a.length = 8) : bnNat a < 2^256 := by
  have hlt := bnNat_lt a
  rwa [h] at hlt

theorem fpAdd_value (ha : IsFp a) (hb : IsFp b) :
    (fpAdd a b).length = 8 ∧ bnNat (fpAdd a b) = (bnNat a+bnNat b)%p256Prime := by
  obtain ⟨hal,hav⟩ := ha
  obtain ⟨hbl,hbv⟩ := hb
  obtain ⟨hp,hp'⟩ := p256Prime_bounds
  have hab : a.length = b.length := hal.trans hbl.symm
  obtain ⟨hsum,hcarry⟩ := bnAdd_value (c := 0) hab (by decide)
  have htl : (bnAdd a b 0).1.length = 8 := (bnAdd_length 0 hab).trans hal
  have ht := limbs_lt htl
  rw [fpAdd]
  generalize bnAdd a b 0 = s at *
  obtain ⟨t,c⟩ := s
  dsimp only at *
  have htp : t.length = p256P.length := htl
  obtain ⟨hdiff,hborrow⟩ := bnSub_value (c := 0) htp (by decide)
  have hdl : (bnSub t p256P 0).1.length = 8 := (bnSub_length 0 htp).trans htl
  have hd := limbs_lt hdl
  have hzero : c = 0 ↔ c.toNat = 0 := UInt32.toNat_inj.symm
  have hzero' : (0 : UInt32).toNat = 0 := rfl
  rw [hal,hzero'] at hsum
  rw [p256P_value,htl,hzero'] at hdiff
  have hbig : c ≠ 0 ∨ bnCmp t p256P ≠ .lt ↔ c.toNat ≠ 0 ∨ p256Prime ≤ bnNat t := by
    rw [ne_eq,ne_eq,bnCmp_lt htp,p256P_value,hzero,not_lt]
  split_ifs with hover
  all_goals rw [hbig] at hover
  · refine ⟨hdl,?_⟩
    rw [Nat.mod_eq_sub_mod (by omega),Nat.mod_eq_of_lt (by omega)]
    omega
  · refine ⟨htl,?_⟩
    rw [Nat.mod_eq_of_lt (by omega)]
    omega

theorem fpSub_value (ha : IsFp a) (hb : IsFp b) :
    (fpSub a b).length = 8 ∧ bnNat (fpSub a b) = (bnNat a+(p256Prime-bnNat b))%p256Prime := by
  obtain ⟨hal,hav⟩ := ha
  obtain ⟨hbl,hbv⟩ := hb
  obtain ⟨hp,hp'⟩ := p256Prime_bounds
  have hab : a.length = b.length := hal.trans hbl.symm
  obtain ⟨hdiff,hborrow⟩ := bnSub_value (c := 0) hab (by decide)
  have htl : (bnSub a b 0).1.length = 8 := (bnSub_length 0 hab).trans hal
  have ht := limbs_lt htl
  rw [fpSub]
  generalize bnSub a b 0 = s at *
  obtain ⟨t,c⟩ := s
  dsimp only at *
  have htp : t.length = p256P.length := htl
  obtain ⟨hsum,hcarry⟩ := bnAdd_value (c := 0) htp (by decide)
  have hdl : (bnAdd t p256P 0).1.length = 8 := (bnAdd_length 0 htp).trans htl
  have hd := limbs_lt hdl
  have hzero : c = 0 ↔ c.toNat = 0 := UInt32.toNat_inj.symm
  have hzero' : (0 : UInt32).toNat = 0 := rfl
  rw [hal,hzero'] at hdiff
  rw [p256P_value,htl,hzero'] at hsum
  split_ifs with hneg
  all_goals rw [ne_eq,hzero] at hneg
  · refine ⟨hdl,?_⟩
    rw [Nat.mod_eq_of_lt (by omega)]
    omega
  · refine ⟨htl,?_⟩
    rw [Nat.mod_eq_sub_mod (by omega),Nat.mod_eq_of_lt (by omega)]
    omega

theorem p256P_pos : 0 < bnNat p256P := by decide

theorem fpMul_value (a b : Bn) :
    (fpMul a b).length = 8 ∧ bnNat (fpMul a b) = bnNat a*bnNat b%p256Prime := by
  obtain ⟨hvalue,hlen⟩ := bnMulmod_value (m := p256P) a b p256P_pos
  rw [p256P_value] at hvalue
  exact ⟨hlen,hvalue⟩

theorem fpInv_value (a : Bn) :
    (fpInv a).length = 8 ∧ bnNat (fpInv a) = bnNat a^(p256Prime-2)%p256Prime := by
  have hexp : bnNat (bnSub p256P (p256Small 2) 0).1 = p256Prime-2 := by decide
  obtain ⟨hvalue,hlen⟩ := @bnModexp_value p256P a (bnSub p256P (p256Small 2) 0).1 256 p256P_pos
    (by decide) (by decide) (by decide)
  rw [p256P_value,hexp] at hvalue
  exact ⟨hlen,hvalue⟩

theorem fpIsZero_iff (a : Bn) : fpIsZero a = true ↔ bnNat a = 0 := by
  have hor : ∀ z,a.foldl (· ||| ·) z = 0 ↔ z = 0 ∧ bnNat a = 0 := by
    induction a with
    | nil => simp
    | cons a as ih =>
      intro z
      rw [List.foldl_cons,ih,UInt32.or_eq_zero_iff,bnNat_cons,← UInt32.toNat_inj (a := a)]
      simp [and_assoc]
  rw [fpIsZero,decide_eq_true_eq,hor]
  simp

theorem isFp_mod {x : Nat} (h : a.length = 8 ∧ bnNat a = x%p256Prime) : IsFp a := by
  have hp := p256Prime_bounds.1
  exact ⟨h.1,h.2 ▸ Nat.mod_lt x (by omega)⟩

end Element

section Ops

/-- The reduced elements -/
abbrev Fe := {a : Bn // IsFp a}

/-- The field -/
abbrev Fp := ZMod p256Prime

/-- What an element stands for -/
def feVal (a : Fe) : Fp := (bnNat a.1 : Fp)

/-- The field in limbs, on reduced elements -/
def feOps : FpOps Fe where
  add a b := ⟨fpAdd a.1 b.1,isFp_mod (fpAdd_value a.2 b.2)⟩
  sub a b := ⟨fpSub a.1 b.1,isFp_mod (fpSub_value a.2 b.2)⟩
  mul a b := ⟨fpMul a.1 b.1,isFp_mod (fpMul_value a.1 b.1)⟩
  isZero a := fpIsZero a.1
  same a b := bnCmp a.1 b.1 = .eq
  zero := ⟨p256Small 0,rfl,by decide⟩
  one := ⟨p256Small 1,rfl,by decide⟩

theorem feOps_limbs : feOps.Hom fpOps Subtype.val where
  add _ _ := rfl
  sub _ _ := rfl
  mul _ _ := rfl
  isZero _ := rfl
  same _ _ := rfl
  zero := rfl
  one := rfl

/-- Reduced numbers are the same if they stand for the same. -/
theorem feVal_inj {a b : Fe} : feVal a = feVal b ↔ bnNat a.1 = bnNat b.1 := by
  rw [feVal,feVal,ZMod.natCast_eq_natCast_iff',Nat.mod_eq_of_lt a.2.2,Nat.mod_eq_of_lt b.2.2]

theorem feVal_eq_zero {a : Fe} : feVal a = 0 ↔ bnNat a.1 = 0 := by
  rw [feVal,← Nat.cast_zero,ZMod.natCast_eq_natCast_iff',Nat.mod_eq_of_lt a.2.2,Nat.zero_mod]

theorem feOps_field : feOps.Hom (fieldOps Fp) feVal where
  add a b := by
    have h := (fpAdd_value a.2 b.2).2
    simp only [feVal,feOps,fieldOps,h,ZMod.natCast_mod,Nat.cast_add]
  sub a b := by
    have h := (fpSub_value a.2 b.2).2
    have hle : bnNat b.1 ≤ p256Prime := b.2.2.le
    simp only [feVal,feOps,fieldOps,h,ZMod.natCast_mod,Nat.cast_add,Nat.cast_sub hle,
      CharP.cast_eq_zero]
    ring
  mul a b := by
    have h := (fpMul_value a.1 b.1).2
    simp only [feVal,feOps,fieldOps,h,ZMod.natCast_mod,Nat.cast_mul]
  isZero a := by
    simp only [feOps,fieldOps,feVal_eq_zero,← fpIsZero_iff,Bool.decide_eq_true]
  same a b := by
    have h := bnCmp_eq (a.2.1.trans b.2.1.symm)
    simp only [feOps,fieldOps,feVal_inj,h]
  zero := by simp [feVal,feOps,fieldOps,p256Small]
  one := by simp [feVal,feOps,fieldOps,p256Small]

/-- `fp_inv` inverts, by the theorem of Fermat. -/
theorem fpInv_inv (a : Fe) : ((bnNat (fpInv a.1) : Nat) : Fp) = (feVal a)⁻¹ := by
  rw [(fpInv_value a.1).2,ZMod.natCast_mod,Nat.cast_pow]
  exact pow_sub_two (by decide) (feVal a)

end Ops

end ZZ9K.Crypto
