import ZZ9K.Crypto.Rsa
import ZZ9K.Crypto.P256Field
import Mathlib.FieldTheory.Finite.Basic

namespace ZZ9K.Crypto

section Power

variable {p q k : Nat}

/-- A power of an exponent that is one modulo `p-1` is the number itself modulo `p`. -/
theorem pow_modEq_of_prime (hp : p.Prime) (hpos : 0 < k) (hk : p-1 ∣ k-1) (m : Nat) :
    m^k ≡ m [MOD p] := by
  have hfact : Fact p.Prime := ⟨hp⟩
  obtain ⟨j,hj⟩ := hk
  have hsplit : k = (p-1)*j+1 := by omega
  rw [← ZMod.natCast_eq_natCast_iff,Nat.cast_pow,hsplit,pow_succ,pow_mul]
  by_cases hzero : (m : ZMod p) = 0
  · rw [hzero,mul_zero]
  · rw [ZMod.pow_card_sub_one_eq_one hzero,one_pow,one_mul]

/-- The same modulo the product of two primes -/
theorem pow_modEq_of_primes (hp : p.Prime) (hq : q.Prime) (hne : p ≠ q)
    (hk : k % ((p-1)*(q-1)) = 1) (m : Nat) : m^k ≡ m [MOD p*q] := by
  have hcoprime : p.Coprime q := (Nat.coprime_primes hp hq).mpr hne
  have hpos : 0 < k := by
    rcases Nat.eq_zero_or_pos k with rfl | hpos
    · simp at hk
    · exact hpos
  have hdvd : (p-1)*(q-1) ∣ k-1 := by
    have hsub := @Nat.dvd_sub_mod ((p-1)*(q-1)) k
    rwa [hk] at hsub
  rw [← Nat.modEq_and_modEq_iff_modEq_mul hcoprime]
  exact ⟨pow_modEq_of_prime hp hpos (Dvd.dvd.trans (Nat.dvd_mul_right _ _) hdvd) m,
    pow_modEq_of_prime hq hpos (Dvd.dvd.trans (Nat.dvd_mul_left _ _) hdvd) m⟩

/-- What the two exponents do is undone by each other. -/
theorem pow_mod_eq_iff {e d m s : Nat} (hp : p.Prime) (hq : q.Prime) (hne : p ≠ q)
    (hed : e*d % ((p-1)*(q-1)) = 1) (hm : m < p*q) :
    (s < p*q ∧ s^e%(p*q) = m) ↔ s = m^d%(p*q) := by
  constructor
  · rintro ⟨hs,rfl⟩
    have hself := pow_modEq_of_primes hp hq hne hed s
    rw [pow_mul] at hself
    rw [← Nat.pow_mod]
    exact ((Nat.mod_eq_of_lt hs).symm.trans hself.symm)
  · rintro rfl
    have hself := pow_modEq_of_primes hp hq hne ((Nat.mul_comm d e) ▸ hed) m
    rw [pow_mul] at hself
    refine ⟨Nat.mod_lt _ (Nat.mul_pos hp.pos hq.pos),?_⟩
    rw [← Nat.pow_mod]
    exact (show _ % _ = _ % _ from hself).trans (Nat.mod_eq_of_lt hm)

end Power

theorem pkcs1Encoding_length {emlen : Nat} {hash : List UInt8} (hlen : 54 ≤ emlen)
    (hhash : hash.length = 32) : (pkcs1Encoding emlen hash).length = emlen := by
  simp only [pkcs1Encoding,sha256DigestInfo,List.length_append,List.length_replicate,
    List.length_cons,List.length_nil,hhash]
  omega

/-- Under a public key of two primes, the one signature of a hash is what the private exponent gives. -/
theorem rsaVerify_signature {p q d : Nat} (hp : p.Prime) (hq : q.Prime) (hne : p ≠ q)
    (sigLen nBits e : UInt32) (signature : Vector UInt8 sigLen.toNat)
    (n : Vector UInt8 (nBits.toNat/8)) (messageHash : Vector UInt8 32)
    (hn : beNat n.toList = p*q) (hed : e.toNat*d % ((p-1)*(q-1)) = 1)
    (hbits : 32 ∣ nBits.toNat ∧ nBits.toNat ≤ 4096)
    (hlength : sigLen.toNat = nBits.toNat/8 ∧ 62 ≤ sigLen.toNat)
    (hfits : beNat (pkcs1Encoding sigLen.toNat messageHash.toList) < p*q) :
    rsaVerifyPkcs1Sha256 signature.toList sigLen messageHash.toList n.toList nBits e = some true ↔
      beNat signature.toList = beNat (pkcs1Encoding sigLen.toNat messageHash.toList)^d%(p*q) := by
  obtain ⟨b,hresult,hb⟩ := @rsaVerify_result _ _ _ _ nBits e signature.length_toList
    n.length_toList messageHash.length_toList
  have henc : (pkcs1Encoding sigLen.toNat messageHash.toList).length = sigLen.toNat :=
    pkcs1Encoding_length (by omega) messageHash.length_toList
  have hsize : p*q ≤ 256^sigLen.toNat := by
    have hlt := beNat_lt n.toList
    rw [hn,n.length_toList,← hlength.1] at hlt
    exact Nat.le_of_lt hlt
  rw [hresult,Option.some_inj,hb,← pow_mod_eq_iff hp hq hne hed hfits]
  constructor
  · intro h
    have hencoding := congrArg beNat h.encoding
    rw [hn,beNat_beBytes,Nat.mod_eq_of_lt] at hencoding
    · exact ⟨hn ▸ h.below,hencoding⟩
    · exact Nat.lt_of_lt_of_le (Nat.mod_lt _ (Nat.mul_pos hp.pos hq.pos)) hsize
  · rintro ⟨hbelow,hpower⟩
    refine ⟨⟨?_,hbits⟩,hlength,?_,hn ▸ hbelow,?_⟩
    · rintro rfl
      rw [hlength.1] at hlength
      exact absurd hlength.2 (by decide)
    · rintro rfl
      rw [UInt32.toNat_zero,Nat.zero_mul,Nat.zero_mod] at hed
      exact absurd hed (by decide)
    · rw [hn,hpower]
      nth_rewrite 1 [← henc]
      exact beBytes_beNat _

/-- A public modulus of 512 bits -/
def smallModulus : Vector UInt8 64 :=
  ⟨(beBytes 64 (p256Prime*p256Order)).toArray,beBytes_length _ _⟩

/-- The exponent that undoes 7 for it -/
def sevenInverse : Nat :=
  0x4924924892492493249249240000000035f8d9e8d53277f402b978d5e912904d*2^256+
    0xb461e6215982e4910b2b51dcd7ebf0ca254f3245e9a95c4650281e6c02107cf7

theorem rsaVerify_signature_seven :
    rsaVerifyPkcs1Sha256 (Vector.replicate 64 0).toList 64 (Vector.replicate 32 0).toList
      smallModulus.toList 512 7 = some true ↔
        beNat (Vector.replicate 64 0).toList =
          beNat (pkcs1Encoding (64 : UInt32).toNat (Vector.replicate 32 0).toList)^sevenInverse%
            (p256Prime*p256Order) :=
  @rsaVerify_signature p256Prime p256Order sevenInverse p256Prime_prime.out p256Order_prime.out
    (by decide) 64 512 7 (Vector.replicate 64 0) smallModulus (Vector.replicate 32 0)
    ((beNat_beBytes 64 (p256Prime*p256Order)).trans (by decide)) (by decide +kernel) (by decide)
    (by decide) (by decide +kernel)

end ZZ9K.Crypto
