import ZZ9K.Crypto.BigNumBytes
import ZZ9K.Crypto.BigNumMod
import ZZ9K.Framework.Reading

namespace ZZ9K.Crypto

open ZZ9K.Framework ZZ9K.Framework.Reading

/-- `sha256_digest_info` -/
def sha256DigestInfo : List UInt8 :=
  [0x30,0x31,0x30,0x0d,0x06,0x09,0x60,0x86,0x48,0x01,0x65,0x03,0x04,0x02,0x01,0x05,0x00,0x04,0x20]

/-- A loop that compares bytes of the block from `offset` on with given ones -/
def compareFrom : List UInt8 → Nat → Reading UInt8 Bool
  | [],_ => .ret true
  | d::ds,offset => .ask offset fun b => if b ≠ d then .ret false else compareFrom ds (offset+1)

/-- What follows the padding, of a block of `emlen` bytes -/
def rsaDigestCheck (emlen psEnd : Nat) (messageHash : List UInt8) : Reading UInt8 Bool :=
  let pos := psEnd+1
  if (emlen : Int)-pos ≠ 19+32 then return false
  else do
    let info ← compareFrom sha256DigestInfo pos
    if !info then return false
    else compareFrom messageHash (pos+19)

/-- The end of `zz9k_soft_rsa_verify_pkcs1_sha256`: the check of a decrypted block of `emlen` bytes -/
def rsaBlockCheck (emlen : Nat) (messageHash : List UInt8) : Reading UInt8 Bool :=
  .ask 0 fun b0 => if b0 ≠ 0 then .ret false
  else .ask 1 fun b1 => if b1 ≠ 1 then .ret false
  else do
    let run ← readWhile (· = 0xff) (emlen-2) 2
    let psEnd := 2+run.length
    if psEnd-2 < 8 then return false
    else if emlen ≤ psEnd then return false
    else .ask psEnd fun b => if b ≠ 0 then .ret false
    else rsaDigestCheck emlen psEnd messageHash

/-- `zz9k_soft_rsa_verify_pkcs1_sha256`: whether it returns 1, if no index leaves `em`. -/
def rsaVerifyPkcs1Sha256 (signature : List UInt8) (sigLen : UInt32) (messageHash n : List UInt8)
    (nBits e : UInt32) : Option Bool :=
  let limbs := (nBits/32).toNat
  let emlen := limbs*4
  if nBits = 0 ∨ nBits%32 ≠ 0 ∨ bnMaxLimbs < limbs then some false
  else if sigLen.toNat ≠ emlen then some false
  else
    let sig := bnFromBe limbs signature
    let mod := bnFromBe limbs n
    if bnCmp sig mod ≠ .lt then some false
    else
      let ebits := bnBitlen [e]
      if ebits = 0 then some false
      else
        let em := bnToBe (bnModexp sig [e] ebits mod)
        onBuffer em (rsaBlockCheck emlen messageHash)

/-- The one encoding of a hash in a block of `emlen` bytes -/
def pkcs1Encoding (emlen : Nat) (messageHash : List UInt8) : List UInt8 :=
  [0x00,0x01]++List.replicate (emlen-54) 0xff++[0x00]++sha256DigestInfo++messageHash

section Block

theorem onBuffer_compareFrom (data ds : List UInt8) (offset : Nat)
    (h : offset+ds.length ≤ data.length) : onBuffer data (compareFrom ds offset) =
      some (decide ((data.drop offset).take ds.length = ds)) := by
  induction ds generalizing offset with
  | nil => simp [compareFrom]
  | cons d ds ih =>
    rw [List.length_cons] at h
    have hlt : offset < data.length := by omega
    rw [compareFrom,onBuffer_ask data hlt,List.drop_eq_getElem_cons hlt,List.length_cons,
      List.take_succ_cons]
    by_cases hd : data[offset] = d
    · rw [if_neg (not_not.mpr hd),ih (offset+1) (by omega)]
      simp [hd]
    · rw [if_pos hd,onBuffer_ret]
      simp [hd]

theorem onBuffer_rsaDigestCheck {em messageHash : List UInt8} (hhash : messageHash.length = 32)
    (psEnd : Nat) : onBuffer em (rsaDigestCheck em.length psEnd messageHash) =
      some (decide (em.drop (psEnd+1) = sha256DigestInfo++messageHash)) := by
  have hinfo : sha256DigestInfo.length = 19 := rfl
  rw [rsaDigestCheck]
  split_ifs with hlen
  · have hne : em.drop (psEnd+1) ≠ sha256DigestInfo++messageHash := fun he => by
      have := congrArg List.length he
      rw [List.length_drop,List.length_append,hinfo,hhash] at this
      omega
    rw [decide_eq_false hne]
    rfl
  · rw [onBuffer_bind,onBuffer_compareFrom _ _ _ (by rw [hinfo]; omega),Option.bind_some]
    have hsplit : em.drop (psEnd+1) = sha256DigestInfo++messageHash ↔
        (em.drop (psEnd+1)).take 19 = sha256DigestInfo ∧ em.drop (psEnd+1+19) = messageHash := by
      have hdd : em.drop (psEnd+1+19) = (em.drop (psEnd+1)).drop 19 := by rw [List.drop_drop]
      rw [hdd]
      constructor
      · intro he
        rw [he,← hinfo,List.take_left,List.drop_left]
        exact ⟨rfl,rfl⟩
      · rintro ⟨htake,hdrop⟩
        rw [← htake,← hdrop,List.take_append_drop]
    rw [hinfo]
    by_cases htake : (em.drop (psEnd+1)).take 19 = sha256DigestInfo
    · have hall : (em.drop (psEnd+1+19)).take messageHash.length = em.drop (psEnd+1+19) :=
        List.take_of_length_le (by rw [List.length_drop]; omega)
      simp only [htake,decide_true,Bool.not_true,Bool.false_eq_true,if_false]
      rw [onBuffer_compareFrom _ _ _ (by omega),hall]
      simp only [hsplit,htake,true_and]
    · simp only [htake,decide_false,Bool.not_false,if_true]
      simp only [hsplit,htake,false_and,decide_false]
      rfl

/-- A run of one byte ends where another stands. -/
theorem takeWhile_run {c d : UInt8} (k : Nat) (l : List UInt8) (h : d ≠ c) :
    (List.replicate k c++d::l).takeWhile (· = c) = List.replicate k c := by
  induction k with
  | zero => simp [h]
  | succ k ih => simp [List.replicate_succ,ih]

/-- A run that fills what remains before `t` is the run that a scan finds. -/
theorem padded_iff {rest t : List UInt8} (ht : t.length = 51) :
    62 ≤ rest.length+2 ∧ rest = List.replicate (rest.length+2-54) 0xff++0::t ↔
      8 ≤ (rest.takeWhile (· = 0xff)).length ∧
        rest.drop (rest.takeWhile (· = 0xff)).length = 0::t := by
  have hsplit : rest.takeWhile (· = 0xff)++rest.drop (rest.takeWhile (· = 0xff)).length = rest := by
    have htake := List.prefix_iff_eq_take.mp (List.takeWhile_prefix (l := rest) (· = 0xff))
    have hsplit := List.take_append_drop (rest.takeWhile (· = 0xff)).length rest
    rw [← htake] at hsplit
    exact hsplit
  constructor
  · rintro ⟨hlen,hrest⟩
    have hrun : rest.takeWhile (· = 0xff) = List.replicate (rest.length+2-54) 0xff := by
      conv_lhs => rw [hrest]
      exact takeWhile_run _ t (by decide)
    rw [hrun,List.length_replicate]
    refine ⟨by omega,?_⟩
    have hdrop : (List.replicate (rest.length+2-54) (0xff : UInt8)++0::t).drop (rest.length+2-54) =
        0::t := List.drop_left' List.length_replicate
    rw [← hrest] at hdrop
    exact hdrop
  · rintro ⟨hrun,hdrop⟩
    have hall : rest.takeWhile (· = 0xff) =
        List.replicate (rest.takeWhile (· = 0xff)).length 0xff :=
      List.eq_replicate_of_mem fun b hb => by
        simpa using List.all_eq_true.mp List.all_takeWhile b hb
    rw [hdrop] at hsplit
    have hlen := congrArg List.length hsplit
    rw [List.length_append,List.length_cons,ht] at hlen
    refine ⟨by omega,?_⟩
    rw [show rest.length+2-54 = (rest.takeWhile (· = 0xff)).length by omega,← hall]
    exact hsplit.symm

/-- The parser accepts the one encoding, and its indices stay inside the block whatever is in it. -/
theorem onBuffer_rsaBlockCheck {em messageHash : List UInt8} (hem : 2 ≤ em.length)
    (hhash : messageHash.length = 32) : onBuffer em (rsaBlockCheck em.length messageHash) =
      some (decide (62 ≤ em.length ∧ em = pkcs1Encoding em.length messageHash)) := by
  match em,hem with
  | b0::b1::rest,_ =>
    have hT : (sha256DigestInfo++messageHash).length = 51 := by
      rw [List.length_append,hhash]
      rfl
    have henc : pkcs1Encoding (b0::b1::rest).length messageHash =
        0::1::(List.replicate (rest.length+2-54) 0xff++0::(sha256DigestInfo++messageHash)) := by
      simp [pkcs1Encoding]
    rw [henc,rsaBlockCheck,onBuffer_ask _ (by simp)]
    by_cases h0 : b0 = 0
    case neg => simp [h0]
    by_cases h1 : b1 = 1
    case neg => simp [h0,h1,onBuffer]
    subst h0 h1
    have hpadded := @padded_iff rest _ hT
    have hrun : onBuffer (0::1::rest) (readWhile (· = 0xff) ((0::1::rest).length-2) 2) =
        some (rest.takeWhile (· = 0xff)) := by
      rw [onBuffer_readWhile _ _ (by simp; omega)]
      simp
    have hle : (rest.takeWhile (· = 0xff)).length ≤ rest.length := (List.takeWhile_prefix _).length_le
    simp only [List.getElem_cons_zero,ne_eq,not_true_eq_false,if_false]
    rw [onBuffer_ask _ (by simp)]
    simp only [List.getElem_cons_succ,List.getElem_cons_zero,not_true_eq_false,if_false,
      List.cons.injEq,true_and,List.length_cons]
    rw [Bool.decide_congr hpadded,onBuffer_bind]
    rw [List.length_cons,List.length_cons] at hrun
    rw [hrun,Option.bind_some]
    generalize (rest.takeWhile (· = 0xff)).length = r at *
    rw [Nat.add_sub_cancel_left]
    split_ifs with hshort hfull
    · simp [hshort]
    · have : rest.drop r = [] := List.drop_eq_nil_of_le (by omega)
      simp [this]
    · have hlt : r < rest.length := by omega
      have hin : 2+r < (0::1::rest).length := by simp; omega
      have hget : (0::1::rest)[2+r] = rest[r] := by simp [Nat.add_comm 2 r]
      rw [onBuffer_ask _ hin,hget,List.drop_eq_getElem_cons hlt]
      by_cases hb : rest[r] = 0
      · have hcheck := @onBuffer_rsaDigestCheck (0::1::rest) _ hhash (2+r)
        have hdrop : (0::1::rest).drop (2+r+1) = rest.drop (r+1) := by
          rw [show 2+r+1 = r+1+1+1 by omega]
          rfl
        rw [hdrop] at hcheck
        rw [if_neg (not_not.mpr hb)]
        refine hcheck.trans ?_
        simp [hb,show 8 ≤ r by omega]
      · rw [if_pos hb,onBuffer_ret]
        have hne : rest.drop r ≠ 0::(sha256DigestInfo++messageHash) := by
          rw [List.drop_eq_getElem_cons hlt]
          exact fun h => hb (List.cons.inj h).1
        simp only [← List.drop_eq_getElem_cons hlt,hne,and_false,decide_false]

end Block

/-- What a verification accepts -/
structure RsaAccepts (signature : List UInt8) (sigLen : UInt32) (messageHash n : List UInt8)
    (nBits e : UInt32) : Prop where
  bits : nBits ≠ 0 ∧ 32 ∣ nBits.toNat ∧ nBits.toNat ≤ 4096
  length : sigLen.toNat = nBits.toNat/8 ∧ 62 ≤ sigLen.toNat
  exponent : e ≠ 0
  below : beNat signature < beNat n
  encoding : beBytes sigLen.toNat (beNat signature^e.toNat%beNat n) =
    pkcs1Encoding sigLen.toNat messageHash

/-- What the verification returns; `em` has as many bytes as the modulus. -/
theorem rsaVerify_result {signature messageHash n : List UInt8} {sigLen nBits e : UInt32}
    (hsig : signature.length = sigLen.toNat) (hn : n.length = nBits.toNat/8)
    (hhash : messageHash.length = 32) :
    ∃ b,rsaVerifyPkcs1Sha256 signature sigLen messageHash n nBits e = some b ∧
      (b = true ↔ RsaAccepts signature sigLen messageHash n nBits e) := by
  have hlimbs : (nBits/32).toNat = nBits.toNat/32 := by rw [UInt32.toNat_div]; rfl
  have hmod : nBits%32 = 0 ↔ nBits.toNat%32 = 0 := by
    rw [← UInt32.toNat_inj,UInt32.toNat_mod]
    rfl
  have hnz : nBits = 0 ↔ nBits.toNat = 0 := by
    rw [← UInt32.toNat_inj]
    rfl
  rw [rsaVerifyPkcs1Sha256]
  dsimp only
  rw [hlimbs]
  split_ifs with hbits hlen hcmp he
  · refine ⟨false,rfl,by simp,fun h => ?_⟩
    obtain ⟨hne,hdvd,hle⟩ := h.bits
    rw [Ne,hmod,bnMaxLimbs] at hbits
    rcases hbits with hzero | hrest
    · exact absurd hzero hne
    · omega
  · refine ⟨false,rfl,by simp,fun h => ?_⟩
    have := h.length.1
    have := h.bits.2.1
    omega
  all_goals
    rw [not_or,not_or,Ne,not_not,hmod,bnMaxLimbs,Nat.not_lt] at hbits
    rw [Ne,not_not] at hlen
    have hs := @bnFromBe_value (nBits.toNat/32) signature (by omega)
    have hm := @bnFromBe_value (nBits.toNat/32) n (by omega)
  · refine ⟨false,rfl,by simp,fun h => ?_⟩
    have := h.below
    rw [Ne,bnCmp_lt (by simp),hs,hm] at hcmp
    omega
  · refine ⟨false,rfl,by simp,fun h => ?_⟩
    have hlt := lt_bnBitlen [e]
    rw [he,bnNat_cons,bnNat_nil] at hlt
    exact absurd (UInt32.toNat_inj.mp (Nat.lt_one_iff.mp (by simpa using hlt))) h.exponent
  · have he0 : e ≠ 0 := fun h => he (by rw [h]; rfl)
    have hexp : bnNat [e] = e.toNat := by simp
    have hbelow : beNat signature < beNat n := by
      rwa [Ne,not_not,bnCmp_lt (by simp),hs,hm] at hcmp
    have hbig : nBits.toNat ≠ 0 := fun h => hbits.1 (hnz.mpr h)
    have hpos : 0 < bnNat (bnFromBe (nBits.toNat/32) n) := by omega
    obtain ⟨hvalue,hmlen⟩ := @bnModexp_value (bnFromBe (nBits.toNat/32) n)
      (bnFromBe (nBits.toNat/32) signature) [e] (bnBitlen [e]) hpos
      (by rw [List.length_singleton]; omega) (lt_bnBitlen [e])
      (by rw [hexp]; exact fun h => he0 (UInt32.toNat_inj.mp h))
    rw [bnFromBe_length] at hmlen
    rw [hs,hm,hexp] at hvalue
    have hem : bnToBe (bnModexp (bnFromBe (nBits.toNat/32) signature) [e] (bnBitlen [e])
        (bnFromBe (nBits.toNat/32) n)) =
        beBytes sigLen.toNat (beNat signature^e.toNat%beNat n) := by
      rw [bnToBe_eq,hvalue,hmlen,hlen,Nat.mul_comm]
    have hcheck := @onBuffer_rsaBlockCheck
      (beBytes sigLen.toNat (beNat signature^e.toNat%beNat n)) messageHash
      (by rw [beBytes_length]; omega) hhash
    rw [beBytes_length] at hcheck
    rw [hem,← hlen,hcheck]
    refine ⟨_,rfl,?_⟩
    rw [decide_eq_true_iff]
    constructor
    · rintro ⟨hshort,hblock⟩
      exact ⟨⟨hbits.1,by omega,by omega⟩,⟨by omega,hshort⟩,he0,hbelow,hblock⟩
    · intro h
      exact ⟨h.length.2,h.encoding⟩

/-- A signature is accepted exactly if it decrypts to the one encoding of the hash; the parser reads
inside every block it is given. -/
theorem rsaVerify_accepts (sigLen nBits e : UInt32) (signature : Vector UInt8 sigLen.toNat)
    (n : Vector UInt8 (nBits.toNat/8)) (messageHash : Vector UInt8 32) :
    (rsaVerifyPkcs1Sha256 signature.toList sigLen messageHash.toList n.toList nBits e = some true ↔
      RsaAccepts signature.toList sigLen messageHash.toList n.toList nBits e) ∧
    rsaVerifyPkcs1Sha256 signature.toList sigLen messageHash.toList n.toList nBits e ≠ none ∧
    ∀ em : List UInt8,2 ≤ em.length →
      onBuffer em (rsaBlockCheck em.length messageHash.toList) ≠ none := by
  obtain ⟨b,hresult,hb⟩ := @rsaVerify_result _ _ _ _ nBits e signature.length_toList
    n.length_toList messageHash.length_toList
  rw [hresult]
  refine ⟨by simpa using hb,by simp,fun em hem => ?_⟩
  rw [onBuffer_rsaBlockCheck hem messageHash.length_toList]
  simp

end ZZ9K.Crypto
