import ZZ9K.Crypto.Ghash

namespace ZZ9K.Crypto

open ZZ9K.Math

section Counter

theorem store32Be_eq (v : UInt32) : store32Be v = beBytes 4 v.toNat := by
  have h := beBytes_beNat (store32Be v)
  rw [beNat_store32Be,store32Be_length] at h
  exact h.symm

theorem nextCounter_length {counter : List UInt8} (h : counter.length = 16) :
    (nextCounter counter).length = 16 := by
  simp [nextCounter,h]

/-- The counter of the loop moves on as that of GCM. -/
theorem nextCounter_eq {counter : List UInt8} (h : counter.length = 16) :
    nextCounter counter = inc32 counter := by
  have hlow : (counter.drop 12).length = 4 := by simp [h]
  have hword : (load32Be (counter.drop 12)).toNat = beNat (counter.drop 12) := by
    rw [load32Be_toNat (by omega),List.take_of_length_le (by omega)]
  rw [nextCounter,inc32,store32Be_eq,UInt32.toNat_add,hword]
  rfl

theorem nextCounter_iterate {counter : List UInt8} (h : counter.length = 16) (q : Nat) :
    nextCounter (nextCounter^[q] counter) = inc32^[q] (inc32 counter) := by
  induction q generalizing counter with
  | zero => exact nextCounter_eq h
  | succ q ih =>
    rw [Function.iterate_succ_apply,Function.iterate_succ_apply,ih (nextCounter_length h),
      nextCounter_eq h]

/-- The loop is counter mode over the cipher. -/
theorem gcmCtrFrom_counterMode (c : AesCtx) (out input counter : List UInt8) (off : Nat) :
    gcmCtrFrom c out input counter off =
      counterMode 16 (fun s => aesEncryptBlock c (nextCounter s)) nextCounter (by decide) out input
        counter off := by
  induction hleft : input.length-off using Nat.strong_induction_on generalizing out counter off with
  | _ left ih =>
    rw [gcmCtrFrom,counterMode]
    split_ifs with hmore
    · exact ih _ (by omega) _ _ _ rfl
    · rfl

/-- The loop writes the text of GCTR. -/
theorem gcmCtrFrom_eq (c : AesCtx) {counter : List UInt8} (h : counter.length = 16)
    {input out : List UInt8} (hlen : out.length = input.length) :
    gcmCtrFrom c out input counter 0 = gctr (aesEncryptBlock c) (inc32 counter) input := by
  have hstream : ∀ i,keystream 16 (fun s => aesEncryptBlock c (nextCounter s)) nextCounter counter i =
      keystream 16 (aesEncryptBlock c) inc32 (inc32 counter) i := by
    intro i
    rw [keystream,keystream,nextCounter_iterate h]
  rw [gcmCtrFrom_counterMode,counterMode_eq _ (by omega),List.drop_of_length_le (by omega),
    List.append_nil,gctr,underKeystream,underKeystream]
  simp only [hstream]

end Counter

section Tag

variable {e : List UInt8 → List UInt8} {nonce aad ciphertext : List UInt8}

/-- The tag over whatever block of lengths -/
def gcmTagOver (e : List UInt8 → List UInt8) (nonce aad ciphertext lengths : List UInt8) :
    List UInt8 :=
  let h := toBlock (e (List.replicate 16 0))
  let s := ghash h (toBlocks (pad16 aad++pad16 ciphertext++lengths))
  blockBytes (s ^^^ toBlock (e (nonce++[0,0,0,1])))

@[simp] theorem gcmTagOver_length (lengths : List UInt8) :
    (gcmTagOver e nonce aad ciphertext lengths).length = 16 :=
  blockBytes_length _

/-- The hash of the data and the ciphertext, before the block of lengths -/
def gcmHash (h : BitVec 128) (aad ciphertext : List UInt8) : BitVec 128 :=
  ghash h (toBlocks (pad16 aad++pad16 ciphertext))

theorem ghash_lengths (h : BitVec 128) (aad ciphertext : List UInt8) {lengths : List UInt8}
    (hl : lengths.length = 16) :
    ghash h (toBlocks (pad16 aad++pad16 ciphertext++lengths)) =
      mulMod gcmRule (gcmHash h aad ciphertext ^^^ toBlock lengths) h := by
  have hpad : (pad16 aad++pad16 ciphertext).length%16 = 0 := by
    have ha := pad16_length aad
    have hc := pad16_length ciphertext
    rw [List.length_append]
    omega
  rw [toBlocks_append hpad,toBlocks_block hl,ghash,List.foldl_append]
  rfl

/-- Two blocks of lengths give one tag only under the zero hash key. -/
theorem gcmTagOver_inj {l l' : List UInt8} (hl : l.length = 16) (hl' : l'.length = 16)
    (hh : toBlock (e (List.replicate 16 0)) ≠ 0#128)
    (h : gcmTagOver e nonce aad ciphertext l = gcmTagOver e nonce aad ciphertext l') : l = l' := by
  have hfact : Fact (Irreducible (modulus gcmRule)) := ⟨gcm_irreducible⟩
  have hxor := congrArg toBlock h
  rw [gcmTagOver,gcmTagOver,toBlock_blockBytes,toBlock_blockBytes,BitVec.xor_left_inj,
    ghash_lengths _ _ _ hl,ghash_lengths _ _ _ hl'] at hxor
  have hring := congrArg (toRing gcmRule) hxor
  rw [toRing_mulMod,toRing_mulMod] at hring
  have hfactor := mul_right_cancel₀ (mt toRing_eq_zero.mp hh) hring
  have hblock := (BitVec.xor_right_inj _).mp (toRing_injective gcmRule hfactor)
  rw [← blockBytes_toBlock hl,hblock,blockBytes_toBlock hl']

/-- Under the zero hash key the lengths do not matter. -/
theorem gcmTagOver_zero {l l' : List UInt8} (hl : l.length = 16) (hl' : l'.length = 16)
    (hh : toBlock (e (List.replicate 16 0)) = 0#128) :
    gcmTagOver e nonce aad ciphertext l = gcmTagOver e nonce aad ciphertext l' := by
  have hzero : ∀ y : BitVec 128,mulMod gcmRule y 0#128 = 0#128 := fun y => by
    rw [← toRing_eq_zero (r := gcmRule),toRing_mulMod,toRing_zero,mul_zero]
  rw [gcmTagOver,gcmTagOver,ghash_lengths _ _ _ hl,ghash_lengths _ _ _ hl',hh,hzero,hzero]

end Tag

section Lengths

/-- The block of lengths of GCM -/
def gcmLengths (aad ciphertext : List UInt8) : List UInt8 :=
  beBytes 8 (8*aad.length)++beBytes 8 (8*ciphertext.length)

/-- A number of 32 bits in 8 bytes -/
theorem zero_store32Be (v : UInt32) : store32Be 0++store32Be v = beBytes 8 v.toNat := by
  have h := beBytes_beNat (store32Be 0++store32Be v)
  rw [beNat_append,beNat_store32Be,beNat_store32Be,List.length_append,store32Be_length,
    store32Be_length] at h
  simpa using h.symm

theorem toNat_bits {n : Nat} (h : n < 2^32) : (UInt32.ofNat n*8).toNat = 8*n%2^32 := by
  rw [UInt32.toNat_mul,UInt32.toNat_ofNat',Nat.mod_eq_of_lt h,Nat.mul_comm]
  rfl

theorem beBytes_inj {n x y : Nat} (hx : x < 256^n) (hy : y < 256^n) :
    beBytes n x = beBytes n y ↔ x = y := by
  constructor
  · intro h
    have hnat := congrArg beNat h
    rwa [beNat_beBytes,beNat_beBytes,Nat.mod_eq_of_lt hx,Nat.mod_eq_of_lt hy] at hnat
  · rintro rfl
    rfl

/-- The products of 32 bits hold the lengths up to 512 MiB. -/
theorem lengthBlock_eq {aad ciphertext : List UInt8} (ha : aad.length < 2^32)
    (hc : ciphertext.length < 2^32) :
    lengthBlock (UInt32.ofNat aad.length) (UInt32.ofNat ciphertext.length) =
        gcmLengths aad ciphertext ↔ aad.length < 2^29 ∧ ciphertext.length < 2^29 := by
  rw [lengthBlock,gcmLengths,List.append_assoc,zero_store32Be,zero_store32Be,toNat_bits ha,
    toNat_bits hc]
  constructor
  · intro h
    obtain ⟨haad,htext⟩ := List.append_inj h (by simp)
    rw [beBytes_inj (by omega) (by omega)] at haad htext
    omega
  · rintro ⟨haad,htext⟩
    rw [Nat.mod_eq_of_lt (by omega),Nat.mod_eq_of_lt (by omega)]

@[simp] theorem lengthBlock_length (a b : UInt32) : (lengthBlock a b).length = 16 := by
  simp [lengthBlock]

@[simp] theorem gcmLengths_length (aad ciphertext : List UInt8) :
    (gcmLengths aad ciphertext).length = 16 := by
  simp [gcmLengths]

end Lengths

section Core

variable {nonce aad : List UInt8}

theorem gcmTag_over (e : List UInt8 → List UInt8) (nonce aad ciphertext : List UInt8) :
    gcmTag e nonce aad ciphertext =
      gcmTagOver e nonce aad ciphertext (gcmLengths aad ciphertext) := by
  rw [gcmTag,gcmTagOver,gcmLengths]
  simp only [List.append_assoc]

/-- The end of the tag, from the hash so far -/
theorem core_tag (c : AesCtx) {y : List UInt8} {ciphertext lengths : List UInt8}
    (hy : y.length = 16) (hl : lengths.length = 16)
    (hhash : toBlock y =
      gcmHash (toBlock (aesEncryptBlock c (List.replicate 16 0))) aad ciphertext) :
    xorBytes 16 (ghashMul (xorBytes 16 y lengths) (aesEncryptBlock c (List.replicate 16 0)))
        (aesEncryptBlock c (nonce++[0,0,0,1])) =
      gcmTagOver (aesEncryptBlock c) nonce aad ciphertext lengths := by
  have he := aesEncryptBlock_length c
  obtain ⟨hlen,hmul⟩ := toBlock_ghashMul (xorBytes_length 16 y lengths)
    (he (List.replicate 16 0))
  rw [gcmTagOver,← blockBytes_toBlock (xorBytes_length 16 _ _),toBlock_xorBytes hlen (he _),hmul,
    toBlock_xorBytes hy hl,hhash]
  rw [ghash_lengths _ _ _ hl]

/-- What `zz9k_aes_gcm_core` computes: the hash is of the ciphertext in both orders. -/
theorem aesGcmCore_eq (c : AesCtx) (hn : nonce.length = 12) {input out : List UInt8}
    (hlen : out.length = input.length) (ghashFirst : Bool) :
    aesGcmCore c nonce aad input out ghashFirst =
      (gcmText (aesEncryptBlock c) nonce input,
        gcmTagOver (aesEncryptBlock c) nonce aad
          (if ghashFirst then input else gcmText (aesEncryptBlock c) nonce input)
          (lengthBlock (UInt32.ofNat aad.length) (UInt32.ofNat input.length))) := by
  have hfirst : firstCounter nonce = nonce++[0,0,0,1] := by
    rw [firstCounter,List.take_of_length_le (by omega)]
  have hctr := gcmCtrFrom_eq c (show (nonce++[0,0,0,1]).length = 16 by simp [hn]) hlen
  have htlen : (gcmText (aesEncryptBlock c) nonce input).length = input.length :=
    underKeystream_length _ _ _ _ _
  have he := aesEncryptBlock_length c (List.replicate 16 0)
  have hhash : ∀ ct : List UInt8,
      let y := ghashUpdate (ghashUpdate (List.replicate 16 0)
        (aesEncryptBlock c (List.replicate 16 0)) aad)
        (aesEncryptBlock c (List.replicate 16 0)) ct
      y.length = 16 ∧
        toBlock y = gcmHash (toBlock (aesEncryptBlock c (List.replicate 16 0))) aad ct := by
    intro ct
    obtain ⟨hylen,hyhash⟩ := toBlock_ghashUpdate (y := List.replicate 16 0) rfl he aad
    obtain ⟨hlen',hhash'⟩ := toBlock_ghashUpdate hylen he ct
    refine ⟨hlen',?_⟩
    rw [hhash',hyhash,gcmHash,ghash,toBlocks_append (pad16_length aad),List.foldl_append]
    rfl
  rw [aesGcmCore,hfirst,hctr]
  refine Prod.ext rfl ?_
  cases ghashFirst with
  | true => exact core_tag c (hhash input).1 (lengthBlock_length _ _) (hhash input).2
  | false =>
    have htake : (gcmText (aesEncryptBlock c) nonce input).take input.length =
        gcmText (aesEncryptBlock c) nonce input := List.take_of_length_le (by omega)
    have hct := hhash (gcmText (aesEncryptBlock c) nonce input)
    simp only [Bool.false_eq_true,if_false]
    rw [← gcmText,htake]
    exact core_tag c hct.1 (lengthBlock_length _ _) hct.2

end Core

section Aead

/-- The block cipher of a key -/
def aesCipher (key block : List UInt8) : List UInt8 :=
  match aesInit key with
  | some c => aesEncryptBlock c block
  | none => []

/-- What GCM demands of the two functions: `text` is the plaintext of the one and the ciphertext of
the other. -/
structure GcmConforms (key nonce aad text : List UInt8) : Prop where
  encrypt : ∀ out tag : List UInt8,out.length = text.length →
    aesGcmEncrypt out tag text aad key nonce = (1,gcmText (aesCipher key) nonce text,
      gcmTag (aesCipher key) nonce aad (gcmText (aesCipher key) nonce text))
  decrypt : ∀ out tag : List UInt8,out.length = text.length → tag.length = 16 →
    aesGcmDecrypt out text aad tag key nonce =
      if tag = gcmTag (aesCipher key) nonce aad text then (1,gcmText (aesCipher key) nonce text)
      else (0,List.replicate text.length 0)
  inverse : ∀ out out' tag : List UInt8,out.length = text.length → out'.length = text.length →
    let (_,ciphertext,tag) := aesGcmEncrypt out tag text aad key nonce
    aesGcmDecrypt out' ciphertext aad tag key nonce = (1,text)

variable {key nonce aad text : List UInt8}

theorem aesInit_some (h : key.length = 16 ∨ key.length = 32) :
    ∃ c,aesInit key = some c ∧ aesCipher key = aesEncryptBlock c := by
  have hlen : ¬(key.length ≠ 16 ∧ key.length ≠ 32) := by omega
  have hinit : ∃ c,aesInit key = some c := by
    rw [aesInit,if_neg hlen]
    exact ⟨_,rfl⟩
  obtain ⟨c,hc⟩ := hinit
  refine ⟨c,hc,?_⟩
  funext block
  rw [aesCipher,hc]

theorem gcmText_twice (e : List UInt8 → List UInt8) (nonce text : List UInt8) :
    gcmText e nonce (gcmText e nonce text) = text :=
  underKeystream_twice _ _ _ _ _

@[simp] theorem gcmText_length (e : List UInt8 → List UInt8) (nonce text : List UInt8) :
    (gcmText e nonce text).length = text.length :=
  underKeystream_length _ _ _ _ _

/-- The differences gather to zero just where there is none. -/
theorem byteDiff_eq_zero (expected tag : List UInt8) (n : Nat) :
    (List.range n).foldl (fun diff i => diff ||| (expected.getD i 0 ^^^ tag.getD i 0)) (0 : UInt8) =
      0 ↔ ∀ i < n,expected.getD i 0 = tag.getD i 0 := by
  induction n with
  | zero => simp
  | succ n ih =>
    rw [List.range_succ,List.foldl_append,List.foldl_cons,List.foldl_nil,UInt8.or_eq_zero_iff,ih,
      UInt8.xor_eq_zero_iff]
    constructor
    · rintro ⟨hbefore,hlast⟩ i hi
      by_cases h : i = n
      · rw [h]
        exact hlast
      · exact hbefore i (by omega)
    · intro hall
      exact ⟨fun i hi => hall i (by omega),hall n (by omega)⟩

/-- A loop that zeroes the first `n` bytes -/
theorem zeroFill (bs : List UInt8) {n : Nat} (h : n ≤ bs.length) :
    (List.range n).foldl (fun bs i => bs.set i 0) bs = List.replicate n 0++bs.drop n := by
  induction n with
  | zero => rfl
  | succ n ih =>
    rw [List.range_succ,List.foldl_append,List.foldl_cons,List.foldl_nil,ih (by omega),
      List.set_append_right _ _ (by simp),List.length_replicate,Nat.sub_self,
      List.drop_eq_getElem_cons (by omega),List.set_cons_zero,List.replicate_succ',List.append_assoc]
    rfl

theorem aesGcmEncrypt_eq (hkey : key.length = 16 ∨ key.length = 32) (hn : nonce.length = 12)
    (tag : List UInt8) {out : List UInt8} (hlen : out.length = text.length) :
    aesGcmEncrypt out tag text aad key nonce = (1,gcmText (aesCipher key) nonce text,
      gcmTagOver (aesCipher key) nonce aad (gcmText (aesCipher key) nonce text)
        (lengthBlock (UInt32.ofNat aad.length) (UInt32.ofNat text.length))) := by
  obtain ⟨c,hc,he⟩ := aesInit_some hkey
  rw [aesGcmEncrypt,hc,he]
  exact congrArg (1,·) (aesGcmCore_eq c hn hlen false)

theorem aesGcmDecrypt_eq (hkey : key.length = 16 ∨ key.length = 32) (hn : nonce.length = 12)
    {out tag : List UInt8} (hlen : out.length = text.length) (ht : tag.length = 16) :
    aesGcmDecrypt out text aad tag key nonce =
      if tag = gcmTagOver (aesCipher key) nonce aad text
          (lengthBlock (UInt32.ofNat aad.length) (UInt32.ofNat text.length)) then
        (1,gcmText (aesCipher key) nonce text)
      else (0,List.replicate text.length 0) := by
  obtain ⟨c,hc,he⟩ := aesInit_some hkey
  rw [aesGcmDecrypt,hc,he]
  dsimp only
  rw [aesGcmCore_eq c hn hlen true]
  dsimp only
  rw [if_pos rfl]
  have hsize : (gcmTagOver (aesEncryptBlock c) nonce aad text
      (lengthBlock (UInt32.ofNat aad.length) (UInt32.ofNat text.length))).length = 16 :=
    gcmTagOver_length _
  generalize gcmTagOver (aesEncryptBlock c) nonce aad text
    (lengthBlock (UInt32.ofNat aad.length) (UInt32.ofNat text.length)) = expected at *
  by_cases heq : tag = expected
  · rw [if_pos heq,if_neg (not_not.mpr ((byteDiff_eq_zero _ _ 16).mpr fun i _ => by rw [heq]))]
  · rw [if_neg heq,if_pos]
    · rw [zeroFill _ (by simp),List.drop_of_length_le (by simp),List.append_nil]
    · intro hzero
      refine heq (ext_getD (by omega) fun i hi => ?_)
      exact ((byteDiff_eq_zero _ _ 16).mp hzero i (by omega)).symm

/-- Where a length is 512 MiB or more the tag is over other lengths, and another one. -/
theorem not_gcmConforms (hkey : key.length = 16 ∨ key.length = 32) (hn : nonce.length = 12)
    (haad : aad.length < 2^32) (htext : text.length < 2^32)
    (hlong : ¬(aad.length < 2^29 ∧ text.length < 2^29))
    (hh : toBlock (aesCipher key (List.replicate 16 0)) ≠ 0#128) :
    ¬GcmConforms key nonce aad text := by
  intro hconforms
  have hencrypt := hconforms.encrypt text [] rfl
  rw [aesGcmEncrypt_eq hkey hn [] rfl,gcmTag_over] at hencrypt
  have htag := gcmTagOver_inj (lengthBlock_length _ _) (gcmLengths_length _ _) hh
    (congrArg (·.2.2) hencrypt)
  have hlen := gcmText_length (aesCipher key) nonce text
  rw [← hlen] at htag hlong htext
  exact hlong ((lengthBlock_eq haad htext).mp htag)

end Aead

end ZZ9K.Crypto
