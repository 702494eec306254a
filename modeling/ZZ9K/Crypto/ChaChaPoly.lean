import ZZ9K.Crypto.ChaCha20
import ZZ9K.Crypto.CounterMode

namespace ZZ9K.Crypto

/-- `zz9k_soft_poly1305_aead_segment` -/
def aeadSegment (st : SoftPoly1305) (data : List UInt8) : SoftPoly1305 :=
  if 16 ≤ data.length then
    aeadSegment (poly1305Block st (data.take 16) fullBlockBit) (data.drop 16)
  else if 0 < data.length then
    poly1305Block st (data++List.replicate (16-data.length) 0) fullBlockBit
  else st
  termination_by data.length
  decreasing_by simp; omega

/-- `zz9k_soft_chacha20_poly1305_tag`; the upper half of `otk` is never written, nor read. -/
def chachaPolyTag (ciphertext aad key nonce : List UInt8) : List UInt8 :=
  let otk := chacha20Xor (List.replicate 64 0) (List.replicate 32 0) key nonce 0
  let st := poly1305Init otk
  let st := aeadSegment st aad
  let st := aeadSegment st ciphertext
  let lengths := store32Le (UInt32.ofNat aad.length)++store32Le 0++
    store32Le (UInt32.ofNat ciphertext.length)++store32Le 0
  poly1305Finish (poly1305Block st lengths fullBlockBit)

/-- `zz9k_soft_chacha20_poly1305_encrypt`: the ciphertext buffer as it leaves it, and the tag -/
def chachaPolyEncrypt (ciphertext plaintext aad key nonce : List UInt8) :
    List UInt8 × List UInt8 :=
  let ciphertext := chacha20Xor ciphertext plaintext key nonce 1
  (ciphertext,chachaPolyTag ciphertext aad key nonce)

/-- `zz9k_soft_chacha20_poly1305_decrypt`: its return code, and the plaintext buffer as it leaves
it -/
def chachaPolyDecrypt (plaintext ciphertext aad tag key nonce : List UInt8) :
    Nat × List UInt8 :=
  let expected := chachaPolyTag ciphertext aad key nonce
  let diff := (List.range 16).foldl
    (fun diff i => diff ||| (expected.getD i 0 ^^^ tag.getD i 0).toUInt32) (0 : UInt32)
  if diff ≠ 0 then (0,plaintext)
  else (1,chacha20Xor plaintext ciphertext key nonce 1)

/-- Zeros up to the next multiple of 16 bytes -/
def pad16 (data : List UInt8) : List UInt8 :=
  data++List.replicate ((16-data.length%16)%16) 0

/-- What RFC 8439 authenticates -/
def rfcMacData (aad ciphertext : List UInt8) : List UInt8 :=
  pad16 aad++pad16 ciphertext++leBytes 8 aad.length++leBytes 8 ciphertext.length

/-- The tag of RFC 8439 -/
def rfcTag (key nonce aad ciphertext : List UInt8) : List UInt8 :=
  poly1305Tag (rfcMacData aad ciphertext) ((rfcBlock key nonce 0).take 32)

/-- The loop is counter mode over the block function. -/
theorem chacha20XorFrom_counterMode (out input key nonce : List UInt8) (c : UInt32)
    (offset : Nat) : chacha20XorFrom out input key nonce c offset =
      counterMode 64 (chacha20Block key nonce) (·+1) (by decide) out input c offset := by
  induction hleft : input.length-offset using Nat.strong_induction_on
    generalizing out c offset with
  | _ left ih =>
    rw [chacha20XorFrom,counterMode]
    split_ifs with hmore
    · exact ih _ (by omega) _ _ _ rfl
    · rfl

theorem keystream_rfc {key nonce : List UInt8} (hk : key.length = 32) (hn : nonce.length = 12)
    (c : UInt32) (i : Nat) : keystream 64 (chacha20Block key nonce) (·+1) c i =
      rfcKeystream key nonce c.toBitVec i := by
  have hcounter : ∀ j,(·+1)^[j] c = c+UInt32.ofNat j := by
    intro j
    induction j with
    | zero => exact (UInt32.add_zero c).symm
    | succ j ih =>
      rw [Function.iterate_succ_apply',ih,UInt32.ofNat_add,UInt32.add_assoc]
      rfl
  rw [keystream,hcounter,chacha20Block_eq hk hn,rfcKeystream]
  rfl

theorem underKeystream_rfc {key nonce : List UInt8} (hk : key.length = 32)
    (hn : nonce.length = 12) (c : UInt32) (text : List UInt8) :
    underKeystream 64 (chacha20Block key nonce) (·+1) c text =
      rfcChaCha20 key nonce c.toBitVec text := by
  simp only [underKeystream,rfcChaCha20,keystream_rfc hk hn]

theorem rfcChaCha20_length (key nonce : List UInt8) (c : BitVec 32) (text : List UInt8) :
    (rfcChaCha20 key nonce c text).length = text.length := by
  rw [rfcChaCha20,List.length_mapIdx]

theorem rfcChaCha20_getD (key nonce : List UInt8) (c : BitVec 32) {text : List UInt8} {i : Nat}
    (hi : i < text.length) :
    (rfcChaCha20 key nonce c text).getD i 0 = text.getD i 0 ^^^ rfcKeystream key nonce c i := by
  rw [List.getD_eq_getElem _ _ (by rw [rfcChaCha20_length]; exact hi),List.getD_eq_getElem _ _ hi]
  simp [rfcChaCha20]

/-- `zz9k_soft_chacha20_xor` writes the text under the keystream to the head of its buffer. -/
theorem chacha20Xor_eq {key nonce : List UInt8} (hk : key.length = 32) (hn : nonce.length = 12)
    (c : UInt32) {input out : List UInt8} (hlen : input.length ≤ out.length) :
    chacha20Xor out input key nonce c =
      rfcChaCha20 key nonce c.toBitVec input++out.drop input.length := by
  rw [chacha20Xor,chacha20XorFrom_counterMode,counterMode_eq _ hlen,underKeystream_rfc hk hn]

/-- The same keystream twice gives the text back. -/
theorem rfcChaCha20_twice {key nonce : List UInt8} (hk : key.length = 32) (hn : nonce.length = 12)
    (c : UInt32) (text : List UInt8) :
    rfcChaCha20 key nonce c.toBitVec (rfcChaCha20 key nonce c.toBitVec text) = text := by
  rw [← underKeystream_rfc hk hn,← underKeystream_rfc hk hn,underKeystream_twice]

theorem poly1305Update_nil (st : SoftPoly1305) : poly1305Update st [] = st := by
  rw [poly1305Update,if_neg (by simp),if_neg (by simp)]

/-- A message of whole blocks goes by before the rest. -/
theorem poly1305Update_append {xs : List UInt8} (h : xs.length%16 = 0) (st : SoftPoly1305)
    (ys : List UInt8) :
    poly1305Update st (xs++ys) = poly1305Update (poly1305Update st xs) ys := by
  induction hn : xs.length using Nat.strong_induction_on generalizing xs st with
  | _ n ih =>
    by_cases hnil : xs = []
    · subst hnil
      rw [List.nil_append,poly1305Update_nil]
    · have hpos : 0 < xs.length := List.length_pos_of_ne_nil hnil
      have hfull : 16 ≤ xs.length := by omega
      rw [poly1305Update,if_pos (by simp; omega),List.take_append_of_le_length hfull,
        List.drop_append_of_le_length hfull]
      rw [ih (xs.drop 16).length (by simp; omega) (by simp; omega) _ rfl]
      rw [poly1305Update.eq_1 st xs,if_pos hfull]

theorem poly1305Update_block {block : List UInt8} (h : block.length = 16) (st : SoftPoly1305) :
    poly1305Update st block = poly1305Block st block fullBlockBit := by
  rw [poly1305Update,if_pos (by omega),List.take_of_length_le (by omega),
    List.drop_of_length_le (by omega),poly1305Update_nil]

theorem pad16_length (data : List UInt8) : (pad16 data).length%16 = 0 := by
  rw [pad16,List.length_append,List.length_replicate]
  omega

/-- A segment is its padded bytes, all of them full blocks. -/
theorem aeadSegment_eq (st : SoftPoly1305) (data : List UInt8) :
    aeadSegment st data = poly1305Update st (pad16 data) := by
  induction hn : data.length using Nat.strong_induction_on generalizing data st with
  | _ n ih =>
    rw [aeadSegment]
    by_cases hfull : 16 ≤ data.length
    · have hrest : (pad16 data).drop 16 = pad16 (data.drop 16) := by
        rw [pad16,pad16,List.drop_append_of_le_length hfull,List.length_drop]
        congr 3
        omega
      have hfirst : (pad16 data).take 16 = data.take 16 := by
        rw [pad16,List.take_append_of_le_length hfull]
      have hlong : 16 ≤ (pad16 data).length := by
        rw [pad16,List.length_append]
        omega
      rw [if_pos hfull,ih (data.drop 16).length (by simp; omega) _ _ rfl,
        poly1305Update.eq_1 st (pad16 data),if_pos hlong,hfirst,hrest]
    · rw [if_neg hfull]
      by_cases hpos : 0 < data.length
      · have hpad : pad16 data = data++List.replicate (16-data.length) 0 := by
          rw [pad16]
          congr 2
          omega
        rw [if_pos hpos,← hpad,poly1305Update_block]
        rw [hpad,List.length_append,List.length_replicate]
        omega
      · have hnil : data = [] := List.length_eq_zero_iff.mp (by omega)
        subst hnil
        rw [if_neg hpos]
        exact (poly1305Update_nil st).symm

/-- A 32 bit length as the 64 bit length it stands for -/
theorem lengthBytes {n : Nat} (h : n < 2^32) :
    store32Le (UInt32.ofNat n)++store32Le 0 = leBytes 8 n := by
  have hnat : leNat (store32Le (UInt32.ofNat n)++store32Le 0) = n := by
    rw [leNat_append,leNat_store32Le,leNat_store32Le,UInt32.toNat_ofNat_of_lt' h]
    simp
  conv_rhs => rw [← hnat]
  exact (leBytes_leNat _).symm

/-- The key of a tag is only its first 32 bytes. -/
theorem poly1305Init_take (key : List UInt8) : poly1305Init (key.take 32) = poly1305Init key := by
  have hfirst := load32Le_take (p := key) (i := 0) (n := 32) (by omega)
  simp only [List.drop_zero] at hfirst
  simp only [poly1305Init]
  rw [hfirst,load32Le_take (by omega),load32Le_take (by omega),load32Le_take (by omega),
    load32Le_take (by omega),load32Le_take (by omega),load32Le_take (by omega),
    load32Le_take (by omega)]

/-- Zeros under the keystream are the keystream. -/
theorem rfcChaCha20_zeros (key nonce : List UInt8) :
    rfcChaCha20 key nonce 0 (List.replicate 32 0) = (rfcBlock key nonce 0).take 32 := by
  apply ext_getD
  · rw [rfcChaCha20_length,List.length_replicate,List.length_take,rfcBlock_length]
    rfl
  · intro i hi
    rw [rfcChaCha20_length,List.length_replicate] at hi
    have hdiv : i/64 = 0 := by omega
    have hmod : i%64 = i := by omega
    have hzero : (List.replicate 32 (0 : UInt8)).getD i 0 = 0 := by
      rw [List.getD_eq_getElem _ _ (by simpa using hi),List.getElem_replicate]
    rw [rfcChaCha20_getD _ _ _ (by simpa using hi),hzero,rfcKeystream,hdiv,hmod,UInt8.zero_xor,
      List.getD_eq_getElem?_getD,List.getD_eq_getElem?_getD,List.getElem?_take_of_lt hi]
    rfl

/-- `zz9k_soft_chacha20_poly1305_tag` is the tag of RFC 8439. -/
theorem chachaPolyTag_eq {key nonce aad ciphertext : List UInt8} (hk : key.length = 32)
    (hn : nonce.length = 12) (ha : aad.length < 2^32) (hc : ciphertext.length < 2^32) :
    chachaPolyTag ciphertext aad key nonce = rfcTag key nonce aad ciphertext := by
  have hotk : poly1305Init (chacha20Xor (List.replicate 64 0) (List.replicate 32 0) key nonce 0) =
      poly1305Init ((rfcBlock key nonce 0).take 32) := by
    rw [chacha20Xor_eq hk hn 0 (by simp),← poly1305Init_take,
      List.take_append_of_le_length (by rw [rfcChaCha20_length]; simp),
      List.take_of_length_le (by rw [rfcChaCha20_length]; simp)]
    exact congrArg poly1305Init (rfcChaCha20_zeros key nonce)
  have hlengths : store32Le (UInt32.ofNat aad.length)++store32Le 0++
      store32Le (UInt32.ofNat ciphertext.length)++store32Le 0 =
        leBytes 8 aad.length++leBytes 8 ciphertext.length := by
    rw [← lengthBytes ha,← lengthBytes hc]
    simp only [List.append_assoc]
  have hsize : (leBytes 8 aad.length++leBytes 8 ciphertext.length).length = 16 := by simp
  have hotkLen : ((rfcBlock key nonce 0).take 32).length = 32 := by
    rw [List.length_take,rfcBlock_length]
    rfl
  rw [chachaPolyTag,hotk,hlengths,rfcTag,← poly1305_eq hotkLen,poly1305,rfcMacData,aeadSegment_eq,
    aeadSegment_eq]
  rw [← poly1305Update_block hsize,← poly1305Update_append (pad16_length _),
    ← poly1305Update_append (pad16_length _)]
  simp only [List.append_assoc]

/-- The differences gather to zero just where there is none. -/
theorem diff_eq_zero (expected tag : List UInt8) (n : Nat) :
    (List.range n).foldl
        (fun diff i => diff ||| (expected.getD i 0 ^^^ tag.getD i 0).toUInt32) (0 : UInt32) = 0 ↔
      ∀ i < n,expected.getD i 0 = tag.getD i 0 := by
  induction n with
  | zero => simp
  | succ n ih =>
    have hbyte : ∀ b : UInt8,b.toUInt32 = 0 ↔ b = 0 := by
      intro b
      rw [← UInt32.toNat_inj,← UInt8.toNat_inj,UInt8.toNat_toUInt32]
      rfl
    rw [List.range_succ,List.foldl_append,List.foldl_cons,List.foldl_nil,UInt32.or_eq_zero_iff,ih,
      hbyte,UInt8.xor_eq_zero_iff]
    constructor
    · rintro ⟨hbefore,hlast⟩ i hi
      by_cases h : i = n
      · rw [h]
        exact hlast
      · exact hbefore i (by omega)
    · intro hall
      exact ⟨fun i hi => hall i (by omega),hall n (by omega)⟩

/-- What `zz9k_soft_chacha20_poly1305_decrypt` does: one comparison decides. -/
theorem chachaPolyDecrypt_eq {key nonce aad tag ciphertext plaintext : List UInt8}
    (hk : key.length = 32) (hn : nonce.length = 12) (ht : tag.length = 16)
    (ha : aad.length < 2^32) (hc : ciphertext.length < 2^32)
    (hp : plaintext.length = ciphertext.length) :
    chachaPolyDecrypt plaintext ciphertext aad tag key nonce =
      if tag = rfcTag key nonce aad ciphertext then (1,rfcChaCha20 key nonce 1 ciphertext)
      else (0,plaintext) := by
  have hexpected := chachaPolyTag_eq hk hn ha hc
  have hsize : (rfcTag key nonce aad ciphertext).length = 16 := by
    rw [rfcTag,poly1305Tag,leBytes_length]
  have hdiff := diff_eq_zero (rfcTag key nonce aad ciphertext) tag 16
  rw [chachaPolyDecrypt,hexpected]
  by_cases heq : tag = rfcTag key nonce aad ciphertext
  · rw [if_pos heq]
    rw [if_neg (not_not.mpr (hdiff.mpr fun i _ => by rw [← heq]))]
    rw [chacha20Xor_eq hk hn 1 (by omega),List.drop_of_length_le (by omega),List.append_nil]
    rfl
  · rw [if_neg heq]
    rw [if_pos]
    intro hzero
    apply heq
    apply ext_getD (by omega)
    intro i hi
    exact (hdiff.mp hzero i (by omega)).symm

/-- The software cipher is RFC 8439, and decryption inverts encryption: it accepts one tag only,
and leaves its buffer alone for every other. -/
theorem chachaPoly_rfc (key : Vector UInt8 32) (nonce : Vector UInt8 12)
    (tag : Vector UInt8 16) (aad plaintext ciphertextBuffer plaintextBuffer : List UInt8)
    (haad : aad.length < 2^32) (hlen : plaintext.length < 2^32)
    (hciphertext : ciphertextBuffer.length = plaintext.length)
    (hplaintext : plaintextBuffer.length = plaintext.length) :
    let ciphertext := rfcChaCha20 key.toList nonce.toList 1 plaintext
    let expected := rfcTag key.toList nonce.toList aad ciphertext
    chachaPolyEncrypt ciphertextBuffer plaintext aad key.toList nonce.toList =
        (ciphertext,expected) ∧
      (tag.toList = expected →
        chachaPolyDecrypt plaintextBuffer ciphertext aad tag.toList key.toList nonce.toList =
          (1,plaintext)) ∧
      (tag.toList ≠ expected →
        chachaPolyDecrypt plaintextBuffer ciphertext aad tag.toList key.toList nonce.toList =
          (0,plaintextBuffer)) := by
  intro ciphertext expected
  have hk : key.toList.length = 32 := key.size_toArray
  have hn : nonce.toList.length = 12 := nonce.size_toArray
  have ht : tag.toList.length = 16 := tag.size_toArray
  have hsize : ciphertext.length = plaintext.length := rfcChaCha20_length _ _ _ _
  have hdecrypt := chachaPolyDecrypt_eq hk hn ht haad (show ciphertext.length < 2^32 by omega)
    (show plaintextBuffer.length = ciphertext.length by omega)
  refine ⟨?_,?_,?_⟩
  · have hxor : chacha20Xor ciphertextBuffer plaintext key.toList nonce.toList 1 = ciphertext := by
      rw [chacha20Xor_eq hk hn 1 (by omega),List.drop_of_length_le (by omega),List.append_nil]
      rfl
    rw [chachaPolyEncrypt,hxor,chachaPolyTag_eq hk hn haad (by omega)]
  · intro heq
    rw [hdecrypt,if_pos heq]
    exact congrArg (1,·) (rfcChaCha20_twice hk hn 1 plaintext)
  · intro hne
    rw [hdecrypt,if_neg hne]

/-- One byte under a key of ones, and the tag of zeros that is not its own -/
theorem chachaPoly_rfc_ones :
    chachaPolyDecrypt [7] (rfcChaCha20 (List.replicate 32 1) (List.replicate 12 1) 1 [2]) []
      (List.replicate 16 0) (List.replicate 32 1) (List.replicate 12 1) = (0,[7]) :=
  (chachaPoly_rfc (Vector.replicate 32 1) (Vector.replicate 12 1) (Vector.replicate 16 0) [] [2]
    [0] [7] (by decide) (by decide) rfl rfl).2.2 (by decide +kernel)

end ZZ9K.Crypto
