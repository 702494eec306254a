import ZZ9K.Crypto.Aes
import ZZ9K.Crypto.BigNumBytes
import ZZ9K.Crypto.ChaChaPoly
import ZZ9K.Math.BinaryField

namespace ZZ9K.Crypto

open ZZ9K.Math

/-- The shift of `zz9k_ghash_mul` behind its first byte: each byte takes the last bit of the one
before it. -/
def ghashShiftFrom (before : UInt8) : List UInt8 → List UInt8
  | [] => []
  | b::bs => ((b >>> 1) ||| (before <<< 7))::ghashShiftFrom b bs

/-- The shift of `zz9k_ghash_mul` -/
def ghashShift : List UInt8 → List UInt8
  | [] => []
  | b::bs => (b >>> 1)::ghashShiftFrom b bs

/-- The factor `v` of `zz9k_ghash_mul` for its next round -/
def ghashNext (v : List UInt8) : List UInt8 :=
  let bit := v.getD 15 0 &&& 1
  let v := ghashShift v
  if bit ≠ 0 then v.set 0 (v.getD 0 0 ^^^ 0xe1) else v

/-- One round of `zz9k_ghash_mul`, on `z` and `v` -/
def ghashMulStep (x : List UInt8) (s : List UInt8 × List UInt8) (i : Nat) :
    List UInt8 × List UInt8 :=
  let (z,v) := s
  let z := if (x.getD (i >>> 3) 0 >>> (7-(i &&& 7)).toUInt8) &&& 1 ≠ 0 then xorBytes 16 z v else z
  (z,ghashNext v)

/-- `zz9k_ghash_mul` -/
def ghashMul (x h : List UInt8) : List UInt8 :=
  ((List.range 128).foldl (ghashMulStep x) (List.replicate 16 0,h)).1

/-- The block that `zz9k_ghash_update` takes off the head of its data -/
def ghashBlock (data : List UInt8) : List UInt8 :=
  let n := min data.length 16
  (List.range 16).map fun i => if i < n then data.getD i 0 else 0

/-- `zz9k_ghash_update`, over the data that is left -/
def ghashUpdate (y h data : List UInt8) : List UInt8 :=
  if 0 < data.length then
    ghashUpdate (ghashMul (xorBytes 16 y (ghashBlock data)) h) h (data.drop (min data.length 16))
  else y
termination_by data.length
decreasing_by simp; omega

/-- The counter of the loop of `zz9k_aes_gcm_core`, moved on by one -/
def nextCounter (counter : List UInt8) : List UInt8 :=
  counter.take 12++store32Be (load32Be (counter.drop 12)+1)

/-- The loop of `zz9k_aes_gcm_core` over the text, at `off`; `out` is the buffer that it writes to. -/
def gcmCtrFrom (c : AesCtx) (out input counter : List UInt8) (off : Nat) : List UInt8 :=
  if off < input.length then
    let n := min (input.length-off) 16
    let counter := nextCounter counter
    let ks := aesEncryptBlock c counter
    gcmCtrFrom c (xorChunk out input ks off n) input counter (off+n)
  else out
termination_by input.length-off

/-- The block of the lengths; its products are of 32 bits. -/
def lengthBlock (aadLength length : UInt32) : List UInt8 :=
  store32Be 0++store32Be (aadLength*8)++store32Be 0++store32Be (length*8)

/-- The first counter of a nonce -/
def firstCounter (nonce : List UInt8) : List UInt8 := nonce.take 12++[0,0,0,1]

/-- `zz9k_aes_gcm_core`: the text as it leaves it in `out`, and the tag. The ciphertext is `input`
where `ghashFirst`, and else what the loop writes. -/
def aesGcmCore (c : AesCtx) (nonce aad input out : List UInt8) (ghashFirst : Bool) :
    List UInt8 × List UInt8 :=
  let h := aesEncryptBlock c (List.replicate 16 0)
  let j0 := firstCounter nonce
  let y := ghashUpdate (List.replicate 16 0) h aad
  let y := if ghashFirst then ghashUpdate y h input else y
  let out := gcmCtrFrom c out input j0 0
  let y := if ghashFirst then y else ghashUpdate y h (out.take input.length)
  let lenblk := lengthBlock (UInt32.ofNat aad.length) (UInt32.ofNat input.length)
  let y := ghashMul (xorBytes 16 y lenblk) h
  (out,xorBytes 16 y (aesEncryptBlock c j0))

/-- `zz9k_soft_aes_gcm_encrypt`: its return code, and the ciphertext and the tag as it leaves them -/
def aesGcmEncrypt (ciphertext tag plaintext aad key nonce : List UInt8) :
    Nat × List UInt8 × List UInt8 :=
  match aesInit key with
  | none => (0,ciphertext,tag)
  | some c => (1,aesGcmCore c nonce aad plaintext ciphertext false)

/-- `zz9k_soft_aes_gcm_decrypt`: its return code, and the plaintext as it leaves it -/
def aesGcmDecrypt (plaintext ciphertext aad tag key nonce : List UInt8) : Nat × List UInt8 :=
  match aesInit key with
  | none => (0,plaintext)
  | some c =>
    let (plaintext,expected) := aesGcmCore c nonce aad ciphertext plaintext true
    let diff := (List.range 16).foldl (fun diff i => diff ||| (expected.getD i 0 ^^^ tag.getD i 0))
      (0 : UInt8)
    if diff ≠ 0 then
      (0,(List.range ciphertext.length).foldl (fun plaintext i => plaintext.set i 0) plaintext)
    else (1,plaintext)

/-- The rule of GCM for the power 128 -/
def gcmRule : BitVec 128 := 0xe1 <<< 120

/-- The block of 16 bytes -/
def toBlock (bs : List UInt8) : BitVec 128 := BitVec.ofNat 128 (beNat bs)

/-- The bytes of a block -/
def blockBytes (b : BitVec 128) : List UInt8 := beBytes 16 b.toNat

/-- The blocks of a string of 16 bytes each -/
def toBlocks (data : List UInt8) : List (BitVec 128) :=
  (List.range (data.length/16)).map fun i => toBlock ((data.drop (16*i)).take 16)

/-- GHASH -/
def ghash (h : BitVec 128) (blocks : List (BitVec 128)) : BitVec 128 :=
  blocks.foldl (fun y x => mulMod gcmRule (y ^^^ x) h) 0#128

/-- The lower 32 bits of a counter, moved on by one -/
def inc32 (counter : List UInt8) : List UInt8 :=
  counter.take 12++beBytes 4 ((beNat (counter.drop 12)+1)%2^32)

/-- GCTR under the cipher `e` from a counter on -/
def gctr (e : List UInt8 → List UInt8) (icb text : List UInt8) : List UInt8 :=
  underKeystream 16 e inc32 icb text

/-- The ciphertext of GCM -/
def gcmText (e : List UInt8 → List UInt8) (nonce plaintext : List UInt8) : List UInt8 :=
  gctr e (inc32 (nonce++[0,0,0,1])) plaintext

/-- The tag of GCM -/
def gcmTag (e : List UInt8 → List UInt8) (nonce aad ciphertext : List UInt8) : List UInt8 :=
  let h := toBlock (e (List.replicate 16 0))
  let s := ghash h (toBlocks (pad16 aad++pad16 ciphertext++beBytes 8 (8*aad.length)++
    beBytes 8 (8*ciphertext.length)))
  blockBytes (s ^^^ toBlock (e (nonce++[0,0,0,1])))

end ZZ9K.Crypto
