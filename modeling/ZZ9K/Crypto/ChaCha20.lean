import ZZ9K.Crypto.Poly1305Tag
import Mathlib.Logic.Function.Iterate

namespace ZZ9K.Crypto

/-- `zz9k_soft_rotl32` -/
def rotl32 (value count : UInt32) : UInt32 := (value <<< count) ||| (value >>> (32-count))

/-- `ZZ9K_SOFT_QUARTERROUND` -/
def quarterRound (a b c d : UInt32) : UInt32 × UInt32 × UInt32 × UInt32 :=
  let a := a+b
  let d := d ^^^ a
  let d := rotl32 d 16
  let c := c+d
  let b := b ^^^ c
  let b := rotl32 b 12
  let a := a+b
  let d := d ^^^ a
  let d := rotl32 d 8
  let c := c+d
  let b := b ^^^ c
  let b := rotl32 b 7
  (a,b,c,d)

/-- The macro on four different places of `work` -/
def quarterRoundAt (i j k l : Fin 16) (work : Vector UInt32 16) : Vector UInt32 16 :=
  let (a,b,c,d) := quarterRound work[i] work[j] work[k] work[l]
  (((work.set i a).set j b).set k c).set l d

/-- The body of the loop of ten rounds -/
def doubleRound (work : Vector UInt32 16) : Vector UInt32 16 :=
  let work := quarterRoundAt 0 4 8 12 work
  let work := quarterRoundAt 1 5 9 13 work
  let work := quarterRoundAt 2 6 10 14 work
  let work := quarterRoundAt 3 7 11 15 work
  let work := quarterRoundAt 0 5 10 15 work
  let work := quarterRoundAt 1 6 11 12 work
  let work := quarterRoundAt 2 7 8 13 work
  quarterRoundAt 3 4 9 14 work

/-- The state a block of keystream starts from -/
def chacha20State (key nonce : List UInt8) (counter : UInt32) : Vector UInt32 16 :=
  #v[0x61707865,0x3320646e,0x79622d32,0x6b206574,
    load32Le key,load32Le (key.drop 4),load32Le (key.drop 8),load32Le (key.drop 12),
    load32Le (key.drop 16),load32Le (key.drop 20),load32Le (key.drop 24),load32Le (key.drop 28),
    counter,load32Le nonce,load32Le (nonce.drop 4),load32Le (nonce.drop 8)]

/-- `zz9k_soft_chacha20_block` -/
def chacha20Block (key nonce : List UInt8) (counter : UInt32) : List UInt8 :=
  let state := chacha20State key nonce counter
  let work := doubleRound^[10] state
  (List.finRange 16).flatMap fun i => store32Le (work[i]+state[i])

/-- The inner loop of `zz9k_soft_chacha20_xor` -/
def xorChunk (out input block : List UInt8) (offset chunk : Nat) : List UInt8 :=
  (List.range chunk).foldl
    (fun out i => out.set (offset+i) (input.getD (offset+i) 0 ^^^ block.getD i 0)) out

/-- The outer loop; `out` is the buffer that it writes to, and `input` as long as `length` says. -/
def chacha20XorFrom (out input key nonce : List UInt8) (counter : UInt32) (offset : Nat) :
    List UInt8 :=
  if offset < input.length then
    let chunk := min (input.length-offset) 64
    let block := chacha20Block key nonce counter
    chacha20XorFrom (xorChunk out input block offset chunk) input key nonce (counter+1)
      (offset+chunk)
  else out
  termination_by input.length-offset

/-- `zz9k_soft_chacha20_xor` -/
def chacha20Xor (out input key nonce : List UInt8) (counter : UInt32) : List UInt8 :=
  chacha20XorFrom out input key nonce counter 0

/-- The quarter round of RFC 8439, on four words -/
def rfcQuarterRound (a b c d : BitVec 32) : BitVec 32 × BitVec 32 × BitVec 32 × BitVec 32 :=
  let a := a+b
  let d := (d ^^^ a).rotateLeft 16
  let c := c+d
  let b := (b ^^^ c).rotateLeft 12
  let a := a+b
  let d := (d ^^^ a).rotateLeft 8
  let c := c+d
  let b := (b ^^^ c).rotateLeft 7
  (a,b,c,d)

/-- The same at four places of a state -/
def rfcRoundAt (x y z w : Fin 16) (s : Vector (BitVec 32) 16) : Vector (BitVec 32) 16 :=
  let (a,b,c,d) := rfcQuarterRound s[x] s[y] s[z] s[w]
  (((s.set x a).set y b).set z c).set w d

/-- Four column rounds and four diagonal rounds -/
def rfcInnerBlock (s : Vector (BitVec 32) 16) : Vector (BitVec 32) 16 :=
  rfcRoundAt 3 4 9 14 (rfcRoundAt 2 7 8 13 (rfcRoundAt 1 6 11 12 (rfcRoundAt 0 5 10 15
    (rfcRoundAt 3 7 11 15 (rfcRoundAt 2 6 10 14 (rfcRoundAt 1 5 9 13 (rfcRoundAt 0 4 8 12 s)))))))

/-- Word `i` of a byte string -/
def leWord (bs : List UInt8) (i : Nat) : BitVec 32 :=
  BitVec.ofNat 32 (leNat ((bs.drop (4*i)).take 4))

/-- The constants, the key, the counter and the nonce -/
def rfcState (key nonce : List UInt8) (counter : BitVec 32) : Vector (BitVec 32) 16 :=
  #v[0x61707865,0x3320646e,0x79622d32,0x6b206574,leWord key 0,leWord key 1,leWord key 2,
    leWord key 3,leWord key 4,leWord key 5,leWord key 6,leWord key 7,counter,leWord nonce 0,
    leWord nonce 1,leWord nonce 2]

/-- The block function of RFC 8439 -/
def rfcBlock (key nonce : List UInt8) (counter : BitVec 32) : List UInt8 :=
  let state := rfcState key nonce counter
  let work := rfcInnerBlock^[10] state
  (List.finRange 16).flatMap fun i => leBytes 4 (work[i]+state[i]).toNat

/-- Byte `i` of the keystream from a counter on -/
def rfcKeystream (key nonce : List UInt8) (counter : BitVec 32) (i : Nat) : UInt8 :=
  (rfcBlock key nonce (counter+BitVec.ofNat 32 (i/64))).getD (i%64) 0

/-- A text under the keystream -/
def rfcChaCha20 (key nonce : List UInt8) (counter : BitVec 32) (text : List UInt8) : List UInt8 :=
  text.mapIdx fun i b => b ^^^ rfcKeystream key nonce counter i

/-- The words of a work array -/
def words (work : Vector UInt32 16) : Vector (BitVec 32) 16 := work.map UInt32.toBitVec

@[simp] theorem words_getElem (work : Vector UInt32 16) (i : Nat) (h : i < 16) :
    (words work)[i] = work[i].toBitVec := by
  simp [words]

theorem rotl32_toBitVec {value count : UInt32} (h0 : 0 < count.toNat) (h : count.toNat < 32) :
    (rotl32 value count).toBitVec = value.toBitVec.rotateLeft count.toNat := by
  apply BitVec.eq_of_toNat_eq
  have hsub : (32-count).toNat = 32-count.toNat := by
    rw [UInt32.toNat_sub,show (32 : UInt32).toNat = 32 from rfl]
    omega
  rw [BitVec.rotateLeft_def,rotl32,UInt32.toNat_toBitVec,UInt32.toNat_or,UInt32.toNat_shiftLeft,
    UInt32.toNat_shiftRight,hsub,BitVec.toNat_or,BitVec.toNat_shiftLeft,BitVec.toNat_ushiftRight,
    Nat.mod_eq_of_lt h,Nat.mod_eq_of_lt (a := 32-count.toNat) (by omega)]
  rfl

theorem quarterRound_words (a b c d : UInt32) :
    let (a',b',c',d') := quarterRound a b c d
    rfcQuarterRound a.toBitVec b.toBitVec c.toBitVec d.toBitVec =
      (a'.toBitVec,b'.toBitVec,c'.toBitVec,d'.toBitVec) := by
  have r16 : ∀ x : UInt32,(rotl32 x 16).toBitVec = x.toBitVec.rotateLeft 16 :=
    fun x => rotl32_toBitVec (by decide) (by decide)
  have r12 : ∀ x : UInt32,(rotl32 x 12).toBitVec = x.toBitVec.rotateLeft 12 :=
    fun x => rotl32_toBitVec (by decide) (by decide)
  have r8 : ∀ x : UInt32,(rotl32 x 8).toBitVec = x.toBitVec.rotateLeft 8 :=
    fun x => rotl32_toBitVec (by decide) (by decide)
  have r7 : ∀ x : UInt32,(rotl32 x 7).toBitVec = x.toBitVec.rotateLeft 7 :=
    fun x => rotl32_toBitVec (by decide) (by decide)
  simp only [quarterRound,rfcQuarterRound,UInt32.toBitVec_add,UInt32.toBitVec_xor,r16,r12,r8,r7]

theorem quarterRoundAt_words (i j k l : Fin 16) (work : Vector UInt32 16) :
    words (quarterRoundAt i j k l work) = rfcRoundAt i j k l (words work) := by
  have hround := quarterRound_words work[i] work[j] work[k] work[l]
  simp only [quarterRoundAt,rfcRoundAt,Fin.getElem_fin,words_getElem] at hround ⊢
  rw [hround]
  simp only [words,Vector.map_set]

theorem doubleRound_words (work : Vector UInt32 16) :
    words (doubleRound work) = rfcInnerBlock (words work) := by
  simp only [doubleRound,rfcInnerBlock,quarterRoundAt_words]

theorem store32Le_eq (v : UInt32) : store32Le v = leBytes 4 v.toNat := by
  rw [← leNat_store32Le,← store32Le_length v,leBytes_leNat]

theorem load32Le_word {bs : List UInt8} {i : Nat} (h : 4*i+4 ≤ bs.length) :
    (load32Le (bs.drop (4*i))).toBitVec = leWord bs i := by
  have hlen : ((bs.drop (4*i)).take 4).length = 4 := by
    simp
    omega
  have hnat := leNat_load32Le (p := (bs.drop (4*i)).take 4) (by omega)
  have htake := load32Le_take (p := bs.drop (4*i)) (i := 0) (n := 4) (by omega)
  simp only [List.drop_zero] at htake
  have hnil : ((bs.drop (4*i)).take 4).drop 4 = [] := List.drop_of_length_le (by omega)
  rw [htake,hnil,leNat_nil] at hnat
  rw [leWord,hnat]
  apply BitVec.eq_of_toNat_eq
  have hlt := (load32Le (bs.drop (4*i))).toNat_lt
  rw [BitVec.toNat_ofNat,UInt32.toNat_toBitVec]
  omega

theorem chacha20State_words {key nonce : List UInt8} (hk : key.length = 32)
    (hn : nonce.length = 12) (counter : UInt32) :
    words (chacha20State key nonce counter) = rfcState key nonce counter.toBitVec := by
  have hkey : ∀ i < 8,leWord key i = (load32Le (key.drop (4*i))).toBitVec :=
    fun i hi => (load32Le_word (by omega)).symm
  have hnonce : ∀ i < 3,leWord nonce i = (load32Le (nonce.drop (4*i))).toBitVec :=
    fun i hi => (load32Le_word (by omega)).symm
  rw [rfcState,hkey 0 (by omega),hkey 1 (by omega),hkey 2 (by omega),hkey 3 (by omega),
    hkey 4 (by omega),hkey 5 (by omega),hkey 6 (by omega),hkey 7 (by omega),hnonce 0 (by omega),
    hnonce 1 (by omega),hnonce 2 (by omega)]
  simp [words,chacha20State]

/-- `zz9k_soft_chacha20_block` is the block function. -/
theorem chacha20Block_eq {key nonce : List UInt8} (hk : key.length = 32) (hn : nonce.length = 12)
    (counter : UInt32) : chacha20Block key nonce counter = rfcBlock key nonce counter.toBitVec := by
  have hwork : ∀ n work,words (doubleRound^[n] work) = rfcInnerBlock^[n] (words work) := by
    intro n
    induction n with
    | zero => exact fun work => rfl
    | succ n ih =>
      intro work
      rw [Function.iterate_succ_apply',Function.iterate_succ_apply',doubleRound_words,ih]
  rw [chacha20Block,rfcBlock,← chacha20State_words hk hn]
  simp only [← hwork,Fin.getElem_fin,words_getElem,store32Le_eq]
  rfl

-- the block of the test vector in section 2.3.2
example : (rfcBlock ((List.range 32).map UInt8.ofNat) [0,0,0,9,0,0,0,0x4a,0,0,0,0] 1).take 8 =
    [0x10,0xf1,0xe7,0xe4,0xd1,0x3b,0x59,0x15] := by decide +kernel

theorem rfcBlock_length (key nonce : List UInt8) (counter : BitVec 32) :
    (rfcBlock key nonce counter).length = 64 := by
  simp [rfcBlock,List.length_flatMap]

end ZZ9K.Crypto
