import Mathlib.Data.UInt

namespace ZZ9K.Crypto

/-- `zz9k_aes_sbox` -/
def aesSbox : Array UInt8 :=
  #[
    0x63,0x7c,0x77,0x7b,0xf2,0x6b,0x6f,0xc5,0x30,0x01,0x67,0x2b,0xfe,0xd7,0xab,0x76,
    0xca,0x82,0xc9,0x7d,0xfa,0x59,0x47,0xf0,0xad,0xd4,0xa2,0xaf,0x9c,0xa4,0x72,0xc0,
    0xb7,0xfd,0x93,0x26,0x36,0x3f,0xf7,0xcc,0x34,0xa5,0xe5,0xf1,0x71,0xd8,0x31,0x15,
    0x04,0xc7,0x23,0xc3,0x18,0x96,0x05,0x9a,0x07,0x12,0x80,0xe2,0xeb,0x27,0xb2,0x75,
    0x09,0x83,0x2c,0x1a,0x1b,0x6e,0x5a,0xa0,0x52,0x3b,0xd6,0xb3,0x29,0xe3,0x2f,0x84,
    0x53,0xd1,0x00,0xed,0x20,0xfc,0xb1,0x5b,0x6a,0xcb,0xbe,0x39,0x4a,0x4c,0x58,0xcf,
    0xd0,0xef,0xaa,0xfb,0x43,0x4d,0x33,0x85,0x45,0xf9,0x02,0x7f,0x50,0x3c,0x9f,0xa8,
    0x51,0xa3,0x40,0x8f,0x92,0x9d,0x38,0xf5,0xbc,0xb6,0xda,0x21,0x10,0xff,0xf3,0xd2,
    0xcd,0x0c,0x13,0xec,0x5f,0x97,0x44,0x17,0xc4,0xa7,0x7e,0x3d,0x64,0x5d,0x19,0x73,
    0x60,0x81,0x4f,0xdc,0x22,0x2a,0x90,0x88,0x46,0xee,0xb8,0x14,0xde,0x5e,0x0b,0xdb,
    0xe0,0x32,0x3a,0x0a,0x49,0x06,0x24,0x5c,0xc2,0xd3,0xac,0x62,0x91,0x95,0xe4,0x79,
    0xe7,0xc8,0x37,0x6d,0x8d,0xd5,0x4e,0xa9,0x6c,0x56,0xf4,0xea,0x65,0x7a,0xae,0x08,
    0xba,0x78,0x25,0x2e,0x1c,0xa6,0xb4,0xc6,0xe8,0xdd,0x74,0x1f,0x4b,0xbd,0x8b,0x8a,
    0x70,0x3e,0xb5,0x66,0x48,0x03,0xf6,0x0e,0x61,0x35,0x57,0xb9,0x86,0xc1,0x1d,0x9e,
    0xe1,0xf8,0x98,0x11,0x69,0xd9,0x8e,0x94,0x9b,0x1e,0x87,0xe9,0xce,0x55,0x28,0xdf,
    0x8c,0xa1,0x89,0x0d,0xbf,0xe6,0x42,0x68,0x41,0x99,0x2d,0x0f,0xb0,0x54,0xbb,0x16]

/-- `zz9k_aes_rcon` -/
def aesRcon : List UInt8 := [0x01,0x02,0x04,0x08,0x10,0x20,0x40,0x80,0x1b,0x36]

/-- A byte of the table; every index is one of a byte. -/
def subByte (b : UInt8) : UInt8 := aesSbox.getD b.toNat 0

/-- The round keys, and how many rounds -/
structure AesCtx where
  rk : List (List UInt8)
  nr : Nat

/-- One round of `zz9k_aes_gmul`: the product so far, and what is left of the factors -/
def aesGmulStep : UInt8 × UInt8 × UInt8 → UInt8 × UInt8 × UInt8
  | (p,a,b) =>
    let p := if b &&& 1 ≠ 0 then p ^^^ a else p
    let hi := a &&& 0x80
    let a := a <<< 1
    let a := if hi ≠ 0 then a ^^^ 0x1b else a
    (p,a,b >>> 1)

/-- `zz9k_aes_gmul` -/
def aesGmul (a b : UInt8) : UInt8 := (aesGmulStep^[8] (0,a,b)).1

/-- Two strings of `n` bytes, byte by byte -/
def xorBytes (n : Nat) (a b : List UInt8) : List UInt8 :=
  (List.range n).map fun i => a.getD i 0 ^^^ b.getD i 0

/-- Word `i` of the key schedule, after the words `w` -/
def aesNextWord (nk : Nat) (w : List (List UInt8)) (i : Nat) : List UInt8 :=
  let t := w.getD (i-1) []
  let t :=
    if i%nk = 0 then
      let rotated := (t.drop 1++t.take 1).map subByte
      xorBytes 4 rotated [aesRcon.getD (i/nk-1) 0]
    else if 6 < nk ∧ i%nk = 4 then t.map subByte
    else t
  xorBytes 4 (w.getD (i-nk) []) t

/-- `zz9k_aes_init`, if the key is of a length it takes -/
def aesInit (key : List UInt8) : Option AesCtx :=
  if key.length ≠ 16 ∧ key.length ≠ 32 then none
  else
    let nk := key.length/4
    let nr := nk+6
    let start := (List.range nk).map fun i => (key.drop (4*i)).take 4
    let w := (List.range' nk (4*(nr+1)-nk)).foldl (fun w i => w++[aesNextWord nk w i]) start
    some {rk := (List.range (nr+1)).map fun r => ((w.drop (4*r)).take 4).flatten,nr}

/-- The rows of a state, which is stored by columns, each moved on by its number -/
def shiftRows (s : List UInt8) : List UInt8 :=
  (List.range 16).map fun k => s.getD (4*((k/4+k%4)%4)+k%4) 0

/-- A column under the matrix -/
def mixColumn (a0 a1 a2 a3 : UInt8) : List UInt8 :=
  [aesGmul 2 a0 ^^^ aesGmul 3 a1 ^^^ a2 ^^^ a3,a0 ^^^ aesGmul 2 a1 ^^^ aesGmul 3 a2 ^^^ a3,
    a0 ^^^ a1 ^^^ aesGmul 2 a2 ^^^ aesGmul 3 a3,aesGmul 3 a0 ^^^ a1 ^^^ a2 ^^^ aesGmul 2 a3]

def mixColumns (t : List UInt8) : List UInt8 :=
  (List.range 4).flatMap fun col => mixColumn (t.getD (4*col) 0) (t.getD (4*col+1) 0)
    (t.getD (4*col+2) 0) (t.getD (4*col+3) 0)

/-- One round of `zz9k_aes_encrypt_block` -/
def aesRound (c : AesCtx) (s : List UInt8) (round : Nat) : List UInt8 :=
  let t := shiftRows (s.map subByte)
  let s := if round ≠ c.nr then mixColumns t else t
  xorBytes 16 s (c.rk.getD round [])

/-- `zz9k_aes_encrypt_block` -/
def aesEncryptBlock (c : AesCtx) (input : List UInt8) : List UInt8 :=
  (List.range' 1 c.nr).foldl (aesRound c) (xorBytes 16 input (c.rk.getD 0 []))

@[simp] theorem xorBytes_length (n : Nat) (a b : List UInt8) : (xorBytes n a b).length = n := by
  simp [xorBytes]

theorem xorBytes_getD {n i : Nat} (hi : i < n) (a b : List UInt8) :
    (xorBytes n a b).getD i 0 = a.getD i 0 ^^^ b.getD i 0 := by
  simp [xorBytes,hi]

@[simp] theorem aesEncryptBlock_length (c : AesCtx) (input : List UInt8) :
    (aesEncryptBlock c input).length = 16 := by
  rw [aesEncryptBlock]
  have hstart : (xorBytes 16 input (c.rk.getD 0 [])).length = 16 := xorBytes_length 16 _ _
  generalize xorBytes 16 input (c.rk.getD 0 []) = s at *
  generalize List.range' 1 c.nr = rounds
  induction rounds generalizing s with
  | nil => exact hstart
  | cons round rounds ih => exact ih _ (xorBytes_length 16 _ _)

/-- The block that FIPS-197 gives as an example for a key of 32 bytes -/
example : (aesInit ((List.range 32).map (UInt8.ofNat ·))).map
    (aesEncryptBlock · ((List.range 16).map fun i => UInt8.ofNat (17*i))) =
      some [0x8e,0xa2,0xb7,0xca,0x51,0x67,0x45,0xbf,0xea,0xfc,0x49,0x90,0x4b,0x49,0x60,0x89] := by
  decide +kernel

end ZZ9K.Crypto
