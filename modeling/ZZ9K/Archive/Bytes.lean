import Mathlib.Data.List.Basic
import Mathlib.Data.UInt

namespace ZZ9K.Archive

/-- A buffer or a file, as the bytes it holds -/
abbrev Bytes := List UInt8

/-- One byte of a buffer -/
def byte (p : Bytes) (i : Nat) : Nat := (p.getD i 0).toNat

/-- `length` bytes from `offset` on -/
def slice (p : Bytes) (offset length : Nat) : Bytes := (p.drop offset).take length

/-- `zz9k_archive_get_le16` -/
def getLe16 (p : Bytes) (o : Nat) : Nat := byte p o+2^8*byte p (o+1)

/-- `zz9k_archive_get_le32` -/
def getLe32 (p : Bytes) (o : Nat) : Nat :=
  byte p o+2^8*byte p (o+1)+2^16*byte p (o+2)+2^24*byte p (o+3)

/-- `zz9k_archive_get_le64` -/
def getLe64 (p : Bytes) (o : Nat) : Nat := getLe32 p o+2^32*getLe32 p (o+4)

/-- What a `uint32_t` keeps of a value -/
def u32 (n : Nat) : Nat := n%2^32

theorem u32_of_lt {n : Nat} (h : n < 2^32) : u32 n = n := Nat.mod_eq_of_lt h

variable (p : Bytes)

theorem byte_lt (i : Nat) : byte p i < 2^8 := (p.getD i 0).toNat_lt

theorem getLe16_lt (o : Nat) : getLe16 p o < 2^16 := by
  have h0 := byte_lt p o
  have h1 := byte_lt p (o+1)
  unfold getLe16
  omega

theorem getLe32_lt (o : Nat) : getLe32 p o < 2^32 := by
  have h0 := byte_lt p o
  have h1 := byte_lt p (o+1)
  have h2 := byte_lt p (o+2)
  have h3 := byte_lt p (o+3)
  unfold getLe32
  omega

theorem length_slice {o n : Nat} (h : o+n ≤ p.length) : (slice p o n).length = n := by
  simp only [slice,List.length_take,List.length_drop]
  omega

theorem byte_slice {o n i : Nat} (h : i < n) : byte (slice p o n) i = byte p (o+i) := by
  simp [byte,slice,List.getD_eq_getElem?_getD,h]

theorem getLe16_slice {o n i : Nat} (h : i+2 ≤ n) :
    getLe16 (slice p o n) i = getLe16 p (o+i) := by
  simp only [getLe16]
  rw [byte_slice p (by omega),byte_slice p (by omega),Nat.add_assoc]

theorem getLe32_slice {o n i : Nat} (h : i+4 ≤ n) :
    getLe32 (slice p o n) i = getLe32 p (o+i) := by
  simp only [getLe32]
  rw [byte_slice p (by omega),byte_slice p (by omega),byte_slice p (by omega),
    byte_slice p (by omega)]
  simp only [Nat.add_assoc]

theorem getLe64_slice {o n i : Nat} (h : i+8 ≤ n) :
    getLe64 (slice p o n) i = getLe64 p (o+i) := by
  simp only [getLe64]
  rw [getLe32_slice p (by omega),getLe32_slice p (by omega),Nat.add_assoc]

theorem slice_slice {o n i k : Nat} (h : i+k ≤ n) :
    slice (slice p o n) i k = slice p (o+i) k := by
  simp only [slice]
  rw [List.drop_take,List.take_take,List.drop_drop,min_eq_left (by omega)]

theorem slice_append (o n k : Nat) : slice p o n++slice p (o+n) k = slice p o (n+k) := by
  simp only [slice]
  rw [List.take_add,List.drop_drop]

@[simp] theorem slice_zero (o : Nat) : slice p o 0 = [] := by simp [slice]

end ZZ9K.Archive
