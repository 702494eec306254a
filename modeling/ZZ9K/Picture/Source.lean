import Mathlib.Data.Nat.Basic
import Mathlib.Data.UInt
import Mathlib.Tactic.SplitIfs

namespace ZZ9K.Picture

/-- A source in memory, as `zz9k_picture_source_init_memory` makes it and reads and seeks leave it -/
structure Source where
  memory : List UInt8
  position : Nat
  size_le : memory.length ≤ 0x7ffffffe
  position_le : position ≤ memory.length

/-- `OFFSET_BEGINNING`, `OFFSET_CURRENT` and `OFFSET_END` -/
inductive SeekMode
  | beginning
  | current
  | ending

variable (s : Source)

/-- The source at another position in it -/
def Source.at (p : Nat) (h : p ≤ s.memory.length) : Source := {s with position := p,position_le := h}

/-- `zz9k_picture_source_seek`: the new position or -1 -/
def sourceSeek (offset : Int) (mode : SeekMode) : Int × Source :=
  let base : Int :=
    match mode with
    | .beginning => 0
    | .current => s.position
    | .ending => s.memory.length
  let target := base+offset
  if h : target < 0 ∨ (s.memory.length : Int) < target ∨ 0x7ffffffe < target then (-1,s)
  else (target,s.at target.toNat (by omega))

/-- `zz9k_picture_source_read`: what is stored, which may be less than asked for -/
def sourceRead (length : Nat) : List UInt8 × Source :=
  let copy := min length (s.memory.length-s.position)
  ((s.memory.drop s.position).take copy,
    s.at (s.position+copy) (by have := s.position_le; omega))

/-- `zz9k_picture_read_exact`, with what is stored even where it returns 0 -/
def readExact (length : Nat) : Bool × List UInt8 × Source :=
  let (data,s) := sourceRead s length
  (data.length = length,data,s)

/-- `zz9k_picture_skip_bytes` of a length that is a `LONG` -/
def skipBytes (length : Nat) : Bool × Source :=
  let (position,s) := sourceSeek s length .current
  (0 ≤ position,s)

/-- `zz9k_picture_seek_begin` -/
def seekBegin : Bool × Source :=
  let (position,s) := sourceSeek s 0 .beginning
  (0 ≤ position,s)

/-- `zz9k_picture_restore_pos` -/
def restorePos (position : Int) : Source :=
  if 0 ≤ position then (sourceSeek s position .beginning).2 else s

/-- The bytes of the source from a place on -/
def Source.slice (p n : Nat) : List UInt8 := (s.memory.drop p).take n

section

variable {s : Source}

@[simp] theorem Source.at_memory {p : Nat} (h : p ≤ s.memory.length) :
    (s.at p h).memory = s.memory :=
  rfl

@[simp] theorem Source.at_position {p : Nat} (h : p ≤ s.memory.length) : (s.at p h).position = p :=
  rfl

@[simp] theorem Source.at_at {p q : Nat} (h : p ≤ s.memory.length) (h' : q ≤ s.memory.length) :
    (s.at p h).at q h' = s.at q h' := rfl

@[simp] theorem Source.at_slice {p : Nat} (h : p ≤ s.memory.length) (q n : Nat) :
    (s.at p h).slice q n = s.slice q n := rfl

theorem Source.slice_length {p n : Nat} (h : p+n ≤ s.memory.length) : (s.slice p n).length = n := by
  rw [Source.slice,List.length_take,List.length_drop]
  omega

/-- A read gets all that it asks for where the source has it. -/
theorem readExact_of_le {n : Nat} (h : s.position+n ≤ s.memory.length) :
    readExact s n = (true,s.slice s.position n,s.at (s.position+n) h) := by
  have hcopy : min n (s.memory.length-s.position) = n := by omega
  have hlen := Source.slice_length h
  rw [Source.slice] at hlen
  simp only [readExact,sourceRead,hcopy,hlen,decide_true]
  rfl

/-- A read that the source has too little for gets to its end. -/
theorem readExact_of_lt {n : Nat} (h : s.memory.length < s.position+n) :
    readExact s n = (false,s.slice s.position (s.memory.length-s.position),
      s.at s.memory.length (Nat.le_refl _)) := by
  have hpos := s.position_le
  have hcopy : min n (s.memory.length-s.position) = s.memory.length-s.position := by omega
  have hlen := Source.slice_length (s := s) (p := s.position) (n := s.memory.length-s.position)
    (by omega)
  have hne : s.memory.length-s.position ≠ n := by omega
  have hend : s.position+(s.memory.length-s.position) = s.memory.length := by omega
  rw [Source.slice] at hlen
  simp only [readExact,sourceRead,hcopy,hlen,hne,decide_false,hend]
  rfl

theorem skipBytes_of_le {n : Nat} (h : s.position+n ≤ s.memory.length) :
    skipBytes s n = (true,s.at (s.position+n) h) := by
  have hsize := s.size_le
  have htarget : ¬((s.position : Int)+n < 0 ∨ (s.memory.length : Int) < s.position+n ∨
      0x7ffffffe < (s.position : Int)+n) := by omega
  have hnat : ((s.position : Int)+n).toNat = s.position+n := by omega
  have hge : (0 : Int) ≤ s.position+n := by omega
  simp only [skipBytes,sourceSeek,dif_neg htarget,hnat,hge,decide_true]

theorem skipBytes_of_lt {n : Nat} (h : s.memory.length < s.position+n) :
    skipBytes s n = (false,s) := by
  have htarget : (s.position : Int)+n < 0 ∨ (s.memory.length : Int) < s.position+n ∨
      0x7ffffffe < (s.position : Int)+n := by omega
  simp only [skipBytes,sourceSeek,dif_pos htarget]
  rfl

theorem seekBegin_eq : seekBegin s = (true,s.at 0 (Nat.zero_le _)) := by
  have htarget : ¬((0 : Int)+0 < 0 ∨ (s.memory.length : Int) < 0+0 ∨ 0x7ffffffe < (0 : Int)+0) := by
    omega
  simp only [seekBegin,sourceSeek,dif_neg htarget]
  rfl

/-- Wherever a scan has left the source, it goes back to where it was. -/
theorem restorePos_eq {p : Nat} (h : p ≤ s.memory.length) : restorePos s p = s.at p h := by
  have hsize := s.size_le
  have htarget : ¬((0 : Int)+p < 0 ∨ (s.memory.length : Int) < 0+p ∨ 0x7ffffffe < (0 : Int)+p) := by
    omega
  have hnat : ((0 : Int)+p).toNat = p := by omega
  simp only [restorePos,sourceSeek,dif_neg htarget,hnat,Int.natCast_nonneg,if_true]

/-- `zz9k_picture_source_seek(source, 0, OFFSET_CURRENT)` tells the position. -/
theorem sourceSeek_current : sourceSeek s 0 .current = ((s.position : Int),s) := by
  have hsize := s.size_le
  have hpos := s.position_le
  have htarget : ¬((s.position : Int)+0 < 0 ∨ (s.memory.length : Int) < s.position+0 ∨
      0x7ffffffe < (s.position : Int)+0) := by omega
  simp only [sourceSeek,dif_neg htarget]
  simp [Source.at]

end

end ZZ9K.Picture
