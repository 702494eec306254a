import Mathlib.Data.Set.Basic
import ZZ9K.Framework.Ask
import ZZ9K.Host.AllocShared

namespace ZZ9K.Media

open ZZ9K.Abi ZZ9K.Host ZZ9K.Framework

/-- A load of so many bytes from an offset of a shared buffer, on the bus in one access -/
structure Load where
  offset : Nat
  width : Nat

/-- The bytes of a load -/
abbrev Loaded (load : Load) : Type := {data : List UInt8 // data.length = load.width}

/-- A program that loads from a shared buffer -/
abbrev Loading := Ask Load Loaded

/-- `zz9k_shared_range_fits` -/
def sharedRangeFits (buffer : SharedBuffer) (offset length : UInt32) : Bool :=
  if buffer.handle = invalidHandle ∨ buffer.data = 0 ∨ buffer.length < offset then false
  else ¬buffer.length-offset < length

/-- A copy loop: so many units of `width` bytes from an offset on, and what follows it -/
def copyUnits (width : Nat) : Nat → Nat → Loading (List UInt8)
  | 0,_ => .ret []
  | more+1,offset => .ask {offset,width} fun data => do
    let rest ← copyUnits width more (offset+width)
    return data.val++rest

/-- How many units of `width` bytes a copy loop copies: none between addresses that are not aligned
to them -/
def unitsCopied (width dst src length : Nat) : Nat :=
  if dst%width = 0 ∧ src%width = 0 then length/width else 0

theorem unitsCopied_le (width dst src length : Nat) :
    unitsCopied width dst src length*width ≤ length := by
  rw [unitsCopied]
  split_ifs
  · exact Nat.div_mul_le_self length width
  · exact (Nat.zero_mul width).trans_le (Nat.zero_le _)

/-- `zz9k_shared_copy_from`: the bytes it stores at the address `dst`, where the range fits. The
first loop copies long words, the second words and the third bytes. -/
def sharedCopyFrom (dst : Nat) (buffer : SharedBuffer) (offset length : UInt32) :
    Loading (Option (List UInt8)) := do
  if ¬sharedRangeFits buffer offset length ∨ (length ≠ 0 ∧ dst = 0) then return none
  let src := buffer.data.toNat+offset.toNat
  let longs := unitsCopied 4 dst src length.toNat
  let done := longs*4
  let words := unitsCopied 2 (dst+done) (src+done) (length.toNat-done)
  let first ← copyUnits 4 longs offset.toNat
  let second ← copyUnits 2 words (offset.toNat+done)
  let third ← copyUnits 1 (length.toNat-done-words*2) (offset.toNat+done+words*2)
  return some (first++second++third)

/-- Memory that changes while a program loads from it: one content for each coming load -/
abbrev changing : World Load Loaded where
  State := Nat → Nat → UInt8
  allowed memory e := e.2.val = (List.range e.1.width).map fun i => memory 0 (e.1.offset+i)
  next memory _ := fun k => memory (k+1)

/-- Some bytes stay what they are while loads go on. -/
def Still (memory : Nat → Nat → UInt8) (places : Set Nat) (f : Nat → UInt8) : Prop :=
  ∀ k, ∀ x ∈ places, memory k x = f x

theorem Still.next {memory : Nat → Nat → UInt8} {places : Set Nat} {f : Nat → UInt8}
    (h : Still memory places f) : Still (fun k => memory (k+1)) places f :=
  fun k => h (k+1)

/-- The `n` bytes from an offset on -/
def bytesAt (f : Nat → UInt8) (offset n : Nat) : List UInt8 :=
  (List.range n).map fun i => f (offset+i)

@[simp] theorem length_bytesAt (f : Nat → UInt8) (offset n : Nat) :
    (bytesAt f offset n).length = n := by
  simp [bytesAt]

theorem bytesAt_append (f : Nat → UInt8) (offset n m : Nat) :
    bytesAt f offset n++bytesAt f (offset+n) m = bytesAt f offset (n+m) := by
  simp [bytesAt,List.range_add,Nat.add_assoc]

theorem bytesAt_congr {f g : Nat → UInt8} {offset n : Nat}
    (h : ∀ i, i < n → f (offset+i) = g (offset+i)) : bytesAt f offset n = bytesAt g offset n :=
  List.map_congr_left fun i hi => h i (List.mem_range.mp hi)

section

variable {f : Nat → UInt8} {places : Set Nat}

/-- While its range stays as it is, a copy loop copies it. -/
theorem copyUnits_wp (width n offset : Nat) {memory : Nat → Nat → UInt8}
    (hp : ∀ i, i < n*width → offset+i ∈ places) (h : Still memory places f) :
    changing.wp (copyUnits width n offset)
      (fun data after => data = bytesAt f offset (n*width) ∧ Still after places f) memory := by
  induction n generalizing memory offset with
  | zero =>
    simp only [copyUnits,World.wp_ret,Nat.zero_mul]
    exact ⟨rfl,h⟩
  | succ n ih =>
    rw [Nat.succ_mul] at hp ⊢
    rw [copyUnits,World.wp_ask]
    intro data hdata
    rw [World.wp_bind]
    have hrest : ∀ i, i < n*width → offset+width+i ∈ places := by
      intro i hi
      rw [Nat.add_assoc]
      exact hp (width+i) (by omega)
    refine changing.wp_mono (ih (offset+width) hrest h.next) ?_
    rintro rest after ⟨rfl,hafter⟩
    refine ⟨?_,hafter⟩
    have hload : data.val = bytesAt f offset width :=
      hdata.trans (bytesAt_congr fun i (hi : i < width) => h 0 _ (hp i (by omega)))
    rw [hload,bytesAt_append,Nat.add_comm width]

theorem sharedRangeFits_iff {buffer : SharedBuffer} {offset length : UInt32} :
    sharedRangeFits buffer offset length = true ↔
      buffer.handle ≠ invalidHandle ∧ buffer.data ≠ 0 ∧
        offset.toNat+length.toNat ≤ buffer.length.toNat := by
  rw [sharedRangeFits]
  by_cases hrefused : buffer.handle = invalidHandle ∨ buffer.data = 0 ∨ buffer.length < offset
  · rw [if_pos hrefused]
    rw [UInt32.lt_iff_toNat_lt] at hrefused
    refine iff_of_false (by decide) ?_
    rintro ⟨hhandle,hdata,hfits⟩
    rcases hrefused with h | h | h
    · exact hhandle h
    · exact hdata h
    · omega
  · rw [if_neg hrefused]
    rw [not_or,not_or,UInt32.lt_iff_toNat_lt,Nat.not_lt] at hrefused
    have hsub := UInt32.toNat_sub_of_le _ _ (UInt32.le_iff_toNat_le.mpr hrefused.2.2)
    simp only [decide_eq_true_eq,UInt32.lt_iff_toNat_lt,hsub]
    have hle := hrefused.2.2
    constructor
    · exact fun h => ⟨hrefused.1,hrefused.2.1,by omega⟩
    · exact fun h => by omega

/-- While a range that fits stays as it is, it is copied. -/
theorem sharedCopyFrom_wp {dst : Nat} {buffer : SharedBuffer} {offset length : UInt32}
    (hdst : dst ≠ 0) (hfits : sharedRangeFits buffer offset length = true)
    {memory : Nat → Nat → UInt8} (hp : ∀ i, i < length.toNat → offset.toNat+i ∈ places)
    (h : Still memory places f) :
    changing.wp (sharedCopyFrom dst buffer offset length)
      (fun data after => data = some (bytesAt f offset.toNat length.toNat) ∧ Still after places f)
      memory := by
  rw [sharedCopyFrom,if_neg (by simp [hfits,hdst])]
  dsimp only
  have hlong := unitsCopied_le 4 dst (buffer.data.toNat+offset.toNat) length.toNat
  generalize unitsCopied 4 dst (buffer.data.toNat+offset.toNat) length.toNat = longs at hlong ⊢
  have hword := unitsCopied_le 2 (dst+longs*4) (buffer.data.toNat+offset.toNat+longs*4)
    (length.toNat-longs*4)
  generalize unitsCopied 2 (dst+longs*4) (buffer.data.toNat+offset.toNat+longs*4)
    (length.toNat-longs*4) = words at hword ⊢
  rw [World.wp_bind]
  refine changing.wp_mono (copyUnits_wp 4 longs offset.toNat (fun i hi => hp i (by omega)) h) ?_
  rintro _ _ ⟨rfl,h⟩
  rw [World.wp_bind]
  have hsecond : ∀ i, i < words*2 → offset.toNat+longs*4+i ∈ places := by
    intro i hi
    rw [Nat.add_assoc]
    exact hp _ (by omega)
  refine changing.wp_mono (copyUnits_wp 2 words _ hsecond h) ?_
  rintro _ _ ⟨rfl,h⟩
  rw [World.wp_bind]
  have hthird : ∀ i, i < (length.toNat-longs*4-words*2)*1 →
      offset.toNat+longs*4+words*2+i ∈ places := by
    intro i hi
    rw [Nat.add_assoc,Nat.add_assoc]
    exact hp _ (by omega)
  refine changing.wp_mono (copyUnits_wp 1 _ _ hthird h) ?_
  rintro _ _ ⟨rfl,h⟩
  refine ⟨?_,h⟩
  rw [List.append_assoc,bytesAt_append,bytesAt_append]
  have htotal : longs*4+(words*2+(length.toNat-longs*4-words*2)*1) = length.toNat := by omega
  rw [htotal]

end

section

variable {P : Load → Prop}

theorem all_copyUnits {width n offset : Nat}
    (hP : ∀ i, i < n → P ⟨offset+i*width,width⟩) : (copyUnits width n offset).All P := by
  induction n generalizing offset with
  | zero => trivial
  | succ n ih =>
    refine ⟨by simpa using hP 0 (Nat.succ_pos n),fun data => Ask.all_bind (ih ?_) fun _ => trivial⟩
    intro i hi
    have h := hP (i+1) (Nat.succ_lt_succ hi)
    rwa [Nat.succ_mul,Nat.add_comm (i*width),← Nat.add_assoc] at h

/-- A copy loads from its range only, and only where it fits. -/
theorem all_sharedCopyFrom {dst : Nat} {buffer : SharedBuffer} {offset length : UInt32}
    (hP : sharedRangeFits buffer offset length = true → ∀ load : Load, offset.toNat ≤ load.offset →
      load.offset+load.width ≤ offset.toNat+length.toNat → P load) :
    (sharedCopyFrom dst buffer offset length).All P := by
  rw [sharedCopyFrom]
  by_cases hrefused : ¬sharedRangeFits buffer offset length ∨ (length ≠ 0 ∧ dst = 0)
  · rw [if_pos hrefused]
    trivial
  rw [if_neg hrefused]
  rw [not_or,not_not] at hrefused
  replace hP := hP hrefused.1
  dsimp only
  have hlong := unitsCopied_le 4 dst (buffer.data.toNat+offset.toNat) length.toNat
  generalize unitsCopied 4 dst (buffer.data.toNat+offset.toNat) length.toNat = longs at hlong ⊢
  have hword := unitsCopied_le 2 (dst+longs*4) (buffer.data.toNat+offset.toNat+longs*4)
    (length.toNat-longs*4)
  generalize unitsCopied 2 (dst+longs*4) (buffer.data.toNat+offset.toNat+longs*4)
    (length.toNat-longs*4) = words at hword ⊢
  refine Ask.all_bind (all_copyUnits fun i hi => hP _ ?_ ?_) fun _ => ?_
  · exact Nat.le_add_right _ _
  · dsimp only
    omega
  refine Ask.all_bind (all_copyUnits fun i hi => hP _ ?_ ?_) fun _ => ?_
  · dsimp only
    omega
  · dsimp only
    omega
  refine Ask.all_bind (all_copyUnits fun i hi => hP _ ?_ ?_) fun _ => trivial
  · dsimp only
    omega
  · dsimp only
    omega

end

end ZZ9K.Media
