import ZZ9K.Archive.TarReads

namespace ZZ9K.Archive

open ZZ9K.Framework ZZ9K.Framework.Reading

/-- What `zz9k_archive_tar_list` does with an entry before its pending size -/
def tarListEntryAt (entry : ArchiveEntry) (p : TarPending) :
    TarReading (Option (ArchiveEntry × TarPending)) :=
  if entry.isGnuLongName then do
    let name ← tarCopyDataNameAt entry.uncompressedSize entry.dataOffset
    return name.map fun (name,skip) => (entry,{p with name,skip})
  else if entry.isPaxHeader then do
    let pax ← tarParsePaxInfoAt entry.uncompressedSize entry.dataOffset {}
    return pax.map fun pax => (entry,p.afterPax pax)
  else if p.skip then
    return some ({entry with flags := entry.flags ||| tarFlagSkip},{p with skip := false})
  else if p.name ≠ [] then return some ({entry with name := p.name},{p with name := []})
  else return some (entry,p)

/-- Whether the bytes of an entry are inside `length` bytes -/
def tarInRangeOf (length : Nat) (entry : ArchiveEntry) : Bool :=
  entry.dataOffset ≤ length ∧ entry.uncompressedSize ≤ length ∧
    entry.dataOffset+entry.uncompressedSize ≤ length

/-- The record at `pos`, as `zz9k_archive_tar_list` reads it -/
def tarListRecordAt (length pos : Nat) (p : TarPending) :
    TarReading (Option (ArchiveEntry × TarPending)) := do
  let candidate ← tarEntryFromHeaderAt pos (pos+512)
  match candidate with
  | none => return none
  | some candidate =>
    if tarInRangeOf length candidate = false then return none
    else
      let entry ← tarListEntryAt candidate p
      return entry.bind fun (entry,p) =>
        let (entry,p) := tarPendingSize entry p
        if tarInRangeOf length entry = false then none else some (entry,p)

/-- The loop of `zz9k_archive_tar_list` -/
def tarListLoopAt (length entryCapacity pos : Nat) (p : TarPending)
    (entries : List ArchiveEntry) : TarReading (Option (List ArchiveEntry)) :=
  if _h : pos+512 ≤ length then do
    let empty ← tarHeaderEmptyAt pos
    if empty then return some entries
    else
      let record ← tarListRecordAt length pos p
      match record with
      | none => return none
      | some (entry,p) =>
        if entry.isSkipped then tarListLoopAt length entryCapacity (tarNext pos entry) p entries
        else if entryCapacity ≤ entries.length then return none
        else tarListLoopAt length entryCapacity (tarNext pos entry) p (entries++[entry])
  else return some entries
termination_by length-pos
decreasing_by
  all_goals
    simp only [tarNext]
    omega

/-- `zz9k_archive_tar_list` of `length` bytes -/
def tarListAt (length entryCapacity : Nat) : TarReading (Option (List ArchiveEntry)) :=
  if length%512 ≠ 0 then return none else tarListLoopAt length entryCapacity 0 {} []

/-- The variables of the loop of `zz9k_archive_count_tar_entries` -/
structure TarCount where
  pos : Nat := 0
  entries : Nat := 0
  pendingSize : Option Nat := none
  pendingSkip : Bool := false
  deriving DecidableEq

namespace TarCount

/-- What a PAX header leaves pending -/
def afterPax (s : TarCount) (pax : TarPaxInfo) : TarCount :=
  let s := match pax.size with
    | none => s
    | some size => {s with pendingSize := some size}
  match pax.path with
  | none => s
  | some (_,skip) => {s with pendingSkip := skip}

/-- The end of a round, `entry` having `size` bytes -/
def next (s : TarCount) (entry : ArchiveEntry) (size : Nat) : TarCount :=
  {s with
    entries := if entry.isSkipped then s.entries else u32 (s.entries+1)
    pos := u32 (s.pos+(512+u32 (size+511)/512*512))}

end TarCount

/-- One round of `zz9k_archive_count_tar_entries`: it ends the loop with a count, or with none
where it fails. Its sums are of 32 bits. -/
def countTarRoundAt (length : Nat) (s : TarCount) : TarReading (Option Nat ⊕ TarCount) :=
  if u32 (s.pos+512) ≤ length then do
    let empty ← tarHeaderEmptyAt s.pos
    if empty then return .inl (some s.entries)
    else
      let entry ← tarEntryFromHeaderAt s.pos (u32 (s.pos+512))
      match entry with
      | none => return .inl none
      | some entry =>
        let size := entry.uncompressedSize
        if length < u32 (s.pos+512+size) then return .inl none
        else if entry.isPaxHeader then
          let pax ← tarParsePaxInfoAt size entry.dataOffset {}
          match pax with
          | none => return .inl none
          | some pax => return .inr ((s.afterPax pax).next entry size)
        else if entry.isGnuLongName then
          let name ← tarCopyDataNameAt size entry.dataOffset
          match name with
          | none => return .inl none
          | some (_,skip) => return .inr (TarCount.next {s with pendingSkip := skip} entry size)
        else
          let entry := if s.pendingSkip then {entry with flags := entry.flags ||| tarFlagSkip}
            else entry
          let s := {s with pendingSkip := false}
          match s.pendingSize with
          | none => return .inr (s.next entry size)
          | some size =>
            if length < u32 (s.pos+512+size) then return .inl none
            else return .inr (TarCount.next {s with pendingSize := none} entry size)
  else return .inl (some s.entries)

/-- `zz9k_archive_count_tar_entries` of `length` bytes, for at most `fuel` rounds -/
def countTarEntriesAt (length fuel : Nat) : TarReading (Option (Option Nat)) :=
  if length%512 ≠ 0 then return some none else Ask.iterate (countTarRoundAt length) fuel {}

section

variable {data : Bytes} {pos : Nat} {p q : TarPending} {entry : ArchiveEntry}

theorem tarListEntryAt_eq (h : entry.dataOffset+entry.uncompressedSize ≤ data.length) :
    onBuffer data (tarListEntryAt entry p) = some (tarListEntry data entry p) := by
  unfold tarListEntryAt tarListEntry tarData
  split_ifs
  · rw [onBuffer_bind,tarCopyDataNameAt_eq h]
    rfl
  · rw [onBuffer_bind,tarParsePaxInfoAt_eq h]
    rfl
  · rfl
  · rfl
  · rfl

theorem tarListRecordAt_eq (h : pos+512 ≤ data.length) :
    onBuffer data (tarListRecordAt data.length pos p) = some (tarListRecord data pos p) := by
  have hrange : ∀ entry,tarInRangeOf data.length entry = tarInRange data entry := fun _ => rfl
  unfold tarListRecordAt tarListRecord
  rw [onBuffer_bind,tarEntryFromHeaderAt_eq h,Option.bind_some]
  cases tarEntryFromHeader (slice data pos tarBlock) (pos+512) with
  | none => rfl
  | some candidate =>
    simp only [Option.bind_eq_bind,Option.bind_some,hrange]
    split_ifs with hout
    · rfl
    · simp only [tarInRange,Bool.not_eq_false,decide_eq_true_eq] at hout
      rw [onBuffer_bind,tarListEntryAt_eq hout.2.2]
      rfl

theorem tarListLoopAt_eq (capacity pos : Nat) (p : TarPending) (entries : List ArchiveEntry) :
    onBuffer data (tarListLoopAt data.length capacity pos p entries) =
      some (tarListLoop data capacity pos p entries) := by
  induction pos,p,entries using tarListLoop.induct data capacity with
  | case1 pos p acc hroom hempty =>
    rw [tarListLoop,tarListLoopAt,dif_pos hroom,dif_pos hroom,onBuffer_bind,
      tarHeaderEmptyAt_eq hroom,hempty]
    rfl
  | case2 pos p acc hroom hempty hrecord =>
    rw [tarListLoop,tarListLoopAt,dif_pos hroom,dif_pos hroom,onBuffer_bind,
      tarHeaderEmptyAt_eq hroom,Option.bind_some,if_neg hempty,if_neg hempty,onBuffer_bind,
      tarListRecordAt_eq hroom,hrecord]
    rfl
  | case3 pos p acc hroom hempty entry q hrecord hskip ih =>
    rw [tarListLoop,tarListLoopAt,dif_pos hroom,dif_pos hroom,onBuffer_bind,
      tarHeaderEmptyAt_eq hroom,Option.bind_some,if_neg hempty,if_neg hempty,onBuffer_bind,
      tarListRecordAt_eq hroom,hrecord,Option.bind_some]
    simp only [hskip,if_true]
    exact ih
  | case4 pos p acc hroom hempty entry q hrecord hskip hfull =>
    rw [tarListLoop,tarListLoopAt,dif_pos hroom,dif_pos hroom,onBuffer_bind,
      tarHeaderEmptyAt_eq hroom,Option.bind_some,if_neg hempty,if_neg hempty,onBuffer_bind,
      tarListRecordAt_eq hroom,hrecord,Option.bind_some]
    simp only [hskip,hfull,if_true]
    rfl
  | case5 pos p acc hroom hempty entry q hrecord hskip hfull ih =>
    rw [tarListLoop,tarListLoopAt,dif_pos hroom,dif_pos hroom,onBuffer_bind,
      tarHeaderEmptyAt_eq hroom,Option.bind_some,if_neg hempty,if_neg hempty,onBuffer_bind,
      tarListRecordAt_eq hroom,hrecord,Option.bind_some]
    simp only [hskip,hfull]
    exact ih
  | case6 pos p acc hroom =>
    rw [tarListLoop,tarListLoopAt,dif_neg hroom,dif_neg hroom]
    rfl

theorem tarListAt_eq (capacity : Nat) :
    onBuffer data (tarListAt data.length capacity) = some (tarList data capacity) := by
  unfold tarListAt tarList
  split_ifs
  · rfl
  · exact tarListLoopAt_eq capacity 0 {} []

end

end ZZ9K.Archive
