import ZZ9K.Archive.TarHeader

namespace ZZ9K.Archive

/-- What earlier records say about the next member: its name, whether to skip it, its size -/
structure TarPending where
  name : CString := []
  skip : Bool := false
  size : Option Nat := none
  deriving DecidableEq

/-- What a PAX header leaves pending, in both walks -/
def TarPending.afterPax (p : TarPending) (pax : TarPaxInfo) : TarPending :=
  let p := match pax.path with
    | none => p
    | some (path,skip) =>
      if skip then {p with name := [],skip := true} else {p with name := path,skip := false}
  match pax.size with
  | none => p
  | some size => {p with size := some size}

/-- A pending size replaces that of a member, in both walks. -/
def tarPendingSize (entry : ArchiveEntry) (p : TarPending) : ArchiveEntry × TarPending :=
  if entry.isGnuLongName ∨ entry.isPaxHeader then (entry,p)
  else
    match p.size with
    | none => (entry,p)
    | some size =>
      ({entry with compressedSize := size,uncompressedSize := size},{p with size := none})

/-- The bytes of an entry -/
def tarData (data : Bytes) (entry : ArchiveEntry) : Bytes :=
  slice data entry.dataOffset entry.uncompressedSize

def tarInRange (data : Bytes) (entry : ArchiveEntry) : Bool :=
  entry.dataOffset ≤ data.length ∧ entry.uncompressedSize ≤ data.length ∧
    entry.dataOffset+entry.uncompressedSize ≤ data.length

/-- What `zz9k_archive_tar_list` does with an entry before its pending size -/
def tarListEntry (data : Bytes) (entry : ArchiveEntry) (p : TarPending) :
    Option (ArchiveEntry × TarPending) :=
  if entry.isGnuLongName then
    (tarCopyDataName (tarData data entry)).map fun (name,skip) => (entry,{p with name,skip})
  else if entry.isPaxHeader then
    (tarParsePaxInfo (tarData data entry) {}).map fun pax => (entry,p.afterPax pax)
  else if p.skip then
    some ({entry with flags := entry.flags ||| tarFlagSkip},{p with skip := false})
  else if p.name ≠ [] then some ({entry with name := p.name},{p with name := []})
  else some (entry,p)

/-- The record at `pos`, as `zz9k_archive_tar_list` reads it. Sums of offsets do not wrap: no
archive of 2^31 bytes or more is loaded. -/
def tarListRecord (data : Bytes) (pos : Nat) (p : TarPending) :
    Option (ArchiveEntry × TarPending) := do
  let candidate ← tarEntryFromHeader (slice data pos tarBlock) (pos+512)
  if tarInRange data candidate = false then none
  else do
    let (entry,p) ← tarListEntry data candidate p
    let (entry,p) := tarPendingSize entry p
    if tarInRange data entry = false then none else some (entry,p)

/-- Where the record after that of `entry` starts -/
def tarNext (pos : Nat) (entry : ArchiveEntry) : Nat :=
  pos+(512+(entry.uncompressedSize+511)/512*512)

/-- The loop of `zz9k_archive_tar_list` -/
def tarListLoop (data : Bytes) (entryCapacity pos : Nat) (p : TarPending)
    (entries : List ArchiveEntry) : Option (List ArchiveEntry) :=
  if _h : pos+512 ≤ data.length then
    if tarHeaderEmpty (slice data pos tarBlock) then some entries
    else
      match tarListRecord data pos p with
      | none => none
      | some (entry,p) =>
        if entry.isSkipped then tarListLoop data entryCapacity (tarNext pos entry) p entries
        else if entryCapacity ≤ entries.length then none
        else tarListLoop data entryCapacity (tarNext pos entry) p (entries++[entry])
  else some entries
termination_by data.length-pos
decreasing_by
  all_goals
    simp only [tarNext]
    omega

/-- `zz9k_archive_tar_list` -/
def tarList (data : Bytes) (entryCapacity : Nat) : Option (List ArchiveEntry) :=
  if data.length%512 ≠ 0 then none else tarListLoop data entryCapacity 0 {} []

end ZZ9K.Archive
