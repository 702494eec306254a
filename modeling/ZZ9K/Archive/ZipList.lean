import ZZ9K.Archive.Entry

namespace ZZ9K.Archive

def zipU32Sentinel : Nat := 0xffffffff
def zipSupportedU32Max : Nat := 0x7fffffff

/-- The length of an end record with the longest comment -/
def zipEocdMax : Nat := 22+65535

/-- Whether an end record whose comment runs to the end of the buffer starts at `pos` -/
def eocdAt (data : Bytes) (pos : Nat) : Bool :=
  getLe32 data pos = 0x06054b50 ∧ u32 (pos+22+getLe16 data (pos+20)) = data.length

/-- The loop of `zz9k_archive_find_eocd`, down to `min` -/
def findEocdDown (data : Bytes) (min : Nat) : Nat → Option Nat
  | 0 => if eocdAt data min then some min else none
  | i+1 => if eocdAt data (min+(i+1)) then some (min+(i+1)) else findEocdDown data min i

/-- `zz9k_archive_find_eocd` -/
def findEocd (data : Bytes) : Option Nat :=
  if data.length < 22 then none
  else
    let min := if zipEocdMax < data.length then data.length-zipEocdMax else 0
    findEocdDown data min (data.length-22-min)

/-- `zz9k_archive_zip_u64_to_supported_u32` -/
def zipU64ToSupportedU32 (value : Nat) : Option Nat :=
  if zipSupportedU32Max < value then none else some value

/-- `zz9k_archive_zip_eocd_needs_zip64` of the end record at `eocd` -/
def zipEocdNeedsZip64 (data : Bytes) (eocd : Nat) : Bool :=
  getLe16 data (eocd+8) = 0xffff ∨ getLe16 data (eocd+10) = 0xffff ∨
    getLe32 data (eocd+12) = zipU32Sentinel ∨ getLe32 data (eocd+16) = zipU32Sentinel

/-- What an end record says about the central directory -/
structure ZipDirectory where
  totalEntries : Nat
  cdSize : Nat
  cdOffset : Nat
  deriving DecidableEq

/-- `zz9k_archive_zip_parse_zip64_eocd_record` of the record at `o` -/
def zipParseZip64EocdRecord (data : Bytes) (o : Nat) : Option ZipDirectory :=
  if getLe32 data o ≠ 0x06064b50 ∨ getLe64 data (o+4) < 44 ∨ getLe32 data (o+16) ≠ 0 ∨
      getLe32 data (o+20) ≠ 0 ∨ getLe64 data (o+24) ≠ getLe64 data (o+32) then none
  else do
    let totalEntries ← zipU64ToSupportedU32 (getLe64 data (o+32))
    let cdSize ← zipU64ToSupportedU32 (getLe64 data (o+40))
    let cdOffset ← zipU64ToSupportedU32 (getLe64 data (o+48))
    some {totalEntries,cdSize,cdOffset}

/-- The directory as an end record without ZIP64 fields describes it -/
def zipPlainDirectory (data : Bytes) (eocd : Nat) : Option ZipDirectory :=
  if getLe16 data (eocd+10) ≠ getLe16 data (eocd+8) then none
  else some ⟨getLe16 data (eocd+10),getLe32 data (eocd+12),getLe32 data (eocd+16)⟩

/-- Whether a ZIP64 locator stands before the end record -/
def zip64LocatorAt (data : Bytes) (eocd : Nat) : Bool :=
  20 ≤ eocd ∧ getLe32 data (eocd-20) = 0x07064b50 ∧ getLe32 data (eocd-16) = 0 ∧
    getLe32 data (eocd-4) = 1

/-- `zz9k_archive_zip_read_eocd` -/
def zipReadEocd (data : Bytes) (eocd : Nat) : Option ZipDirectory :=
  if data.length < eocd ∨ data.length-eocd < 22 then none
  else if getLe16 data (eocd+4) ≠ 0 ∨ getLe16 data (eocd+6) ≠ 0 then none
  else if zipEocdNeedsZip64 data eocd = false then zipPlainDirectory data eocd
  else if zip64LocatorAt data eocd = false then none
  else do
    let o ← zipU64ToSupportedU32 (getLe64 data (eocd-12))
    if data.length < o ∨ data.length-o < 56 then none
    else if data.length-o-12 < getLe64 data (o+4) then none
    else zipParseZip64EocdRecord data o

/-- `zz9k_archive_read_file_range`: a range that is not all in the file cannot be read. -/
def readFileRange (file : Bytes) (offset length : Nat) : Option Bytes :=
  if 0x7fffffff < offset ∨ file.length < offset+length then none
  else some (slice file offset length)

/-- `zz9k_archive_zip_read_eocd_from_file`, with the end of the file read to `tail` -/
def zipReadEocdFromFile (file tail : Bytes) (eocd : Nat) : Option ZipDirectory :=
  if tail.length < eocd ∨ tail.length-eocd < 22 then none
  else if getLe16 tail (eocd+4) ≠ 0 ∨ getLe16 tail (eocd+6) ≠ 0 then none
  else if zipEocdNeedsZip64 tail eocd = false then zipPlainDirectory tail eocd
  else if zip64LocatorAt tail eocd = false then none
  else do
    let o ← zipU64ToSupportedU32 (getLe64 tail (eocd-12))
    if file.length < o ∨ file.length-o < 56 then none
    else do
      let record ← readFileRange file o 56
      if file.length-o-12 < getLe64 record 4 then none
      else zipParseZip64EocdRecord record 0

/-- The sizes and the offset of a record, which a ZIP64 extra field may replace -/
structure ZipSizes where
  compressed : Nat
  uncompressed : Nat
  localOffset : Nat
  deriving DecidableEq

/-- `zz9k_archive_zip_read_zip64_u32` at `pos` of a field -/
def zipReadZip64U32 (field : Bytes) (pos : Nat) : Option Nat :=
  if field.length < pos ∨ field.length-pos < 8 then none
  else zipU64ToSupportedU32 (getLe64 field pos)

/-- What `zz9k_archive_zip_parse_zip64_extra` does when it has found a ZIP64 field -/
def zipZip64Field (field : Bytes) (withOffset : Bool) (s : ZipSizes) : Option ZipSizes := do
  let needU := s.uncompressed = zipU32Sentinel
  let needC := s.compressed = zipU32Sentinel
  let uncompressed ← if needU then zipReadZip64U32 field 0 else some s.uncompressed
  let pos := if needU then 8 else 0
  let compressed ← if needC then zipReadZip64U32 field pos else some s.compressed
  let pos := if needC then pos+8 else pos
  let localOffset ← if withOffset ∧ s.localOffset = zipU32Sentinel then zipReadZip64U32 field pos
    else some s.localOffset
  some {compressed,uncompressed,localOffset}

/-- The loop of `zz9k_archive_zip_parse_zip64_extra` -/
def zipZip64Loop (extra : Bytes) (withOffset : Bool) (s : ZipSizes) : Option ZipSizes :=
  if _h : 4 ≤ extra.length then
    let size := getLe16 extra 2
    let rest := extra.drop 4
    if rest.length < size then none
    else if getLe16 extra 0 ≠ 1 then zipZip64Loop (rest.drop size) withOffset s
    else zipZip64Field (rest.take size) withOffset s
  else none
termination_by extra.length
decreasing_by simp; omega

/-- `zz9k_archive_zip_parse_zip64_extra`; `withOffset` says whether `local_offset` is given. -/
def zipParseZip64Extra (extra : Bytes) (withOffset : Bool) (s : ZipSizes) : Option ZipSizes :=
  if s.compressed ≠ zipU32Sentinel ∧ s.uncompressed ≠ zipU32Sentinel ∧
      ¬(withOffset ∧ s.localOffset = zipU32Sentinel) then some s
  else zipZip64Loop extra withOffset s

/-- What the central directory says and the local header has to repeat -/
structure ZipExpected where
  name : Bytes
  flags : Nat
  method : Nat
  crc32 : Nat
  compressedSize : Nat
  uncompressedSize : Nat

/-- Whether a local header and the name and extra field behind it repeat what is expected -/
def zipLocalMatches (header nameExtra : Bytes) (expected : ZipExpected) : Bool :=
  if slice nameExtra 0 (getLe16 header 26) ≠ expected.name then false
  else if getLe16 header 6 &&& 8 = 0 then
    match zipParseZip64Extra (slice nameExtra (getLe16 header 26) (getLe16 header 28)) false
      ⟨getLe32 header 18,getLe32 header 22,0⟩ with
    | none => false
    | some sizes => getLe32 header 14 = expected.crc32 ∧
        sizes.compressed = expected.compressedSize ∧
        sizes.uncompressed = expected.uncompressedSize
  else true

/-- `zz9k_archive_zip_data_offset_checked` -/
def zipDataOffsetChecked (data : Bytes) (localOffset : Nat) (expected : ZipExpected) :
    Option Nat :=
  if data.length < localOffset ∨ data.length-localOffset < 30 ∨
      getLe32 data localOffset ≠ 0x04034b50 then none
  else
    let header := slice data localOffset 30
    let nameLen := getLe16 header 26
    let extraLen := getLe16 header 28
    let offset := u32 (localOffset+30)
    if data.length-offset < nameLen ∨ data.length-offset-nameLen < extraLen then none
    else if getLe16 header 6 ≠ expected.flags ∨ getLe16 header 8 ≠ expected.method ∨
        nameLen ≠ expected.name.length then none
    else if zipLocalMatches header (data.drop (localOffset+30)) expected = false then none
    else some (u32 (offset+(nameLen+extraLen)))

/-- `zz9k_archive_zip_data_offset_from_file_checked` -/
def zipDataOffsetFromFileChecked (file : Bytes) (localOffset : Nat) (expected : ZipExpected) :
    Option Nat :=
  if file.length < localOffset ∨ file.length-localOffset < 30 ∨ 0x7fffffff < localOffset then none
  else do
    let header ← readFileRange file localOffset 30
    if getLe32 header 0 ≠ 0x04034b50 then none
    else
      let nameLen := getLe16 header 26
      let extraLen := getLe16 header 28
      let offset := u32 (localOffset+30+nameLen+extraLen)
      if file.length-localOffset-30 < nameLen ∨ file.length-localOffset-30-nameLen < extraLen ∨
          offset < localOffset ∨ file.length < offset then none
      else if getLe16 header 6 ≠ expected.flags ∨ getLe16 header 8 ≠ expected.method ∨
          nameLen ≠ expected.name.length then none
      else do
        let nameExtra ← readFileRange file (localOffset+30) (nameLen+extraLen)
        if zipLocalMatches header nameExtra expected = false then none
        else some offset

/-- The fields of a central directory record -/
structure ZipCentral where
  flags : Nat
  method : Nat
  crc32 : Nat
  sizes : ZipSizes
  nameLen : Nat
  extraLen : Nat
  commentLen : Nat
  externalAttrs : Nat

def zipCentralAt (dir : Bytes) (pos : Nat) : ZipCentral where
  flags := getLe16 dir (pos+8)
  method := getLe16 dir (pos+10)
  crc32 := getLe32 dir (pos+16)
  sizes := ⟨getLe32 dir (pos+20),getLe32 dir (pos+24),getLe32 dir (pos+42)⟩
  nameLen := getLe16 dir (pos+28)
  extraLen := getLe16 dir (pos+30)
  commentLen := getLe16 dir (pos+32)
  externalAttrs := getLe32 dir (pos+38)

def ZipCentral.recordLength (c : ZipCentral) : Nat :=
  u32 (46+c.nameLen+c.extraLen+c.commentLen)

/-- `zz9k_archive_zip_external_attrs_is_dir` -/
def zipExternalAttrsIsDir (attrs : Nat) : Bool :=
  attrs &&& 0x10 ≠ 0 ∨ (attrs >>> 16) &&& 0o170000 = 0o040000

def ZipCentral.expected (c : ZipCentral) (name : Bytes) (sizes : ZipSizes) : ZipExpected where
  name
  flags := c.flags
  method := c.method
  crc32 := c.crc32
  compressedSize := sizes.compressed
  uncompressedSize := sizes.uncompressed

/-- The entry both listings make of a record, `name` being its raw name -/
def ZipCentral.entry (c : ZipCentral) (name : Bytes) (sizes : ZipSizes) (dataOffset : Nat) :
    Option ArchiveEntry :=
  (copyZipName name c.nameLen).map fun copied => {
    name := copied
    method := c.method
    flags := c.flags ||| archiveEntryFlagCrc32
    crc32 := c.crc32
    dataOffset
    compressedSize := sizes.compressed
    uncompressedSize := sizes.uncompressed
    isDir := nameEndsWithSlash copied ∨ zipExternalAttrsIsDir c.externalAttrs }

/-- One round of the loop of `zz9k_archive_zip_list`: the entry and where the next record is -/
def zipRecord (data : Bytes) (pos : Nat) : Option (ArchiveEntry × Nat) :=
  if data.length < u32 (pos+46) ∨ getLe32 data pos ≠ 0x02014b50 then none
  else
    let c := zipCentralAt data pos
    if c.nameLen = 0 ∨
        data.length < u32 (pos+46+c.nameLen+c.extraLen+c.commentLen) then none
    else do
      let sizes ← zipParseZip64Extra (slice data (pos+46+c.nameLen) c.extraLen) true c.sizes
      let name := slice data (pos+46) c.nameLen
      let dataOffset ← zipDataOffsetChecked data sizes.localOffset (c.expected name sizes)
      if data.length < sizes.compressed ∨ data.length < dataOffset ∨
          data.length < u32 (dataOffset+sizes.compressed) then none
      else do
        let entry ← c.entry name sizes dataOffset
        some (entry,u32 (pos+c.recordLength))

/-- One round of the loop of `zz9k_archive_zip_list_from_directory` -/
def zipRecordFromDirectory (file directory : Bytes) (pos : Nat) :
    Option (ArchiveEntry × Nat) :=
  if directory.length < u32 (pos+46) ∨ getLe32 directory pos ≠ 0x02014b50 then none
  else
    let c := zipCentralAt directory pos
    if c.nameLen = 0 ∨
        directory.length < u32 (pos+46+c.nameLen+c.extraLen+c.commentLen) then none
    else do
      let sizes ← zipParseZip64Extra (slice directory (pos+46+c.nameLen) c.extraLen) true c.sizes
      let name := slice directory (pos+46) c.nameLen
      let dataOffset ← zipDataOffsetFromFileChecked file sizes.localOffset (c.expected name sizes)
      if file.length < sizes.compressed ∨ file.length < dataOffset ∨
          file.length-dataOffset < sizes.compressed then none
      else do
        let entry ← c.entry name sizes dataOffset
        some (entry,u32 (pos+c.recordLength))

/-- The loop of both listings over the declared number of records: `record` is one round of it,
`entries` what has been listed so far. -/
def zipWalk (record : Nat → Option (ArchiveEntry × Nat)) (entryCapacity : Nat) :
    Nat → Nat → List ArchiveEntry → Option (List ArchiveEntry × Nat)
  | 0,pos,entries => some (entries,pos)
  | left+1,pos,entries => do
      let (candidate,next) ← record pos
      if zipEntryIsRootMetadata candidate then zipWalk record entryCapacity left next entries
      else if entryCapacity ≤ entries.length then none
      else zipWalk record entryCapacity left next (entries++[candidate])

/-- `zz9k_archive_zip_list` -/
def zipList (data : Bytes) (entryCapacity : Nat) : Option (List ArchiveEntry) := do
  let eocd ← findEocd data
  let d ← zipReadEocd data eocd
  if data.length < d.cdOffset ∨ data.length-d.cdOffset < d.cdSize then none
  else if d.totalEntries = 0 then if d.cdSize = 0 then some [] else none
  else (zipWalk (zipRecord data) entryCapacity d.totalEntries d.cdOffset []).map Prod.fst

/-- `zz9k_archive_zip_read_directory_from_file`: the directory and its declared number of
entries -/
def zipReadDirectoryFromFile (file : Bytes) : Option (Bytes × Nat) :=
  if file.length < 22 then none
  else
    let tailLength := if zipEocdMax < file.length then zipEocdMax else file.length
    do
    let tail ← readFileRange file (file.length-tailLength) tailLength
    let eocd ← findEocd tail
    let d ← zipReadEocdFromFile file tail eocd
    if d.totalEntries = 0 ∧ d.cdSize = 0 then some ([],0)
    else if d.totalEntries = 0 ∨ d.cdSize = 0 ∨ file.length < d.cdOffset ∨
        file.length-d.cdOffset < d.cdSize ∨ 0x7fffffff < d.cdOffset then none
    else do
      let directory ← readFileRange file d.cdOffset d.cdSize
      some (directory,d.totalEntries)

/-- The last loop of `zz9k_archive_zip_list_from_directory`: what follows the records is a run of
complete digital signatures. -/
def zipSignatures (directory : Bytes) (pos : Nat) : Bool :=
  if pos < directory.length then
    if _h : directory.length < pos+6 ∨ getLe32 directory pos ≠ 0x05054b50 then false
    else
      let extraSize := getLe16 directory (pos+4)
      if directory.length-pos-6 < extraSize then false
      else zipSignatures directory (pos+(6+extraSize))
  else true
termination_by directory.length-pos
decreasing_by omega

/-- `zz9k_archive_zip_list_from_directory` -/
def zipListFromDirectory (file directory : Bytes) (entryCapacity expectedEntries : Nat) :
    Option (List ArchiveEntry) :=
  if expectedEntries = 0 then if directory.length = 0 then some [] else none
  else do
    let (entries,pos) ← zipWalk (zipRecordFromDirectory file directory) entryCapacity
      expectedEntries 0 []
    if zipSignatures directory pos then some entries else none

/-- `zz9k_archive_zip_list_file` -/
def zipListFile (file : Bytes) (entryCapacity : Nat) : Option (List ArchiveEntry) := do
  let (directory,count) ← zipReadDirectoryFromFile file
  zipListFromDirectory file directory entryCapacity count

end ZZ9K.Archive
