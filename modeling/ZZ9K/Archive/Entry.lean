import ZZ9K.Archive.Bytes

namespace ZZ9K.Archive

/-- The bytes of a string before its NUL -/
abbrev CString := List UInt8

def slash : UInt8 := 0x2f
def backslash : UInt8 := 0x5c
def dot : UInt8 := 0x2e
def colon : UInt8 := 0x3a

def archiveMaxName : Nat := 256
def archiveEntryFlagCrc32 : Nat := 0x80000000

/-- `ZZ9KArchiveEntry`, zeroed by default -/
structure ArchiveEntry where
  name : CString := []
  method : Nat := 0
  flags : Nat := 0
  crc32 : Nat := 0
  dataOffset : Nat := 0
  decodedOffset : Nat := 0
  compressedSize : Nat := 0
  uncompressedSize : Nat := 0
  isDir : Bool := false
  methodProps : Bytes := []
  deriving DecidableEq

/-- `command` of the tool -/
inductive ArchiveCommand
  | list
  | test
  | extract
  deriving DecidableEq

/-- `zz9k_archive_copy_name`, into a buffer of 256 bytes -/
def copyName (src : Bytes) (length : Nat) : Option CString :=
  if length = 0 ∨ archiveMaxName ≤ length then none
  else some ((src.take length).takeWhile (· ≠ 0))

/-- The first loop of `zz9k_archive_strip_current_dir_prefix`: leading "./" with more behind -/
def stripDotSlash : CString → CString
  | c0::c1::c2::path => if c0 = dot ∧ c1 = slash then stripDotSlash (c2::path) else c0::c1::c2::path
  | path => path

/-- The second loop: "//" and "/./" become "/". The flag says whether the byte before is a
slash, the one the source leaves in place. -/
def collapseSeparators : Bool → CString → CString
  | true,0x2f::path => collapseSeparators true path
  | true,0x2e::0x2f::path => collapseSeparators true path
  | _,c::path => c::collapseSeparators (c = slash) path
  | _,[] => []

/-- `zz9k_archive_strip_current_dir_prefix` -/
def stripCurrentDirPrefix (path : CString) : CString :=
  collapseSeparators false (stripDotSlash path)

/-- `zz9k_archive_copy_zip_name` and `zz9k_archive_copy_gzip_name` -/
def copyZipName (src : Bytes) (length : Nat) : Option CString :=
  (copyName src length).map fun dst =>
    stripCurrentDirPrefix (dst.map fun c => if c = backslash then slash else c)

/-- `zz9k_archive_name_ends_with_slash` -/
def nameEndsWithSlash (name : CString) : Bool := name.getLast? = some slash

/-- `zz9k_archive_zip_entry_is_root_metadata` -/
def zipEntryIsRootMetadata (entry : ArchiveEntry) : Bool :=
  entry.isDir ∧ entry.method = 0 ∧ entry.compressedSize = 0 ∧ entry.uncompressedSize = 0 ∧
    (entry.name = [dot] ∨ entry.name = [dot,slash])

/-- Whether a component is "." or ".." -/
def isDotComponent (component : CString) : Bool := component = [dot] ∨ component = [dot,dot]

/-- The loop of `zz9k_archive_path_is_safe`, `component` being what it has seen of the current
component -/
def pathIsSafeLoop : CString → CString → Bool
  | component,[] => component = [] ∨ isDotComponent component = false
  | component,c::path =>
    if c = colon ∨ c = backslash then false
    else if c = slash then
      if component = [] ∨ isDotComponent component then false else pathIsSafeLoop [] path
    else pathIsSafeLoop (component++[c]) path

/-- `zz9k_archive_path_is_safe` -/
def pathIsSafe (path : CString) : Bool :=
  path ≠ [] ∧ path.head? ≠ some slash ∧ path.head? ≠ some backslash ∧ pathIsSafeLoop [] path

/-- `zz9k_archive_entry_matches_filter`: the name contains the filter, if there is one. -/
def entryMatchesFilter (matchFilter : Option CString) (entry : ArchiveEntry) : Bool :=
  match matchFilter with
  | none => true
  | some text => text = [] ∨ text <:+: entry.name

end ZZ9K.Archive
