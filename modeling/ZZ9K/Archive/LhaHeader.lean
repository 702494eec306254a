import ZZ9K.Archive.Entry

namespace ZZ9K.Archive

/-- `zz9k_archive_copy_lha_name` -/
def copyLhaName (src : Bytes) (length : Nat) : Option CString :=
  (copyZipName src length).map fun dst =>
    stripCurrentDirPrefix (dst.map fun c => if c = 0xff then slash else c)

/-- `zz9k_archive_lha_join_dir_name`, into a buffer of 256 bytes -/
def lhaJoinDirName (dir name : CString) : Option CString :=
  let sep := if dir ≠ [] ∧ dir.getLast? ≠ some slash then [slash] else []
  if archiveMaxName ≤ name.length ∨ archiveMaxName ≤ dir.length+sep.length+name.length then none
  else some (stripCurrentDirPrefix (dir++sep++name))

/-- `zz9k_archive_lha_header_checksum_valid` -/
def lhaHeaderChecksumValid (data : Bytes) : Bool :=
  if data.length < 24 ∨ byte data 0 = 0 then false
  else if byte data 20 = 2 then 26 ≤ getLe16 data 0 ∧ getLe16 data 0 ≤ data.length
  else if data.length < byte data 0+2 then false
  else ((slice data 2 (byte data 0)).foldl (· + ·) 0).toNat = byte data 1

/-- The three results of reading a header: invalid whatever follows, read, or cut by the end of
the window -/
inductive LhaVerdict (α : Type)
  | invalid
  | ok (a : α)
  | needsWindow
  deriving DecidableEq

/-- Where the fields of a header are, which its level decides -/
structure LhaLayout where
  headerSize : Nat
  baseHeaderSize : Nat
  crcOffset : Nat
  extSizeOffset : Nat
  nameLen : Nat
  nameOffset : Nat
  dataOffset : Nat

def lhaLevel (hdr : Bytes) : Nat := byte hdr 20

def lhaLayout (hdr : Bytes) : LhaLayout :=
  if lhaLevel hdr = 2 then
    {headerSize := getLe16 hdr 0,baseHeaderSize := 26,crcOffset := 21,extSizeOffset := 24,
     nameLen := 0,nameOffset := 0,dataOffset := getLe16 hdr 0}
  else
    {headerSize := byte hdr 0,baseHeaderSize := if lhaLevel hdr = 0 then 22 else 25,
     crcOffset := 22+byte hdr 21,extSizeOffset := 22+byte hdr 21+2+1,
     nameLen := byte hdr 21,nameOffset := 22,dataOffset := 2+byte hdr 0}

/-- Whether the base header goes on behind the window -/
def lhaBaseCut (hdr : Bytes) (l : LhaLayout) : Bool :=
  (lhaLevel hdr = 2 ∧ hdr.length < l.headerSize) ∨
    (lhaLevel hdr ≠ 2 ∧ hdr.length < 2+l.headerSize)

/-- Where the reading of the extension headers stands: the position, their total size, and the
names they gave -/
structure LhaExt where
  pos : Nat
  total : Nat := 0
  dir : CString := []
  name : CString := []
  deriving DecidableEq

/-- The length of an extension's text without the NULs at its end -/
def lhaTrimExt (hdr : Bytes) (extPos : Nat) : Nat → Nat
  | 0 => 0
  | n+1 => if byte hdr (extPos+1+n) = 0 then lhaTrimExt hdr extPos n else n+1

/-- The name or the directory in one extension header -/
def lhaExtText (hdr : Bytes) (extSize : Nat) (x : LhaExt) : Option LhaExt :=
  let extDataLen := lhaTrimExt hdr x.pos (extSize-3)
  if byte hdr x.pos = 1 ∧ extDataLen ≠ 0 then
    (copyLhaName (hdr.drop (x.pos+1)) extDataLen).map fun name => {x with name}
  else if byte hdr x.pos = 2 ∧ extDataLen ≠ 0 then
    (copyLhaName (hdr.drop (x.pos+1)) extDataLen).map fun dir => {x with dir}
  else some x

/-- The loop over the extension headers. Positions do not wrap: no archive has 2^31 bytes. -/
def lhaExtLoop (hdr : Bytes) (extSize : Nat) (x : LhaExt) : LhaVerdict LhaExt :=
  if extSize = 0 then .ok x
  else if _h : hdr.length < x.pos ∨ hdr.length-x.pos < extSize then .needsWindow
  else if _h : extSize < 3 then .invalid
  else
    match lhaExtText hdr extSize x with
    | none => .invalid
    | some y =>
      lhaExtLoop hdr (getLe16 hdr (x.pos+extSize-2))
        {y with pos := x.pos+extSize,total := x.total+extSize}
termination_by hdr.length-x.pos
decreasing_by omega

def lhaExtensions (hdr : Bytes) (l : LhaLayout) : LhaVerdict LhaExt :=
  if lhaLevel hdr = 1 ∨ lhaLevel hdr = 2 then
    if hdr.length < l.extSizeOffset+2 then .needsWindow
    else lhaExtLoop hdr (getLe16 hdr l.extSizeOffset)
      {pos := if lhaLevel hdr = 2 then l.baseHeaderSize else l.dataOffset}
  else .ok {pos := l.dataOffset}

/-- Whether the method bytes are "-l", 'h' or 'z', any byte and "-" -/
def lhaMethodPlausible (hdr : Bytes) : Bool :=
  byte hdr 2 = 0x2d ∧ byte hdr 6 = 0x2d ∧ byte hdr 3 = 0x6c ∧
    (byte hdr 4 = 0x68 ∨ byte hdr 4 = 0x7a)

def lhaMethodLhd : Nat := 11

/-- The method for "-lh0-" or "-lz4-", "-lhd-", "-lh1-", "-lh5-", "-lh6-", "-lh7-" -/
def lhaMethod (id : Bytes) : Nat :=
  if id = [0x2d,0x6c,0x68,0x30,0x2d] ∨ id = [0x2d,0x6c,0x7a,0x34,0x2d] then 0
  else if id = [0x2d,0x6c,0x68,0x64,0x2d] then lhaMethodLhd
  else if id = [0x2d,0x6c,0x68,0x31,0x2d] then 1
  else if id = [0x2d,0x6c,0x68,0x35,0x2d] then 5
  else if id = [0x2d,0x6c,0x68,0x36,0x2d] then 6
  else if id = [0x2d,0x6c,0x68,0x37,0x2d] then 7
  else 0xffffffff

/-- "unnamed" -/
def lhaUnnamed : CString := [0x75,0x6e,0x6e,0x61,0x6d,0x65,0x64]

/-- The name from the base header, replaced or prefixed by what the extensions say -/
def lhaEntryName (hdr : Bytes) (l : LhaLayout) (x : LhaExt) : Option CString :=
  (if l.nameLen ≠ 0 then copyLhaName (hdr.drop l.nameOffset) l.nameLen else some lhaUnnamed).bind
    fun name =>
      if x.name ≠ [] then lhaJoinDirName x.dir x.name
      else if x.dir ≠ [] then lhaJoinDirName x.dir name
      else some name

/-- What a directory's entry makes of the name -/
def lhaDirName (x : LhaExt) (name : CString) : Option CString :=
  let name := if x.dir ≠ [] ∧ x.name = [] then x.dir else name
  if nameEndsWithSlash name then some name
  else if archiveMaxName ≤ name.length+1 then none
  else some (name++[slash])

/-- The size of the data: in a level-1 header the field counts the extensions too. -/
def lhaCompressedSize (hdr : Bytes) (x : LhaExt) : Option Nat :=
  if lhaLevel hdr = 1 ∧ x.total ≠ 0 then
    if getLe32 hdr 7 < x.total then none else some (getLe32 hdr 7-x.total)
  else some (getLe32 hdr 7)

/-- The entry, once the extensions are read -/
def lhaEntry (hdr : Bytes) (l : LhaLayout) (x : LhaExt) (archiveAvail : Nat) :
    Option ArchiveEntry := do
  let compressedSize ← lhaCompressedSize hdr x
  if archiveAvail < compressedSize ∨ archiveAvail < x.pos ∨
      archiveAvail-x.pos < compressedSize then none
  else do
    let method := lhaMethod (slice hdr 2 5)
    let joined ← lhaEntryName hdr l x
    let name ← (if method = lhaMethodLhd then lhaDirName x joined else some joined)
    let crcInside : Bool := l.crcOffset+2 ≤ hdr.length
    some {name,method,compressedSize
          flags := if crcInside then archiveEntryFlagCrc32 else 0
          crc32 := if crcInside then getLe16 hdr l.crcOffset else 0
          uncompressedSize := getLe32 hdr 11
          dataOffset := x.pos
          isDir := method = lhaMethodLhd ∨ nameEndsWithSlash name}

/-- `zz9k_archive_lha_parse_header`, the window being `hdr`. The data offset of the entry is what
it returns as `header_bytes`. -/
def lhaParseHeader (hdr : Bytes) (archiveAvail : Nat) : LhaVerdict ArchiveEntry :=
  if hdr.length < 24 then .needsWindow
  else if byte hdr 0 = 0 then .invalid
  else if 2 < lhaLevel hdr then .invalid
  else
    let l := lhaLayout hdr
    if lhaBaseCut hdr l then .needsWindow
    else if l.headerSize < l.baseHeaderSize ∨ lhaHeaderChecksumValid hdr = false ∨
        lhaMethodPlausible hdr = false then .invalid
    else if lhaLevel hdr ≠ 2 ∧ l.headerSize-l.baseHeaderSize < l.nameLen then .invalid
    else
      match lhaExtensions hdr l with
      | .invalid => .invalid
      | .needsWindow => .needsWindow
      | .ok x =>
        match lhaEntry hdr l x archiveAvail with
        | none => .invalid
        | some entry => .ok entry

end ZZ9K.Archive
