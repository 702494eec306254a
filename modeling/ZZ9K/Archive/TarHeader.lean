import ZZ9K.Archive.Entry

namespace ZZ9K.Archive

def tarBlock : Nat := 512
def tarFlagSkip : Nat := 1
def tarFlagGnuLongName : Nat := 2
def tarFlagPaxHeader : Nat := 4
def archiveMaxPaxData : Nat := 65536

/-- `zz9k_archive_tar_name` -/
def tarName (header : Bytes) : Option CString :=
  let name := (slice header 0 100).takeWhile (· ≠ 0)
  let fieldPrefix := (slice header 345 155).takeWhile (· ≠ 0)
  if name.length = 0 then none
  else if fieldPrefix.length ≠ 0 then
    if archiveMaxName ≤ fieldPrefix.length+1+name.length then none
    else some (fieldPrefix++slash::name)
  else copyName name name.length

/-- The loop of `zz9k_archive_tar_normalize_name`: every leading "./" goes. -/
def dropDotSlash : CString → CString
  | c0::c1::name => if c0 = dot ∧ c1 = slash then dropDotSlash name else c0::c1::name
  | name => name

/-- `zz9k_archive_tar_normalize_name`: the name, and whether to skip the entry -/
def tarNormalizeName (name : CString) : CString × Bool :=
  let name := stripCurrentDirPrefix (dropDotSlash name)
  if name = [] ∨ name = [dot] then ([],true) else (name,false)

def newline : UInt8 := 0x0a

/-- `zz9k_archive_tar_copy_data_name`: a GNU long name ends at a NUL or at a newline. -/
def tarCopyDataName (data : Bytes) : Option (CString × Bool) :=
  let name := data.takeWhile fun c => c ≠ 0 ∧ c ≠ newline
  if data.length = 0 ∨ name.length = 0 ∨ archiveMaxName ≤ name.length then none
  else some (tarNormalizeName name)

/-- The value of an ASCII digit -/
def digit (c : UInt8) : Nat := c.toNat-48

def isDigit (c : UInt8) : Bool := 48 ≤ c.toNat ∧ c.toNat ≤ 57

/-- The loop of `zz9k_archive_parse_decimal`, `out` being the value so far -/
def parseDecimalLoop : Bytes → Nat → Option Nat
  | [],out => some out
  | c::field,out =>
    if isDigit c = false ∨ 0x7fffffff/10 < out then none
    else if 0x7fffffff-out*10 < digit c then none
    else parseDecimalLoop field (out*10+digit c)

/-- `zz9k_archive_parse_decimal` -/
def parseDecimal (field : Bytes) : Option Nat :=
  if field.length = 0 then none else parseDecimalLoop field 0

/-- `ZZ9KArchiveTarPaxInfo`: a path and whether it skips its entry, and a size, if given -/
structure TarPaxInfo where
  path : Option (CString × Bool) := none
  size : Option Nat := none
  deriving DecidableEq

/-- The length at the head of a record of `zz9k_archive_tar_parse_pax_info`, and how many digits
it has; `record` is what has been read of it. -/
def paxRecordLen : Bytes → Nat → Nat → Option (Nat × Nat)
  | c::data,record,digits =>
    if isDigit c then
      if 99999 < record then none else paxRecordLen data (record*10+digit c) (digits+1)
    else some (record,digits)
  | [],record,digits => some (record,digits)

def pathKey : Bytes := [0x70,0x61,0x74,0x68]
def sizeKey : Bytes := [0x73,0x69,0x7a,0x65]

/-- What `zz9k_archive_tar_parse_pax_info` takes from one record, without its newline -/
def tarPaxRecord (value : Bytes) (info : TarPaxInfo) : Option TarPaxInfo :=
  let key := value.takeWhile (· ≠ 0x3d)
  let rest := value.drop (key.length+1)
  if key = pathKey ∧ key.length+1 < value.length then
    if archiveMaxName ≤ rest.length then none
    else some {info with path := some (tarNormalizeName (rest.takeWhile (· ≠ 0)))}
  else if key = sizeKey ∧ key.length+1 < value.length then do
    let size ← parseDecimal rest
    some {info with size := some size}
  else some info

/-- `zz9k_archive_tar_parse_pax_info`, `info` being what earlier records gave -/
def tarParsePaxInfo (data : Bytes) (info : TarPaxInfo) : Option TarPaxInfo :=
  if _h : data.length = 0 then some info
  else do
    let (recordLen,digits) ← paxRecordLen data 0 0
    if _h : digits = 0 ∨ data.length ≤ digits ∨ byte data digits ≠ 32 ∨ recordLen ≤ digits+1 ∨
        data.length < recordLen then none
    else
      let body := slice data (digits+1) (recordLen-digits-1)
      if byte body (body.length-1) ≠ newline.toNat then none
      else do
        let info ← tarPaxRecord (body.take (body.length-1)) info
        tarParsePaxInfo (data.drop recordLen) info
termination_by data.length
decreasing_by simp only [List.length_drop]; omega

/-- What every record keeps, all the records keep. -/
theorem tarParsePaxInfo_keeps {I : TarPaxInfo → Prop}
    (hI : ∀ value info out,I info → tarPaxRecord value info = some out → I out) (n : Nat)
    {field : Bytes} (hn : field.length ≤ n) {info out : TarPaxInfo} (hi : I info)
    (h : tarParsePaxInfo field info = some out) : I out := by
  induction n generalizing field info with
  | zero =>
    rw [tarParsePaxInfo,dif_pos (Nat.le_zero.mp hn)] at h
    rw [← Option.some.inj h]
    exact hi
  | succ n ih =>
    rw [tarParsePaxInfo] at h
    split at h
    · rw [← Option.some.inj h]
      exact hi
    · obtain ⟨⟨recordLen,digits⟩,-,h⟩ := Option.bind_eq_some_iff.mp h
      dsimp only at h
      split at h
      · cases h
      · next hbounds =>
        split at h
        · cases h
        · obtain ⟨next,hnext,h⟩ := Option.bind_eq_some_iff.mp h
          refine ih ?_ (hI _ _ _ hi hnext) h
          simp only [not_or] at hbounds
          rw [List.length_drop]
          omega

/-- The loop of `zz9k_archive_parse_octal`, with whether a digit was seen -/
def parseOctalLoop : Bytes → Nat → Bool → Option Nat
  | [],out,seen => if seen then some out else none
  | c::field,out,seen =>
    if c = 0 ∨ c = 32 then if seen then some out else none
    else if c.toNat < 48 ∨ 55 < c.toNat then none
    else if 0x1fffffff < out then none
    else parseOctalLoop field (out*8+digit c) true

/-- `zz9k_archive_parse_octal` -/
def parseOctal (field : Bytes) : Option Nat := parseOctalLoop field 0 false

/-- The loop of `zz9k_archive_parse_base256` -/
def parseBase256Loop : Bytes → Nat → Option Nat
  | [],out => if 0x7fffffff < out then none else some out
  | c::field,out =>
    if 0x7fffffff >>> 8 < out then none else parseBase256Loop field (out*2^8+c.toNat)

/-- `zz9k_archive_parse_tar_number`, with `zz9k_archive_parse_base256` -/
def parseTarNumber : Bytes → Option Nat
  | [] => none
  | c::field =>
    if c.toNat &&& 0x80 ≠ 0 then
      if c.toNat &&& 0x40 ≠ 0 then none else parseBase256Loop field (c.toNat &&& 0x3f)
    else parseOctal (c::field)

/-- A byte as the `int8_t` it may be read as -/
def signedByte (c : UInt8) : Int := if 128 ≤ c.toNat then (c.toNat : Int)-256 else c.toNat

/-- The header with its checksum field blanked -/
def tarChecksumBytes (header : Bytes) : Bytes :=
  slice header 0 148++List.replicate 8 32++slice header 156 356

/-- `zz9k_archive_tar_header_checksum_valid`: the sum of the bytes, signed or unsigned -/
def tarHeaderChecksumValid (header : Bytes) : Bool :=
  match parseOctal (slice header 148 8) with
  | none => false
  | some stored =>
    stored = ((tarChecksumBytes header).map UInt8.toNat).sum ∨
      (stored : Int) = ((tarChecksumBytes header).map signedByte).sum%2^32

/-- `zz9k_archive_tar_header_empty` -/
def tarHeaderEmpty (header : Bytes) : Bool := (slice header 0 512).all (· = 0)

/-- The flags a type letter sets, beside the skip flag of its name -/
def tarTypeFlags (typeflag : UInt8) : Nat :=
  if typeflag = 0x4c then tarFlagSkip ||| tarFlagGnuLongName
  else if typeflag = 0x4b then tarFlagSkip
  else if typeflag = 0x78 then tarFlagSkip ||| tarFlagPaxHeader
  else if typeflag = 0x67 then tarFlagSkip
  else if typeflag ≠ 0 ∧ typeflag ≠ 0x30 ∧ typeflag ≠ 0x35 then tarFlagSkip
  else 0

/-- `zz9k_archive_tar_entry_from_header` -/
def tarEntryFromHeader (header : Bytes) (dataOffset : Nat) : Option ArchiveEntry :=
  if tarHeaderChecksumValid header = false then none
  else do
    let name ← tarName header
    let size ← parseTarNumber (slice header 124 12)
    let (name,skip) := tarNormalizeName name
    let typeflag := header.getD 156 0
    some {
      name
      flags := (if skip then tarFlagSkip else 0) ||| tarTypeFlags typeflag
      dataOffset
      compressedSize := size
      uncompressedSize := size
      isDir := typeflag = 0x35 ∨ nameEndsWithSlash name }

/-- Whether an entry carries the name of the next one -/
def ArchiveEntry.isGnuLongName (entry : ArchiveEntry) : Bool :=
  entry.flags &&& tarFlagGnuLongName ≠ 0

/-- Whether an entry carries attributes of the next one -/
def ArchiveEntry.isPaxHeader (entry : ArchiveEntry) : Bool :=
  entry.flags &&& tarFlagPaxHeader ≠ 0

def ArchiveEntry.isSkipped (entry : ArchiveEntry) : Bool := entry.flags &&& tarFlagSkip ≠ 0

end ZZ9K.Archive
