import ZZ9K.Archive.Entry
import ZZ9K.Framework.Parse

namespace ZZ9K.Archive

open ZZ9K.Framework

def sevenZipMethodCopy : Nat := 0
def sevenZipMethodDeflate : Nat := 0x040108
def sevenZipMethodLzma : Nat := 0x030101
def sevenZipMethodLzma2 : Nat := 0x21
def sevenZipFlagUnsupportedSplit : Nat := 0x40000000
def sevenZipMaxMethodProps : Nat := 16
def sevenZipStartHeaderSize : Nat := 32
def sevenZipMaxStreams : Nat := 65535

def sevenZipIdEnd : Nat := 0x00
def sevenZipIdHeader : Nat := 0x01
def sevenZipIdArchiveProperties : Nat := 0x02
def sevenZipIdMainStreamsInfo : Nat := 0x04
def sevenZipIdFilesInfo : Nat := 0x05
def sevenZipIdPackInfo : Nat := 0x06
def sevenZipIdUnpackInfo : Nat := 0x07
def sevenZipIdSubstreamsInfo : Nat := 0x08
def sevenZipIdSize : Nat := 0x09
def sevenZipIdCrc : Nat := 0x0a
def sevenZipIdFolder : Nat := 0x0b
def sevenZipIdCodersUnpackSize : Nat := 0x0c
def sevenZipIdNumUnpackStream : Nat := 0x0d
def sevenZipIdEmptyStream : Nat := 0x0e
def sevenZipIdEmptyFile : Nat := 0x0f
def sevenZipIdName : Nat := 0x11
def sevenZipIdCreationTime : Nat := 0x12
def sevenZipIdLastAccessTime : Nat := 0x13
def sevenZipIdLastWriteTime : Nat := 0x14
def sevenZipIdWinAttributes : Nat := 0x15
def sevenZipIdComment : Nat := 0x16
def sevenZipIdStartPos : Nat := 0x18
def sevenZipIdDummy : Nat := 0x19

/-- One of the streams of `ZZ9KArchive7zStreams`, whose arrays are the list of these. A checksum is
there if it is defined. -/
structure SevenZipStream where
  dataOffset : Nat := 0
  decodedOffset : Nat := 0
  packSize : Nat := 0
  unpackSize : Nat := 0
  crc : Option Nat := none
  method : Nat := 0
  flags : Nat := 0
  props : Bytes := []
  deriving DecidableEq

/-- A parser of a header; the functions are given the size of the header. -/
abbrev HeaderParse (α : Type) : Type := Parse UInt8 α

section

variable (size : Nat)

/-- `zz9k_archive_7z_read_byte` -/
def sevenZipReadByte : HeaderParse UInt8 := do
  let pos ← Parse.position
  if size ≤ pos then Parse.fail
  else do
    let value ← Parse.peek pos
    Parse.advance 1
    pure value

/-- Whether so many bytes are left behind the cursor -/
def sevenZipFits (pos length : Nat) : Bool := pos ≤ size ∧ length ≤ size-pos

/-- `zz9k_archive_7z_skip` -/
def sevenZipSkip (length : Nat) : HeaderParse Unit := do
  let pos ← Parse.position
  if 0x7fffffff < length ∨ sevenZipFits size pos length = false then Parse.fail
  else Parse.advance length

/-- The loop of `zz9k_archive_7z_read_number`, with this many rounds to go -/
def sevenZipReadNumberLoop (first : Nat) : Nat → Nat → HeaderParse Nat
  | 0,out => pure out
  | left+1,out =>
    let i := 7-left
    let mask := 0x80 >>> i
    if first &&& mask = 0 then pure (out ||| (first &&& (mask-1)) <<< (8*i))
    else do
      let b ← sevenZipReadByte size
      sevenZipReadNumberLoop first left (out ||| b.toNat <<< (8*i))

/-- `zz9k_archive_7z_read_number` -/
def sevenZipReadNumber : HeaderParse Nat := do
  let first ← sevenZipReadByte size
  if first.toNat &&& 0x80 = 0 then pure first.toNat
  else sevenZipReadNumberLoop size first.toNat 8 0

/-- `zz9k_archive_7z_skip_property` -/
def sevenZipSkipProperty : HeaderParse Unit := do
  let length ← sevenZipReadNumber size
  sevenZipSkip size length

/-- `zz9k_archive_7z_bit_is_set` of the bits that stand at `base` -/
def sevenZipBitIsSet (base bit : Nat) : HeaderParse Bool := do
  let bits ← Parse.peek (base+bit/8)
  pure (bits.toNat &&& (0x80 >>> (bit%8)) ≠ 0)

/-- The loop of `zz9k_archive_7z_count_bits` over this many bits from `bit` on -/
def sevenZipCountBitsLoop (base : Nat) : Nat → Nat → HeaderParse Nat
  | 0,_ => pure 0
  | left+1,bit => do
    let isSet ← sevenZipBitIsSet base bit
    let count ← sevenZipCountBitsLoop base left (bit+1)
    pure ((if isSet then 1 else 0)+count)

/-- `zz9k_archive_7z_count_bits` -/
def sevenZipCountBits (base bitCount : Nat) : HeaderParse Nat :=
  sevenZipCountBitsLoop base bitCount 0

/-- `zz9k_archive_get_le32` at a place of the header -/
def sevenZipGetLe32 (o : Nat) : HeaderParse Nat := do
  let b0 ← Parse.peek o
  let b1 ← Parse.peek (o+1)
  let b2 ← Parse.peek (o+2)
  let b3 ← Parse.peek (o+3)
  pure (b0.toNat+2^8*b1.toNat+2^16*b2.toNat+2^24*b3.toNat)

/-- Whether a digest is there: the bits say which are, if not all are -/
def sevenZipIsDefined (definedBits : Option Nat) (i : Nat) : HeaderParse Bool :=
  match definedBits with
  | none => pure true
  | some base => sevenZipBitIsSet base i

/-- The loop of `zz9k_archive_7z_read_digests` over this many items from `i` on -/
def sevenZipReadDigestsLoop (definedBits : Option Nat) : Nat → Nat → HeaderParse (List (Option Nat))
  | 0,_ => pure []
  | left+1,i => do
    let isDefined ← sevenZipIsDefined definedBits i
    let digest ← (if isDefined then do
        let pos ← Parse.position
        let crc ← sevenZipGetLe32 pos
        Parse.advance 4
        pure (some crc)
      else pure none)
    let rest ← sevenZipReadDigestsLoop definedBits left (i+1)
    pure (digest::rest)

/-- `zz9k_archive_7z_read_digests` -/
def sevenZipReadDigests (itemCount : Nat) : HeaderParse (List (Option Nat)) := do
  let allDefined ← sevenZipReadByte size
  let pos ← Parse.position
  if allDefined = 0 ∧ sevenZipFits size pos ((itemCount+7)/8) = false then Parse.fail
  else do
    let definedCount ← (if allDefined = 0 then do
        let count ← sevenZipCountBits pos itemCount
        Parse.advance ((itemCount+7)/8)
        pure count
      else pure itemCount)
    let behind ← Parse.position
    if 0x1fffffff < definedCount ∨ sevenZipFits size behind (definedCount*4) = false then Parse.fail
    else sevenZipReadDigestsLoop (if allDefined = 0 then some pos else none) itemCount 0

/-- The loop over the sizes in `zz9k_archive_7z_parse_pack_info` -/
def sevenZipPackSizesLoop (archiveLength : Nat) : Nat → Nat → HeaderParse (List SevenZipStream)
  | 0,_ => pure []
  | left+1,dataPos => do
    let packSize ← sevenZipReadNumber size
    if 0x7fffffff < packSize ∨ archiveLength < dataPos ∨ archiveLength-dataPos < packSize then
      Parse.fail
    else do
      let rest ← sevenZipPackSizesLoop archiveLength left (dataPos+packSize)
      pure ({dataOffset := dataPos,packSize}::rest)

/-- A round of the last loop of `zz9k_archive_7z_parse_pack_info` and
`zz9k_archive_7z_parse_unpack_info`: the section ends, or there are digests -/
def sevenZipDigestsRound (itemCount : Nat) (digests : List (Option Nat)) :
    HeaderParse (List (Option Nat) ⊕ List (Option Nat)) := do
  let type ← sevenZipReadNumber size
  if type = sevenZipIdEnd then pure (.inl digests)
  else if type = sevenZipIdCrc then do
    let digests ← sevenZipReadDigests size itemCount
    pure (.inr digests)
  else Parse.fail

/-- `zz9k_archive_7z_parse_pack_info`, whose digests are skipped -/
def sevenZipParsePackInfo (fuel archiveLength : Nat) : HeaderParse (List SevenZipStream) := do
  let packPos ← sevenZipReadNumber size
  let streamCount ← sevenZipReadNumber size
  if 0x7fffffff < packPos ∨ sevenZipMaxStreams < streamCount ∨ streamCount = 0 then Parse.fail
  else do
    let type ← sevenZipReadNumber size
    if type ≠ sevenZipIdSize then Parse.fail
    else do
      let streams ← sevenZipPackSizesLoop size archiveLength streamCount
        (sevenZipStartHeaderSize+packPos)
      let _ ← Parse.loop (sevenZipDigestsRound size streamCount) fuel []
      pure streams

/-- So many bytes from the cursor on -/
def sevenZipReadBytes : Nat → HeaderParse Bytes
  | 0 => pure []
  | left+1 => do
    let pos ← Parse.position
    let b ← Parse.peek pos
    Parse.advance 1
    let rest ← sevenZipReadBytes left
    pure (b::rest)

/-- Whether a folder of this method may have properties of this size -/
def sevenZipPropsSupported (method propsSize : Nat) : Bool :=
  if method = sevenZipMethodCopy then propsSize = 0
  else if method = sevenZipMethodDeflate then propsSize = 0
  else if method = sevenZipMethodLzma then propsSize = 5
  else if method = sevenZipMethodLzma2 then propsSize = 1
  else false

/-- The properties in `zz9k_archive_7z_read_simple_folder`, if the coder has any -/
def sevenZipReadProps (mainByte : Nat) : HeaderParse Bytes :=
  if mainByte &&& 0x20 = 0 then pure []
  else do
    let propsSize ← sevenZipReadNumber size
    let pos ← Parse.position
    if sevenZipMaxMethodProps < propsSize ∨ sevenZipFits size pos propsSize = false then Parse.fail
    else sevenZipReadBytes propsSize

/-- The stream counts there, if the coder has them: whether both are one -/
def sevenZipReadCoderStreams (mainByte : Nat) : HeaderParse Bool :=
  if mainByte &&& 0x10 = 0 then pure true
  else do
    let inStreams ← sevenZipReadNumber size
    let outStreams ← sevenZipReadNumber size
    pure (inStreams = 1 ∧ outStreams = 1)

/-- `zz9k_archive_7z_read_simple_folder`: the method and its properties -/
def sevenZipReadSimpleFolder : HeaderParse (Nat × Bytes) := do
  let numCoders ← sevenZipReadNumber size
  if numCoders ≠ 1 then Parse.fail
  else do
    let mainByte ← sevenZipReadByte size
    if mainByte.toNat &&& 0xc0 ≠ 0 then Parse.fail
    else do
      let idSize := mainByte.toNat &&& 0x0f
      let pos ← Parse.position
      if idSize = 0 ∨ 4 < idSize ∨ sevenZipFits size pos idSize = false then Parse.fail
      else do
        let id ← sevenZipReadBytes idSize
        let method := id.foldl (fun method b => method*256+b.toNat) 0
        let single ← sevenZipReadCoderStreams size mainByte.toNat
        if single = false then Parse.fail
        else do
          let props ← sevenZipReadProps size mainByte.toNat
          if sevenZipPropsSupported method props.length then pure (method,props) else Parse.fail

/-- The loop over the folders in `zz9k_archive_7z_parse_unpack_info` -/
def sevenZipFoldersLoop : List SevenZipStream → HeaderParse (List SevenZipStream)
  | [] => pure []
  | s::streams => do
    let (method,props) ← sevenZipReadSimpleFolder size
    let rest ← sevenZipFoldersLoop streams
    pure ({s with method,props}::rest)

/-- The loop over the unpacked sizes there -/
def sevenZipUnpackSizesLoop : List SevenZipStream → HeaderParse (List SevenZipStream)
  | [] => pure []
  | s::streams => do
    let unpackSize ← sevenZipReadNumber size
    if 0x7fffffff < unpackSize then Parse.fail
    else do
      let rest ← sevenZipUnpackSizesLoop streams
      pure ({s with unpackSize}::rest)

/-- `zz9k_archive_7z_parse_unpack_info` -/
def sevenZipParseUnpackInfo (fuel : Nat) (streams : List SevenZipStream) :
    HeaderParse (List SevenZipStream) :=
  if streams = [] then Parse.fail
  else do
    let type ← sevenZipReadNumber size
    if type ≠ sevenZipIdFolder then Parse.fail
    else do
      let folderCount ← sevenZipReadNumber size
      if folderCount ≠ streams.length then Parse.fail
      else do
        let isExternal ← sevenZipReadByte size
        if isExternal ≠ 0 then Parse.fail
        else do
          let streams ← sevenZipFoldersLoop size streams
          let type ← sevenZipReadNumber size
          if type ≠ sevenZipIdCodersUnpackSize then Parse.fail
          else do
            let streams ← sevenZipUnpackSizesLoop size streams
            let digests ← Parse.loop (sevenZipDigestsRound size streams.length) fuel
              (streams.map SevenZipStream.crc)
            pure ((streams.zip digests).map fun (s,crc) => {s with crc})

/-- What `zz9k_archive_7z_parse_substreams_info` has read of its section: how many streams each folder
is divided into, their sizes, and their digests -/
structure SevenZipSubstreams where
  counts : List Nat
  sizes : Option (List Nat) := none
  digests : Option (List (Option Nat)) := none

/-- The loop over the counts there, with so many substreams in the folders before -/
def sevenZipCountsLoop : Nat → Nat → HeaderParse (List Nat)
  | 0,_ => pure []
  | left+1,before => do
    let count ← sevenZipReadNumber size
    if count = 0 ∨ sevenZipMaxStreams < count ∨ sevenZipMaxStreams < before+count then Parse.fail
    else do
      let rest ← sevenZipCountsLoop left (before+count)
      pure (count::rest)

/-- The loop over the sizes of the substreams of one folder but the last, of which `total` bytes
stand before. The last has what is left. -/
def sevenZipFolderSizesLoop (unpackSize : Nat) : Nat → Nat → HeaderParse (List Nat)
  | 0,total => pure [unpackSize-total]
  | left+1,total => do
    let substreamSize ← sevenZipReadNumber size
    if 0x7fffffff < substreamSize ∨ unpackSize < total+substreamSize then Parse.fail
    else do
      let rest ← sevenZipFolderSizesLoop unpackSize left (total+substreamSize)
      pure (substreamSize::rest)

/-- The loop over the folders there, with the count of each -/
def sevenZipSizesLoop : List (SevenZipStream × Nat) → HeaderParse (List Nat)
  | [] => pure []
  | (folder,count)::folders => do
    let sizes ← sevenZipFolderSizesLoop size folder.unpackSize (count-1) 0
    let rest ← sevenZipSizesLoop folders
    pure (sizes++rest)

/-- A round of the loop of `zz9k_archive_7z_parse_substreams_info`, up to where the substreams are
known -/
def sevenZipSubstreamsRound (folders : List SevenZipStream) (sub : SevenZipSubstreams) :
    HeaderParse (SevenZipSubstreams ⊕ SevenZipSubstreams) := do
  let type ← sevenZipReadNumber size
  if type = sevenZipIdEnd then
    if sub.sizes.isSome then pure (.inl sub)
    else if sub.counts.all (· = 1) = false then Parse.fail
    else pure (.inl {sub with sizes := some (folders.map SevenZipStream.unpackSize)})
  else if type = sevenZipIdNumUnpackStream then
    if sub.sizes.isSome ∨ sub.digests.isSome then Parse.fail
    else do
      let counts ← sevenZipCountsLoop size folders.length 0
      pure (.inr {sub with counts})
  else if type = sevenZipIdSize then
    if sub.sizes.isSome then Parse.fail
    else do
      let sizes ← sevenZipSizesLoop size (folders.zip sub.counts)
      pure (.inr {sub with sizes := some sizes})
  else if type = sevenZipIdCrc then
    if sub.digests.isSome then Parse.fail
    else do
      let digests ← sevenZipReadDigests size sub.counts.sum
      pure (.inr {sub with digests := some digests})
  else Parse.fail

end

/-- Whether a folder of so many substreams is marked as one that cannot be read in parts -/
def SevenZipStream.splits (folder : SevenZipStream) (count : Nat) : Bool :=
  1 < count ∧ (folder.method ≠ sevenZipMethodCopy ∨ folder.packSize ≠ folder.unpackSize)

/-- What a substream of a folder of so many becomes, with so many bytes before it in the folder -/
def SevenZipStream.substream (folder : SevenZipStream) (count total substreamSize : Nat)
    (digest : Option Nat) : SevenZipStream where
  dataOffset := if folder.splits count then folder.dataOffset
    else if count = 1 then folder.dataOffset else folder.dataOffset+total
  decodedOffset := total
  packSize := if folder.splits count then folder.packSize
    else if folder.method = sevenZipMethodCopy then substreamSize else folder.packSize
  unpackSize := substreamSize
  crc := if digest.isSome then digest else if count = 1 then folder.crc else none
  method := folder.method
  flags := if folder.splits count then folder.flags ||| sevenZipFlagUnsupportedSplit
    else folder.flags
  props := folder.props

/-- The inner loop of `zz9k_archive_7z_streams_flatten_substreams`, over the substreams of a folder
with their digests, of which `total` bytes stand before -/
def sevenZipFlattenFolder (folder : SevenZipStream) (count : Nat) :
    List (Nat × Option Nat) → Nat → Option (List SevenZipStream)
  | [],total => if total = folder.unpackSize then some [] else none
  | (substreamSize,digest)::rest,total =>
    if folder.unpackSize < total ∨ folder.unpackSize-total < substreamSize then none
    else do
      let streams ← sevenZipFlattenFolder folder count rest (total+substreamSize)
      some (folder.substream count total substreamSize digest::streams)

/-- Its outer loop, over the folders with their counts -/
def sevenZipFlattenLoop : List (SevenZipStream × Nat) → List (Nat × Option Nat) →
    Option (List SevenZipStream)
  | [],substreams => if substreams = [] then some [] else none
  | (folder,count)::folders,substreams =>
    if count = 0 ∨ substreams.length < count then none
    else do
      let streams ← sevenZipFlattenFolder folder count (substreams.take count) 0
      let rest ← sevenZipFlattenLoop folders (substreams.drop count)
      some (streams++rest)

/-- `zz9k_archive_7z_streams_flatten_substreams` -/
def sevenZipFlattenSubstreams (folders : List SevenZipStream) (counts sizes : List Nat)
    (digests : Option (List (Option Nat))) : Option (List SevenZipStream) :=
  if counts.sum = 0 ∨ sevenZipMaxStreams < counts.sum then none
  else sevenZipFlattenLoop (folders.zip counts)
    (sizes.zip (digests.getD (List.replicate counts.sum none)))

/-- The streams of a header, and in what they came to be: the streams that were divided, each time
with the counts. The source keeps no such history. -/
structure SevenZipStreams where
  streams : List SevenZipStream := []
  divisions : List (List SevenZipStream × List Nat) := []

section

variable (size fuel : Nat)

/-- `zz9k_archive_7z_parse_substreams_info` -/
def sevenZipParseSubstreamsInfo (table : SevenZipStreams) : HeaderParse SevenZipStreams := do
  let sub ← Parse.loop (sevenZipSubstreamsRound size table.streams) fuel
    {counts := List.replicate table.streams.length 1}
  match sevenZipFlattenSubstreams table.streams sub.counts (sub.sizes.getD []) sub.digests with
  | none => Parse.fail
  | some streams => pure {streams,divisions := table.divisions++[(table.streams,sub.counts)]}

/-- What `zz9k_archive_7z_parse_streams_info` has seen -/
structure SevenZipStreamsState where
  table : SevenZipStreams
  sawPack : Bool := false
  sawUnpack : Bool := false

/-- A round of its loop. The section of the packed streams replaces all there is. -/
def sevenZipStreamsRound (archiveLength : Nat) (s : SevenZipStreamsState) :
    HeaderParse (SevenZipStreams ⊕ SevenZipStreamsState) := do
  let type ← sevenZipReadNumber size
  if type = sevenZipIdEnd then
    if s.sawPack && s.sawUnpack then pure (.inl s.table) else Parse.fail
  else if type = sevenZipIdPackInfo then
    if s.sawPack then Parse.fail
    else do
      let streams ← sevenZipParsePackInfo size fuel archiveLength
      pure (.inr {s with table := {streams},sawPack := true})
  else if type = sevenZipIdUnpackInfo then
    if s.sawPack = false ∨ s.sawUnpack then Parse.fail
    else do
      let streams ← sevenZipParseUnpackInfo size fuel s.table.streams
      pure (.inr {s with table := {s.table with streams},sawUnpack := true})
  else if type = sevenZipIdSubstreamsInfo then
    if s.sawUnpack = false then Parse.fail
    else do
      let table ← sevenZipParseSubstreamsInfo size fuel s.table
      pure (.inr {s with table})
  else Parse.fail

/-- `zz9k_archive_7z_parse_streams_info` -/
def sevenZipParseStreamsInfo (archiveLength : Nat) (table : SevenZipStreams) :
    HeaderParse SevenZipStreams :=
  Parse.loop (sevenZipStreamsRound size fuel archiveLength) fuel {table}

end

/-- `zz9k_archive_7z_files_info_property_supported` -/
def sevenZipFilesInfoPropertySupported (type : Nat) : Bool :=
  u32 type ∈ [sevenZipIdCreationTime,sevenZipIdLastAccessTime,sevenZipIdLastWriteTime,
    sevenZipIdWinAttributes,sevenZipIdComment,sevenZipIdStartPos,sevenZipIdDummy]

/-- A part of the header: where it stands, and its size -/
structure HeaderPart where
  base : Nat
  length : Nat

/-- What `zz9k_archive_7z_parse_files_info` has read of its properties -/
structure SevenZipFiles where
  emptyStreams : Option HeaderPart := none
  emptyFiles : Option HeaderPart := none
  names : Option HeaderPart := none
  emptyCount : Nat := 0

section

variable (size fuel : Nat)

/-- A round of the first loop there -/
def sevenZipFilesRound (numFiles : Nat) (files : SevenZipFiles) :
    HeaderParse (SevenZipFiles ⊕ SevenZipFiles) := do
  let type ← sevenZipReadNumber size
  if type = sevenZipIdEnd then pure (.inl files)
  else do
    let length ← sevenZipReadNumber size
    let base ← Parse.position
    if 0x7fffffff < length ∨ sevenZipFits size base length = false then Parse.fail
    else do
      Parse.advance length
      if type = sevenZipIdEmptyStream then
        if length < (numFiles+7)/8 then Parse.fail
        else do
          let emptyCount ← sevenZipCountBits base numFiles
          pure (.inr {files with emptyStreams := some ⟨base,length⟩,emptyCount})
      else if type = sevenZipIdEmptyFile then
        pure (.inr {files with emptyFiles := some ⟨base,length⟩})
      else if type = sevenZipIdName then
        if length < 1 then Parse.fail
        else do
          let isExternal ← Parse.peek base
          if isExternal ≠ 0 then Parse.fail
          else pure (.inr {files with names := some ⟨base+1,length-1⟩})
      else if sevenZipFilesInfoPropertySupported type then pure (.inr files)
      else Parse.fail

/-- The loop of `zz9k_archive_7z_copy_utf16_name` over the names from `pos` on, with this much behind
it: the name, and where the next begins. It writes into a buffer of 256 bytes. -/
def sevenZipCopyUtf16Loop (base : Nat) : Nat → Nat → CString → HeaderParse (CString × Nat)
  | left+2,pos,dst => do
    let low ← Parse.peek (base+pos)
    let high ← Parse.peek (base+(pos+1))
    if low = 0 ∧ high = 0 then
      if dst = [] ∨ archiveMaxName ≤ dst.length then Parse.fail
      else pure (stripCurrentDirPrefix dst,pos+2)
    else if archiveMaxName ≤ dst.length+1 then Parse.fail
    else
      let ch : UInt8 := if high = 0 ∧ 0x20 ≤ low then low else 0x3f
      sevenZipCopyUtf16Loop base left (pos+2) (dst++[if ch = backslash then slash else ch])
  | _,_,_ => Parse.fail

/-- `zz9k_archive_7z_copy_utf16_name` -/
def sevenZipCopyUtf16Name (names : HeaderPart) (namesPos : Nat) : HeaderParse (CString × Nat) :=
  sevenZipCopyUtf16Loop names.base (names.length-namesPos) namesPos []

/-- The entry of a file with a stream -/
def SevenZipStream.entry (s : SevenZipStream) (name : CString) : ArchiveEntry where
  name := name
  method := s.method
  flags := if s.crc.isSome then s.flags ||| archiveEntryFlagCrc32 else s.flags
  crc32 := s.crc.getD 0
  dataOffset := s.dataOffset
  decodedOffset := s.decodedOffset
  compressedSize := s.packSize
  uncompressedSize := s.unpackSize
  methodProps := s.props

/-- `zz9k_archive_7z_entry_is_root_metadata` -/
def sevenZipEntryIsRootMetadata (entry : ArchiveEntry) : Bool :=
  entry.isDir ∧ entry.method = sevenZipMethodCopy ∧ entry.compressedSize = 0 ∧
    entry.uncompressedSize = 0 ∧ (entry.name = [dot] ∨ entry.name = [dot,slash])

/-- The loop over the files in `zz9k_archive_7z_parse_files_info`: this many, from `i` on. There are
`emptyIndex` without a stream before, and `count` entries; `streams` are those not yet given to a
file. -/
def sevenZipFilesLoop (files : SevenZipFiles) (names : HeaderPart) (capacity : Option Nat) :
    Nat → Nat → Nat → Nat → Nat → List SevenZipStream → HeaderParse (List ArchiveEntry)
  | 0,_,_,_,_,streams => if streams = [] then pure [] else Parse.fail
  | left+1,i,namesPos,emptyIndex,count,streams => do
    let isEmpty ← (match files.emptyStreams with
      | none => pure false
      | some bits => sevenZipBitIsSet bits.base i)
    let (name,namesPos) ← sevenZipCopyUtf16Name names namesPos
    let (candidate,streams) ← (if isEmpty then do
        let isFile ← (match files.emptyFiles with
          | none => pure false
          | some bits => sevenZipBitIsSet bits.base emptyIndex)
        pure ({name,isDir := !isFile},streams)
      else match streams with
        | [] => Parse.fail
        | s::streams => pure (s.entry name,streams))
    let emptyIndex := if isEmpty then emptyIndex+1 else emptyIndex
    if sevenZipEntryIsRootMetadata candidate then
      sevenZipFilesLoop files names capacity left (i+1) namesPos emptyIndex count streams
    else if capacity.any (· ≤ count) then Parse.fail
    else do
      let rest ← sevenZipFilesLoop files names capacity left (i+1) namesPos emptyIndex (count+1)
        streams
      pure (candidate::rest)

/-- Whether bits that are there are enough for so many items -/
def sevenZipBitsSuffice (bits : Option HeaderPart) (items : Nat) : Bool :=
  bits.all fun part => (items+7)/8 ≤ part.length

/-- What there is of a listing at its end: the entries, the streams, and the number of files -/
structure SevenZipListing where
  entries : List ArchiveEntry := []
  table : SevenZipStreams := {}
  numFiles : Nat := 0

/-- `zz9k_archive_7z_parse_files_info`. The entries are stored if there is a capacity, and else only
counted. -/
def sevenZipParseFilesInfo (capacity : Option Nat) (table : SevenZipStreams) :
    HeaderParse SevenZipListing := do
  let numFiles ← sevenZipReadNumber size
  if sevenZipMaxStreams < numFiles then Parse.fail
  else do
    let files ← Parse.loop (sevenZipFilesRound size numFiles) fuel {}
    if numFiles = 0 then pure {table}
    else
      match files.names with
      | none => Parse.fail
      | some names =>
        if sevenZipBitsSuffice files.emptyStreams numFiles = false ∨
            sevenZipBitsSuffice files.emptyFiles files.emptyCount = false then Parse.fail
        else do
          let entries ← sevenZipFilesLoop files names capacity numFiles 0 0 0 0 table.streams
          pure {entries,table,numFiles}

/-- A round of the loop over the archive properties in `zz9k_archive_7z_list_from_header` -/
def sevenZipPropertiesRound (_ : Unit) : HeaderParse (Unit ⊕ Unit) := do
  let type ← sevenZipReadNumber size
  if type = sevenZipIdEnd then pure (.inl ())
  else do
    sevenZipSkipProperty size
    pure (.inr ())

/-- A round of its main loop -/
def sevenZipHeaderRound (archiveLength : Nat) (capacity : Option Nat) (table : SevenZipStreams) :
    HeaderParse (SevenZipListing ⊕ SevenZipStreams) := do
  let type ← sevenZipReadNumber size
  if type = sevenZipIdEnd then pure (.inl {table})
  else if type = sevenZipIdArchiveProperties then do
    Parse.loop (sevenZipPropertiesRound size) fuel ()
    pure (.inr table)
  else if type = sevenZipIdMainStreamsInfo then do
    let table ← sevenZipParseStreamsInfo size fuel archiveLength table
    pure (.inr table)
  else if type = sevenZipIdFilesInfo then do
    let listing ← sevenZipParseFilesInfo size fuel capacity table
    let type ← sevenZipReadNumber size
    if type = sevenZipIdEnd then pure (.inl listing) else Parse.fail
  else Parse.fail

/-- `zz9k_archive_7z_list_from_header` -/
def sevenZipListFromHeader (archiveLength : Nat) (capacity : Option Nat) :
    HeaderParse SevenZipListing :=
  if size = 0 then Parse.fail
  else do
    let type ← sevenZipReadNumber size
    if type = sevenZipIdHeader then
      Parse.loop (sevenZipHeaderRound size fuel archiveLength capacity) fuel {}
    else Parse.fail

end

end ZZ9K.Archive
