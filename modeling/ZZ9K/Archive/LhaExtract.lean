import ZZ9K.Archive.Decode
import ZZ9K.Archive.LhaHeader

namespace ZZ9K.Archive

open ZZ9K.Abi ZZ9K.Host ZZ9K.Framework

/-- `ZZ9KLhaSource`: an image of the archive in memory, or the archive file -/
inductive LhaSource
  | memory (data : Bytes)
  | file (path : CString) (length : Nat)

def LhaSource.length : LhaSource → Nat
  | memory data => data.length
  | file _ length => length

/-- Where the software decoder reads: the archive file from where it stands, or a temporary file -/
inductive LhaInput
  | archive (path : CString)
  | temporary (data : Bytes)

/-- What the software decoder may ask: it reads the archive and writes the output. -/
def LhaDecoderAsks (input : LhaInput) (output : Option Nat) : ToolCall → Prop
  | .read path _ => input = .archive path
  | .write file _ => output = some file
  | .malloc _ => True
  | _ => False

/-- `zz9k_lha_unix_decode_method`, the embedded LHa decoder, with or without a file it writes -/
structure LhaDecoder where
  decode : LhaInput → Option Nat → ArchiveEntry → Tool Bool
  asks : ∀ input output entry, (decode input output entry).All (LhaDecoderAsks input output)

/-- Whether the packed bytes of a member are inside the archive -/
def LhaSource.holds (src : LhaSource) (entry : ArchiveEntry) : Bool :=
  entry.dataOffset+entry.compressedSize ≤ src.length

/-- `zz9k_archive_lha_src_member`. The buffer of a file source grows as it has to. -/
def lhaSrcMember (src : LhaSource) (entry : ArchiveEntry) : Tool (Option Bytes) :=
  if src.holds entry = false then pure none
  else
    match src with
    | .memory data => pure (some (slice data entry.dataOffset entry.compressedSize))
    | .file path _ =>
      if entry.compressedSize = 0 then pure (some [])
      else do
        let grown ← Tool.malloc entry.compressedSize
        let sought ← (if grown then Tool.seek path entry.dataOffset else pure false)
        if sought then Tool.read path entry.compressedSize else pure none

/-- `zz9k_archive_lha_software_decode_to_file`, without an output to verify only -/
def lhaSoftwareDecodeToFile (decoder : LhaDecoder) (src : LhaSource) (entry : ArchiveEntry)
    (output : Option Nat) : Tool Bool :=
  if src.holds entry = false then pure false
  else
    match src with
    | .file path _ => do
      let sought ← Tool.seek path entry.dataOffset
      if sought then decoder.decode (.archive path) output entry else pure false
    | .memory data => do
      match ← Tool.tmpfile with
      | none => pure false
      | some temporary => do
        let packed := slice data entry.dataOffset entry.compressedSize
        let written ← (if packed = [] then pure true else Tool.write temporary packed)
        let ok ← (if written then decoder.decode (.temporary packed) output entry else pure false)
        let _ ← Tool.close temporary
        pure ok

def lhaMethodLh0 : Nat := 0

/-- `zz9k_archive_lha_method_to_compression`, with `none` for the methods it does not know -/
def lhaMethodToCompression : Nat → Compression
  | 1 => .lh1
  | 5 => .lh5
  | 6 => .lh6
  | 7 => .lh7
  | _ => .none

/-- `zz9k_archive_lha_method_supported` -/
def lhaMethodSupported (method : Nat) : Bool := method = 5 ∨ method = 1 ∨ method = 6 ∨ method = 7

/-- `zz9k_archive_lha_offload_fits` -/
def lhaOffloadFits (heap : BoardHeap) (entry : ArchiveEntry) : Bool :=
  entry.compressedSize ≤ heap.largestFree ∧ entry.uncompressedSize ≤ heap.largestFree ∧
    entry.compressedSize+entry.uncompressedSize+64 ≤ heap.free

/-- What a run knows of the board's heap, which it asks for once: `zz9k_lha_board_diag` -/
inductive LhaBoardDiag
  | unasked
  | known (heap : BoardHeap)
  | unavailable

/-- The asking for the heap in `zz9k_archive_lha_decode_method_to_file`. No answer is that the
question was cancelled. -/
def lhaAskBoard : LhaBoardDiag → Job (Option LhaBoardDiag)
  | .unasked => do
    let (status,heap) ← Job.readDiag
    Job.noteStatus status
    if status = .cancelled then pure none
    else pure (some (if status = .ok then .known heap else .unavailable))
  | diag => pure (some diag)

def LhaBoardDiag.fits (diag : LhaBoardDiag) (entry : ArchiveEntry) : Bool :=
  match diag with
  | known heap => lhaOffloadFits heap entry
  | _ => true

/-- Whether a result has the size and the CRC of the member -/
def lhaResultMatches (entry : ArchiveEntry) (bytesWritten checksum : Nat) : Bool :=
  bytesWritten = entry.uncompressedSize ∧
    (entry.hasCrc32 = true → checksum%2^16 = entry.crc32%2^16)

/-- The offloading of a member in `zz9k_archive_lha_decode_method_to_file`: its verdict, or none
where the software is to decode the member -/
def lhaOffload (service : CodecService) (src : LhaSource) (entry : ArchiveEntry)
    (output : Option Nat) : Job (Option Bool) := do
  match ← Job.tool (lhaSrcMember src entry) with
  | none => pure none
  | some member =>
    match ← decompressToMemoryEx service (lhaMethodToCompression entry.method) member
      entry.uncompressedSize output.isNone with
    | none => do
      let stop ← Job.tool Tool.cancelled
      pure (if stop then some false else none)
    | some (data,result) =>
      if lhaResultMatches entry result.bytesWritten result.checksum then
        match output with
        | none => pure (some true)
        | some file => do
          let written ← (if entry.uncompressedSize = 0 then pure true
            else Job.tool (Tool.write file data))
          pure (some written)
      else pure none

/-- `zz9k_archive_lha_decode_method_to_file` -/
def lhaDecodeMethodToFile (decoder : LhaDecoder) (service : Option CodecService) (src : LhaSource)
    (diag : LhaBoardDiag) (entry : ArchiveEntry) (output : Option Nat) :
    Job (Bool × LhaBoardDiag) :=
  if src.holds entry = false ∨ lhaMethodSupported entry.method = false then pure (false,diag)
  else do
    let (verdict,diag) ← (match service with
      | none => pure (none,diag)
      | some service =>
        if service.supports (lhaMethodToCompression entry.method) = false then pure (none,diag)
        else do
          match ← lhaAskBoard diag with
          | none => pure (some false,diag)
          | some diag =>
            if diag.fits entry then do
              let verdict ← lhaOffload service src entry output
              pure (verdict,diag)
            else pure (none,diag))
    match verdict with
    | some ok => pure (ok,diag)
    | none => do
      let ok ← Job.tool (lhaSoftwareDecodeToFile decoder src entry output)
      pure (ok,diag)

/-- `zz9k_archive_extract_lha_lh5` -/
def extractLhaLh5 (decoder : LhaDecoder) (service : Option CodecService) (src : LhaSource)
    (opts : ToolOptions) (outputDir : CString) (diag : LhaBoardDiag) (entry : ArchiveEntry) :
    Job (Bool × LhaBoardDiag) := do
  match ← Job.tool (openOutputStaged opts outputDir entry) with
  | none => pure (false,diag)
  | some opened => do
    let (ok,diag) ← lhaDecodeMethodToFile decoder service src diag entry (some opened.file)
    let ok ← Job.tool (closeStaged opened ok)
    pure (ok,diag)

/-- `zz9k_archive_extract_lha_software` -/
def extractLhaSoftware (decoder : LhaDecoder) (src : LhaSource) (opts : ToolOptions)
    (outputDir : CString) (entry : ArchiveEntry) : Tool Bool := do
  match ← openOutputStaged opts outputDir entry with
  | none => pure false
  | some opened => do
    let ok ← lhaSoftwareDecodeToFile decoder src entry (some opened.file)
    closeStaged opened ok

end ZZ9K.Archive
