import ZZ9K.Archive.Decode

namespace ZZ9K.Archive

open ZZ9K.Framework

def zipMethodStore : Nat := 0
def zipMethodDeflate : Nat := 8

/-- How a file-backed engine ends: whether it took the archive on, and whether all went well -/
structure EngineEnd where
  attempted : Bool
  ok : Bool
  deriving DecidableEq

/-- The loop of an engine over the members: one that fails does not stop it. -/
def extractEach (extract : ArchiveEntry → Job Bool) : List ArchiveEntry → Job Bool
  | [] => pure true
  | entry::rest => do
    let done ← extract entry
    let others ← extractEach extract rest
    pure (done && others)

/-- `zz9k_archive_zip_test_output_limit` -/
def zipTestOutputLimit (outputSize : Nat) : Nat :=
  if outputSize = 2^32-1 then outputSize else outputSize+1

/-- `zz9k_archive_zip_result_matches_entry` -/
def zipResultMatchesEntry (entry : ArchiveEntry) (result : DecompressResult) : Bool :=
  result.bytesWritten = entry.uncompressedSize ∧ result.checksum = entry.crc32

/-- The checks on the result of a deflated member, which took all of its input -/
def zipResultComplete (entry : ArchiveEntry) (result : DecompressResult) : Bool :=
  result.bytesConsumed = entry.compressedSize ∧ zipResultMatchesEntry entry result

/-- `zz9k_archive_zip_extract_deflate_entry` -/
def zipExtractDeflateEntry (service : CodecService) (opts : ToolOptions)
    (archivePath outputDir : CString) (entry : ArchiveEntry) : Job Bool :=
  if service.supportsDecompressFeed .deflateRaw = false then pure false
  else if entry.compressedSize = 0 ∧ entry.uncompressedSize = 0 then
    Job.tool (writeEntry opts outputDir entry [])
  else if entry.uncompressedSize = 0 then do
    let e ← decompressFeedFilePartsToResult service .deflateRaw [] archivePath entry.dataOffset
      entry.compressedSize (zipTestOutputLimit entry.uncompressedSize)
    if e.ok && zipResultComplete entry e.result then Job.tool (writeEntry opts outputDir entry [])
    else pure false
  else do
    let e ← decompressFeedFilePartsToFile service opts .deflateRaw [] archivePath
      entry.dataOffset entry.compressedSize entry.uncompressedSize outputDir entry
    pure (e.ok && zipResultComplete entry e.result)

/-- `zz9k_archive_zip_file_can_extract_entries`: whether deflated members are among those to be
extracted, or none where a member has another method -/
def zipFileCanExtractEntries (opts : ToolOptions) (entries : List ArchiveEntry) : Option Bool :=
  let members := entries.filter fun entry =>
    entryMatchesFilter opts.matchFilter entry ∧ entry.isDir = false
  if entries = [] then none
  else if members.all fun entry =>
      entry.method = zipMethodStore ∨ entry.method = zipMethodDeflate then
    some (members.any fun entry => entry.method = zipMethodDeflate)
  else none

/-- One round of the loop of `zz9k_archive_handle_zip_file` that extracts -/
def zipExtractEntry (codec : Option CodecService) (opts : ToolOptions)
    (archivePath outputDir : CString) (entry : ArchiveEntry) : Job Bool :=
  if entryMatchesFilter opts.matchFilter entry = false then pure true
  else if pathIsSafe entry.name = false then pure false
  else if entry.flags &&& 1 ≠ 0 then pure false
  else if entry.isDir then Job.tool (writeEntry opts outputDir entry [])
  else if entry.method = zipMethodStore then
    if entry.compressedSize ≠ entry.uncompressedSize then pure false
    else Job.tool (writeFileRangeEntry opts outputDir entry archivePath true)
  else if entry.method = zipMethodDeflate then
    match codec with
    | none => pure false
    | some service => zipExtractDeflateEntry service opts archivePath outputDir entry
  else pure true

/-- `zz9k_archive_handle_zip_file` on the command to extract, with the codec service if the board
could be opened, and with the members if the directory could be read -/
def handleZipFile (codec : Option CodecService) (opts : ToolOptions)
    (archivePath outputDir : CString) (listing : Option (List ArchiveEntry)) : Job EngineEnd :=
  match listing with
  | none => pure ⟨false,true⟩
  | some entries =>
    match zipFileCanExtractEntries opts entries with
    | none => pure ⟨false,true⟩
    | some needsDeflate =>
      if needsDeflate = true ∧
          (codec.any fun service => service.supportsDecompressFeed .deflateRaw) = false then
        pure ⟨false,true⟩
      else do
        let ok ← extractEach (zipExtractEntry codec opts archivePath outputDir) entries
        pure ⟨true,ok⟩

end ZZ9K.Archive
