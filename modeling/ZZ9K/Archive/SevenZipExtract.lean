import ZZ9K.Archive.SevenZipHeader
import ZZ9K.Archive.ZipExtract

namespace ZZ9K.Archive

open ZZ9K.Abi ZZ9K.Framework

/-- `zz9k_archive_7z_entry_has_split_substream` -/
def ArchiveEntry.hasSplitSubstream (entry : ArchiveEntry) : Bool :=
  entry.flags &&& sevenZipFlagUnsupportedSplit ≠ 0

/-- `zz9k_archive_7z_result_matches_entry` -/
def sevenZipResultMatchesEntry (entry : ArchiveEntry) (result : DecompressResult) : Bool :=
  result.bytesWritten = entry.uncompressedSize ∧
    (entry.hasCrc32 = true → result.checksum = entry.crc32)

/-- `zz9k_archive_7z_lzma_alone_header` -/
def sevenZipLzmaAloneHeader (entry : ArchiveEntry) : Option Bytes :=
  if entry.method ≠ sevenZipMethodLzma ∨ entry.methodProps.length ≠ 5 then none
  else some (entry.methodProps++
    (List.range 8).map fun i => (entry.uncompressedSize/2^(8*i)%256).toUInt8)

/-- `zz9k_archive_7z_lzma2_feed_output_limit` -/
def sevenZipLzma2FeedOutputLimit (entry : ArchiveEntry) : Option Nat :=
  if entry.method ≠ sevenZipMethodLzma2 ∨ entry.uncompressedSize = 2^32-1 then none
  else some (entry.uncompressedSize+1)

/-- `zz9k_archive_7z_build_lzma2_payload` -/
def sevenZipBuildLzma2Payload (entry : ArchiveEntry) (compressed : Bytes) : Tool (Option Bytes) :=
  if entry.method ≠ sevenZipMethodLzma2 ∨ entry.methodProps.length ≠ 1 ∨
      0x7fffffff-1 < entry.compressedSize then pure none
  else do
    let got ← Tool.malloc (entry.compressedSize+1)
    pure (if got then some (entry.methodProps++compressed) else none)

/-- `zz9k_archive_read_file_range` -/
def Tool.readFileRange (path : CString) (offset length : Nat) : Tool (Option Bytes) :=
  if 0x7fffffff < offset then pure none
  else do
    let got ← (if length ≠ 0 then Tool.malloc length else pure true)
    let opened ← (if got then Tool.openRead path else pure false)
    let sought ← (if opened then Tool.seek path offset else pure false)
    if sought = false then pure none
    else if length = 0 then pure (some [])
    else Tool.read path length

/-- `zz9k_archive_7z_lzma2_fallback_file_range` on the command to extract -/
def sevenZipLzma2FallbackFileRange (service : CodecService) (opts : ToolOptions)
    (archivePath outputDir : CString) (entry : ArchiveEntry) : Job (Option DecompressResult) :=
  if entry.method ≠ sevenZipMethodLzma2 then pure none
  else do
    match ← Job.tool (Tool.readFileRange archivePath entry.dataOffset entry.compressedSize) with
    | none => pure none
    | some packed =>
      match ← Job.tool (sevenZipBuildLzma2Payload entry packed) with
      | none => pure none
      | some wrapped =>
        match ← decompressToMemoryEx service .lzma2 wrapped entry.uncompressedSize false with
        | none => pure none
        | some (decoded,result) => do
          let written ← Job.tool (writeEntry opts outputDir entry decoded)
          pure (if written then some result else none)

/-- `zz9k_archive_7z_same_split_folder` -/
def sameSplitFolder (a b : ArchiveEntry) : Bool :=
  a.hasSplitSubstream ∧ b.hasSplitSubstream ∧ a.method = b.method ∧ a.dataOffset = b.dataOffset ∧
    a.compressedSize = b.compressedSize ∧ a.methodProps = b.methodProps

/-- `zz9k_archive_7z_split_group_has_match` -/
def splitGroupHasMatch (opts : ToolOptions) (group : List ArchiveEntry) : Bool :=
  group.any (entryMatchesFilter opts.matchFilter)

/-- `zz9k_archive_7z_split_group_is_safe` -/
def splitGroupIsSafe (opts : ToolOptions) (group : List ArchiveEntry) : Bool :=
  group.all fun entry => !entryMatchesFilter opts.matchFilter entry || pathIsSafe entry.name

/-- `zz9k_archive_7z_split_group_unpacked_size`, with `total` bytes before the group -/
def splitGroupUnpackedSize : Nat → List ArchiveEntry → Option Nat
  | total,[] => some total
  | total,entry::rest =>
    if entry.decodedOffset ≠ total ∨ 0x7fffffff-total < entry.uncompressedSize then none
    else splitGroupUnpackedSize (total+entry.uncompressedSize) rest

/-- `ZZ9KArchive7zSplitWriter`, but for the entries: what there is of the current one, if it is
started, and all that was written -/
structure SplitWriter where
  started : Bool := false
  file : Option Nat := none
  entryWritten : Nat := 0
  entryCrc : UInt32 := 0
  totalWritten : Nat := 0

namespace SplitWriter

/-- The writer behind an entry -/
def next (w : SplitWriter) : SplitWriter := {totalWritten := w.totalWritten}

/-- The writer after more bytes of the current entry -/
def add (w : SplitWriter) (part : Bytes) : SplitWriter := {w with
  entryWritten := w.entryWritten+part.length
  entryCrc := archiveCrc32 w.entryCrc part
  totalWritten := w.totalWritten+part.length}

end SplitWriter

section

variable (opts : ToolOptions) (outputDir : CString)

/-- `zz9k_archive_7z_split_writer_start_entry` -/
def splitWriterStartEntry (entry : ArchiveEntry) (w : SplitWriter) : Tool (Option SplitWriter) :=
  if w.started then pure (some w)
  else if entryMatchesFilter opts.matchFilter entry then do
    let opened ← openOutputEntry opts outputDir entry
    pure (opened.map fun opened =>
      {w with started := true,entryWritten := 0,entryCrc := 0,file := some opened.file})
  else pure (some {w with started := true,entryWritten := 0,entryCrc := 0})

/-- Whether the CRC of an entry is right, or not asked for -/
def splitCrcAgrees (entry : ArchiveEntry) (crc : UInt32) : Bool :=
  !entryMatchesFilter opts.matchFilter entry || !entry.hasCrc32 || crc.toNat = entry.crc32

/-- `zz9k_archive_7z_split_writer_finish_entry`, after which the writer is behind the entry -/
def splitWriterFinishEntry (entry : ArchiveEntry) (w : SplitWriter) : Tool Bool := do
  let closed ← (match w.file with
    | none => pure true
    | some file => Tool.close file)
  pure (splitCrcAgrees opts entry w.entryCrc && closed)

/-- The entries a writer has still to write, the current one first -/
abbrev SplitState : Type := List ArchiveEntry × SplitWriter

/-- `zz9k_archive_7z_split_writer_advance_empty` -/
def splitWriterAdvanceEmpty : List ArchiveEntry → SplitWriter → Tool (Bool × SplitState)
  | [],w => pure (true,[],w)
  | entry::rest,w =>
    if entry.uncompressedSize ≠ 0 then pure (true,entry::rest,w)
    else do
      match ← splitWriterStartEntry opts outputDir entry w with
      | none => pure (false,entry::rest,w)
      | some started => do
        let done ← splitWriterFinishEntry opts entry started
        if done then splitWriterAdvanceEmpty rest started.next
        else pure (false,rest,started.next)

/-- The loop of `zz9k_archive_7z_split_writer_chunk` -/
def splitWriterChunkLoop (entries : List ArchiveEntry) (w : SplitWriter) (data : Bytes) :
    Tool (Bool × SplitState) :=
  if data = [] then splitWriterAdvanceEmpty opts outputDir entries w
  else
    match entries with
    | [] => pure (false,[],w)
    | entry::rest => do
      match ← splitWriterStartEntry opts outputDir entry w with
      | none => pure (false,entry::rest,w)
      | some w =>
        let part := data.take (entry.uncompressedSize-w.entryWritten)
        if _hpart : part = [] then do
          let done ← splitWriterFinishEntry opts entry w
          if done then splitWriterChunkLoop rest w.next data else pure (false,rest,w.next)
        else do
          let written ← (match w.file with
            | none => pure true
            | some file => Tool.write file part)
          if written = false then pure (false,entry::rest,{w with
            entryCrc := archiveCrc32 w.entryCrc part})
          else if (w.add part).entryWritten = entry.uncompressedSize then do
            let done ← splitWriterFinishEntry opts entry (w.add part)
            if done then splitWriterChunkLoop rest (w.add part).next (data.drop part.length)
            else pure (false,rest,(w.add part).next)
          else splitWriterChunkLoop (entry::rest) (w.add part) (data.drop part.length)
termination_by (entries.length,data.length)
decreasing_by
  · exact Prod.Lex.left _ _ (Nat.lt_succ_self _)
  · exact Prod.Lex.left _ _ (Nat.lt_succ_self _)
  · apply Prod.Lex.right
    have hpos := List.length_pos_of_ne_nil _hpart
    have hle : part.length ≤ data.length := by simp [part]
    rw [List.length_drop]
    exact Nat.sub_lt (Nat.lt_of_lt_of_le hpos hle) hpos

/-- `zz9k_archive_7z_split_writer_chunk` -/
def splitWriterChunk (s : SplitState) (data : Bytes) : Tool (Bool × SplitState) := do
  let (advanced,entries,w) ← splitWriterAdvanceEmpty opts outputDir s.1 s.2
  if advanced then splitWriterChunkLoop opts outputDir entries w data
  else pure (false,entries,w)

/-- `zz9k_archive_7z_split_writer_finish` -/
def splitWriterFinish (s : SplitState) : Tool (Bool × SplitState) := do
  let (advanced,entries,w) ← splitWriterAdvanceEmpty opts outputDir s.1 s.2
  pure (advanced && entries.isEmpty,entries,w)

/-- `zz9k_archive_7z_split_writer_cleanup` -/
def splitWriterCleanup (s : SplitState) : Tool Unit :=
  match s.2.file with
  | none => pure ()
  | some file => do
    let _ ← Tool.close file
    pure ()

end

/-- What the decoder of a folder is given: the algorithm, the bytes before the packed ones, and the
limit of the output -/
structure FolderFeed where
  algorithm : Compression
  prefixBytes : Bytes
  outputLimit : Nat

/-- The entry that stands for a whole folder in `zz9k_archive_handle_7z_split_group_file` -/
def splitFolderEntry (first : ArchiveEntry) (unpackedSize : Nat) : ArchiveEntry := {first with
  decodedOffset := 0
  uncompressedSize := unpackedSize
  flags := first.flags-(first.flags &&& archiveEntryFlagCrc32)
  crc32 := 0}

/-- The choice of the decoder there, on the command to extract -/
def splitFolderFeed (folder : ArchiveEntry) : Option FolderFeed :=
  if folder.method = sevenZipMethodDeflate then
    some ⟨.deflateRaw,[],folder.uncompressedSize⟩
  else if folder.method = sevenZipMethodLzma then
    (sevenZipLzmaAloneHeader folder).map fun header =>
      ⟨.lzmaAlone,header,folder.uncompressedSize⟩
  else if folder.method = sevenZipMethodLzma2 then
    (sevenZipLzma2FeedOutputLimit folder).map fun limit => ⟨.lzma2,folder.methodProps,limit⟩
  else none

/-- `zz9k_archive_handle_7z_split_group_file` on the command to extract -/
def handleSplitGroupFile (service : CodecService) (opts : ToolOptions)
    (archivePath outputDir : CString) (first : ArchiveEntry) (group : List ArchiveEntry) :
    Job Bool :=
  if splitGroupHasMatch opts group = false then pure true
  else if splitGroupIsSafe opts group = false then pure false
  else
    match splitGroupUnpackedSize 0 group with
    | none => pure false
    | some unpackedSize =>
      let folder := splitFolderEntry first unpackedSize
      match splitFolderFeed folder with
      | none => pure false
      | some feed =>
        if unpackedSize = 0 then do
          let (ok,s) ← Job.tool (splitWriterFinish opts outputDir (group,{}))
          Job.tool (splitWriterCleanup s)
          pure ok
        else if service.supportsDecompressFeed feed.algorithm = false then pure false
        else do
          let e ← decompressFeedFilePartsCore service feed.algorithm feed.prefixBytes archivePath
            folder.dataOffset folder.compressedSize feed.outputLimit
            {openFile := none,onChunk := some (splitWriterChunk opts outputDir)
             consumer := (group,{})}
          let (finished,s) ← (if e.ok then Job.tool (splitWriterFinish opts outputDir e.consumer)
            else pure (false,e.consumer))
          Job.tool (splitWriterCleanup s)
          pure (finished && decide (e.result.bytesWritten = unpackedSize) &&
            decide (s.2.totalWritten = unpackedSize))

/-- What an engine fed from the file makes of a decoded member: whether the result fits -/
def sevenZipFeedEntry (service : CodecService) (opts : ToolOptions) (archivePath outputDir : CString)
    (entry : ArchiveEntry) (feed : FolderFeed) : Job (DecodeEnd Unit) :=
  decompressFeedFilePartsToFile service opts feed.algorithm feed.prefixBytes archivePath
    entry.dataOffset entry.compressedSize feed.outputLimit outputDir entry

/-- The extraction of a member that is a folder of its own, in `zz9k_archive_handle_7z_file` -/
def sevenZipExtractEntry (codec : Option CodecService) (opts : ToolOptions)
    (archivePath outputDir : CString) (entry : ArchiveEntry) : Job Bool :=
  if entryMatchesFilter opts.matchFilter entry = false then pure true
  else if pathIsSafe entry.name = false then pure false
  else if entry.isDir then Job.tool (writeEntry opts outputDir entry [])
  else if entry.method = sevenZipMethodCopy then
    Job.tool (writeFileRangeEntry opts outputDir entry archivePath true)
  else
    match codec with
    | none => pure false
    | some service =>
      if entry.method = sevenZipMethodDeflate then do
        let e ← sevenZipFeedEntry service opts archivePath outputDir entry
          ⟨.deflateRaw,[],zipTestOutputLimit entry.uncompressedSize⟩
        pure (e.ok && sevenZipResultMatchesEntry entry e.result)
      else if entry.method = sevenZipMethodLzma then
        match sevenZipLzmaAloneHeader entry with
        | none => pure false
        | some header => do
          let e ← sevenZipFeedEntry service opts archivePath outputDir entry
            ⟨.lzmaAlone,header,entry.uncompressedSize⟩
          pure (e.ok && sevenZipResultMatchesEntry entry e.result)
      else if entry.method = sevenZipMethodLzma2 then
        match (if entry.methodProps.length = 1 then sevenZipLzma2FeedOutputLimit entry
          else none) with
        | none => pure false
        | some limit => do
          let e ← sevenZipFeedEntry service opts archivePath outputDir entry
            ⟨.lzma2,entry.methodProps,limit⟩
          let result ← (if e.ok then pure (some e.result)
            else if e.failure = .noMemory then
              sevenZipLzma2FallbackFileRange service opts archivePath outputDir entry
            else pure none)
          pure (result.any (sevenZipResultMatchesEntry entry))
      else pure false

/-- The loop of `zz9k_archive_handle_7z_file` that extracts. A group is what
`zz9k_archive_7z_split_group_count` counts from its first entry on. -/
def handleSevenZipEntries (codec : Option CodecService) (opts : ToolOptions)
    (archivePath outputDir : CString) : List ArchiveEntry → Job Bool
  | [] => pure true
  | entry::rest =>
    if entry.hasSplitSubstream then do
      let group := entry::rest.takeWhile (sameSplitFolder entry)
      let done ← (match codec with
        | none => pure false
        | some service => handleSplitGroupFile service opts archivePath outputDir entry group)
      let all ← handleSevenZipEntries codec opts archivePath outputDir
        (rest.dropWhile (sameSplitFolder entry))
      pure (done && all)
    else do
      let done ← sevenZipExtractEntry codec opts archivePath outputDir entry
      let all ← handleSevenZipEntries codec opts archivePath outputDir rest
      pure (done && all)
termination_by entries => entries.length
decreasing_by
  · exact Nat.lt_succ_of_le (List.dropWhile_suffix _).length_le
  · exact Nat.lt_succ_self _

/-- What `zz9k_archive_7z_file_can_handle_entries` notes of a member that is to be extracted: the
decoder it needs, if it needs one. No answer is that the member is not for this engine. -/
def sevenZipEntryNeeds (archiveLength : Nat) (entry : ArchiveEntry) :
    Option (Option Compression) :=
  if archiveLength < entry.dataOffset ∨ archiveLength-entry.dataOffset < entry.compressedSize then
    none
  else if entry.method = sevenZipMethodCopy then
    if entry.hasSplitSubstream = true ∨ entry.compressedSize ≠ entry.uncompressedSize then none
    else some none
  else if entry.method = sevenZipMethodDeflate then some (some .deflateRaw)
  else if entry.method = sevenZipMethodLzma then some (some .lzmaAlone)
  else if entry.method = sevenZipMethodLzma2 then some (some .lzma2)
  else none

/-- `zz9k_archive_7z_file_can_handle_entries`: the decoders that are needed -/
def sevenZipFileCanHandleEntries (opts : ToolOptions) (entries : List ArchiveEntry)
    (archiveLength : Nat) : Option (List Compression) :=
  let members := entries.filter fun entry =>
    entryMatchesFilter opts.matchFilter entry ∧ entry.isDir = false
  (members.mapM (sevenZipEntryNeeds archiveLength)).map fun needs => needs.filterMap id

/-- `zz9k_archive_handle_7z_file` on the command to extract, from where the header is read, with the
members if it could be parsed -/
def handleSevenZipFile (codec : Option CodecService) (opts : ToolOptions)
    (archivePath : CString) (archiveLength : Nat) (outputDir : CString)
    (listing : Option (List ArchiveEntry)) : Job EngineEnd :=
  match listing with
  | none => pure ⟨true,false⟩
  | some entries =>
    match sevenZipFileCanHandleEntries opts entries archiveLength with
    | none => pure ⟨false,true⟩
    | some needs =>
      if needs ≠ [] ∧ codec.isNone then pure ⟨true,false⟩
      else if needs.all (fun algorithm => codec.any fun service =>
          service.supportsDecompressFeed algorithm) = false then pure ⟨false,true⟩
      else do
        let ok ← handleSevenZipEntries codec opts archivePath outputDir entries
        pure ⟨true,ok⟩

end ZZ9K.Archive
