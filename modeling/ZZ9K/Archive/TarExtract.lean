import ZZ9K.Archive.SevenZipExtract
import ZZ9K.Archive.TarStream

namespace ZZ9K.Archive

open ZZ9K.Abi ZZ9K.Framework

/-- `ZZ9KArchiveTarStream` while it extracts: what it has parsed, and the output that is open for
the bytes of its entry -/
structure TarExtract where
  stream : TarStream := {}
  output : Option OpenedOutput := none

/-- The guard of the archive in `zz9k_archive_tar_stream_start_entry`. It looks at the name before
components are stripped, and lets the entry pass where there is no memory for the path. -/
def tarOutputIsArchive (opts : ToolOptions) (archivePath outputDir : CString)
    (entry : ArchiveEntry) : Tool Bool :=
  if entry.isDir = false ∧ opts.overwriteOutputs = true ∧ opts.dryRunOutputs = false ∧
      opts.skipExistingOutputs = false then do
    match ← joinPath outputDir entry.name with
    | none => pure false
    | some path => Tool.sameFile archivePath path
  else pure false

section

variable (opts : ToolOptions) (archivePath outputDir : CString)

/-- The end of `zz9k_archive_tar_stream_start_entry` -/
def tarStartOutput (s : TarExtract) : Tool (Bool × TarExtract) :=
  let entry := s.stream.entry
  if entry.isSkipped then pure (true,s)
  else if entryMatchesFilter opts.matchFilter entry = false then pure (true,s)
  else if pathIsSafe entry.name = false then pure (false,s)
  else do
    let s := {s with stream := {s.stream with count := s.stream.count+1}}
    let aliased ← tarOutputIsArchive opts archivePath outputDir entry
    if aliased then pure (false,s)
    else if entry.isDir = true ∨ entry.uncompressedSize = 0 then do
      let written ← writeEntry opts outputDir entry []
      pure (written,s)
    else
      match ← tarStreamOpenStaged opts outputDir entry with
      | none => pure (false,s)
      | some opened => pure (true,{s with output := some opened})

/-- `zz9k_archive_tar_stream_start_entry` on a complete header -/
def tarStartEntry (s : TarExtract) (header : Bytes) : Tool (Bool × TarExtract) :=
  if tarHeaderEmpty header then
    pure (true,{s with stream := {s.stream with done := true,header := [],short := nil_short}})
  else
    match tarEntryFromHeader header 0 with
    | none => pure (false,s)
    | some candidate =>
      let (entry,pending) := TarStream.startMember candidate s.stream.pending
      let (entry,pending) := tarPendingSize entry pending
      let stream := s.stream.takeUp entry pending
      match (if entry.isPaxHeader then stream.preparePax entry.uncompressedSize
        else some stream) with
      | none => pure (false,{s with stream})
      | some stream => tarStartOutput opts archivePath outputDir {s with stream}

/-- `zz9k_archive_tar_stream_close_file` -/
def tarCloseFile (s : TarExtract) : Tool (Bool × TarExtract) :=
  match s.output with
  | none => pure (true,s)
  | some opened => do
    let closed ← closeStaged opened true
    pure (closed,{s with output := none})

/-- What `zz9k_archive_tar_stream_consume` does with the data of an entry -/
def tarConsumeData (s : TarExtract) (piece : Bytes) : Tool (Bool × TarExtract) :=
  if s.stream.entry.isGnuLongName then
    pure (true,{s with stream := s.stream.consumeLongName piece})
  else if s.stream.entry.isPaxHeader then
    if s.stream.paxCapacity = 0 ∨ s.stream.paxCapacity < s.stream.paxData.length+piece.length then
      pure (false,s)
    else pure (true,{s with stream := {s.stream with paxData := s.stream.paxData++piece}})
  else
    match s.output with
    | none => pure (true,s)
    | some opened => do
      let written ← Tool.write opened.file piece
      pure (written,s)

/-- What it does behind the last byte of an entry -/
def tarFinishEntry (s : TarExtract) : Tool (Bool × TarExtract) :=
  match s.stream.finishData with
  | none => pure (false,s)
  | some stream => tarCloseFile {s with stream}

/-- One round of the loop of `zz9k_archive_tar_stream_consume`, on the bytes it takes -/
def tarRound (s : TarExtract) (piece : Bytes) : Tool (Bool × TarExtract) :=
  if s.stream.entryRemaining ≠ 0 then do
    let (taken,s) ← tarConsumeData s piece
    if taken = false then pure (false,s)
    else
      let s := {s with stream := {s.stream with
        entryRemaining := s.stream.entryRemaining-piece.length}}
      if s.stream.entryRemaining = 0 then tarFinishEntry s else pure (true,s)
  else if s.stream.paddingRemaining ≠ 0 then
    pure (true,{s with stream := {s.stream with
      paddingRemaining := s.stream.paddingRemaining-piece.length}})
  else if h : (s.stream.header++piece).length < tarBlock then
    pure (true,{s with stream := {s.stream with header := s.stream.header++piece,short := h}})
  else tarStartEntry opts archivePath outputDir s (s.stream.header++piece)

/-- `zz9k_archive_tar_stream_consume` -/
def tarConsume (s : TarExtract) (data : Bytes) : Tool (Bool × TarExtract) :=
  if _h : data.length = 0 then pure (true,s)
  else if s.stream.done then pure (true,s)
  else do
    let (taken,next) ← tarRound opts archivePath outputDir s
      (data.take (s.stream.part data.length))
    if taken then tarConsume next (data.drop (s.stream.part data.length)) else pure (false,next)
termination_by data.length
decreasing_by
  have hpos := s.stream.part_pos (Nat.pos_of_ne_zero _h)
  simp only [List.length_drop]
  omega

/-- `zz9k_archive_tar_stream_finish` -/
def tarFinish (s : TarExtract) : Bool :=
  s.output.isNone ∧ s.stream.entryRemaining = 0 ∧ s.stream.paddingRemaining = 0 ∧
    s.stream.header = []

/-- `zz9k_archive_tar_stream_cleanup`: the temporary of an entry that did not end is removed. -/
def tarCleanup (s : TarExtract) : Tool Unit :=
  match s.output with
  | none => pure ()
  | some opened => do
    let _ ← closeStaged opened false
    pure ()

def tarWalkChunk : Nat := 64*1024

/-- The loop of `zz9k_archive_handle_tar_file` -/
def tarWalkLoop (remaining : Nat) (s : TarExtract) : Tool (Bool × TarExtract) :=
  if _h : remaining = 0 then pure (true,s)
  else do
    let part := min remaining tarWalkChunk
    let stop ← Tool.cancelled
    if stop then pure (false,s)
    else
      match ← Tool.read archivePath part with
      | none => pure (false,s)
      | some chunk => do
        let (taken,next) ← tarConsume opts archivePath outputDir s chunk
        if taken then tarWalkLoop (remaining-part) next else pure (false,next)
termination_by remaining
decreasing_by
  have hchunk : 0 < tarWalkChunk := by decide
  exact Nat.sub_lt (Nat.pos_of_ne_zero _h) (Nat.lt_min.mpr ⟨Nat.pos_of_ne_zero _h,hchunk⟩)

/-- `zz9k_archive_handle_tar_file` on the command to extract -/
def handleTarFile (archiveLength : Nat) : Tool EngineEnd := do
  let opened ← Tool.openRead archivePath
  if opened = false then pure ⟨false,false⟩
  else do
    let got ← Tool.malloc tarWalkChunk
    let (walked,s) ← (if got then tarWalkLoop opts archivePath outputDir archiveLength {}
      else pure (false,{}))
    tarCleanup s
    pure ⟨true,walked && tarFinish s⟩

end

/-- `ZZ9KArchiveGzipInfo` -/
structure GzipInfo where
  name : CString
  crc32 : Nat
  compressedSize : Nat
  uncompressedSize : Nat

/-- `zz9k_archive_ascii_lower` -/
def archiveAsciiLower (c : UInt8) : UInt8 := if 0x41 ≤ c ∧ c ≤ 0x5a then c-0x41+0x61 else c

/-- `zz9k_archive_has_suffix_ci` -/
def hasSuffixCi (text suffix : CString) : Bool :=
  suffix.map archiveAsciiLower <:+ text.map archiveAsciiLower

/-- `zz9k_archive_gzip_is_tar_candidate`: the suffixes are ".tar", ".tar.gz" and ".tgz". -/
def gzipIsTarCandidate (archivePath : CString) (info : GzipInfo) : Bool :=
  hasSuffixCi info.name [0x2e,0x74,0x61,0x72] ∨
    hasSuffixCi archivePath [0x2e,0x74,0x61,0x72,0x2e,0x67,0x7a] ∨
    hasSuffixCi archivePath [0x2e,0x74,0x67,0x7a]

/-- `zz9k_archive_gzip_result_matches_footer` -/
def gzipResultMatchesFooter (info : GzipInfo) (result : DecompressResult) : Bool :=
  result.bytesWritten = info.uncompressedSize ∧ result.checksum = info.crc32

/-- `zz9k_archive_handle_tar_gzip_feed` on the command to extract -/
def handleTarGzipFeed (service : CodecService) (opts : ToolOptions)
    (archivePath : CString) (fileLength : Nat) (outputDir : CString) (info : GzipInfo) :
    Job Bool := do
  let e ← decompressFeedFileToCallback service .gzip archivePath fileLength
    (zipTestOutputLimit info.uncompressedSize) (tarConsume opts archivePath outputDir) {}
  Job.tool (tarCleanup e.consumer)
  pure (e.ok && tarFinish e.consumer &&
    decide (e.result.bytesConsumed = info.compressedSize) && gzipResultMatchesFooter info e.result)

/-- The entry that `zz9k_archive_handle_gzip_file` extracts -/
def gzipEntry (info : GzipInfo) : ArchiveEntry :=
  {name := info.name,method := 3,compressedSize := info.compressedSize
   uncompressedSize := info.uncompressedSize}

/-- The extraction of the file in `zz9k_archive_handle_gzip_file` -/
def gzipExtractEntry (service : CodecService) (opts : ToolOptions) (archivePath : CString)
    (fileLength : Nat) (outputDir : CString) (info : GzipInfo) : Job Bool :=
  if info.uncompressedSize = 0 then do
    let e ← decompressFeedFilePartsToResult service .gzip [] archivePath 0 fileLength
      (zipTestOutputLimit info.uncompressedSize)
    if e.ok && gzipResultMatchesFooter info e.result then
      Job.tool (writeEntry opts outputDir (gzipEntry info) [])
    else pure false
  else do
    let e ← decompressFeedFilePartsToFile service opts .gzip [] archivePath 0 fileLength
      info.uncompressedSize outputDir (gzipEntry info)
    pure (e.ok && decide (e.result.bytesConsumed = info.compressedSize) &&
      gzipResultMatchesFooter info e.result)

/-- `zz9k_archive_handle_gzip_file` on the command to extract, with what the header and the footer
say if they could be read -/
def handleGzipFile (codec : Option CodecService) (opts : ToolOptions) (archivePath : CString)
    (fileLength : Nat) (outputDir : CString) (info : Option GzipInfo) : Job EngineEnd :=
  match info,codec with
  | some info,some service =>
    if service.supportsDecompressFeed .gzip = false then pure ⟨false,false⟩
    else if gzipIsTarCandidate archivePath info then do
      let ok ← handleTarGzipFeed service opts archivePath fileLength outputDir info
      pure ⟨true,ok⟩
    else do
      let ok ← gzipExtractEntry service opts archivePath fileLength outputDir info
      pure ⟨true,ok⟩
  | _,_ => pure ⟨false,false⟩

end ZZ9K.Archive
