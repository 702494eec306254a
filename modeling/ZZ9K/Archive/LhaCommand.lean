import ZZ9K.Archive.LhaBatch
import ZZ9K.Archive.ZipExtract

namespace ZZ9K.Archive

open ZZ9K.Abi ZZ9K.Framework

/-- `zz9k_archive_lha_output_is_archive` -/
def lhaOutputIsArchive (opts : ToolOptions) (src : LhaSource) (outputDir : CString)
    (entry : ArchiveEntry) : Tool Bool :=
  match src with
  | .memory _ => pure false
  | .file archivePath _ =>
    if entry.isDir then pure false
    else
      match outputEntry opts entry with
      | none => pure false
      | some out => do
        match ← joinPath outputDir out.name with
        | none => pure false
        | some path => Tool.sameFile archivePath path

section

variable (decoder : LhaDecoder) (service : Option CodecService) (opts : ToolOptions)
  (src : LhaSource) (outputDir : CString)

/-- The extraction of a stored member -/
def lhaExtractStored (entry : ArchiveEntry) : Tool Bool :=
  if entry.compressedSize ≠ entry.uncompressedSize ∨ src.holds entry = false then pure false
  else
    match src with
    | .file path _ => writeFileRangeEntry opts outputDir entry path false
    | .memory data => writeEntry opts outputDir entry (data.drop entry.dataOffset)

/-- What `zz9k_archive_lha_work_entry` and the loop of `zz9k_archive_lha_command_loop` do on the
command to extract with a member that the batch has left in `state` -/
def lhaExtractMember (diag : LhaBoardDiag) (state : LhaBatchState) (entry : ArchiveEntry) :
    Job (Bool × LhaBoardDiag) :=
  if lhaMethodSupported entry.method then
    match state with
    | .done => pure (true,diag)
    | .failed => pure (false,diag)
    | .sw => do
      let ok ← Job.tool (extractLhaSoftware decoder src opts outputDir entry)
      pure (ok,diag)
    | .none => extractLhaLh5 decoder service src opts outputDir diag entry
  else if entry.method ≠ lhaMethodLh0 then pure (false,diag)
  else do
    let ok ← Job.tool (lhaExtractStored opts src outputDir entry)
    pure (ok,diag)

/-- `zz9k_archive_lha_work_entry` on the command to extract -/
def lhaWorkEntry (diag : LhaBoardDiag) (entry : ArchiveEntry) : Job (Bool × LhaBoardDiag) :=
  if entryMatchesFilter opts.matchFilter entry = false then pure (true,diag)
  else if pathIsSafe entry.name = false then pure (false,diag)
  else if entry.isDir then do
    let ok ← Job.tool (writeEntry opts outputDir entry [])
    pure (ok,diag)
  else do
    let collides ← Job.tool (if opts.mayReplace then lhaOutputIsArchive opts src outputDir entry
      else pure false)
    if collides then pure (false,diag)
    else lhaExtractMember decoder service opts src outputDir diag .none entry

/-- The members that the walk of `zz9k_archive_handle_lha_file` comes to, each worked on before the
next is looked for. The walk stops where the run is cancelled. -/
def lhaWorkEach (diag : LhaBoardDiag) : List ArchiveEntry → Job Bool
  | [] => pure true
  | entry::rest => do
    let stop ← Job.tool Tool.cancelled
    if stop then pure false
    else do
      let (done,diag) ← lhaWorkEntry decoder service opts src outputDir diag entry
      let others ← lhaWorkEach diag rest
      pure (done && others)

/-- The refusal at the head of `zz9k_archive_lha_command_loop`: whether the output of a member is
the archive -/
def lhaRefuseArchive : List ArchiveEntry → Tool Bool
  | [] => pure false
  | entry::rest => do
    let collides ← (if entryMatchesFilter opts.matchFilter entry then
        lhaOutputIsArchive opts src outputDir entry
      else pure false)
    if collides then pure true else lhaRefuseArchive rest

/-- The loop of `zz9k_archive_lha_command_loop` on the command to extract, with what a batch has
made of the members -/
def lhaCommandEach (diag : LhaBoardDiag) : List (ArchiveEntry × LhaBatchState) → Job Bool
  | [] => pure true
  | (entry,state)::rest =>
    if entryMatchesFilter opts.matchFilter entry = false then lhaCommandEach diag rest
    else do
      let stop ← Job.tool Tool.cancelled
      if stop then pure false
      else do
        let (done,diag) ← (if pathIsSafe entry.name = false then pure (false,diag)
          else if entry.isDir then do
            let ok ← Job.tool (writeEntry opts outputDir entry [])
            pure (ok,diag)
          else lhaExtractMember decoder service opts src outputDir diag state entry)
        let others ← lhaCommandEach diag rest
        pure (done && others)

/-- `zz9k_archive_lha_command_loop` on the command to extract -/
def lhaCommandLoop (limits : BatchLimits) (entries : List ArchiveEntry) : Job Bool := do
  let refused ← Job.tool (match src with
    | .memory _ => pure false
    | .file _ _ => if opts.mayReplace then lhaRefuseArchive opts src outputDir entries
      else pure false)
  if refused then pure false
  else do
    let none := entries.map fun _ => LhaBatchState.none
    let state ← (match service with
      | .none => pure none
      | some service =>
        if entries = [] then pure none
        else do
          let got ← Job.tool (Tool.malloc entries.length)
          if got then
            lhaBatchRunSrc decoder opts limits service src entries .extract outputDir none
          else pure none)
    lhaCommandEach decoder service opts src outputDir .unasked (entries.zip state)

end

/-- `zz9k_archive_handle_lha_file` on the command to extract, with the members its walk comes to and
whether the walk ends well -/
def handleLhaFile (decoder : LhaDecoder) (service : Option CodecService) (opts : ToolOptions)
    (archivePath : CString) (archiveLength : Nat) (outputDir : CString)
    (entries : List ArchiveEntry) (walked : Bool) : Job EngineEnd := do
  let opened ← Job.tool (Tool.openRead archivePath)
  if opened = false then pure ⟨false,false⟩
  else do
    let ok ← lhaWorkEach decoder service opts (.file archivePath archiveLength) outputDir .unasked
      entries
    pure ⟨true,ok && walked⟩

end ZZ9K.Archive
