import ZZ9K.Archive.Tool
import Mathlib.Data.List.DropRight

namespace ZZ9K.Archive

open ZZ9K.Framework

/-- The loop of `zz9k_archive_strip_entry_name`: the components still to strip, and the rest -/
def stripComponentsLoop : Nat → CString → Nat × CString
  | 0,p => (0,p)
  | n+1,p =>
    if p = [] then (n+1,p)
    else
      match (p.dropWhile (· = slash)).dropWhile (· ≠ slash) with
      | [] => (n,[])
      | _::rest => stripComponentsLoop n rest

/-- `zz9k_archive_strip_entry_name` -/
def stripEntryName (stripComponents : Nat) (name : CString) : CString :=
  if stripComponents = 0 then name
  else
    let (left,rest) := stripComponentsLoop stripComponents name
    if left = 0 then rest.dropWhile (· = slash) else []

/-- `zz9k_archive_output_entry` -/
def outputEntry (opts : ToolOptions) (entry : ArchiveEntry) : Option ArchiveEntry :=
  let name := stripEntryName opts.stripComponents entry.name
  if name = [] ∨ archiveMaxName ≤ name.length then none
  else some {entry with name,isDir := nameEndsWithSlash name}

def isSeparator (c : UInt8) : Bool := c = slash ∨ c = backslash

/-- `zz9k_archive_trim_trailing_separators` -/
def trimTrailingSeparators (path : CString) : CString := path.rdropWhile isSeparator

/-- The path that `zz9k_archive_join_path` makes -/
def joinedPath (base name : CString) : CString :=
  let needSep := base ≠ [] ∧ base.getLast? ≠ some slash ∧ base.getLast? ≠ some backslash ∧
    base.getLast? ≠ some colon
  base++(if needSep then [slash] else [])++name

/-- `zz9k_archive_join_path` -/
def joinPath (base name : CString) : Tool (Option CString) := do
  let got ← Tool.malloc ((joinedPath base name).length+1)
  pure (if got then some (joinedPath base name) else none)

/-- `zz9k_archive_mkdir_one` -/
def mkdirOne (path : CString) : Tool Bool :=
  if path = [] then pure true
  else do
    match ← Tool.makeDir path with
    | .made => pure true
    | .taken => Tool.pathIsDir path
    | .failed => pure false

/-- The loop of `zz9k_archive_ensure_parent_dirs`, with `before` behind it -/
def ensureParentDirsLoop : CString → CString → Tool Bool
  | _,[] => pure true
  | before,c::rest =>
    if isSeparator c = true ∧ before ≠ [] ∧ before.getLast? ≠ some colon then do
      let made ← mkdirOne before
      if made then ensureParentDirsLoop (before++[c]) rest else pure false
    else ensureParentDirsLoop (before++[c]) rest

/-- `zz9k_archive_ensure_parent_dirs` -/
def ensureParentDirs (base name : CString) : Tool Bool := do
  match ← joinPath base name with
  | none => pure false
  | some path => ensureParentDirsLoop [] path

/-- What the checks on an output path say -/
inductive OutputCheck
  | refuse
  | skip
  | dryRun
  | proceed
  deriving DecidableEq

/-- The checks on the path of a file to be written. `guard` is asked after the first of them. -/
def checkOutput (opts : ToolOptions) (path : CString) (guard : Tool Bool) : Tool OutputCheck := do
  let isDir ← Tool.pathIsDir path
  if isDir then pure .refuse
  else do
    let guarded ← guard
    if guarded then pure .refuse
    else do
      let skipped ← (if opts.skipExistingOutputs then Tool.pathExists path else pure false)
      if skipped then pure .skip
      else do
        let taken ← (if opts.overwriteOutputs then pure false else Tool.pathExists path)
        if taken then pure .refuse
        else if opts.dryRunOutputs then pure .dryRun
        else pure .proceed

/-- `zz9k_archive_write_file` -/
def writeFile (opts : ToolOptions) (path : CString) (data : Bytes) : Tool Bool := do
  match ← checkOutput opts path (pure false) with
  | .refuse => pure false
  | .skip => pure true
  | .dryRun => pure true
  | .proceed =>
    match ← Tool.openWrite path with
    | none => pure false
    | some file => do
      let written ← (if data = [] then pure true else Tool.write file data)
      let _ ← Tool.close file
      pure written

/-- The checks of `zz9k_archive_write_entry` before it makes anything. A directory may exist
already, but not as a file. -/
def checkEntry (opts : ToolOptions) (path : CString) (isDir : Bool) : Tool OutputCheck :=
  if isDir then do
    let taken ← Tool.pathExists path
    let file ← (if taken then do
        let dir ← Tool.pathIsDir path
        pure !dir
      else pure false)
    if file then pure .refuse
    else if opts.dryRunOutputs then pure .dryRun
    else pure .proceed
  else checkOutput opts path (pure false)

/-- `zz9k_archive_write_entry` -/
def writeEntry (opts : ToolOptions) (outputDir : CString) (entry : ArchiveEntry) (data : Bytes) :
    Tool Bool :=
  match outputEntry opts entry with
  | none => pure true
  | some out =>
    if pathIsSafe out.name = false then pure false
    else do
      match ← joinPath outputDir out.name with
      | none => pure false
      | some joined => do
        let path := if out.isDir then trimTrailingSeparators joined else joined
        match ← checkEntry opts path out.isDir with
        | .refuse => pure false
        | .skip => pure true
        | .dryRun => pure true
        | .proceed => do
          let parents ← ensureParentDirs outputDir out.name
          if parents = false then pure false
          else if out.isDir then mkdirOne path
          else writeFile opts path (data.take out.uncompressedSize)

/-- The two suffixes of a sibling: the one tried as it is, and the one that takes a number -/
structure SiblingTag where
  base : CString
  tag : CString

/-- ".zz9k-tmp" and ".zz9k-t" -/
def tmpTag : SiblingTag :=
  ⟨[0x2e,0x7a,0x7a,0x39,0x6b,0x2d,0x74,0x6d,0x70],[0x2e,0x7a,0x7a,0x39,0x6b,0x2d,0x74]⟩

/-- ".zz9k-old" and ".zz9k-o" -/
def backupTag : SiblingTag :=
  ⟨[0x2e,0x7a,0x7a,0x39,0x6b,0x2d,0x6f,0x6c,0x64],[0x2e,0x7a,0x7a,0x39,0x6b,0x2d,0x6f]⟩

/-- A number below 100 in decimal -/
def decimal (n : Nat) : CString :=
  if n < 10 then [(0x30+n).toUInt8] else [(0x30+n/10).toUInt8,(0x30+n%10).toUInt8]

def isComponentEnd (c : UInt8) : Bool := c = slash ∨ c = colon ∨ c = backslash

/-- The last component of a path -/
def lastComponent (path : CString) : CString := path.rtakeWhile fun c => isComponentEnd c = false

/-- The path with its last component cut to 96 bytes -/
def siblingStem (path : CString) : CString :=
  if 96 < (lastComponent path).length then
    path.take (path.length-(lastComponent path).length+96)
  else path

/-- The sibling name for a slot -/
def siblingPath (path : CString) (t : SiblingTag) (slot : Nat) : CString :=
  if slot = 0 then siblingStem path++t.base else siblingStem path++t.tag++decimal slot

/-- The loop of `zz9k_archive_probe_sibling`, with this many attempts to go: whether a name was
free, and the name tried last -/
def probeSiblingLoop (path : CString) (t : SiblingTag) (seed : Nat) :
    Nat → CString → Tool (Bool × CString)
  | 0,dst => pure (false,dst)
  | left+1,_ => do
    let dst := siblingPath path t ((seed+(31-left))%32)
    let taken ← Tool.pathExists dst
    if taken then probeSiblingLoop path t seed left dst else pure (true,dst)

/-- `zz9k_archive_probe_sibling` -/
def probeSibling (path : CString) (t : SiblingTag) : Tool (Bool × CString) := do
  let seed ← Tool.probeSeed
  probeSiblingLoop path t (seed%32) 32 []

/-- The end of `zz9k_archive_replace_with_staged`, with the old file at `backup` if there was one -/
def installStaged (tmpPath path : CString) (backup : Option CString) : Tool Bool := do
  let renamed ← Tool.rename tmpPath path
  if renamed then
    match backup with
    | none => pure true
    | some old => do
      let _ ← Tool.remove old
      pure true
  else do
    let _ ← Tool.remove tmpPath
    match backup with
    | none => pure false
    | some old => do
      let _ ← Tool.rename old path
      pure false

/-- `zz9k_archive_replace_with_staged` -/
def replaceWithStaged (tmpPath path : CString) : Tool Bool := do
  let old ← Tool.pathExists path
  if old = false then installStaged tmpPath path none
  else do
    let got ← Tool.malloc (path.length+16)
    let (found,backup) ← (if got then probeSibling path backupTag else pure (false,[]))
    if found = false then do
      let _ ← Tool.remove tmpPath
      pure false
    else do
      let moved ← Tool.rename path backup
      if moved then installStaged tmpPath path (some backup)
      else do
        let _ ← Tool.remove tmpPath
        pure false

def archiveStreamChunk : Nat := 48*1024/2

/-- The inner loop of `zz9k_archive_crc32` on one byte -/
def crc32Byte (crc : UInt32) (b : UInt8) : UInt32 :=
  (List.range 8).foldl
    (fun crc _ => if crc &&& 1 ≠ 0 then (crc >>> 1) ^^^ 0xedb88320 else crc >>> 1)
    (crc ^^^ b.toUInt32)

/-- `zz9k_archive_crc32` -/
def archiveCrc32 (crc : UInt32) (data : Bytes) : UInt32 :=
  data.foldl crc32Byte (crc ^^^ 0xffffffff) ^^^ 0xffffffff

/-- `zz9k_archive_entry_has_crc32` -/
def ArchiveEntry.hasCrc32 (entry : ArchiveEntry) : Bool := entry.flags &&& archiveEntryFlagCrc32 ≠ 0

/-- The copying loop of `zz9k_archive_write_file_range_entry`: the CRC of what it copied -/
def rangeCopyLoop (inputPath : CString) (file : Nat) (verifyCrc : Bool) (remaining : Nat)
    (rangeCrc : UInt32) : Tool (Option UInt32) :=
  if _h : remaining = 0 then pure (some rangeCrc)
  else do
    let part := if archiveStreamChunk < remaining then archiveStreamChunk else remaining
    let stop ← Tool.cancelled
    if stop then pure none
    else
      match ← Tool.read inputPath part with
      | none => pure none
      | some chunk => do
        let written ← Tool.write file chunk
        if written then
          rangeCopyLoop inputPath file verifyCrc (remaining-part)
            (if verifyCrc then archiveCrc32 rangeCrc chunk else rangeCrc)
        else pure none
termination_by remaining
decreasing_by
  have hchunk : 0 < archiveStreamChunk := by decide
  split <;> omega

/-- The copy into the open temporary file, up to its replacing the output. A temporary that did not
become the output is removed, some of them twice. -/
def rangeCopy (entry : ArchiveEntry) (inputPath path tmpPath : CString) (verifyCrc : Bool)
    (file : Nat) : Tool Bool := do
  let got ← Tool.malloc archiveStreamChunk
  let copied ← (if got then rangeCopyLoop inputPath file verifyCrc entry.compressedSize 0
    else pure none)
  match copied with
  | none => do
    let _ ← Tool.close file
    let _ ← Tool.remove tmpPath
    pure false
  | some rangeCrc =>
    if verifyCrc = true ∧ entry.hasCrc32 = true ∧ rangeCrc.toNat ≠ entry.crc32 then do
      let _ ← Tool.close file
      let _ ← Tool.remove tmpPath
      let _ ← Tool.remove tmpPath
      pure false
    else do
      let closed ← Tool.close file
      let installed ← (if closed then replaceWithStaged tmpPath path
        else do
          let _ ← Tool.remove tmpPath
          pure false)
      if installed then pure true
      else do
        let _ ← Tool.remove tmpPath
        pure false

/-- The part of `zz9k_archive_write_file_range_entry` after the checks. When no temporary name is
free, the last one tried is removed although it is not the function's own. -/
def rangeStaged (entry : ArchiveEntry) (inputPath path : CString) (verifyCrc : Bool) :
    Tool Bool := do
  let opened ← Tool.openRead inputPath
  let sought ← (if opened then Tool.seek inputPath entry.dataOffset else pure false)
  let got ← (if sought then Tool.malloc (path.length+16) else pure false)
  if got = false then pure false
  else do
    let (found,tmpPath) ← probeSibling path tmpTag
    let output ← (if found then Tool.openWrite tmpPath else pure none)
    match output with
    | none => do
      let _ ← Tool.remove tmpPath
      pure false
    | some file => rangeCopy entry inputPath path tmpPath verifyCrc file

/-- The question that guards the archive, asked only where an output could replace it -/
def archiveGuard (opts : ToolOptions) (archivePath path : CString) : Tool Bool :=
  if opts.overwriteOutputs = true ∧ opts.dryRunOutputs = false ∧ opts.skipExistingOutputs = false
  then Tool.sameFile archivePath path
  else pure false

/-- `zz9k_archive_write_file_range_entry` -/
def writeFileRangeEntry (opts : ToolOptions) (outputDir : CString) (entry : ArchiveEntry)
    (inputPath : CString) (verifyCrc : Bool) : Tool Bool :=
  if entry.isDir = true ∨ entry.compressedSize ≠ entry.uncompressedSize ∨
      0x7fffffff < entry.dataOffset then pure false
  else
    match outputEntry opts entry with
    | none => pure true
    | some out =>
      if pathIsSafe out.name = false then pure false
      else do
        match ← joinPath outputDir out.name with
        | none => pure false
        | some path => do
          match ← checkOutput opts path (archiveGuard opts inputPath path) with
          | .refuse => pure false
          | .skip => pure true
          | .dryRun => pure true
          | .proceed => do
            let parents ← ensureParentDirs outputDir out.name
            if parents then rangeStaged entry inputPath path verifyCrc else pure false

/-- A file open for the bytes of a member: the discard file, the output itself, or a temporary
`tmpPath` that is to replace `finalPath` -/
structure OpenedOutput where
  file : Nat
  skipped : Bool := false
  dryRun : Bool := false
  staged : Option (CString × CString) := none

/-- `zz9k_archive_open_discard_file`, as the output of a member that is not written -/
def openDiscard (opts : ToolOptions) (skipped dryRun : Bool) : Tool (Option OpenedOutput) := do
  let file ← Tool.openWrite opts.platform.discard
  pure (file.map fun file => {file,skipped,dryRun})

/-- What `zz9k_archive_open_output_entry` and its staged siblings share: `openPath` opens the
output once the checks are passed and the parent directories made. -/
def openOutput (opts : ToolOptions) (outputDir : CString) (entry : ArchiveEntry)
    (openPath : CString → Tool (Option OpenedOutput)) : Tool (Option OpenedOutput) :=
  match outputEntry opts entry with
  | none => openDiscard opts true false
  | some out =>
    if pathIsSafe out.name = false then pure none
    else do
      match ← joinPath outputDir out.name with
      | none => pure none
      | some path => do
        match ← checkOutput opts path (pure false) with
        | .refuse => pure none
        | .skip => openDiscard opts true false
        | .dryRun => openDiscard opts false true
        | .proceed => do
          let parents ← ensureParentDirs outputDir out.name
          if parents then openPath path else pure none

/-- `zz9k_archive_open_output_entry`: the output itself is opened. -/
def openOutputEntry (opts : ToolOptions) (outputDir : CString) (entry : ArchiveEntry) :
    Tool (Option OpenedOutput) :=
  openOutput opts outputDir entry fun path => do
    let file ← Tool.openWrite path
    pure (file.map fun file => {file})

/-- The temporary sibling that `zz9k_archive_open_output_staged` opens for an output -/
def openSibling (path : CString) : Tool (Option OpenedOutput) := do
  let got ← Tool.malloc (path.length+16)
  let (found,tmpPath) ← (if got then probeSibling path tmpTag else pure (false,[]))
  if found then do
    let file ← Tool.openWrite tmpPath
    pure (file.map fun file => {file,staged := some (path,tmpPath)})
  else pure none

/-- `zz9k_archive_open_output_staged` -/
def openOutputStaged (opts : ToolOptions) (outputDir : CString) (entry : ArchiveEntry) :
    Tool (Option OpenedOutput) :=
  openOutput opts outputDir entry openSibling

/-- `zz9k_archive_tar_stream_open_staged` of the stream's entry, which takes the same steps -/
def tarStreamOpenStaged (opts : ToolOptions) (outputDir : CString) (entry : ArchiveEntry) :
    Tool (Option OpenedOutput) :=
  openOutput opts outputDir entry openSibling

/-- The end of an extraction: the file is closed, and the temporary, if there is one, becomes the
output or is removed. -/
def closeStaged (opened : OpenedOutput) (ok : Bool) : Tool Bool := do
  let closed ← Tool.close opened.file
  match opened.staged with
  | none => pure (ok && closed)
  | some (finalPath,tmpPath) =>
    if ok && closed then replaceWithStaged tmpPath finalPath
    else do
      let _ ← Tool.remove tmpPath
      pure false

end ZZ9K.Archive
