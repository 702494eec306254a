import ZZ9K.Archive.TarList

namespace ZZ9K.Archive

/-- What a run is asked for, and how the file system answers its output operations. -/
structure TarRun where
  command : ArchiveCommand
  matchFilter : Option CString
  aliasesArchive : ArchiveEntry → Bool
  writeEntry : ArchiveEntry → Bool
  openStaged : ArchiveEntry → Bool
  writeFile : ArchiveEntry → Bytes → Bool
  closeFile : ArchiveEntry → Bytes → Bool

theorem nil_short : ([] : Bytes).length < tarBlock := by decide

/-- `ZZ9KArchiveTarStream`, zeroed by default. `header` is what has been received of a header,
`file` what has been written to the open output. `processed` is history: the members started,
each with the bytes written for it. -/
structure TarStream where
  header : Bytes := []
  entry : ArchiveEntry := {}
  file : Option Bytes := none
  pending : TarPending := {}
  pendingNameOverflow : Bool := false
  paxData : Bytes := []
  paxCapacity : Nat := 0
  entryRemaining : Nat := 0
  paddingRemaining : Nat := 0
  count : Nat := 0
  done : Bool := false
  processed : List (ArchiveEntry × Bytes) := []
  short : header.length < tarBlock := by exact nil_short

namespace TarStream

/-- What `zz9k_archive_tar_stream_start_entry` makes of an entry before its pending size -/
def startMember (entry : ArchiveEntry) (p : TarPending) : ArchiveEntry × TarPending :=
  if entry.isGnuLongName ∨ entry.isPaxHeader then (entry,p)
  else if p.skip then
    ({entry with flags := entry.flags ||| tarFlagSkip},{p with skip := false,name := []})
  else if p.name ≠ [] then ({entry with name := p.name},{p with name := []})
  else (entry,p)

/-- `zz9k_archive_tar_stream_prepare_pax` -/
def preparePax (s : TarStream) (size : Nat) : Option TarStream :=
  let capacity := if size = 0 then 1 else size
  if archiveMaxPaxData < size then none
  else if capacity ≤ s.paxCapacity then some s
  else some {s with paxCapacity := capacity}

/-- The end of `zz9k_archive_tar_stream_start_entry`: what a run does with a member -/
def startOutput (run : TarRun) (s : TarStream) : Option TarStream :=
  if s.entry.isSkipped then some s
  else if entryMatchesFilter run.matchFilter s.entry = false then some s
  else if pathIsSafe s.entry.name = false then none
  else
    let s := {s with count := s.count+1}
    match run.command with
    | .list => some {s with processed := s.processed++[(s.entry,[])]}
    | .test => some {s with processed := s.processed++[(s.entry,[])]}
    | .extract =>
      if s.entry.isDir = false ∧ run.aliasesArchive s.entry then none
      else if s.entry.isDir ∨ s.entry.uncompressedSize = 0 then
        if run.writeEntry s.entry then some {s with processed := s.processed++[(s.entry,[])]}
        else none
      else if run.openStaged s.entry then some {s with file := some []}
      else none

/-- A stream that starts to receive the data of an entry -/
def takeUp (s : TarStream) (entry : ArchiveEntry) (pending : TarPending) : TarStream :=
  {s with
    entry,pending
    entryRemaining := entry.uncompressedSize
    paxData := []
    paddingRemaining := (512-entry.uncompressedSize%512)%512
    header := []
    short := nil_short}

/-- `zz9k_archive_tar_stream_start_entry`, on a complete header -/
def startEntry (run : TarRun) (s : TarStream) (header : Bytes) : Option TarStream :=
  if tarHeaderEmpty header then
    some {s with done := true,header := [],short := nil_short}
  else do
    let candidate ← tarEntryFromHeader header 0
    let (entry,pending) := startMember candidate s.pending
    let (entry,pending) := tarPendingSize entry pending
    let s := s.takeUp entry pending
    let s ← if entry.isPaxHeader then s.preparePax entry.uncompressedSize else some s
    s.startOutput run

/-- The part of `zz9k_archive_tar_stream_consume` that collects a GNU long name: at most 255
bytes, copied behind the string that is there. -/
def consumeLongName (s : TarStream) (piece : Bytes) : TarStream :=
  let used := s.pending.name.length
  let space := archiveMaxName-1-used
  let copied := if space < piece.length then space else piece.length
  {s with
    pendingNameOverflow := s.pendingNameOverflow ||
      (space < piece.length && piece.getD space 0 ≠ 0)
    pending := {s.pending with
      name := s.pending.name++(piece.take copied).takeWhile (· ≠ 0)}}

/-- `zz9k_archive_tar_stream_close_file` -/
def closeFile (run : TarRun) (s : TarStream) : Option TarStream :=
  match s.file with
  | none => some s
  | some written =>
    if run.closeFile s.entry written then
      some {s with file := none,processed := s.processed++[(s.entry,written)]}
    else none

/-- What `zz9k_archive_tar_stream_consume` does with the data of an entry -/
def consumeData (run : TarRun) (s : TarStream) (piece : Bytes) : Option TarStream :=
  if s.entry.isGnuLongName then some (s.consumeLongName piece)
  else if s.entry.isPaxHeader then
    if s.paxCapacity = 0 ∨ s.paxCapacity < s.paxData.length+piece.length then none
    else some {s with paxData := s.paxData++piece}
  else
    match s.file with
    | none => some s
    | some written =>
      if run.writeFile s.entry piece then some {s with file := some (written++piece)} else none

/-- What it does when the last byte of an entry has come -/
def finishData (s : TarStream) : Option TarStream :=
  if s.entry.isGnuLongName then
    if s.pendingNameOverflow then none
    else
      let (name,skip) := tarNormalizeName s.pending.name
      some {s with pending := {s.pending with name,skip}}
  else if s.entry.isPaxHeader then do
    let pax ← tarParsePaxInfo s.paxData {}
    some {s with pending := s.pending.afterPax pax}
  else some s

/-- How many of `left` bytes one round of the loop takes -/
def part (s : TarStream) (left : Nat) : Nat :=
  if s.entryRemaining ≠ 0 then min s.entryRemaining left
  else if s.paddingRemaining ≠ 0 then min s.paddingRemaining left
  else min (tarBlock-s.header.length) left

theorem part_pos (s : TarStream) {left : Nat} (h : 0 < left) : 0 < s.part left := by
  have hshort := s.short
  unfold part
  split
  · omega
  · split <;> omega

/-- One round of the loop of `zz9k_archive_tar_stream_consume`, on the bytes it takes -/
def round (run : TarRun) (s : TarStream) (piece : Bytes) : Option TarStream :=
  if s.entryRemaining ≠ 0 then do
    let s ← s.consumeData run piece
    let s := {s with entryRemaining := s.entryRemaining-piece.length}
    if s.entryRemaining = 0 then do
      let s ← s.finishData
      s.closeFile run
    else some s
  else if s.paddingRemaining ≠ 0 then
    some {s with paddingRemaining := s.paddingRemaining-piece.length}
  else if h : (s.header++piece).length < tarBlock then
    some {s with header := s.header++piece,short := h}
  else s.startEntry run (s.header++piece)

/-- `zz9k_archive_tar_stream_consume`; `none` is a failure, after which a stream stays failed. -/
def consume (run : TarRun) (s : TarStream) (data : Bytes) : Option TarStream :=
  if _h : data.length = 0 then some s
  else if s.done then some s
  else do
    let next ← s.round run (data.take (s.part data.length))
    consume run next (data.drop (s.part data.length))
termination_by data.length
decreasing_by
  have hpos := s.part_pos (Nat.pos_of_ne_zero _h)
  simp only [List.length_drop]
  omega

/-- Feeding one chunk after the other -/
def consumeAll (run : TarRun) : TarStream → List Bytes → Option TarStream
  | s,[] => some s
  | s,chunk::chunks => do
    let s ← s.consume run chunk
    consumeAll run s chunks

/-- `zz9k_archive_tar_stream_finish` -/
def finish (s : TarStream) : Bool :=
  s.file = none ∧ s.entryRemaining = 0 ∧ s.paddingRemaining = 0 ∧ s.header = []

end TarStream

end ZZ9K.Archive
