import ZZ9K.Archive.LhaWindow
import ZZ9K.Framework.Leads

namespace ZZ9K.Archive

/-- An entry read at `pos`, with the offset of its data in the archive -/
def ArchiveEntry.at (entry : ArchiveEntry) (pos : Nat) : ArchiveEntry :=
  {entry with dataOffset := pos+entry.dataOffset}

/-- Where the member behind `entry` starts -/
def lhaNext (pos : Nat) (entry : ArchiveEntry) : Nat := pos+entry.dataOffset+entry.compressedSize

/-- The loop of `zz9k_archive_lha_list`: the entries stored and the number of entries -/
def lhaListLoop (data : Bytes) (maxEntries pos : Nat) (entries : List ArchiveEntry)
    (entriesUsed : Nat) : Option (List ArchiveEntry × Nat) :=
  if _hpos : pos < data.length then
    if byte data pos = 0 then some (entries,entriesUsed)
    else if data.length-pos < 24 then some (entries,entriesUsed)
    else
      match _hparse : lhaParseHeader (data.drop pos) (data.length-pos) with
      | .ok entry =>
        lhaListLoop data maxEntries (lhaNext pos entry)
          (if entriesUsed < maxEntries then entries++[entry.at pos] else entries) (entriesUsed+1)
      | _ => none
  else some (entries,entriesUsed)
termination_by data.length-pos
decreasing_by
  have hextent := lhaParseHeader_extent _hparse
  unfold lhaNext
  omega

/-- `zz9k_archive_lha_list` -/
def lhaList (data : Bytes) (maxEntries : Nat) : Option (List ArchiveEntry × Nat) :=
  lhaListLoop data maxEntries 0 [] 0

/-- ZZ9K_ARCHIVE_LHA_WALK_CHUNK -/
def lhaWalkChunk : Nat := 4*1024

/-- What `zz9k_archive_lha_list_file` keeps: `window` are the valid bytes of its buffer, which are
those of the file from `windowBase` on. -/
structure LhaWalk where
  pos : Nat := 0
  windowBase : Nat := 0
  window : Bytes := []
  windowAllocated : Nat := lhaWalkChunk
  entries : List ArchiveEntry := []

/-- Where the walk is: at the head of the outer loop, in the loop that retries a header with more
of the file, or at its return -/
inductive LhaWalkState
  | member (w : LhaWalk)
  | parse (w : LhaWalk)
  | done (result : Option (List ArchiveEntry))

/-- The window filled again from the position of the walk -/
def LhaWalk.refill (file : Bytes) (w : LhaWalk) : LhaWalk :=
  let avail := file.length-w.pos
  {w with windowBase := w.pos
          window := slice file w.pos (if avail < w.windowAllocated then avail
            else w.windowAllocated)}

/-- The window filled again when the position has left it -/
def LhaWalk.focus (file : Bytes) (w : LhaWalk) : LhaWalk :=
  if w.pos < w.windowBase ∨ w.windowBase+w.window.length ≤ w.pos then w.refill file else w

/-- The size of the window after growing: four times as much, in 32 bits, but not more than the
rest of the archive and never less than before -/
def lhaGrownCapacity (windowAllocated avail : Nat) : Nat :=
  let grown := u32 (windowAllocated*4)
  let grown := if avail < grown then avail else grown
  if windowAllocated < grown then grown else windowAllocated

/-- One round of a loop of `zz9k_archive_lha_list_file`. Reads and allocations succeed, and the
walk is not cancelled. -/
def lhaWalkStep (file : Bytes) : LhaWalkState → LhaWalkState
  | .done result => .done result
  | .member w =>
    if file.length ≤ w.pos then .done (some w.entries)
    else
      let w := w.focus file
      if byte w.window (w.pos-w.windowBase) = 0 then .done (some w.entries)
      else if file.length-w.pos < 24 then .done (some w.entries)
      else .parse w
  | .parse w =>
    let avail := file.length-w.pos
    let offset := w.pos-w.windowBase
    match lhaParseHeader (w.window.drop offset) avail with
    | .ok entry =>
      .member {w with pos := lhaNext w.pos entry,entries := w.entries++[entry.at w.pos]}
    | .invalid => .done none
    | .needsWindow =>
      if offset ≠ 0 then .parse (w.refill file)
      else if avail ≤ w.window.length then .done none
      else
        let grown := {w with windowAllocated := lhaGrownCapacity w.windowAllocated avail}
        .parse (grown.refill file)

/-- `zz9k_archive_lha_list_file` returns `result`. -/
def LhaListFile (file : Bytes) (result : Option (List ArchiveEntry)) : Prop :=
  Framework.Leads (lhaWalkStep file) (.member {}) (.done result)

end ZZ9K.Archive
