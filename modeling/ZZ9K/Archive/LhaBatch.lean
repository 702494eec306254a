import ZZ9K.Archive.BatchArena
import ZZ9K.Archive.LhaExtract

namespace ZZ9K.Archive

open ZZ9K.Abi ZZ9K.Host ZZ9K.Framework

/-- `zz9k_archive_lha_ascii_lower` -/
def asciiLower (c : UInt8) : UInt8 := if 0x41 ≤ c ∧ c ≤ 0x5a then c-0x41+0x61 else c

/-- `zz9k_archive_lha_name_hash`: FNV-1a over the name in lower case, never zero -/
def lhaNameHash (name : CString) : UInt32 :=
  let hash := name.foldl (fun hash c => (hash ^^^ (asciiLower c).toUInt32)*16777619) 2166136261
  if hash = 0 then 1 else hash

/-- `ZZ9KLhaBatchHashSlot`. A zero hash marks an entry without output. -/
structure LhaHashSlot where
  hash : UInt32 := 0
  index : Nat
  isDir : Bool := false
  name : CString := []

/-- `zz9k_archive_lha_batch_hash_slot_init` -/
def lhaHashSlotInit (opts : ToolOptions) (entry : ArchiveEntry) (index : Nat) : LhaHashSlot :=
  match outputEntry opts entry with
  | none => {index}
  | some out =>
    let name := out.name.rdropWhile (· = slash)
    {hash := if name = [] then 0 else lhaNameHash name,index,isDir := out.isDir,name}

/-- `zz9k_archive_lha_batch_name_slot_cmp`: whether one slot may stand before another -/
def lhaNameSlotLe (a b : LhaHashSlot) : Bool :=
  let na := a.name.map asciiLower
  let nb := b.name.map asciiLower
  if na = nb then a.index ≤ b.index else na ≤ nb

/-- `zz9k_archive_lha_output_name_has_prefix` -/
def lhaNameHasPrefix (start name : CString) : Bool :=
  start ≠ [] ∧ start.map asciiLower <+: name.map asciiLower

/-- `zz9k_archive_lha_output_name_is_parent_of` -/
def lhaNameIsParentOf (parent child : CString) : Bool :=
  parent ≠ [] ∧ (parent++[slash]).map asciiLower <+: child.map asciiLower

/-- The pass of `zz9k_archive_lha_batch_mark_collisions` over the slots in the order of their
hashes: all slots of a run of equal hashes -/
def lhaMarkEqual (slots : List LhaHashSlot) : List Nat :=
  ((slots.mergeSort fun a b => a.hash ≤ b.hash).splitBy fun a b => a.hash = b.hash).flatMap
    fun run =>
      if 2 ≤ run.length ∧ run.all (fun slot => slot.hash ≠ 0) then run.map LhaHashSlot.index
      else []

/-- The pass over the slots in the order of their names: files that are directories of others -/
def lhaMarkParents : List LhaHashSlot → List Nat
  | [] => []
  | slot::rest =>
    (if slot.hash = 0 ∨ slot.isDir then []
      else ((rest.takeWhile fun other => lhaNameHasPrefix slot.name other.name).filter
        fun other => lhaNameIsParentOf slot.name other.name).flatMap
          fun other => [slot.index,other.index])++lhaMarkParents rest

/-- The indices that `zz9k_archive_lha_batch_mark_collisions` marks -/
def lhaCollisions (opts : ToolOptions) (entries : List ArchiveEntry) : List Nat :=
  let slots := entries.mapIdx fun index entry => lhaHashSlotInit opts entry index
  lhaMarkEqual slots++lhaMarkParents (slots.mergeSort lhaNameSlotLe)

/-- `ZZ9K_LHA_BATCH_NONE` and its siblings -/
inductive LhaBatchState
  | none
  | done
  | sw
  | failed
  deriving DecidableEq

/-- The environment variables that bound a batch, with their defaults -/
structure BatchLimits where
  maxMembers : Nat := 64
  inputKb : Nat := 1024
  outputKb : Nat := 2048
  testUncompKb : Nat := 8192

def batchTestMaxExpected : Nat := 0x04000000

/-- `zz9k_archive_lha_batch_member_eligible` -/
def lhaBatchMemberEligible (opts : ToolOptions) (entry : ArchiveEntry) (length : Nat) : Bool :=
  entry.isDir = false ∧ lhaMethodSupported entry.method = true ∧ entry.compressedSize ≠ 0 ∧
    entry.uncompressedSize ≠ 0 ∧ entry.dataOffset+entry.compressedSize ≤ length ∧
    entryMatchesFilter opts.matchFilter entry = true ∧ pathIsSafe entry.name = true

/-- The members that `zz9k_archive_lha_batch_run_src` puts in its list -/
def lhaBatchMembers (opts : ToolOptions) (service : CodecService) (entries : List ArchiveEntry)
    (length : Nat) (command : ArchiveCommand) (collisions : List Nat) : List Nat :=
  (List.range entries.length).filter fun i =>
    let entry := entries.getD i {}
    lhaBatchMemberEligible opts entry length ∧
      service.supports (lhaMethodToCompression entry.method) ∧
      (command = .test → entry.uncompressedSize ≤ batchTestMaxExpected) ∧
      (command = .extract → i ∉ collisions)

/-- What a batch keeps while it goes from chunk to chunk -/
structure LhaBatch where
  entries : List ArchiveEntry
  arena : SharedBuffer
  layout : BatchLayout
  memberCap : Nat
  blobCapacity : Nat
  outputCapacity : Nat

def LhaBatch.entry (batch : LhaBatch) (i : Nat) : ArchiveEntry := batch.entries.getD i {}

/-- `zz9k_archive_lha_batch_plan_chunk`: the members packed into one chunk, after `n` of them with
`blob` and `out` bytes -/
def lhaBatchPlanChunk (batch : LhaBatch) : List Nat → Nat → Nat → Nat → List Nat
  | [],_,_,_ => []
  | member::rest,n,blob,out =>
    let entry := batch.entry member
    if batch.memberCap ≤ n ∨ batch.blobCapacity-blob < entry.compressedSize ∨
        (batch.outputCapacity ≠ 0 ∧ batch.outputCapacity-out < entry.uncompressedSize) then []
    else
      member::lhaBatchPlanChunk batch rest (n+1) (blob+entry.compressedSize)
        (out+entry.uncompressedSize)

def batchMemberFlagHaveCrc : UInt32 := 1

/-- The algorithm as it stands in a descriptor -/
def Compression.word : Compression → UInt32
  | none => 0
  | deflateRaw => 1
  | zlib => 2
  | gzip => 3
  | lz4Block => 4
  | lzmaAlone => 5
  | lzma2 => 6
  | lh1 => 7
  | lh5 => 8
  | lh6 => 9
  | lh7 => 10

/-- `zz9k_batch_write_desc`, on the words of a `ZZ9KBatchMemberDesc` -/
def batchWriteDesc (words : List UInt32) : Bytes :=
  (words++[0]).flatMap fun word =>
    let b := putBe32 word
    [b.b0,b.b1,b.b2,b.b3]

/-- The descriptors of a chunk, as `zz9k_archive_lha_batch_write_tables` writes them -/
def lhaBatchDescs (batch : LhaBatch) : List Nat → Nat → Nat → Bytes
  | [],_,_ => []
  | member::rest,blob,out =>
    let entry := batch.entry member
    batchWriteDesc [(lhaMethodToCompression entry.method).word,blob.toUInt32,
      entry.compressedSize.toUInt32,out.toUInt32,entry.uncompressedSize.toUInt32,
      (entry.crc32%2^16).toUInt32,if entry.hasCrc32 then batchMemberFlagHaveCrc else 0]++
      lhaBatchDescs batch rest (blob+entry.compressedSize) (out+entry.uncompressedSize)

/-- The packed bytes of a chunk: `chunk.blob_length` -/
def lhaBatchBlobLength (batch : LhaBatch) (packed : List Nat) : Nat :=
  (packed.map fun i => (batch.entry i).compressedSize).sum

/-- `zz9k_archive_lha_batch_write_tables` -/
def lhaBatchWriteTables (batch : LhaBatch) (packed : List Nat) : Bytes :=
  (List.range 48).map (batchWriteHeader (fun _ => 0) batch.layout packed.length.toUInt32
    (lhaBatchBlobLength batch packed).toUInt32)++lhaBatchDescs batch packed 0 0

/-- The reading of the whole span of a chunk in one go, where its members stand close together -/
def lhaBatchSpan (batch : LhaBatch) (src : LhaSource) (packed : List Nat) :
    Tool (Option (Nat × Bytes)) :=
  match src,packed.head?,packed.getLast? with
  | .file path _,some first,some last => do
    let start := (batch.entry first).dataOffset
    let span := u32 ((batch.entry last).dataOffset+(batch.entry last).compressedSize+2^32-start)
    let blobLength := lhaBatchBlobLength batch packed
    if span < blobLength ∨ 256*1024 < span-blobLength then pure none
    else do
      let got ← Tool.malloc span
      let sought ← (if got then Tool.seek path start else pure false)
      let data ← (if sought then Tool.read path span else pure none)
      pure (data.map fun data => (start,data))
  | _,_,_ => pure none

/-- The copying of a chunk's members into the arena -/
def lhaBatchFill (batch : LhaBatch) (src : LhaSource) (span : Option (Nat × Bytes)) :
    List Nat → Nat → Job Bool
  | [],_ => pure true
  | i::rest,blob => do
    let entry := batch.entry i
    match ← (match span with
      | some (start,data) => pure (some (slice data (entry.dataOffset-start) entry.compressedSize))
      | none => Job.tool (lhaSrcMember src entry)) with
    | none => pure false
    | some member => do
      let copied ← sharedCopyTo batch.arena (batch.layout.blobOffset.toNat+blob) member
      if copied then lhaBatchFill batch src span rest (blob+entry.compressedSize) else pure false

/-- `zz9k_batch_read_result`: status, size and checksum of a member -/
def batchReadResult (results : Bytes) (i : Nat) : UInt32 × UInt32 × UInt32 :=
  let image : Image := fun o => results.getD (16*i+o) 0
  (image.be32 0,image.be32 4,image.be32 8)

/-- `zz9k_archive_lha_batch_judge` -/
def lhaBatchJudge (entry : ArchiveEntry) (result : UInt32 × UInt32 × UInt32) : LhaBatchState :=
  if result.1 = 0 ∧ lhaResultMatches entry result.2.1.toNat result.2.2.toNat then .done else .sw

/-- `zz9k_archive_lha_batch_drain_member` -/
def lhaBatchDrainMember (decoder : LhaDecoder) (opts : ToolOptions) (batch : LhaBatch)
    (dstOffset : Nat) (outputDir : CString) (src : LhaSource) (entry : ArchiveEntry) :
    Job Bool := do
  match ← Job.tool (openOutputEntry opts outputDir entry) with
  | none => pure false
  | some opened => do
    let ok ← (if opened.skipped = false ∧ opened.dryRun = false ∧ entry.uncompressedSize ≠ 0 then do
        let got ← Job.tool (Tool.malloc entry.uncompressedSize)
        let data ← (if got then sharedCopyFrom batch.arena
          (batch.layout.outputOffset.toNat+dstOffset) entry.uncompressedSize else pure none)
        match data with
        | none => Job.tool (lhaSoftwareDecodeToFile decoder src entry (some opened.file))
        | some data => Job.tool (Tool.write opened.file data)
      else pure true)
    let closed ← Job.tool (Tool.close opened.file)
    pure (ok && closed)

/-- The judging and draining of the members of a chunk, from the `i`th on -/
def lhaBatchDrain (decoder : LhaDecoder) (opts : ToolOptions) (batch : LhaBatch)
    (command : ArchiveCommand) (outputDir : CString) (src : LhaSource) (results : Bytes) :
    List Nat → Nat → Nat → List LhaBatchState → Job (List LhaBatchState)
  | [],_,_,state => pure state
  | member::rest,i,out,state => do
    let entry := batch.entry member
    let verdict := lhaBatchJudge entry (batchReadResult results i)
    let drained ← (if verdict = .done ∧ command = .extract then
        lhaBatchDrainMember decoder opts batch out outputDir src entry
      else pure true)
    lhaBatchDrain decoder opts batch command outputDir src results rest (i+1)
      (out+entry.uncompressedSize) (state.set member (if drained then verdict else .failed))

/-- How a chunk ends: the batch goes on, or it stops, with the arena given up or not -/
inductive LhaChunkEnd
  | next (state : List LhaBatchState)
  | stop (state : List LhaBatchState) (abandoned : Bool)

/-- One chunk of `zz9k_archive_lha_batch_run_src` -/
def lhaBatchChunk (decoder : LhaDecoder) (opts : ToolOptions) (batch : LhaBatch)
    (command : ArchiveCommand) (outputDir : CString) (src : LhaSource) (packed : List Nat)
    (state : List LhaBatchState) : Job LhaChunkEnd := do
  let tabled ← sharedCopyTo batch.arena 0 (lhaBatchWriteTables batch packed)
  let filled ← (if tabled then do
      let span ← Job.tool (lhaBatchSpan batch src packed)
      lhaBatchFill batch src span packed 0
    else pure false)
  if filled = false then pure (.stop state false)
  else do
    let (status,_) ← Job.codec (.decompressBatch batch.arena.handle 0 batch.layout.totalSize.toNat)
    if status ≠ .ok then do
      Job.noteStatus status
      let stop ← Job.tool Tool.cancelled
      pure (.stop state stop)
    else
      match ← sharedCopyFrom batch.arena batch.layout.resultOffset.toNat (16*packed.length) with
      | none => pure (.stop state false)
      | some results => do
        let state ← lhaBatchDrain decoder opts batch command outputDir src results packed 0 0 state
        pure (.next state)

/-- The loop of `zz9k_archive_lha_batch_run_src` over the chunks: the states, and whether the arena
was given up. A member that fits no chunk is passed over. -/
def lhaBatchLoop (decoder : LhaDecoder) (opts : ToolOptions) (batch : LhaBatch)
    (command : ArchiveCommand) (outputDir : CString) (src : LhaSource) :
    List Nat → List LhaBatchState → Job (List LhaBatchState × Bool)
  | [],state => pure (state,false)
  | first::rest,state =>
    match lhaBatchPlanChunk batch (first::rest) 0 0 0 with
    | [] => lhaBatchLoop decoder opts batch command outputDir src rest state
    | packed@(_::more) => do
      match ← lhaBatchChunk decoder opts batch command outputDir src packed state with
      | .stop state abandoned => pure (state,abandoned)
      | .next state =>
        lhaBatchLoop decoder opts batch command outputDir src (rest.drop more.length) state
termination_by members _ => members.length
decreasing_by
  · exact Nat.lt_succ_self _
  · rw [List.length_drop,List.length_cons]
    exact Nat.lt_succ_of_le (Nat.sub_le ..)

/-- The arena of a batch, from one attempt to allocate it -/
def lhaBatchAlloc (entries : List ArchiveEntry) (mode : UInt32) (memberCap blobCapacity : Nat)
    (layoutOutput outputCapacity : Nat) : Job (Option LhaBatch) :=
  match batchLayoutInit mode memberCap.toUInt32 blobCapacity.toUInt32 layoutOutput.toUInt32 with
  | none => pure none
  | some layout => do
    match ← Job.allocShared layout.totalSize.toNat 16 0 with
    | .error _ => pure none
    | .ok arena => pure (some {entries,arena,layout,memberCap,blobCapacity,outputCapacity})

/-- The allocation of the arena in `zz9k_archive_lha_batch_run_src`: a test first tries a blob
region as large as its largest member. -/
def lhaBatchArena (limits : BatchLimits) (entries : List ArchiveEntry) (command : ArchiveCommand)
    (members : List Nat) : Job (Option LhaBatch) := do
  let sizes := members.map fun i => entries.getD i {}
  let largest := (sizes.map ArchiveEntry.compressedSize).foldl max 0
  let largestUncomp := (sizes.map ArchiveEntry.uncompressedSize).foldl max 0
  let memberCap := min limits.maxMembers 256
  let blobCapacity := u32 (limits.inputKb*1024)
  let outputCapacity := u32 (limits.outputKb*1024)
  if command = .test then do
    let uncompCap := max (u32 (limits.testUncompKb*1024)) largestUncomp
    let grown ← (if blobCapacity < largest then
        lhaBatchAlloc entries batchModeTest memberCap largest 0 uncompCap
      else pure none)
    match grown with
    | none => lhaBatchAlloc entries batchModeTest memberCap blobCapacity 0 uncompCap
    | some batch =>
      if batch.arena.handle = 0 ∨ batch.arena.handle = invalidHandle then
        lhaBatchAlloc entries batchModeTest memberCap largest 0 uncompCap
      else pure (some batch)
  else
    lhaBatchAlloc entries batchModeExtract memberCap blobCapacity outputCapacity outputCapacity

/-- `zz9k_archive_lha_batch_run_src` with the members in its list -/
def lhaBatchRunMembers (decoder : LhaDecoder) (opts : ToolOptions) (limits : BatchLimits)
    (src : LhaSource) (entries : List ArchiveEntry) (command : ArchiveCommand)
    (outputDir : CString) (members : List Nat) (state : List LhaBatchState) :
    Job (List LhaBatchState) := do
  match ← lhaBatchArena limits entries command members with
  | none => pure state
  | some batch => do
    let tables ← Job.tool (Tool.malloc (48+batch.memberCap*32))
    let results ← Job.tool (Tool.malloc (batch.memberCap*16))
    let (state,abandoned) ← (if tables && results then
        lhaBatchLoop decoder opts batch command outputDir src members state
      else pure (state,false))
    if abandoned then pure state
    else do
      releaseShared batch.arena.handle
      pure state

/-- `zz9k_archive_lha_batch_run_src`. Without the mask of collisions nothing is batched. -/
def lhaBatchRunSrc (decoder : LhaDecoder) (opts : ToolOptions) (limits : BatchLimits)
    (service : CodecService) (src : LhaSource) (entries : List ArchiveEntry)
    (command : ArchiveCommand) (outputDir : CString) (state : List LhaBatchState) :
    Job (List LhaBatchState) :=
  if service.flags &&& serviceFlagDecompressBatch = 0 ∨ command = .list then pure state
  else do
    let board ← Job.findBoard
    if board = some 2 then pure state
    else do
      let listed ← Job.tool (Tool.malloc (4*entries.length))
      let mask ← (if listed = false then pure none
        else if command = .test then pure (some [])
        else do
          let collides ← Job.tool (Tool.malloc entries.length)
          let slots ← (if collides then Job.tool (Tool.malloc (268*entries.length)) else pure false)
          pure (if slots then some (lhaCollisions opts entries) else none))
      match mask with
      | none => pure state
      | some collisions =>
        let members := lhaBatchMembers opts service entries src.length command collisions
        if members = [] then pure state
        else
          lhaBatchRunMembers decoder opts limits src entries command outputDir members state

end ZZ9K.Archive
