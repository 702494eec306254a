import ZZ9K.Archive.Output
import ZZ9K.Host.AllocShared

namespace ZZ9K.Archive

open ZZ9K.Abi ZZ9K.Host ZZ9K.Framework

/-- `ZZ9K_COMPRESSION_NONE` and the known algorithms -/
inductive Compression
  | none
  | deflateRaw
  | zlib
  | gzip
  | lz4Block
  | lzmaAlone
  | lzma2
  | lh1
  | lh5
  | lh6
  | lh7
  deriving DecidableEq

/-- `zz9k_compression_algorithm_known` -/
def Compression.known (algorithm : Compression) : Bool := algorithm ≠ none

/-- The flag `ZZ9K_SERVICE_FLAG_CODEC_...` in a bit of the service word -/
def serviceFlag (bit : UInt32) : UInt32 := 1 <<< bit

def serviceFlagDecompressTest : UInt32 := serviceFlag 22
def serviceFlagDecompressStream : UInt32 := serviceFlag 23
def serviceFlagDecompressFeed : UInt32 := serviceFlag 24
def serviceFlagDeflateFeed : UInt32 := serviceFlag 25
def serviceFlagZlibFeed : UInt32 := serviceFlag 26
def serviceFlagGzipFeed : UInt32 := serviceFlag 27
def serviceFlagDecompressBatch : UInt32 := serviceFlag 30

/-- `zz9k_compression_required_service_flags` -/
def Compression.requiredServiceFlags : Compression → UInt32
  | none => 0
  | deflateRaw => serviceFlag 16
  | zlib => serviceFlag 17
  | gzip => serviceFlag 18
  | lz4Block => serviceFlag 19
  | lzmaAlone => serviceFlag 20
  | lzma2 => serviceFlag 28
  | lh1 | lh5 | lh6 | lh7 => serviceFlag 29

/-- `zz9k_compression_required_feed_service_flags` -/
def Compression.requiredFeedServiceFlags : Compression → UInt32
  | deflateRaw => serviceFlag 16 ||| serviceFlagDecompressFeed ||| serviceFlagDeflateFeed
  | zlib => serviceFlag 17 ||| serviceFlagDecompressFeed ||| serviceFlagZlibFeed
  | gzip => serviceFlag 18 ||| serviceFlagDecompressFeed ||| serviceFlagGzipFeed
  | lzmaAlone => serviceFlag 20 ||| serviceFlagDecompressFeed
  | lzma2 => serviceFlag 28 ||| serviceFlagDecompressFeed
  | _ => 0

/-- What the tool knows of the codec service: its flags, and the size of the buffers it streams
through -/
structure CodecService where
  flags : UInt32
  streamChunk : Nat := archiveStreamChunk

namespace CodecService

variable (service : CodecService) (algorithm : Compression)

/-- `zz9k_archive_service_supports` -/
def supports : Bool :=
  algorithm.requiredServiceFlags ≠ 0 ∧
    service.flags &&& algorithm.requiredServiceFlags = algorithm.requiredServiceFlags

/-- `zz9k_archive_service_supports_decompress_test` -/
def supportsDecompressTest : Bool :=
  service.supports algorithm ∧ service.flags &&& serviceFlagDecompressTest ≠ 0

/-- `zz9k_archive_service_supports_decompress_stream` -/
def supportsDecompressStream : Bool :=
  service.supports algorithm ∧ service.flags &&& serviceFlagDecompressStream ≠ 0

/-- `zz9k_archive_service_supports_decompress_feed` -/
def supportsDecompressFeed : Bool :=
  (algorithm = .deflateRaw → service.flags &&& serviceFlagDeflateFeed ≠ 0) ∧
    service.supportsDecompressStream algorithm ∧ algorithm.requiredFeedServiceFlags ≠ 0 ∧
    service.flags &&& algorithm.requiredFeedServiceFlags = algorithm.requiredFeedServiceFlags

end CodecService

def decompressFlagExpectEnd : UInt32 := 1
def decompressFlagFeedInput : UInt32 := 2
def decompressStreamFeedEof : UInt32 := 1
def decompressResultStreamEnd : UInt32 := 1
def decompressResultNeedInput : UInt32 := 4

/-- The requests to the codec service, with the fields of their descriptors -/
inductive CodecRequest
  | decompress (algorithm : Compression) (srcHandle : UInt32) (srcOffset srcLength : Nat)
      (dstHandle : UInt32) (dstOffset dstCapacity : Nat) (flags : UInt32)
  | decompressTest (algorithm : Compression) (srcHandle : UInt32) (srcOffset srcLength : Nat)
      (outputLimit : Nat) (flags : UInt32)
  | streamBegin (algorithm : Compression) (srcHandle : UInt32) (srcOffset srcLength : Nat)
      (outputLimit : Nat) (flags : UInt32)
  | streamFeed (session : UInt32) (srcHandle : UInt32) (srcOffset srcLength : Nat)
      (flags : UInt32)
  | streamRead (session : UInt32) (dstHandle : UInt32) (dstOffset dstCapacity : Nat)
      (flags : UInt32)
  | streamClose (session flags : UInt32)
  | decompressBatch (arenaHandle : UInt32) (arenaOffset arenaLength : Nat)
  deriving DecidableEq

/-- The shared buffers a request names. A stream that is to be fed begins without one. -/
def CodecRequest.buffers : CodecRequest → List UInt32
  | decompress _ src _ _ dst _ _ _ => [src,dst]
  | decompressTest _ src _ _ _ _ => [src]
  | streamBegin _ src _ _ _ _ => if src = invalidHandle then [] else [src]
  | streamFeed _ src _ _ _ => [src]
  | streamRead _ dst _ _ _ => [dst]
  | streamClose _ _ => []
  | decompressBatch arena _ _ => [arena]

/-- `zz9k_compression_build_decompress_desc` -/
def buildDecompressDesc (algorithm : Compression) (srcHandle : UInt32) (srcOffset srcLength : Nat)
    (dstHandle : UInt32) (dstOffset dstCapacity : Nat) (flags : UInt32) : Option CodecRequest :=
  if algorithm.known = false ∨ srcHandle = invalidHandle ∨ srcLength = 0 ∨
      dstHandle = invalidHandle ∨ dstCapacity = 0 ∨ flags &&& ~~~decompressFlagExpectEnd ≠ 0 then
    none
  else some (.decompress algorithm srcHandle srcOffset srcLength dstHandle dstOffset dstCapacity
    flags)

/-- `zz9k_compression_build_decompress_test_desc` -/
def buildDecompressTestDesc (algorithm : Compression) (srcHandle : UInt32)
    (srcOffset srcLength outputLimit : Nat) (flags : UInt32) : Option CodecRequest :=
  if algorithm.known = false ∨ srcHandle = invalidHandle ∨ srcLength = 0 ∨ outputLimit = 0 ∨
      flags &&& ~~~decompressFlagExpectEnd ≠ 0 then none
  else some (.decompressTest algorithm srcHandle srcOffset srcLength outputLimit flags)

/-- `zz9k_compression_build_decompress_stream_begin_desc` -/
def buildStreamBeginDesc (algorithm : Compression) (srcHandle : UInt32)
    (srcOffset srcLength outputLimit : Nat) (flags : UInt32) : Option CodecRequest :=
  let allowed := decompressFlagExpectEnd ||| decompressFlagFeedInput
  if algorithm.known = false ∨ outputLimit = 0 ∨ flags &&& ~~~allowed ≠ 0 then none
  else if flags &&& decompressFlagFeedInput ≠ 0 ∧
      (srcHandle ≠ invalidHandle ∨ srcOffset ≠ 0 ∨ srcLength ≠ 0) then none
  else if flags &&& decompressFlagFeedInput = 0 ∧ (srcHandle = invalidHandle ∨ srcLength = 0) then
    none
  else some (.streamBegin algorithm srcHandle srcOffset srcLength outputLimit flags)

/-- `zz9k_compression_build_decompress_stream_feed_desc` -/
def buildStreamFeedDesc (session srcHandle : UInt32) (srcOffset srcLength : Nat)
    (flags : UInt32) : Option CodecRequest :=
  if session = 0 ∨ srcHandle = invalidHandle ∨ srcLength = 0 ∨
      flags &&& ~~~decompressStreamFeedEof ≠ 0 then none
  else some (.streamFeed session srcHandle srcOffset srcLength flags)

/-- `zz9k_compression_build_decompress_stream_read_desc` -/
def buildStreamReadDesc (session dstHandle : UInt32) (dstOffset dstCapacity : Nat)
    (flags : UInt32) : Option CodecRequest :=
  if session = 0 ∨ dstHandle = invalidHandle ∨ dstCapacity = 0 ∨ flags ≠ 0 then none
  else some (.streamRead session dstHandle dstOffset dstCapacity flags)

theorem buildDecompressDesc_eq {algorithm : Compression} {srcHandle dstHandle flags : UInt32}
    {srcOffset srcLength dstOffset dstCapacity : Nat} {desc : CodecRequest}
    (h : buildDecompressDesc algorithm srcHandle srcOffset srcLength dstHandle dstOffset
      dstCapacity flags = some desc) :
    desc = .decompress algorithm srcHandle srcOffset srcLength dstHandle dstOffset dstCapacity
      flags := by
  unfold buildDecompressDesc at h
  split at h
  · cases h
  · exact (Option.some.inj h).symm

theorem buildStreamBeginDesc_eq {algorithm : Compression} {srcHandle flags : UInt32}
    {srcOffset srcLength outputLimit : Nat} {desc : CodecRequest}
    (h : buildStreamBeginDesc algorithm srcHandle srcOffset srcLength outputLimit flags =
      some desc) :
    desc = .streamBegin algorithm srcHandle srcOffset srcLength outputLimit flags := by
  unfold buildStreamBeginDesc at h
  dsimp only at h
  split at h
  · cases h
  split at h
  · cases h
  split at h
  · cases h
  · exact (Option.some.inj h).symm

theorem buildStreamFeedDesc_eq {session srcHandle flags : UInt32} {srcOffset srcLength : Nat}
    {desc : CodecRequest}
    (h : buildStreamFeedDesc session srcHandle srcOffset srcLength flags = some desc) :
    desc = .streamFeed session srcHandle srcOffset srcLength flags := by
  unfold buildStreamFeedDesc at h
  split at h
  · cases h
  · exact (Option.some.inj h).symm

theorem buildStreamReadDesc_eq {session dstHandle flags : UInt32} {dstOffset dstCapacity : Nat}
    {desc : CodecRequest}
    (h : buildStreamReadDesc session dstHandle dstOffset dstCapacity flags = some desc) :
    desc = .streamRead session dstHandle dstOffset dstCapacity flags ∧ dstCapacity ≠ 0 := by
  unfold buildStreamReadDesc at h
  split at h
  · cases h
  · next hn =>
    refine ⟨(Option.some.inj h).symm,fun h0 => ?_⟩
    exact hn (Or.inr (Or.inr (Or.inl h0)))

/-- `ZZ9KDecompressResult` and `ZZ9KDecompressStreamResult`, zeroed by default -/
structure DecompressResult where
  session : UInt32 := 0
  bytesConsumed : Nat := 0
  bytesWritten : Nat := 0
  checksum : Nat := 0
  algorithm : Nat := 0
  flags : UInt32 := 0

/-- The two numbers of `ZZ9KDiagInfo` that the tool looks at -/
structure BoardHeap where
  free : Nat
  largestFree : Nat

/-- What a decoding asks of the world: of the file system and the C library, and of the board.
`load` gives as many bytes as it is asked for. -/
inductive JobCall
  | tool (c : ToolCall)
  | allocShared (length alignment : Nat) (flags : UInt32)
  | freeShared (handle : UInt32)
  | store (handle : UInt32) (offset : Nat) (data : Bytes)
  | load (handle : UInt32) (offset length : Nat)
  | codec (request : CodecRequest)
  | readDiag
  | readDiagMemory
  | findBoard
  | latchCancelled

/-- A failed allocation leaves the buffer zeroed. `findBoard` tells the Zorro version. -/
def JobCall.Answer : JobCall → Type
  | tool c => c.Answer
  | allocShared _ _ _ => Except Status SharedBuffer
  | load _ _ length => {data : Bytes // data.length = length}
  | codec _ => Status × DecompressResult
  | readDiag => Status × BoardHeap
  | readDiagMemory => Status
  | findBoard => Option Nat
  | _ => Unit

abbrev Job (α : Type) : Type := Ask JobCall JobCall.Answer α

namespace Job

/-- What asks nothing of the board -/
def tool {α : Type} (p : Tool α) : Job α := p.translate .tool fun _ x => x

def allocShared (length alignment : Nat) (flags : UInt32) : Job (Except Status SharedBuffer) :=
  .ask (.allocShared length alignment flags) .ret

/-- `zz9k_free_shared`, which makes no request for the invalid handle -/
def freeShared (handle : UInt32) : Job Unit :=
  if handle = invalidHandle then .ret () else .ask (.freeShared handle) .ret

def codec (request : CodecRequest) : Job (Status × DecompressResult) :=
  .ask (.codec request) .ret

def readDiag : Job (Status × BoardHeap) := .ask .readDiag .ret
def findBoard : Job (Option Nat) := .ask .findBoard .ret

/-- `zz9k_archive_note_status` -/
def noteStatus (status : Status) : Job Unit :=
  if status = .cancelled then .ask .latchCancelled .ret else .ret ()

end Job

/-- `zz9k_shared_range_fits` -/
def sharedRangeFits (buffer : SharedBuffer) (offset length : Nat) : Bool :=
  buffer.handle ≠ invalidHandle ∧ buffer.data ≠ 0 ∧ offset+length ≤ buffer.length.toNat

/-- `zz9k_shared_copy_to` -/
def sharedCopyTo (buffer : SharedBuffer) (offset : Nat) (data : Bytes) : Job Bool :=
  if sharedRangeFits buffer offset data.length then
    .ask (.store buffer.handle offset data) fun _ => .ret true
  else .ret false

/-- `zz9k_shared_copy_from` -/
def sharedCopyFrom (buffer : SharedBuffer) (offset length : Nat) :
    Job (Option {data : Bytes // data.length = length}) :=
  if sharedRangeFits buffer offset length then
    .ask (.load buffer.handle offset length) fun data => .ret (some data)
  else .ret none

/-- `zz9k_archive_print_shared_diag` -/
def printSharedDiag : Job Unit := do
  let (status,_) ← Job.readDiag
  if status = .ok then .ask .readDiagMemory fun _ => .ret () else pure ()

/-- The freeing of a buffer at the end of a decoding, of one that was allocated -/
def releaseShared (handle : UInt32) : Job Unit :=
  if handle ≠ 0 ∧ handle ≠ invalidHandle then Job.freeShared handle else pure ()

def archiveStreamMinChunk : Nat := 4096

/-- `zz9k_archive_alloc_shrink_retry` -/
def allocShrinkRetry (status : Status) : Bool := status = .noMemory ∨ status = .badRequest

/-- `zz9k_archive_pair_shrink_retry` -/
def pairShrinkRetry (status : Status) (capacity : Nat) : Bool :=
  allocShrinkRetry status ∧ archiveStreamMinChunk < capacity

/-- The loop of `zz9k_archive_alloc_stream_pair`: both buffers and their size, or the status the
allocation ended with -/
def allocStreamPairLoop (outputFlags : UInt32) (capacity : Nat) :
    Job (Except Status (SharedBuffer × SharedBuffer × Nat)) :=
  if _h : archiveStreamMinChunk ≤ capacity then do
    match ← Job.allocShared capacity 16 allocHostWindow with
    | .error status =>
      if pairShrinkRetry status capacity then allocStreamPairLoop outputFlags (capacity/2)
      else pure (.error status)
    | .ok input =>
      match ← Job.allocShared capacity 16 outputFlags with
      | .ok decoded => pure (.ok (input,decoded,capacity))
      | .error status => do
        Job.freeShared input.handle
        if pairShrinkRetry status capacity then allocStreamPairLoop outputFlags (capacity/2)
        else pure (.error status)
  else pure (.error .noMemory)
termination_by capacity
decreasing_by
  all_goals
    have hmin : 0 < archiveStreamMinChunk := by decide
    exact Nat.div_lt_self (by omega) (by decide)

/-- `zz9k_archive_alloc_stream_pair` -/
def allocStreamPair (service : CodecService) (outputFlags : UInt32) :
    Job (Except Status (SharedBuffer × SharedBuffer × Nat)) :=
  allocStreamPairLoop outputFlags service.streamChunk

end ZZ9K.Archive
