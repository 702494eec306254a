import ZZ9K.Archive.Codec

namespace ZZ9K.Surface

open ZZ9K.Abi ZZ9K.Host ZZ9K.Framework
open ZZ9K.Archive (sharedRangeFits)

/-- `ZZ9KPngInput`, what the feeder reads of it -/
structure PngInput where
  length : UInt32
  height : UInt32
  stopAfterStep : UInt32
  chunkBytes : UInt32

/-- `ZZ9K_PNG_STEP_FIRST_FEED` -/
def pngStepFirstFeed : UInt32 := 5

/-- `zz9k_png_should_stop_after` -/
def pngShouldStopAfter (input : PngInput) (step : UInt32) : Bool :=
  input.stopAfterStep ≠ 0 ∧ input.stopAfterStep = step

/-- `ZZ9KImageSessionFeedDesc`; the only flag is `ZZ9K_IMAGE_SESSION_FEED_EOF`. -/
structure SessionFeedDesc where
  session : UInt32
  srcHandle : UInt32
  srcOffset : Nat
  srcLength : Nat
  eof : Bool
  deriving DecidableEq

/-- `zz9k_image_build_session_feed_desc` -/
def buildSessionFeedDesc (session srcHandle : UInt32) (srcOffset srcLength : Nat) (eof : Bool) :
    Option SessionFeedDesc :=
  if session = 0 ∨ srcHandle = invalidHandle ∨ (srcLength = 0 ∧ ¬eof) then none
  else some {session,srcHandle,srcOffset,srcLength,eof}

/-- `ZZ9K_IMAGE_SESSION_STATE_NEED_INPUT` -/
def sessionNeedInput : UInt32 := 1

/-- `ZZ9K_IMAGE_SESSION_STATE_HEADER_READY` -/
def sessionHeaderReady : UInt32 := 2

/-- `ZZ9K_IMAGE_SESSION_STATE_COMPLETE` -/
def sessionComplete : UInt32 := 4

/-- `ZZ9KImageSessionResult`, what the feeder reads of it -/
structure ImageSessionResult where
  state : UInt32
  bytesConsumed : UInt32
  bytesWritten : UInt32
  deriving DecidableEq

/-- The first loop of `zz9k_shared_move`, from the front -/
def movedForward (memory : Nat → UInt8) (dst src : Nat) : Nat → Nat → UInt8
  | 0 => memory
  | n+1 => Function.update (movedForward memory dst src n) (dst+n)
    (movedForward memory dst src n (src+n))

/-- The second loop of `zz9k_shared_move`, from the back -/
def movedBackward (memory : Nat → UInt8) (dst src : Nat) : Nat → Nat → UInt8
  | 0 => memory
  | n+1 => movedBackward (Function.update memory (dst+n) (memory (src+n))) dst src n

/-- The bytes of a buffer after `zz9k_shared_move` has run one of its loops -/
def sharedMoved (memory : Nat → UInt8) (dst src length : Nat) : Nat → UInt8 :=
  if dst < src then movedForward memory dst src length else movedBackward memory dst src length

/-- What the feeder does outside its own variables: `fread`, storing into the staging buffer,
moving bytes in it, and `zz9k_image_session_feed` -/
inductive PngCall
  | read (want : Nat)
  | store (offset : Nat) (data : List UInt8)
  | move (dst src length : Nat)
  | feed (desc : SessionFeedDesc)

/-- The answers: the bytes read, and what a feed brings -/
def PngAnswer : PngCall → Type
  | .read want => {data : List UInt8 // data.length ≤ want}
  | .feed _ => Except Status ImageSessionResult
  | _ => Unit

/-- A program that feeds a session from a file -/
abbrev PngFeeding := Ask PngCall PngAnswer

section

variable (input : PngInput) (staging : SharedBuffer)

/-- `zz9k_png_feed_capacity` -/
def pngFeedCapacity : Nat :=
  if input.chunkBytes ≠ 0 ∧ input.chunkBytes < staging.length then input.chunkBytes.toNat
  else staging.length.toNat

/-- `zz9k_shared_copy_to` -/
def pngCopyTo (offset : Nat) (data : List UInt8) : PngFeeding Bool :=
  if sharedRangeFits staging offset data.length then
    .ask (.store offset data) fun _ => .ret true
  else .ret false

/-- `zz9k_shared_move`; its loops are a question that `sharedMoved` answers. -/
def pngMove (dst src length : Nat) : PngFeeding Bool :=
  if ¬sharedRangeFits staging dst length ∨ ¬sharedRangeFits staging src length then .ret false
  else if length = 0 ∨ dst = src then .ret true
  else .ask (.move dst src length) fun _ => .ret true

/-- The compaction of the staging buffer after so many of its bytes are consumed -/
def pngCompact (consumed rest : Nat) : PngFeeding Bool :=
  if consumed ≠ 0 ∧ rest ≠ 0 then pngMove staging 0 consumed rest else .ret true

/-- The size of the scratch buffer of `zz9k_png_read_chunk_to_shared` -/
def pngScratchBytes : Nat := 1024

/-- The loop of `zz9k_png_read_chunk_to_shared` -/
def pngReadChunkToShared (offset length copied : Nat) : PngFeeding Bool :=
  if _h : copied < length then
    let want := if pngScratchBytes < length-copied then pngScratchBytes else length-copied
    .ask (.read want) fun (got : {data : List UInt8 // data.length ≤ want}) =>
      if _hgot : got.val.length = 0 then .ret false
      else do
        let stored ← pngCopyTo staging (offset+copied) got.val
        if ¬stored then return false
        pngReadChunkToShared offset length (copied+got.val.length)
  else .ret true
termination_by length-copied
decreasing_by omega

/-- The file offset and the number of buffered bytes, and the counters -/
structure PngFeedState where
  fileOffset : Nat := 0
  buffered : Nat := 0
  emptyEofFeeds : UInt32 := 0
  feeds : Nat := 0

/-- `zz9k_png_fill_staging`: the variables after it, unless it fails -/
def pngFillStaging (s : PngFeedState) : PngFeeding (Option PngFeedState) := do
  let capacity := pngFeedCapacity input staging
  if capacity = 0 ∨ input.length.toNat < s.fileOffset ∨ capacity < s.buffered then return none
  let remainingFile := input.length.toNat-s.fileOffset
  let space := capacity-s.buffered
  if remainingFile = 0 ∨ space = 0 then return some s
  let want := if remainingFile < space then remainingFile else space
  let read ← pngReadChunkToShared staging s.buffered want 0
  if ¬read then return none
  return some {s with fileOffset := s.fileOffset+want,buffered := s.buffered+want}

end

/-- `zz9k_png_stream_result_made_progress` -/
def pngMadeProgress (result : ImageSessionResult) : Bool :=
  result.bytesConsumed ≠ 0 ∨ result.bytesWritten ≠ 0 ∨ result.state = sessionComplete

/-- `zz9k_png_stream_no_progress_is_fatal` -/
def pngNoProgressIsFatal (result : ImageSessionResult) (buffered capacity : Nat) (eof : Bool) :
    Bool :=
  if pngMadeProgress result then false
  else if ¬eof ∧ buffered < capacity then false
  else true

/-- How the inner loop of `zz9k_png_feed_stream` ends: in a failure, in the stop after the first
feed, with a complete image, or to fill the staging buffer again -/
inductive PngRoundEnd
  | failed
  | stopped (result : ImageSessionResult)
  | complete (result : ImageSessionResult)
  | refill (s : PngFeedState)

/-- What `zz9k_png_feed_stream` returns: whether it succeeds, and then `stopped` and
`final_result` -/
inductive PngEnd
  | failed
  | done (stopped : Bool) (result : ImageSessionResult)
  deriving DecidableEq

section

variable (input : PngInput) (staging : SharedBuffer) (session : UInt32)

/-- The part of a round of the inner loop after a feed that the firmware has taken -/
def pngFed (capacity : Nat) (eof : Bool) (s : PngFeedState) (result : ImageSessionResult) :
    PngFeeding (PngRoundEnd ⊕ PngFeedState) := do
  let s := {s with feeds := s.feeds+1}
  if s.feeds = 1 ∧ pngShouldStopAfter input pngStepFirstFeed then return .inl (.stopped result)
  if s.buffered < result.bytesConsumed.toNat then return .inl .failed
  let consumed := result.bytesConsumed.toNat
  let s := {s with buffered := s.buffered-consumed}
  let moved ← pngCompact staging consumed s.buffered
  if ¬moved then return .inl .failed
  if result.state = sessionComplete then return .inl (.complete result)
  if result.state ≠ sessionNeedInput ∧ result.state ≠ sessionHeaderReady then
    return .inl .failed
  if pngNoProgressIsFatal result s.buffered capacity eof then return .inl .failed
  if s.buffered = 0 ∨ (¬pngMadeProgress result ∧ ¬eof) then return .inl (.refill s)
  return .inr s

/-- A round of the inner loop of `zz9k_png_feed_stream` -/
def pngFeedRound (capacity : Nat) (eof : Bool) (s : PngFeedState) :
    PngFeeding (PngRoundEnd ⊕ PngFeedState) :=
  match buildSessionFeedDesc session staging.handle 0 s.buffered eof with
  | none => .ret (.inl .failed)
  | some desc => .ask (.feed desc) fun
    | .error _ => .ret (.inl .failed)
    | .ok result => pngFed input staging capacity eof s result

/-- A round of the outer loop of `zz9k_png_feed_stream`, with `fuel` for the inner one -/
def pngStreamRound (fuel : Nat) (s : PngFeedState) :
    PngFeeding (Option PngEnd ⊕ PngFeedState) := do
  let some s ← pngFillStaging input staging s | return .inl (some .failed)
  let capacity := pngFeedCapacity input staging
  let eof : Bool := s.fileOffset = input.length.toNat
  let drained := s.buffered = 0 ∧ eof
  if drained ∧ input.height+8 < s.emptyEofFeeds then return .inl (some .failed)
  let s := if drained then {s with emptyEofFeeds := s.emptyEofFeeds+1} else s
  match ← Ask.iterate (pngFeedRound input staging session capacity eof) fuel s with
  | none => return .inl none
  | some .failed => return .inl (some .failed)
  | some (.stopped result) => return .inl (some (.done true result))
  | some (.complete result) => return .inl (some (.done false result))
  | some (.refill s) => return .inr s

/-- `zz9k_png_feed_stream`; there is no result where a loop has spent its fuel. -/
def pngFeedStream (fuel : Nat) : PngFeeding (Option PngEnd) := do
  let ended ← Ask.iterate (pngStreamRound input staging session fuel) fuel {}
  return ended.join

end

end ZZ9K.Surface
