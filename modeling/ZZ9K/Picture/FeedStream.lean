import ZZ9K.Media.SharedBytes
import ZZ9K.Picture.TileWriters

namespace ZZ9K.Picture

open Host

/-- What `zz9k_picture_feed_stream_to_datatype` is called with, and what it meets: which reads of the
source fail, and what the board and the system answer to each feed -/
structure FeedEnv where
  fails : Nat → Bool
  turns : Nat → Turn
  staging : SharedBuffer
  readScratchLength : UInt32
  tileStride : UInt32
  codec : Codec
  session : UInt32
  drainLimit : UInt32

/-- A feed: the bytes that the board is shown, whether they are the last ones, and how many of them the
code takes as consumed -/
structure Fed where
  data : List UInt8
  eof : Bool
  taken : Nat

/-- The variables of the loops, and the source; what was fed and which tiles were taken -/
structure FeedState where
  memory : Media.Machine
  unread : List UInt8
  reads : Nat
  buffered : Nat
  eof : Bool
  emptyEofFeeds : UInt32
  finalState : SessionState
  target : Target
  turn : Nat
  fed : List Fed
  tiles : List SessionResult

/-- The loop of `zz9k_picture_shared_copy_to_bytes` -/
def storeEach (dst : Media.Pointer) : List UInt8 → Media.Machine → Media.Machine
  | [],m => m
  | byte::data,m => storeEach (Framework.ahead dst 1) data (Media.storeBytes dst [byte] m)

/-- `zz9k_picture_shared_copy_to_bytes` -/
def sharedCopyToBytes (buffer : SharedBuffer) (offset : Nat) (data : List UInt8)
    (m : Media.Machine) : Bool × Media.Machine :=
  if buffer.handle = invalidHandle ∨ buffer.data = 0 ∨ buffer.length.toNat < offset ∨
      buffer.length.toNat-offset < data.length then (false,m)
  else (true,storeEach (Framework.ahead (Media.sharedPointer buffer 0) offset) data m)

variable (env : FeedEnv)

/-- `zz9k_picture_source_read` of a source that has so many bytes left: a read that gets less than it
asks for is at the end. -/
def sourceTake (want : Nat) (st : FeedState) : Option (List UInt8) × FeedState :=
  if 0x7ffffffe < want ∨ env.fails st.reads then (none,{st with reads := st.reads+1})
  else (some (st.unread.take want),
    {st with unread := st.unread.drop want,reads := st.reads+1})

/-- The loop of `zz9k_picture_read_chunk_to_shared`: what it has copied, if it succeeds -/
def readChunk (offset capacity : Nat) :
    Nat → Nat → FeedState → Except Trouble (Option Nat × FeedState)
  | 0,_,_ => .error .starved
  | fuel+1,total,st =>
    if total < capacity ∧ !st.eof then
      let want := min (capacity-total) env.readScratchLength.toNat
      match sourceTake env want st with
      | (none,st) => .ok (none,st)
      | (some data,st) =>
        if data.length = 0 then .ok (some total,{st with eof := true})
        else if env.staging.data = 0 then .ok (none,st)
        else
          let (ok,memory) := sharedCopyToBytes env.staging (offset+total) data st.memory
          if !ok then .ok (none,st)
          else
            readChunk offset capacity fuel (total+data.length)
              {st with memory := memory,eof := decide (data.length < want) || st.eof}
    else .ok (some total,st)

/-- `zz9k_picture_fill_staging` -/
def fillStaging (st : FeedState) : Except Trouble (Bool × FeedState) :=
  if env.readScratchLength = 0 ∨ env.staging.length.toNat < st.buffered then .ok (false,st)
  else if st.eof ∨ st.buffered = env.staging.length.toNat then .ok (true,st)
  else do
    let capacity := env.staging.length.toNat-st.buffered
    let (copied,st) ← readChunk env st.buffered capacity (capacity+1) 0 st
    match copied with
    | none => return (false,st)
    | some copied => return (true,{st with buffered := st.buffered+copied})

/-- The bytes of the staging buffer that wait for the board -/
def staged (m : Media.Machine) (buffer : SharedBuffer) (n : Nat) : List UInt8 :=
  (List.range n).map fun i => m.bytes (Framework.ahead (Media.sharedPointer buffer 0) i)

/-- `zz9k_picture_stream_result_made_progress` -/
def madeProgress (r : SessionResult) : Bool :=
  r.bytesConsumed ≠ 0 ∨ r.bytesWritten ≠ 0 ∨ r.state = .complete

/-- `zz9k_picture_no_progress_is_fatal` -/
def noProgressIsFatal (r : SessionResult) (buffered capacity : Nat) (eof : Bool) : Bool :=
  !madeProgress r && (eof || decide (capacity ≤ buffered))

/-- How a round of the inner loop ends -/
inductive Next
  | failed
  | again
  | leave

/-- The end of a round: whether there is progress, and whether the outer loop must fill the buffer -/
def roundEnd (r : SessionResult) (st : FeedState) : Next × FeedState :=
  if noProgressIsFatal r st.buffered env.staging.length.toNat st.eof then (.failed,st)
  else if st.buffered = 0 ∨ (!madeProgress r ∧ !st.eof) then (.leave,st)
  else (.again,st)

/-- A round of the inner loop of `zz9k_picture_feed_stream_to_datatype` -/
def feedTurn (st : FeedState) : Except Trouble (Next × FeedState) :=
  -- `zz9k_image_build_session_feed_desc`
  if env.session = 0 ∨ env.staging.handle = invalidHandle ∨ (st.buffered = 0 ∧ !st.eof) then
    .ok (.failed,st)
  else
    let t := env.turns st.turn
    let r := t.result
    let data := staged st.memory env.staging st.buffered
    if t.status ≠ 0 ∨ st.buffered < r.bytesConsumed.toNat then
      .ok (.failed,{st with turn := st.turn+1,fed := st.fed++[⟨data,st.eof,0⟩]})
    else
      let consumed := r.bytesConsumed
      let buffered := st.buffered-consumed.toNat
      let (moved,memory) :=
        if consumed ≠ 0 ∧ buffered ≠ 0 then
          Media.sharedMove env.staging 0 consumed buffered.toUInt32 st.memory
        else (true,st.memory)
      let st := {st with
        turn := st.turn+1,fed := st.fed++[⟨data,st.eof,consumed.toNat⟩],buffered := buffered,
        memory := memory}
      if !moved then .ok (.failed,st)
      else
        match r.state with
        | .tileReady => do
          let (ok,target) ← copyTileToDatatype t st.target env.tileStride
          let st := {st with target := target}
          if !ok then return (.failed,st)
          else
            let st := {st with tiles := st.tiles++[r]}
            if env.codec = .png ∧ st.eof ∧ st.buffered = 0 ∧ r.flags &&& 2 = 0 then
              return (.leave,{st with finalState := .complete})
            else return roundEnd env r st
        | .complete => .ok (.leave,{st with finalState := .complete})
        | .needInput | .headerReady => .ok (roundEnd env r st)
        | .other _ => .ok (.failed,st)

/-- Whether control is at the head of the outer loop or of the inner one -/
inductive Phase
  | outer
  | inner

/-- The two loops of `zz9k_picture_feed_stream_to_datatype`, and what it returns -/
def feedLoops : Nat → Phase → FeedState → Except Trouble (Bool × FeedState)
  | 0,_,_ => .error .starved
  | fuel+1,.outer,st =>
    if st.finalState = .complete then .ok (true,st)
    else do
      let (ok,st) ← fillStaging env st
      if !ok then return (false,st)
      else if st.buffered = 0 ∧ st.eof then
        let st := {st with emptyEofFeeds := st.emptyEofFeeds+1}
        if env.drainLimit < st.emptyEofFeeds then return (false,st) else feedLoops fuel .inner st
      else feedLoops fuel .inner st
  | fuel+1,.inner,st => do
    let (next,st) ← feedTurn env st
    match next with
    | .failed => return (false,st)
    | .again => feedLoops fuel .inner st
    | .leave => feedLoops fuel .outer st

/-- `zz9k_picture_feed_stream_to_datatype` -/
def feedStreamToDatatype (fuel : Nat) (source : List UInt8) (memory : Media.Machine)
    (target : Target) : Except Trouble (Bool × FeedState) :=
  let st : FeedState := {
    memory := memory,unread := source,reads := 0,buffered := 0,eof := false,emptyEofFeeds := 0,
    finalState := .other 0,target := target,turn := 0,fed := [],tiles := [] }
  if env.readScratchLength = 0 ∨ env.session = 0 then .ok (false,st)
  else feedLoops env fuel .outer st

end ZZ9K.Picture
