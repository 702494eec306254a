import ZZ9K.Audio.Mp3Firmware

namespace ZZ9K.Audio

open Framework Framework.Attempt

section Transport

/-- `ZZPLAY_MP3_DEFAULT_PCM_CAPACITY` -/
def mp3DefaultPcmCapacity : UInt32 := 256*1024

/-- `zzplay_mp3_pcm_ack_batch_bytes` -/
def pcmAckBatchBytes (pcmCapacity : UInt32) : UInt32 :=
  if pcmCapacity < 2 then 0
  else if pcmCapacity < mp3DefaultPcmCapacity then (pcmCapacity/2) &&& ~~~1
  else 192*1024

/-- `zzplay_mp3_pcm_ack_due`, `mp3_stream_pcm_ack_due` -/
def pcmAckDue (pendingAck pcmCapacity : UInt32) (force : Bool) : Bool :=
  if pendingAck = 0 then false else force || decide (pcmAckBatchBytes pcmCapacity ≤ pendingAck)

/-- `zzplay_mp3_pcm_read_due` -/
def pcmReadDue (pendingAck pcmCapacity : UInt32) (force : Bool) : Bool :=
  force || pcmAckDue pendingAck pcmCapacity false

/-- `zzplay_mp3_ring_advance`, `mp3_stream_ring_advance` -/
def ringAdvance (offset bytes capacity : UInt32) : UInt32 :=
  if capacity = 0 then offset
  else
    let bytes := bytes%capacity
    if capacity-offset ≤ bytes then bytes-(capacity-offset) else offset+bytes

/-- `zzplay_mp3_input_buffered` -/
def inputBuffered (bytesFed bytesConsumed : UInt32) : UInt32 :=
  if bytesFed ≤ bytesConsumed then 0 else bytesFed-bytesConsumed

/-- `zzplay_mp3_input_room_low` -/
def inputRoomLow (bytesFed bytesConsumed capacity nextFeedBytes : UInt32) : Bool :=
  if capacity = 0 ∨ nextFeedBytes = 0 ∨ capacity < nextFeedBytes then false
  else capacity-nextFeedBytes < inputBuffered bytesFed bytesConsumed

end Transport

/-- How a tool ends that does not come through: the feed of a chunk stayed rejected, something else went
wrong, or a loop did not end. -/
inductive Mp3Ended
  | stuck
  | failed
  | starved
  deriving DecidableEq

abbrev Mp3Program (α : Type) := Attempt Mp3Call Mp3Answer Mp3Ended α

/-- One question -/
def ask (c : Mp3Call) : Mp3Program (Mp3Answer c) := put c

def ensure (ok : Bool) : Mp3Program Unit := if ok then pure () else throw .failed

def given {α : Type} : Option α → Mp3Program α
  | some a => pure a
  | none => throw .failed

/-- Where a tool is in the PCM that the board decodes -/
structure Mp3Cursor where
  result : Mp3Result
  producedSeen : UInt32
  pcmOffset : UInt32
  pendingAck : UInt32

/-- After bytes of the ring were used -/
def Mp3Cursor.seen (d : Mp3Cursor) (bytes pcmCapacity : UInt32) : Mp3Cursor := {d with
  producedSeen := d.producedSeen+bytes
  pcmOffset := ringAdvance d.pcmOffset bytes pcmCapacity
  pendingAck := d.pendingAck+bytes}

/-- After all that was used is acknowledged -/
def Mp3Cursor.acked (d : Mp3Cursor) (result : Mp3Result) : Mp3Cursor := {d with
  result := result
  pendingAck := 0
  pcmOffset := result.pcmRead}

section Zzplay

/-- What `zzplay` decodes with: the buffers, the rate and the channels that the probe found, and the frames
of a period and the bytes of a frame where there is AHI -/
structure Mp3Player where
  setup : Mp3Setup
  sampleRate : UInt32
  channels : UInt32
  ahi : Option (UInt32 × UInt32)

/-- `ZZPlayMP3Decode` -/
structure Mp3Decode where
  cursor : Mp3Cursor
  inputBytes : UInt32
  outputFrames : UInt64

variable (player : Mp3Player)

/-- `zzplay_mp3_result_valid` -/
def mp3ResultValid (d : Mp3Cursor) : Bool :=
  if d.result.bytesProduced < d.producedSeen ∨
      player.setup.ringLength < d.result.bytesProduced-d.producedSeen then false
  else if d.result.sampleRate ≠ 0 ∧ (d.result.sampleRate ≠ player.sampleRate ∨
      d.result.channels ≠ player.channels) then false
  else true

/-- `zzplay_mp3_ack` -/
def mp3Ack (d : Mp3Decode) (force : Bool) : Mp3Program Mp3Decode :=
  if !pcmReadDue d.cursor.pendingAck player.setup.ringLength force then pure d
  else do
    let answer : Option Mp3Reply ← ask (.read d.cursor.pendingAck)
    let reply ← given answer
    ensure (mp3ResultValid player {d.cursor with result := reply.result})
    pure {d with cursor := d.cursor.acked reply.result}

/-- `zzplay_mp3_copy_ring` -/
def mp3CopyRing (d : Mp3Decode) (bytes : UInt32) : Mp3Program (List UInt8) := do
  let linear := player.setup.ringLength-d.cursor.pcmOffset
  let first := if linear < bytes then linear else bytes
  let answer : Option (List UInt8) ← ask (.copyFrom d.cursor.pcmOffset first)
  let data ← given answer
  if first = bytes then pure data
  else do
    let answer : Option (List UInt8) ← ask (.copyFrom 0 (bytes-first))
    let rest ← given answer
    pure (data++rest)

/-- The loop of `zzplay_mp3_pump_pcm` with AHI -/
def mp3PumpAhi (periodBytes frameBytes : UInt32) (final : Bool) :
    Nat → UInt32 → Mp3Decode → Mp3Program Mp3Decode
  | 0,_,_ => throw .starved
  | fuel+1,available,d =>
    if periodBytes ≤ available ∨ (final ∧ available ≠ 0) then do
      let bytes := if available < periodBytes then available else periodBytes
      let ok : Bool ← ask .goesOn
      ensure ok
      let ok : Bool ← ask (.acquire bytes)
      ensure ok
      let data ← mp3CopyRing player d bytes
      let ok : Bool ← ask (.deliver data)
      ensure ok
      let ok : Bool ← ask .start
      ensure ok
      let d ← mp3Ack player {d with
        cursor := d.cursor.seen bytes player.setup.ringLength
        outputFrames := d.outputFrames+(bytes/frameBytes).toUInt64} false
      mp3PumpAhi periodBytes frameBytes final fuel (available-bytes) d
    else pure d

/-- `zzplay_mp3_pump_pcm` -/
def mp3PumpPcm (final : Bool) (d : Mp3Decode) : Mp3Program Mp3Decode := do
  ensure (mp3ResultValid player d.cursor)
  let available := d.cursor.result.bytesProduced-d.cursor.producedSeen
  match player.ahi with
  | none => mp3Ack player {d with
      cursor := d.cursor.seen available player.setup.ringLength
      outputFrames := d.outputFrames+(available/(player.channels*2)).toUInt64} final
  | some (periodFrames,frameBytes) =>
    mp3PumpAhi player (periodFrames*frameBytes) frameBytes final (available.toNat+1) available d

/-- The loop of `zzplay_mp3_decode_once` that feeds a chunk, for so many attempts -/
def mp3FeedChunk (length : UInt32) (eof : Bool) : Nat → Mp3Decode → Mp3Program Mp3Decode
  | 0,_ => throw .stuck
  | retry+1,d => do
    let answer : Option Mp3Reply ← ask (.feed length eof)
    let reply ← given answer
    let d ← mp3PumpPcm player eof {d with cursor := {d.cursor with result := reply.result}}
    let d ← if d.cursor.result.backpressure then mp3Ack player d true else pure d
    if d.cursor.result.backpressure then mp3FeedChunk length eof retry d else pure d

/-- The loop of `zzplay_mp3_decode_once` over the file -/
def mp3FeedFile : Nat → Mp3Decode → Mp3Program Mp3Decode
  | 0,_ => throw .starved
  | fuel+1,d => do
    let ok : Bool ← ask .goesOn
    ensure ok
    let answer : Option (List UInt8) ← ask (.fread player.setup.stagingLength.toNat)
    let chunk ← given answer
    let ok : Bool ← if chunk ≠ [] then ask (.stage chunk) else pure true
    ensure ok
    let length := chunk.length.toUInt32
    let eof := decide (chunk = [])
    let d ← mp3FeedChunk player length eof 64 d
    let d := {d with inputBytes := d.inputBytes+length}
    if eof then pure d else mp3FeedFile fuel d

/-- The loop of `zzplay_mp3_decode_once` that drains, for so many rounds -/
def mp3Drain : Nat → Mp3Decode → Mp3Program Mp3Decode
  | 0,_ => throw .failed
  | guard+1,d => do
    let before := d.cursor.producedSeen
    let d ← mp3PumpPcm player true d
    let d ← mp3Ack player d true
    if d.cursor.pendingAck = 0 ∧ d.cursor.result.bytesProduced = d.cursor.producedSeen ∧
        (d.cursor.result.done ∨ before = d.cursor.producedSeen) then pure d
    else mp3Drain guard d

/-- `zzplay_mp3_decode_once` -/
def mp3DecodeOnce (fuel : Nat) : Mp3Program Unit := do
  let answer : Option Mp3Result ← ask .begin
  let result ← given answer
  let d ← mp3FeedFile player fuel {
    cursor := ⟨result,0,result.pcmRead,0⟩,inputBytes := 0,outputFrames := 0 }
  let d ← mp3Drain player 128 d
  ensure (d.outputFrames ≠ 0)
  let ok : Bool ← ask .finish
  ensure ok

end Zzplay

section Tool

/-- What `zz9k-mp3` decodes with: the buffers, the bytes of a feed, and whether there is an output file -/
structure Mp3Tool where
  setup : Mp3Setup
  mp3Capacity : UInt32
  feedChunk : UInt32
  output : Bool

/-- The variables of `stream_decode_file` -/
structure Mp3Stream where
  cursor : Mp3Cursor
  totalRead : UInt32

variable (tool : Mp3Tool)

/-- `ack_stream_pcm` -/
def ackStreamPcm (force : Bool) (d : Mp3Stream) : Mp3Program Mp3Stream :=
  if !pcmAckDue d.cursor.pendingAck tool.setup.ringLength force then pure d
  else do
    let answer : Option Mp3Reply ← ask (.read d.cursor.pendingAck)
    let reply ← given answer
    pure {d with cursor := d.cursor.acked reply.result}

/-- The loop of `write_shared_ring`, by parts of at most `STREAM_OUTPUT_CHUNK_BYTES` -/
def writeSharedRing (capacity : UInt32) : Nat → UInt32 → UInt32 → Mp3Program Unit
  | 0,_,_ => throw .starved
  | fuel+1,remaining,cursor =>
    if remaining ≠ 0 then do
      let linear := capacity-cursor
      let part := if linear < remaining then linear else remaining
      let part := if 32768 < part then 32768 else part
      let answer : Option (List UInt8) ← ask (.copyFrom cursor part)
      let data ← given answer
      let ok : Bool ← ask (.deliver data)
      ensure ok
      writeSharedRing capacity fuel (remaining-part) ((cursor+part)%capacity)
    else pure ()

/-- What `drain_stream_pcm` writes, if there is an output file -/
def writeProduced (producedDelta pcmOffset : UInt32) : Mp3Program Unit :=
  if tool.output then
    writeSharedRing tool.setup.ringLength (producedDelta.toNat+1) producedDelta pcmOffset
  else pure ()

/-- `drain_stream_pcm`, for so many rounds -/
def drainStreamPcm : Nat → Mp3Stream → Mp3Program Mp3Stream
  | 0,_ => throw .failed
  | guard+1,d =>
    if d.cursor.result.bytesProduced < d.cursor.producedSeen then throw .failed
    else
      let producedDelta := d.cursor.result.bytesProduced-d.cursor.producedSeen
      if producedDelta = 0 then pure d
      else if tool.setup.ringLength < producedDelta then throw .failed
      else do
        writeProduced tool producedDelta d.cursor.pcmOffset
        ensure (producedDelta ≤ 0xffffffff-d.cursor.pendingAck)
        let d ← ackStreamPcm tool false {d with
          cursor := d.cursor.seen producedDelta tool.setup.ringLength}
        drainStreamPcm guard d

/-- `flush_stream_pcm`, for so many rounds -/
def flushStreamPcm : Nat → Mp3Stream → Mp3Program Mp3Stream
  | 0,_ => throw .failed
  | guard+1,d => do
    let d ← drainStreamPcm tool 64 d
    if d.cursor.pendingAck = 0 then pure d
    else do
      let d ← ackStreamPcm tool true d
      flushStreamPcm guard d

/-- `make_stream_input_room`, for so many rounds -/
def makeStreamInputRoom (nextFeedBytes : UInt32) : Nat → Mp3Stream → Mp3Program Mp3Stream
  | guard,d =>
    if !inputRoomLow d.totalRead d.cursor.result.bytesConsumed tool.mp3Capacity nextFeedBytes then
      pure d
    else if d.cursor.pendingAck = 0 then pure d
    else
      match guard with
      | 0 => throw .failed
      | guard+1 => do
        let d ← ackStreamPcm tool true d
        let d ← drainStreamPcm tool 64 d
        makeStreamInputRoom nextFeedBytes guard d

/-- The loop of `stream_decode_file` that feeds a chunk, for so many attempts -/
def streamFeedChunk (length : UInt32) (eof : Bool) : Nat → Mp3Stream → Mp3Program Mp3Stream
  | 0,_ => throw .stuck
  | attempts+1,d => do
    let answer : Option Mp3Reply ← ask (.feed length eof)
    let reply ← given answer
    let d ← drainStreamPcm tool 64 {d with cursor := {d.cursor with result := reply.result}}
    let d ← if d.cursor.result.backpressure then ackStreamPcm tool true d else pure d
    if d.cursor.result.backpressure then streamFeedChunk length eof attempts d else pure d

/-- The loop of `stream_decode_file` over the file -/
def streamFeedFile : Nat → Mp3Stream → Mp3Program Mp3Stream
  | 0,_ => throw .starved
  | fuel+1,d => do
    let answer : Option (List UInt8) ← ask (.fread tool.feedChunk.toNat)
    let chunk ← given answer
    let length := chunk.length.toUInt32
    let eof := decide (chunk = [])
    let d ← if eof then pure d else do
      let d ← makeStreamInputRoom tool length 64 d
      let ok : Bool ← ask (.stage chunk)
      ensure ok
      pure d
    let d ← streamFeedChunk tool length eof 64 d
    let d := {d with totalRead := d.totalRead+length}
    if eof then pure d else streamFeedFile fuel d

/-- `stream_decode_file` -/
def streamDecodeFile (fuel : Nat) : Mp3Program Unit := do
  let answer : Option Mp3Result ← ask .begin
  let result ← given answer
  let d ← streamFeedFile tool fuel {cursor := ⟨result,0,result.pcmRead,0⟩,totalRead := 0}
  let _ ← flushStreamPcm tool 64 d
  pure ()

end Tool

end ZZ9K.Audio
