import ZZ9K.Mpega.Stream

namespace ZZ9K.Mpega

open ZZ9K.Framework

/-- `ZZ9KSharedBuffer`, what the library keeps of one -/
structure SharedBuffer where
  handle : Nat
  length : Nat

/-- `MPEGACompatBase` and `ZZ9KBase` -/
structure MpegaBase where
  zz9kBase : Bool
  zz9kOpenCount : Nat

/-- `MPEGACompatStream`: the stream as it decodes, whose setup has the PCM ring's length and the
staging buffer, and the flags for what it holds of the board -/
structure BoardStream where
  stream : MpegaStream
  mp3Ring : SharedBuffer
  pcmHandle : Nat
  zz9kAcquired : Bool
  mp3Allocated : Bool
  pcmAllocated : Bool
  stagingAllocated : Bool

/-- What the library asks of the system, of `zz9k.library` and of the stream's source. A question of
a decoding session goes with the ring that the session's PCM is read from and the staging buffer
that the bytes of the source are copied to. -/
inductive BoardCall
  | openLibrary
  | queryService
  | closeLibrary
  | allocShared (bytes : Nat)
  | freeShared (handle : Nat)
  | streamBegin (mp3Ring pcmRing : Nat)
  | streamClose (session : Nat)
  | allocMem
  | openSource
  | probeMetadata
  | seekSource (absBytePos : Int)
  | stream (pcmRing staging : Nat) (call : MpegaAsk)

/-- `queryService` is answered with whether the library is new enough and offers the MP3 stream,
`probeMetadata` with what `mpega_open_probe_metadata` returns. -/
abbrev BoardAnswer : BoardCall → Type
  | .openLibrary => Bool
  | .queryService => Bool
  | .closeLibrary => Unit
  | .allocShared _ => Option SharedBuffer
  | .freeShared _ => Unit
  | .streamBegin _ _ => StreamAnswer
  | .streamClose _ => Unit
  | .allocMem => Bool
  | .openSource => Bool
  | .probeMetadata => Bool
  | .seekSource _ => Bool
  | .stream _ _ call => MpegaAnswer call

abbrev BoardM := Ask BoardCall BoardAnswer

/-- `MPEGA_MP3_RING_CAPACITY` -/
def mp3RingCapacity : Nat := 128*1024

/-- `MPEGA_PCM_RING_CAPACITY` -/
def pcmRingCapacity : Nat := 256*1024

/-- `MPEGA_PCM_RING_COMPACT_CAPACITY` -/
def pcmRingCompactCapacity : Nat := 32*1024

/-- `MPEGA_STREAM_CHUNK_BYTES`, the size of the staging buffer -/
def stagingBytes : Nat := 64*1024

/-- `MPEGA_STREAM_CHUNK_COMPACT_BYTES` -/
def stagingCompactBytes : Nat := 16*1024

namespace MpegaBase

variable (base : MpegaBase)

/-- `mpega_zz9k_acquire` once the library is open -/
def acquireService (openedNow : Bool) : BoardM (Bool × MpegaBase) :=
  .ask .queryService fun (ok : Bool) =>
    if ok then .ret (true,{ base with zz9kOpenCount := (base.zz9kOpenCount+1)%65536 })
    else if openedNow then
      .ask .closeLibrary fun (_ : Unit) => .ret (false,{ base with zz9kBase := false })
    else .ret (false,base)

/-- `mpega_zz9k_acquire` -/
def zz9kAcquire : BoardM (Bool × MpegaBase) :=
  if base.zz9kBase then base.acquireService false
  else .ask .openLibrary fun (opened : Bool) =>
    if opened then acquireService { base with zz9kBase := true } true else .ret (false,base)

/-- `mpega_zz9k_release` -/
def zz9kRelease : BoardM MpegaBase :=
  if base.zz9kOpenCount = 0 then .ret base
  else
    let base := { base with zz9kOpenCount := base.zz9kOpenCount-1 }
    if base.zz9kOpenCount = 0 ∧ base.zz9kBase then
      .ask .closeLibrary fun (_ : Unit) => .ret { base with zz9kBase := false }
    else .ret base

end MpegaBase

namespace BoardStream

variable (s : BoardStream)

/-- A program of the decoding session, with the stream's buffers -/
def onBoard {α : Type} (p : MpegaM α) : BoardM α :=
  p.translate (.stream s.pcmHandle s.stream.setup.stagingHandle) fun _ x => x

/-- The part of `mpega_stream_end_session` that ends the firmware's session -/
def closeSession : BoardM BoardStream :=
  if s.stream.sessionOpen then do
    let (_,stream) ← s.onBoard (s.stream.ackPcm true)
    .ask (.streamClose stream.result.session) fun (_ : Unit) =>
      .ret { s with stream := { stream with sessionOpen := false } }
  else .ret s

/-- The part that frees the MP3 ring -/
def freeMp3 : BoardM BoardStream :=
  if s.mp3Allocated then
    .ask (.freeShared s.mp3Ring.handle) fun (_ : Unit) =>
      .ret { s with mp3Allocated := false,mp3Ring := ⟨invalidHandle,0⟩ }
  else .ret s

/-- The part that frees the PCM ring -/
def freePcm : BoardM BoardStream :=
  if s.pcmAllocated then
    .ask (.freeShared s.pcmHandle) fun (_ : Unit) =>
      .ret { s with
        pcmAllocated := false
        pcmHandle := invalidHandle
        stream := { s.stream with setup := { s.stream.setup with pcmRingLength := 0 } } }
  else .ret s

/-- The part that frees the staging buffer -/
def freeStaging : BoardM BoardStream :=
  if s.stagingAllocated then
    .ask (.freeShared s.stream.setup.stagingHandle) fun (_ : Unit) =>
      .ret { s with
        stagingAllocated := false
        stream := { s.stream with
          setup := { s.stream.setup with stagingHandle := invalidHandle,stagingLength := 0 } } }
  else .ret s

/-- The part that gives the library back -/
def releaseBoard (base : MpegaBase) : BoardM (MpegaBase × BoardStream) :=
  if s.zz9kAcquired then do
    let base ← base.zz9kRelease
    return (base,{ s with zz9kAcquired := false })
  else return (base,s)

/-- `mpega_stream_end_session` -/
def endSession (base : MpegaBase) : BoardM (MpegaBase × BoardStream) := do
  let s ← s.closeSession
  let s ← s.freeMp3
  let s ← s.freePcm
  let s ← s.freeStaging
  s.releaseBoard base

/-- `zz9k_audio_build_stream_begin_desc` -/
def beginDescOk (lowWaterBytes : Nat) : Bool :=
  ¬(s.mp3Ring.handle = invalidHandle ∨ s.mp3Ring.length = 0 ∨ s.pcmHandle = invalidHandle ∨
    s.stream.setup.pcmRingLength = 0 ∨ s.stream.setup.pcmRingLength ≤ lowWaterBytes)

/-- `mpega_stream_begin` once the buffers are allocated -/
def beginSession (lowWaterBytes : Nat) : BoardM (Bool × BoardStream) :=
  if s.beginDescOk lowWaterBytes then
    .ask (.streamBegin s.mp3Ring.handle s.pcmHandle) fun (answer : StreamAnswer) =>
      let stream := { s.stream with result := answer.stored s.stream.result }
      if answer.isOk then
        .ret (true,{ s with
          stream := { stream with sessionOpen := true,pcmReadOffset := stream.result.pcmRead } })
      else .ret (false,{ s with stream := stream })
  else .ret (false,s)

/-- `mpega_stream_begin` from the staging buffer on -/
def beginStaging (bytes : Nat) : BoardM (Bool × BoardStream) :=
  .ask (.allocShared bytes) fun (staging : Option SharedBuffer) =>
    match staging with
    | none => .ret (false,s)
    | some staging =>
      let setup := { s.stream.setup with
        stagingHandle := staging.handle
        stagingLength := staging.length
        inputChunkBytes :=
          if (staging.length : Int) < s.stream.setup.inputChunkBytes then (staging.length : Int)
          else s.stream.setup.inputChunkBytes }
      beginSession { s with
        stagingAllocated := true
        stream := { s.stream with setup := setup } } bytes

/-- The stream with a PCM ring -/
def withPcm (pcm : SharedBuffer) : BoardStream :=
  { s with
    pcmAllocated := true
    pcmHandle := pcm.handle
    stream := { s.stream with setup := { s.stream.setup with pcmRingLength := pcm.length } } }

/-- `mpega_stream_begin` from the PCM ring on: it takes a compact one where no other is free. -/
def beginPcm : BoardM (Bool × BoardStream) :=
  .ask (.allocShared pcmRingCapacity) fun (pcm : Option SharedBuffer) =>
    match pcm with
    | some pcm => (s.withPcm pcm).beginStaging stagingBytes
    | none => .ask (.allocShared pcmRingCompactCapacity) fun (pcm : Option SharedBuffer) =>
      match pcm with
      | some pcm => (s.withPcm pcm).beginStaging stagingCompactBytes
      | none => .ret (false,s)

/-- `mpega_stream_begin` once the library is acquired -/
def beginMp3 : BoardM (Bool × BoardStream) :=
  .ask (.allocShared mp3RingCapacity) fun (mp3 : Option SharedBuffer) =>
    match mp3 with
    | some mp3 => beginPcm { s with mp3Allocated := true,mp3Ring := mp3 }
    | none => .ret (false,s)

/-- `mpega_stream_begin` -/
def streamBegin (base : MpegaBase) : BoardM (Bool × MpegaBase × BoardStream) := do
  let (acquired,base) ← base.zz9kAcquire
  if acquired then do
    let (ok,s) ← beginMp3 { s with zz9kAcquired := true }
    return (ok,base,s)
  else return (false,base,s)

/-- The state that `mpega_stream_restart_at_byte` begins from again -/
def rewound : BoardStream :=
  { s with
    stream := { s.stream with
      result := .zero
      pcmSeenBytes := 0
      pcmReadOffset := 0
      pcmPendingAckBytes := 0
      eofSent := false } }

/-- `mpega_stream_restart_at_byte` -/
def restartAtByte (base : MpegaBase) (absBytePos : Int) : BoardM (Bool × MpegaBase × BoardStream) :=
  if absBytePos < 0 then return (false,base,s)
  else do
    let (base,s) ← s.endSession base
    .ask (.seekSource absBytePos) fun (sought : Bool) =>
      if sought then s.rewound.streamBegin base else .ret (false,base,s)

/-- `mpega_call_decode_frame` -/
def callDecodeFrame : BoardM (Int × List (List Int16) × BoardStream) := do
  let (result,samples,stream) ← s.onBoard s.stream.decodeFrame
  return (result,samples,{ s with stream := stream })

/-- `mpega_call_seek`, with the position that `mpega_stream_seek_byte_for_ms` gives -/
def callSeek (base : MpegaBase) (bytePos : Int) : BoardM (Int × MpegaBase × BoardStream) :=
  if bytePos < 0 then return (errEof,base,s)
  else do
    let (restarted,base,s) ← s.restartAtByte base bytePos
    return (if restarted then errNone else errBadFrame,base,s)

/-- `mpega_call_close`, that is `mpega_stream_free` -/
def callClose (base : MpegaBase) : BoardM MpegaBase := do
  let (base,_) ← s.endSession base
  return base

/-- `mpega_stream_set_defaults`, in cleared memory, with the control the client gives -/
def defaults (layer frequency channels : Nat) (layer3 layer12 : MpegaLayer) (inputChunkBytes : Int) :
    BoardStream where
  stream :=
    { setup :=
        { layer := layer
          layer3 := layer3
          layer12 := layer12
          pcmRingLength := 0
          stagingHandle := invalidHandle
          stagingLength := 0
          inputChunkBytes := inputChunkBytes
          scalePercent := 100 }
      frequency := frequency
      channels := channels
      result := .zero
      pcmSeenBytes := 0
      pcmReadOffset := 0
      pcmPendingAckBytes := 0
      sessionOpen := false
      eofSent := false }
  mp3Ring := ⟨invalidHandle,0⟩
  pcmHandle := invalidHandle
  zz9kAcquired := false
  mp3Allocated := false
  pcmAllocated := false
  stagingAllocated := false

/-- `mpega_call_open` of a stream, as it is once the metadata are known; nothing of it is kept where
a step fails. -/
def callOpen (base : MpegaBase) : BoardM (MpegaBase × Option BoardStream) :=
  .ask .allocMem fun (state : Bool) =>
    if !state then .ret (base,none)
    else .ask .allocMem fun (inputBuffer : Bool) =>
      if !inputBuffer then do
        let base ← s.callClose base
        return (base,none)
      else .ask .openSource fun (opened : Bool) =>
        if !opened then do
          let base ← s.callClose base
          return (base,none)
        else .ask .probeMetadata fun (probed : Bool) =>
          if !probed then do
            let base ← s.callClose base
            return (base,none)
          else do
            let (begun,base,s) ← s.streamBegin base
            if begun then return (base,some s)
            else do
              let base ← s.callClose base
              return (base,none)

end BoardStream

end ZZ9K.Mpega
