import ZZ9K.Framework.Ask
import ZZ9K.Mpega.PcmCopy

namespace ZZ9K.Mpega

open ZZ9K.Framework ZZ9K.Math

/-- `MPEGA_OUTPUT` -/
structure MpegaOutput where
  freqDiv : Int
  freqMax : Int

/-- `MPEGA_LAYER` -/
structure MpegaLayer where
  forceMono : Int
  mono : MpegaOutput
  stereo : MpegaOutput

/-- What a session is opened with and keeps: the layer and the output control, the PCM ring, the
staging buffer, and the scale -/
structure MpegaSetup where
  layer : Int
  layer3 : MpegaLayer
  layer12 : MpegaLayer
  pcmRingLength : Nat
  stagingHandle : Nat
  stagingLength : Nat
  inputChunkBytes : Int
  scalePercent : Int

/-- `ZZ9KAudioStreamResult` -/
structure StreamResult where
  session : Nat
  sampleRate : Nat
  channels : Nat
  pcmRead : Nat
  bytesProduced : Nat
  done : Bool

def StreamResult.zero : StreamResult :=
  { session := 0,sampleRate := 0,channels := 0,pcmRead := 0,bytesProduced := 0,done := false }

/-- `MPEGACompatStream` -/
structure MpegaStream where
  setup : MpegaSetup
  frequency : Nat
  channels : Nat
  result : StreamResult
  pcmSeenBytes : Nat
  pcmReadOffset : Nat
  pcmPendingAckBytes : Nat
  sessionOpen : Bool
  eofSent : Bool

/-- How `ZZ9KAudioStreamFeed` and `ZZ9KAudioStreamRead` come back: with the firmware's result, with
an error once the result is cleared, or with one before anything is touched -/
inductive StreamAnswer
  | ok (result : StreamResult)
  | failed
  | notEntered

namespace StreamAnswer

def isOk : StreamAnswer → Bool
  | ok _ => true
  | _ => false

/-- The result structure after the call -/
def stored (result : StreamResult) : StreamAnswer → StreamResult
  | ok result => result
  | failed => .zero
  | notEntered => result

end StreamAnswer

/-- What a stream asks: the next bytes of its source, a feed, an acknowledgement, and the bytes in
the PCM ring -/
inductive MpegaAsk
  | readSource (length : Int)
  | feed (session handle length : Nat) (eof : Bool)
  | read (session pcmRead : Nat)
  | ring
  deriving DecidableEq

abbrev MpegaAnswer : MpegaAsk → Type
  | .readSource _ => Int
  | .feed _ _ _ _ => StreamAnswer
  | .read _ _ => StreamAnswer
  | .ring => Nat → UInt8

abbrev MpegaM := Ask MpegaAsk MpegaAnswer

/-- `mpega_stream_read_source` -/
abbrev readSource (length : Int) : MpegaM Int := .ask (.readSource length) .ret

/-- `ZZ9KAudioStreamFeed` with a feed of the staging buffer -/
abbrev streamFeed (session handle length : Nat) (eof : Bool) : MpegaM StreamAnswer :=
  .ask (.feed session handle length eof) .ret

/-- `ZZ9KAudioStreamRead` -/
abbrev streamRead (session pcmRead : Nat) : MpegaM StreamAnswer :=
  .ask (.read session pcmRead) .ret

/-- The bytes in the PCM ring -/
abbrev ringBytes : MpegaM (Nat → UInt8) := .ask .ring .ret

/-- `MPEGA_ERR_NONE` -/
def errNone : Int := 0

/-- `MPEGA_ERR_EOF` -/
def errEof : Int := -1

/-- `MPEGA_ERR_BADFRAME` -/
def errBadFrame : Int := -2

/-- `MPEGA_ERR_BADVALUE` -/
def errBadValue : Int := -5

/-- `MPEGA_INTERNAL_NO_PCM` -/
def internalNoPcm : Int := 1

/-- `MPEGA_MAX_CHANNELS` -/
def maxChannels : Nat := 2

/-- `MPEGA_PCM_SIZE` -/
def pcmSize : Nat := 1152

/-- `MPEGA_PCM_ACK_BATCH_BYTES` -/
def pcmAckBatchBytes : Nat := 192*1024

/-- `MPEGA_MAX_FEED_ATTEMPTS` -/
def maxFeedAttempts : Nat := 128

/-- `ZZ9K_INVALID_HANDLE` -/
def invalidHandle : Nat := 0xffffffff

namespace MpegaSetup

variable (setup : MpegaSetup)

/-- `mpega_output_force_mono` -/
def outputForceMono : Bool :=
  if setup.layer = 3 then setup.layer3.forceMono ≠ 0 else setup.layer12.forceMono ≠ 0

/-- `mpega_selected_output` -/
def selectedOutput (outputChannels : Nat) : MpegaOutput :=
  let layer := if setup.layer = 3 then setup.layer3 else setup.layer12
  if outputChannels = 1 then layer.mono else layer.stereo

/-- The loop of `mpega_output_freq_div`; as it stops at 4, two rounds are enough. -/
def halved (freqMax : Int) : Nat → Nat → Nat → Nat
  | 0,_,freqDiv => freqDiv
  | rounds+1,freq,freqDiv =>
    if (freqMax < 0 ∨ freqMax < freq) ∧ freqDiv < 4 then
      halved freqMax rounds (freq/2) (freqDiv*2)
    else freqDiv

/-- `mpega_output_freq_div` -/
def outputFreqDiv (outputChannels sourceRate : Nat) : Nat :=
  let output := setup.selectedOutput outputChannels
  if sourceRate = 0 then 1
  else if output.freqDiv = 1 ∨ output.freqDiv = 2 ∨ output.freqDiv = 4 then output.freqDiv.toNat
  else if output.freqDiv = 0 then
    let freqDiv := halved output.freqMax 2 sourceRate 1
    if freqDiv = 2 ∨ freqDiv = 4 then freqDiv else 1
  else 1

theorem outputFreqDiv_pos (outputChannels sourceRate : Nat) :
    0 < setup.outputFreqDiv outputChannels sourceRate := by
  unfold outputFreqDiv
  dsimp only
  split_ifs <;> omega

end MpegaSetup

namespace MpegaStream

variable (s : MpegaStream)

/-- `mpega_update_stream_info` -/
def updateStreamInfo : MpegaStream :=
  if s.result.sampleRate = 0 then s
  else
    let channels := s.result.channels
    let channels := if channels = 0 ∨ maxChannels < channels then maxChannels else channels
    { s with frequency := s.result.sampleRate,channels := channels }

/-- `mpega_pcm_available` -/
def pcmAvailable : Nat :=
  if s.result.bytesProduced < s.pcmSeenBytes then 0 else s.result.bytesProduced-s.pcmSeenBytes

/-- What `mpega_ack_pcm` does with the answer it gets -/
def ackAnswered (answer : StreamAnswer) : Bool × MpegaStream :=
  let s := { s with result := answer.stored s.result }
  if answer.isOk then
    let s := { s with pcmPendingAckBytes := 0,pcmReadOffset := s.result.pcmRead }
    (true,s.updateStreamInfo)
  else (false,s)

/-- `mpega_ack_pcm` -/
def ackPcm (force : Bool) : MpegaM (Bool × MpegaStream) :=
  if !s.sessionOpen then return (false,s)
  else if s.pcmPendingAckBytes = 0 then return (true,s)
  else if !force ∧ s.pcmPendingAckBytes < pcmAckBatchBytes then return (true,s)
  else do
    let answer ← streamRead s.result.session s.pcmPendingAckBytes
    return s.ackAnswered answer

/-- `mpega_shared_copy_to_bytes` into the staging buffer, whether the bytes fit -/
def staged (length : Nat) : Bool :=
  s.setup.stagingHandle ≠ invalidHandle ∧ length ≤ s.setup.stagingLength

/-- `zz9k_audio_build_stream_feed_desc`, with no flag other than that for the end -/
def feedDescOk (length : Nat) (eof : Bool) : Bool :=
  ¬ (s.result.session = 0 ∨ s.setup.stagingHandle = invalidHandle ∨ (length = 0 ∧ !eof))

/-- What a round of `mpega_stream_feed_until_pcm` does with the answer to its feed: what the
function returns then, if it does not go on -/
def feedAnswered (answer : StreamAnswer) : Option Int × MpegaStream :=
  let s := { s with result := answer.stored s.result }
  if answer.isOk then
    let s := s.updateStreamInfo
    if s.pcmAvailable ≠ 0 then (some errNone,s)
    else if s.result.done then (some errEof,s)
    else (none,s)
  else (some errBadFrame,s)

/-- A round of `mpega_stream_feed_until_pcm` from the bytes it has got on -/
def feedGot (got : Int) : MpegaM (Option Int × MpegaStream) :=
  if got < 0 then return (some errBadFrame,s)
  else
    let eof : Bool := got = 0
    let s := { s with eofSent := s.eofSent || eof }
    if !eof && !s.staged got.toNat then return (some errBadFrame,s)
    else if !s.feedDescOk got.toNat eof then return (some errBadValue,s)
    else do
      let answer ← streamFeed s.result.session s.setup.stagingHandle got.toNat eof
      return s.feedAnswered answer

/-- One round of `mpega_stream_feed_until_pcm` -/
def feedAttempt : MpegaM (Option Int × MpegaStream) :=
  if s.pcmAvailable ≠ 0 then return (some errNone,s)
  else do
    let (acked,s) ← s.ackPcm true
    if !acked then return (some errBadFrame,s)
    else if s.result.done then return (some errEof,s)
    else if s.eofSent then return (some errEof,s)
    else do
      let got ← readSource s.setup.inputChunkBytes
      s.feedGot got

/-- `mpega_stream_feed_until_pcm` with so many attempts left -/
def feedAttempts : Nat → MpegaStream → MpegaM (Int × MpegaStream)
  | 0,s => return (internalNoPcm,s)
  | attempts+1,s => do
    let (status,s) ← s.feedAttempt
    match status with
    | some status => return (status,s)
    | none => feedAttempts attempts s

/-- `mpega_stream_feed_until_pcm` -/
def feedUntilPcm : MpegaM (Int × MpegaStream) := feedAttempts maxFeedAttempts s

/-- `source_channels` of `mpega_copy_pcm_planar` -/
def sourceChannels : Nat :=
  let channels := if s.result.channels ≠ 0 then s.result.channels else s.channels
  if channels = 0 ∨ maxChannels < channels then maxChannels else channels

/-- `source_rate` of `mpega_copy_pcm_planar` -/
def sourceRate : Nat := if s.result.sampleRate ≠ 0 then s.result.sampleRate else s.frequency

/-- `output_channels` of `mpega_copy_pcm_planar` -/
def planarChannels : Nat :=
  let channels := outputChannels s.setup.outputForceMono s.sourceChannels
  if channels = 0 ∨ maxChannels < channels then maxChannels else channels

/-- `freq_div` of `mpega_copy_pcm_planar` -/
def planarFreqDiv : Nat := s.setup.outputFreqDiv s.planarChannels s.sourceRate

/-- `bytes` of `mpega_copy_pcm_planar`: whole frames only. The frame size is 2 or 4, and so the mask
of the source rounds down to a multiple of it. -/
def planarBytes : Nat :=
  let frameBytes := s.sourceChannels*2
  let bytes := pcmSize*s.sourceChannels*2
  let bytes := if s.pcmAvailable < bytes then s.pcmAvailable else bytes
  bytes-bytes%frameBytes

/-- The copy that `mpega_copy_pcm_planar` chooses, and the offset after it -/
def copyRing (ring : Nat → UInt8) : List (List Int16) × Nat :=
  let length := s.setup.pcmRingLength
  let offset := s.pcmReadOffset
  let sourceSamples := s.planarBytes/(s.sourceChannels*2)
  if offset ≤ length-s.planarBytes then
    (copyPcmLinear s.sourceChannels s.planarChannels s.setup.scalePercent (fun i => ring (offset+i))
      sourceSamples s.planarFreqDiv,
      if length ≤ offset+s.planarBytes then 0 else offset+s.planarBytes)
  else
    copyPcmWrapped ring length s.sourceChannels s.planarChannels s.setup.scalePercent offset
      sourceSamples s.planarFreqDiv

/-- `mpega_copy_pcm_planar` once the samples are stored -/
def planarCopied (samples : List (List Int16)) (offset : Nat) :
    MpegaM (Int × List (List Int16) × MpegaStream) :=
  let bytes := s.planarBytes
  let sourceSamples := bytes/(s.sourceChannels*2)
  let outputSamples := (sourceSamples+s.planarFreqDiv-1)/s.planarFreqDiv
  if 0xffffffff-bytes < s.pcmPendingAckBytes then return (errBadFrame,samples,s)
  else do
    let s := { s with
      pcmSeenBytes := (s.pcmSeenBytes+bytes)%2^32
      pcmPendingAckBytes := s.pcmPendingAckBytes+bytes
      pcmReadOffset := offset }
    let (acked,s) ← s.ackPcm false
    if acked then return ((outputSamples : Int),samples,s)
    else return (errBadFrame,samples,s)

/-- `mpega_copy_pcm_planar`: what it returns, and the samples it has stored -/
def copyPcmPlanar : MpegaM (Int × List (List Int16) × MpegaStream) :=
  if s.pcmAvailable = 0 then return (0,[],s)
  else if s.setup.pcmRingLength < s.pcmAvailable then return (errBadFrame,[],s)
  else if s.setup.pcmRingLength ≤ s.pcmReadOffset then return (errBadFrame,[],s)
  else do
    let ring ← ringBytes
    s.planarCopied (s.copyRing ring).1 (s.copyRing ring).2

/-- `mpega_call_decode_frame` -/
def decodeFrame : MpegaM (Int × List (List Int16) × MpegaStream) := do
  let (status,s) ← s.feedUntilPcm
  if status = internalNoPcm then return (0,[],s)
  else if status ≠ errNone then return (status,[],s)
  else s.copyPcmPlanar

end MpegaStream

/-- The samples that a call hands to its caller -/
def delivered (r : Int × List (List Int16) × MpegaStream) : List (List Int16) :=
  r.2.1.take r.1.toNat

end ZZ9K.Mpega
