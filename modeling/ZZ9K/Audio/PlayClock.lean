import ZZ9K.Framework.Overflow

namespace ZZ9K.Audio

open ZZ9K.Framework

/-- `ZZPlayAudioClockState` -/
inductive ClockState
  | closed
  | prebuffering
  | playing
  | paused
  | draining
  | stopped
  deriving DecidableEq, Repr

/-- `ZZPlayAudioClock` -/
structure PlayClock where
  sampleRate : UInt32
  queueLimitFrames : UInt32
  submittedFrames : UInt64
  playedFrames : UInt64
  discardedFrames : UInt64
  queuedFrames : UInt64
  presentationFrames : UInt64
  presentationLastUs : UInt64
  presentationFraction : UInt32
  underruns : UInt32
  state : ClockState
  presentationActive : Bool
  deriving DecidableEq, Repr

/-- A clock all of whose bytes are zero -/
def PlayClock.zero : PlayClock :=
  { sampleRate := 0,queueLimitFrames := 0,submittedFrames := 0,playedFrames := 0
    discardedFrames := 0,queuedFrames := 0,presentationFrames := 0,presentationLastUs := 0
    presentationFraction := 0,underruns := 0,state := .closed,presentationActive := false }

/-- `ZZPLAY_US_PER_SECOND` -/
def usPerSecond : UInt64 := 1000000

/-- `ZZPLAY_PTS_HZ` -/
def ptsHz : UInt64 := 90000

namespace PlayClock

/-- `zzplay_audio_clock_prepare` -/
def prepare (sampleRate queueLimitFrames : UInt32) : PlayClock :=
  { zero with
    sampleRate := sampleRate
    queueLimitFrames := queueLimitFrames
    state := if sampleRate = 0 then .closed else .prebuffering }

section

variable {M : Type → Type} [Monad M] [WordArith M]

open WordArith

/-- `zzplay_audio_clock_presentation_horizon` -/
def presentationHorizon (clock : PlayClock) : M UInt64 :=
  if clock.discardedFrames ≤ clock.submittedFrames then
    sub64 clock.submittedFrames clock.discardedFrames
  else pure 0

/-- Whether so many frames are over the limit of the queue -/
def overLimit (clock : PlayClock) (frames : UInt32) : M Bool :=
  if clock.queueLimitFrames = 0 then pure false
  else if clock.queueLimitFrames < frames then pure true
  else do
    let room ← sub64 clock.queueLimitFrames.toUInt64 frames.toUInt64
    return decide (room < clock.queuedFrames)

/-- `zzplay_audio_clock_queue` -/
def queue (clock : PlayClock) (frames : UInt32) : M (PlayClock × Bool) :=
  if frames = 0 ∨ (clock.state ≠ .prebuffering ∧ clock.state ≠ .playing ∧ clock.state ≠ .paused)
  then return (clock,false)
  else do
    let full ← clock.overLimit frames
    if full then return (clock,false)
    else
      let submitted ← add64 clock.submittedFrames frames.toUInt64
      let queued ← add64 clock.queuedFrames frames.toUInt64
      return ({clock with submittedFrames := submitted,queuedFrames := queued},true)

/-- `zzplay_audio_clock_complete` -/
def complete (clock : PlayClock) (submittedFrames playedFrames : UInt32) :
    M (PlayClock × Bool) :=
  if submittedFrames = 0 ∨ submittedFrames < playedFrames ∨
      clock.queuedFrames < submittedFrames.toUInt64 ∨
      (clock.state ≠ .playing ∧ clock.state ≠ .draining)
  then return (clock,false)
  else do
    let discarded ← sub32 submittedFrames playedFrames
    let queuedLeft ← sub64 clock.queuedFrames submittedFrames.toUInt64
    let played ← add64 clock.playedFrames playedFrames.toUInt64
    let discarded ← add64 clock.discardedFrames discarded.toUInt64
    let clock := {clock with
      queuedFrames := queuedLeft,playedFrames := played,discardedFrames := discarded}
    let horizon ← clock.presentationHorizon
    let clock := if clock.presentationFrames < clock.playedFrames then
      {clock with presentationFrames := clock.playedFrames} else clock
    let clock := if horizon < clock.presentationFrames then
      {clock with presentationFrames := horizon,presentationFraction := 0} else clock
    return (clock,true)

/-- `zzplay_audio_clock_update_presentation` -/
def updatePresentation (clock : PlayClock) (nowUs : UInt64) : M PlayClock :=
  if clock.presentationActive = false ∨ (clock.state ≠ .playing ∧ clock.state ≠ .draining)
  then return clock
  else if nowUs ≤ clock.presentationLastUs then
    return {clock with presentationLastUs := nowUs}
  else do
    let elapsed ← sub64 nowUs clock.presentationLastUs
    let clock := {clock with presentationLastUs := nowUs}
    let advance ← mul64 (elapsed/usPerSecond) clock.sampleRate.toUInt64
    let scaled ← mul64 (elapsed%usPerSecond) clock.sampleRate.toUInt64
    let scaled ← add64 scaled clock.presentationFraction.toUInt64
    let advance ← add64 advance (scaled/usPerSecond)
    let horizon ← clock.presentationHorizon
    let clock := if clock.presentationFrames < clock.playedFrames then
      {clock with presentationFrames := clock.playedFrames} else clock
    if horizon ≤ clock.presentationFrames then
      return {clock with presentationFrames := horizon,presentationFraction := 0}
    else
      let room ← sub64 horizon clock.presentationFrames
      if room ≤ advance then
        return {clock with presentationFrames := horizon,presentationFraction := 0}
      else
        let presentation ← add64 clock.presentationFrames advance
        let fraction ← narrow (scaled%usPerSecond)
        return {clock with presentationFrames := presentation,presentationFraction := fraction}

/-- `zzplay_audio_frames_to_pts` -/
def framesToPts (frames : UInt64) (sampleRate : UInt32) (originPts : UInt64) : M UInt64 :=
  if sampleRate = 0 then return originPts
  else do
    let seconds := frames/sampleRate.toUInt64
    let remainder := frames%sampleRate.toUInt64
    let whole ← mul64 seconds ptsHz
    let scaled ← mul64 remainder ptsHz
    let pts ← add64 originPts whole
    add64 pts (scaled/sampleRate.toUInt64)

/-- `zzplay_audio_clock_presentation_pts`, whose own test of the rate is that of
`zzplay_audio_frames_to_pts` -/
def presentationPts (clock : PlayClock) (originPts : UInt64) : M UInt64 :=
  framesToPts clock.presentationFrames clock.sampleRate originPts

/-- `zzplay_audio_clock_stop` -/
def stop (clock : PlayClock) : M PlayClock :=
  if clock.state = .closed then return clock
  else do
    let discarded ← add64 clock.discardedFrames clock.queuedFrames
    return {clock with
      discardedFrames := discarded,queuedFrames := 0,presentationActive := false
      state := .stopped}

/-- `zzplay_audio_clock_close` -/
def close (clock : PlayClock) : M PlayClock := do
  let clock ← clock.stop
  return {clock with state := .closed}

end

/-- `zzplay_audio_clock_play` -/
def play (clock : PlayClock) : PlayClock × Bool :=
  if clock.state ≠ .prebuffering ∨ clock.queuedFrames = 0 then (clock,false)
  else ({clock with state := .playing},true)

/-- `zzplay_audio_clock_pause` -/
def pause (clock : PlayClock) : PlayClock × Bool :=
  if clock.state ≠ .playing then (clock,false)
  else ({clock with presentationActive := false,state := .paused},true)

/-- `zzplay_audio_clock_resume` -/
def resume (clock : PlayClock) : PlayClock × Bool :=
  if clock.state ≠ .paused then (clock,false) else ({clock with state := .playing},true)

/-- `zzplay_audio_clock_begin_drain` -/
def beginDrain (clock : PlayClock) : PlayClock × Bool :=
  if clock.state ≠ .playing ∧ clock.state ≠ .prebuffering then (clock,false)
  else ({clock with state := .draining},true)

/-- `zzplay_audio_clock_start_presentation` -/
def startPresentation (clock : PlayClock) (nowUs : UInt64) : PlayClock :=
  if clock.state ≠ .playing then clock
  else
    let clock := if clock.presentationFrames < clock.playedFrames then
      {clock with presentationFrames := clock.playedFrames} else clock
    {clock with presentationLastUs := nowUs,presentationFraction := 0,presentationActive := true}

/-- `zzplay_audio_clock_note_underrun`; the counter wraps. -/
def noteUnderrun (clock : PlayClock) : PlayClock :=
  if clock.state = .playing then {clock with underruns := clock.underruns+1} else clock

/-- `zzplay_audio_clock_retract_underrun` -/
def retractUnderrun {M : Type → Type} [Monad M] [WordArith M] (clock : PlayClock) : M PlayClock :=
  if clock.underruns ≠ 0 then do
    let underruns ← WordArith.sub32 clock.underruns 1
    return {clock with underruns := underruns}
  else return clock

end PlayClock

end ZZ9K.Audio
