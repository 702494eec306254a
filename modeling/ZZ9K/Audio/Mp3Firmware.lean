import Mathlib
import ZZ9K.Framework.Attempt

namespace ZZ9K.Audio

open Framework

/-- `ZZ9KAudioStreamResult`, as far as the MP3 tools read it -/
structure Mp3Result where
  sampleRate : UInt32
  channels : UInt32
  pcmRead : UInt32
  bytesConsumed : UInt32
  bytesProduced : UInt32
  flags : UInt32

/-- A result all of whose bytes are zero -/
def Mp3Result.zero : Mp3Result := ⟨0,0,0,0,0,0⟩

/-- `ZZ9K_AUDIO_STREAM_RESULT_BACKPRESSURE` is set. -/
def Mp3Result.backpressure (r : Mp3Result) : Bool := r.flags &&& 8 ≠ 0

/-- `ZZ9K_AUDIO_STREAM_RESULT_DONE` is set. -/
def Mp3Result.done (r : Mp3Result) : Bool := r.flags &&& 4 ≠ 0

/-- What a tool asks of its file, of the board and of the system -/
inductive Mp3Call
  /-- The buffers, and `zz9k_audio_stream_begin` -/
  | begin
  /-- `fread` -/
  | fread (want : Nat)
  /-- `zz9k_shared_copy_to` to the start of the staging buffer -/
  | stage (data : List UInt8)
  /-- `zz9k_audio_stream_feed` of the start of the staging buffer -/
  | feed (length : UInt32) (eof : Bool)
  /-- `zz9k_audio_stream_read` -/
  | read (pcmRead : UInt32)
  /-- `zz9k_shared_copy_from` of the PCM ring -/
  | copyFrom (offset length : UInt32)
  /-- The PCM goes to AHI, or to the file. -/
  | deliver (data : List UInt8)
  /-- What else the system says yes or no to: whether to go on, whether AHI has a buffer of so many
  bytes, whether it starts, and whether it drains -/
  | goesOn
  | acquire (bytes : UInt32)
  | start
  | finish
  deriving DecidableEq

/-- How the firmware answers a feed or a read, and what it did: whether it took the bytes, what it
decoded, and what the ring holds then -/
structure Mp3Reply where
  result : Mp3Result
  taken : Bool
  decoded : List UInt8
  ring : Nat → UInt8

/-- The answers; there is none from the board where a status is not OK, and none from the file where it
fails. -/
abbrev Mp3Answer : Mp3Call → Type
  | .begin => Option Mp3Result
  | .fread _ => Option (List UInt8)
  | .stage _ => Bool
  | .feed _ _ | .read _ => Option Mp3Reply
  | .copyFrom _ _ => Option (List UInt8)
  | .deliver _ | .goesOn | .acquire _ | .start | .finish => Bool

/-- The bytes that a feed showed, and whether the firmware took them -/
structure Mp3Feed where
  data : List UInt8
  taken : Bool

/-- A chunk that was read from the file, and the feeds before the next read -/
structure Mp3Chunk where
  data : List UInt8
  feeds : List Mp3Feed

/-- The file, the staging buffer, the firmware and what was delivered -/
structure Mp3Board where
  file : List UInt8
  staging : List UInt8
  /-- The chunks that were read, but for the last one -/
  read : List Mp3Chunk
  current : Option Mp3Chunk
  /-- Where in the ring the first byte is -/
  first : Nat
  pcm : List UInt8
  acknowledged : Nat
  ring : Nat → UInt8
  /-- The condition that `BACKPRESSURE` tells of holds. -/
  pressed : Bool
  /-- How many reads there were since a feed was rejected, while it has held -/
  held : Option Nat
  /-- A feed was sent while it held and all PCM was acknowledged. -/
  idle : Bool
  delivered : List UInt8

namespace Mp3Board

/-- At the start of a tool -/
def fresh (file : List UInt8) (ring : Nat → UInt8) : Mp3Board where
  file := file
  staging := []
  read := []
  current := none
  first := 0
  pcm := []
  acknowledged := 0
  ring := ring
  pressed := false
  held := none
  idle := false
  delivered := []

variable (s : Mp3Board)

/-- The next chunk is read. -/
def onFread (data : List UInt8) : Mp3Board := {s with
  file := s.file.drop data.length
  read := s.read++s.current.toList
  current := if data = [] then none else some ⟨data,[]⟩}

/-- What the firmware decoded is in the ring. -/
def onDecoded (reply : Mp3Reply) : Mp3Board := {s with
  pcm := s.pcm++reply.decoded
  ring := reply.ring
  pressed := reply.result.backpressure}

/-- A feed; the one at the end of the file shows no bytes. -/
def onFeed (length : UInt32) (reply : Mp3Reply) : Mp3Board := {s.onDecoded reply with
  current := if length = 0 then s.current else s.current.map fun c => {c with
    feeds := c.feeds++[⟨s.staging.take length.toNat,reply.taken⟩]}
  held := if reply.taken then none else some (s.held.getD 0)
  idle := s.idle || (s.pressed && decide (s.pcm.length ≤ s.acknowledged))}

def onRead (pcmRead : UInt32) (reply : Mp3Reply) : Mp3Board := {s.onDecoded reply with
  acknowledged := s.acknowledged+pcmRead.toNat
  held := if reply.result.backpressure then s.held.map (·+1) else none}

/-- How many of the ring's bytes there are from a place on to the ring's end -/
def ringBytes (offset length : UInt32) : List UInt8 :=
  (List.range length.toNat).map fun i => s.ring (offset.toNat+i)

end Mp3Board

/-- The PCM ring and the staging buffer, and how many reads clear a rejection at most -/
structure Mp3Setup where
  ringLength : UInt32
  stagingLength : UInt32
  clears : Nat

variable (setup : Mp3Setup)

/-- What holds of the firmware after each of its answers: there is no more PCM than the ring has room for,
each byte is at its place, and the answer tells how much there is. -/
structure Mp3Tells (s : Mp3Board) (r : Mp3Result) : Prop where
  room : s.pcm.length-s.acknowledged ≤ setup.ringLength.toNat
  small : s.pcm.length < 2^32
  placed : ∀ p, s.acknowledged ≤ p → p < s.pcm.length →
    s.pcm[p]? = some (s.ring ((s.first+p) % setup.ringLength.toNat))
  produced : r.bytesProduced.toNat = s.pcm.length
  pcmRead : r.pcmRead.toNat = (s.first+s.acknowledged) % setup.ringLength.toNat

instance (s : Mp3Board) (r : Mp3Result) : Decidable (Mp3Tells setup s r) :=
  decidable_of_iff (s.pcm.length-s.acknowledged ≤ setup.ringLength.toNat ∧ s.pcm.length < 2^32 ∧
      (∀ p < s.pcm.length, s.acknowledged ≤ p →
        s.pcm[p]? = some (s.ring ((s.first+p) % setup.ringLength.toNat))) ∧
      r.bytesProduced.toNat = s.pcm.length ∧
      r.pcmRead.toNat = (s.first+s.acknowledged) % setup.ringLength.toNat)
    ⟨fun ⟨hroom,hsmall,hplaced,hrest⟩ => ⟨hroom,hsmall,fun p hlow hhigh => hplaced p hhigh hlow,
      hrest.1,hrest.2⟩,
      fun h => ⟨h.room,h.small,fun p hhigh hlow => h.placed p hlow hhigh,h.produced,h.pcmRead⟩⟩

/-- The rule of the firmware: a feed is taken as a whole, or rejected with `BACKPRESSURE`, and nothing is
taken or decoded then; while the condition holds feeds are rejected, and reads may clear it. -/
def mp3Allowed (s : Mp3Board) : Answered Mp3Call Mp3Answer → Prop
  | ⟨.begin,some r⟩ => Mp3Tells setup {s with first := r.pcmRead.toNat} r ∧
      r.pcmRead.toNat < setup.ringLength.toNat
  | ⟨.fread want,some data⟩ => data <+: s.file ∧ data.length ≤ want ∧ (data = [] → s.file = [] ∨ want = 0)
  | ⟨.stage data,ok⟩ => ok = decide (data.length ≤ setup.stagingLength.toNat)
  | ⟨.feed length _,some reply⟩ =>
    Mp3Tells setup (s.onFeed length reply) reply.result ∧ (s.pressed → reply.taken = false) ∧
      (reply.taken = false → reply.decoded = [] ∧ reply.result.backpressure = true)
  | ⟨.read pcmRead,some reply⟩ =>
    Mp3Tells setup (s.onRead pcmRead reply) reply.result ∧
      (reply.result.backpressure = true → s.pressed = true ∧
        ∀ n, s.held = some n → n+1 < setup.clears)
  | ⟨.copyFrom offset length,answer⟩ => answer =
    if offset.toNat+length.toNat ≤ setup.ringLength.toNat then some (s.ringBytes offset length)
    else none
  | _ => True

/-- How the state moves on with an answer -/
def mp3Next (s : Mp3Board) : Answered Mp3Call Mp3Answer → Mp3Board
  | ⟨.begin,some r⟩ => {s with first := r.pcmRead.toNat,pressed := r.backpressure}
  | ⟨.fread _,some data⟩ => s.onFread data
  | ⟨.stage data,true⟩ => {s with staging := data}
  | ⟨.feed length _,some reply⟩ => s.onFeed length reply
  | ⟨.read pcmRead,some reply⟩ => s.onRead pcmRead reply
  | ⟨.deliver data,true⟩ => {s with delivered := s.delivered++data}
  | _ => s

/-- Every firmware that keeps to the rule, with any file -/
abbrev mp3World : World Mp3Call Mp3Answer where
  State := Mp3Board
  allowed := mp3Allowed setup
  next := mp3Next

end ZZ9K.Audio
