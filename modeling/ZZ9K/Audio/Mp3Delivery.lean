import ZZ9K.Audio.Mp3PlayRuns
import ZZ9K.Audio.Mp3ToolRuns

namespace ZZ9K.Audio

open Framework Framework.Attempt

/-- The firmware took the chunk once, and with all its bytes. -/
def Mp3Chunk.TakenOnce (c : Mp3Chunk) : Prop :=
  (c.feeds.filter Mp3Feed.taken).map Mp3Feed.data = [c.data]

/-- The firmware took the chunk when it was first fed. -/
def Mp3Chunk.Accepted (c : Mp3Chunk) : Prop := (c.feeds.head?.map Mp3Feed.taken) = some true

/-- No feed but the first can take a chunk. -/
theorem Mp3Chunk.Shown.takenOnce_iff {c : Mp3Chunk} (h : c.Shown) (hfed : c.feeds ≠ []) :
    c.TakenOnce ↔ c.Accepted := by
  obtain ⟨hdata,hrest⟩ := h
  rw [TakenOnce,Accepted]
  cases hfeeds : c.feeds with
  | nil => exact absurd hfeeds hfed
  | cons f feeds =>
    have hnone : feeds.filter Mp3Feed.taken = [] := by
      rw [List.filter_eq_nil_iff]
      intro g hg
      rw [hrest g (by rw [hfeeds]; exact hg)]
      exact Bool.false_ne_true
    have hf : f.data = c.data := hdata f (by rw [hfeeds]; exact List.mem_cons_self)
    rw [List.filter_cons,hnone]
    cases htaken : f.taken <;> simp [htaken,hf]

/-- Either of the tools -/
inductive Mp3Client
  | zzplay (player : Mp3Player)
  | zz9kMp3 (tool : Mp3Tool)

namespace Mp3Client

def setup : Mp3Client → Mp3Setup
  | zzplay player => player.setup
  | zz9kMp3 tool => tool.setup

/-- Whether it delivers the PCM -/
def sounds : Mp3Client → Bool
  | zzplay player => player.sounds
  | zz9kMp3 tool => tool.output

/-- Whether it may leave out the read after a rejected feed -/
def lazy : Mp3Client → Bool
  | zzplay _ => false
  | zz9kMp3 _ => true

def decode (fuel : Nat) : Mp3Client → Mp3Program Unit
  | zzplay player => mp3DecodeOnce player fuel
  | zz9kMp3 tool => streamDecodeFile tool fuel

/-- The sizes are not zero. -/
def Sized : Mp3Client → Prop
  | zzplay player => 0 < player.setup.stagingLength.toNat ∧ player.HasPeriods
  | zz9kMp3 tool => 0 < tool.feedChunk.toNat

/-- What a run keeps: the chunks are what was read of the file, in order, and those before the last one
were each taken once where the firmware took them when they were first fed; the PCM is delivered in
order, and all of it where the tool comes through. A feed stays rejected for all attempts only where that
takes as many reads, or where a read was left out; and the loop over the file ends. -/
structure Keeps (client : Mp3Client) (file : List UInt8) (r : Except Mp3Ended Unit) (s : Mp3Board) :
    Prop where
  taken : (∀ c ∈ s.read, c.TakenOnce) ↔ ∀ c ∈ s.read, c.Accepted
  whole : (s.read++s.current.toList).flatMap Mp3Chunk.data++s.file = file
  delivered : s.delivered <+: s.pcm
  through : r = .ok () → s.current = none ∧ s.file = [] ∧ (client.sounds = true → s.delivered = s.pcm)
  guarded : r = .error .stuck → 64 ≤ client.setup.clears ∨ client.lazy = true ∧ s.idle = true
  ends : r ≠ .error .starved

/-- What holds where a tool comes through -/
structure Through (sounds : Bool) (file : List UInt8) (s : Mp3Board) : Prop extends s.Left file where
  current : s.current = none
  finished : s.file = []
  complete : sounds = true → s.delivered = s.pcm

end Mp3Client

section Decode

variable {file : List UInt8} {ring : Nat → UInt8} {fuel : Nat}

theorem mp3DecodeOnce_wp {player : Mp3Player} (hring : 0 < player.setup.ringLength.toNat)
    (hstaging : 0 < player.setup.stagingLength.toNat) (hperiod : player.HasPeriods)
    (hfuel : file.length < fuel) :
    wp (mp3World player.setup) (mp3DecodeOnce player fuel)
      (fun _ s => Mp3Client.Through player.sounds file s) (player.Gives file) (.fresh file ring) := by
  rw [mp3DecodeOnce]
  refine Attempt.wp_ask fun answer hallowed => ?_
  refine wp_bind.mpr (wp_given (fun result hresult => ?_) fun hnone => ?_)
  swap
  · subst hnone
    exact ⟨.inl rfl,fresh_left⟩
  subst hresult
  refine wp_step (mp3FeedFile_wp (d := ⟨_,_,_⟩) hring hstaging hperiod hfuel (.begun hallowed) nofun) ?_
  rintro d s ⟨hsound,hcurrent,hfile⟩
  refine wp_step (mp3Drain_wp hring hperiod hsound) ?_
  rintro d' s' ⟨hsound',hquiet,hall⟩
  have hgives := hsound'.gives false
  refine wp_bind.mpr (wp_ensure (fun _ => ?_) fun _ => hgives)
  refine Attempt.wp_ask fun ok _ => wp_ensure (fun _ => ?_) fun _ => hgives
  exact ⟨hsound'.left,hquiet.current.trans hcurrent,hquiet.file.trans hfile,hsound'.delivered_all hall⟩

theorem streamDecodeFile_wp {tool : Mp3Tool} (hring : 0 < tool.setup.ringLength.toNat)
    (hchunk : 0 < tool.feedChunk.toNat) (hfuel : file.length < fuel) :
    wp (mp3World tool.setup) (streamDecodeFile tool fuel)
      (fun _ s => Mp3Client.Through tool.output file s) (tool.Gives file) (.fresh file ring) := by
  rw [streamDecodeFile]
  refine Attempt.wp_ask fun answer hallowed => ?_
  refine wp_bind.mpr (wp_given (fun result hresult => ?_) fun hnone => ?_)
  swap
  · subst hnone
    exact ⟨.inl rfl,fresh_left⟩
  subst hresult
  refine wp_step (streamFeedFile_wp (d := ⟨_,_⟩) hring hchunk hfuel (.begun hallowed) nofun) ?_
  rintro d s ⟨hsound,hcurrent,hfile⟩
  refine wp_step (flushStreamPcm_wp hring hsound) ?_
  rintro d' s' ⟨hsound',hall,hquiet⟩
  exact ⟨hsound'.left,hquiet.current.trans hcurrent,hquiet.file.trans hfile,hsound'.delivered_all hall⟩

theorem Mp3Client.decode_wp {client : Mp3Client} (hring : 0 < client.setup.ringLength.toNat)
    (hsized : client.Sized) (hfuel : file.length < fuel) :
    wp (mp3World client.setup) (client.decode fuel) (fun _ s => Through client.sounds file s)
      (Gives client.setup file client.lazy) (.fresh file ring) := by
  cases client with
  | zzplay player => exact mp3DecodeOnce_wp hring hsized.1 hsized.2 hfuel
  | zz9kMp3 tool => exact streamDecodeFile_wp hring hsized hfuel

end Decode

/-- A tool loses a chunk just where the firmware rejects its first feed: the read that follows clears the
flag that the loop tests, and the chunk is not fed again. No PCM is lost. -/
theorem mp3_chunks_taken {client : Mp3Client} (hring : 0 < client.setup.ringLength.toNat)
    (hsized : client.Sized) {file : List UInt8} {ring : Nat → UInt8} {fuel : Nat}
    (hfuel : file.length < fuel) {log : List (Answered Mp3Call Mp3Answer)} {r : Except Mp3Ended Unit}
    (hruns : (client.decode fuel).run.Runs log r)
    (hallows : (mp3World client.setup).Allows (.fresh file ring) log) :
    client.Keeps file r ((mp3World client.setup).after (.fresh file ring) log) := by
  have hwp : wp (mp3World client.setup) (client.decode fuel)
      (fun _ s => Mp3Client.Through client.sounds file s)
      (Gives client.setup file client.lazy) (.fresh file ring) :=
    client.decode_wp hring hsized hfuel
  have hrun := (mp3World client.setup).wp_sound hwp hruns hallows
  generalize (mp3World client.setup).after (.fresh file ring) log = s at hrun
  have htaken : s.Left file → ((∀ c ∈ s.read, c.TakenOnce) ↔ ∀ c ∈ s.read, c.Accepted) :=
    fun hleft => forall₂_congr fun c hc =>
      (hleft.fed c hc).1.takenOnce_iff (hleft.fed c hc).2
  cases r with
  | ok _ =>
    have hthrough : Mp3Client.Through client.sounds file s := hrun
    exact ⟨htaken hthrough.toLeft,hthrough.whole,hthrough.delivered,
      fun _ => ⟨hthrough.current,hthrough.finished,hthrough.complete⟩,nofun,nofun⟩
  | error e =>
    obtain ⟨hcause,hleft⟩ : Gives client.setup file client.lazy e s := hrun
    refine ⟨htaken hleft,hleft.whole,hleft.delivered,nofun,?_,?_⟩
    · rintro ⟨⟩
      rcases hcause with hcause | ⟨-,hexcuse⟩
      · cases hcause
      · exact hexcuse
    · rintro ⟨⟩
      rcases hcause with hcause | ⟨hcause,-⟩
      · cases hcause
      · cases hcause

section Runs

/-- A player without AHI, of two channels, whose staging buffer has four bytes -/
def smallPlayer : Mp3Player := ⟨⟨64,4,1⟩,44100,2,none⟩

/-- The result of a board that has produced and acknowledged so many bytes -/
def plainResult (produced pcmRead flags : UInt32) : Mp3Result := ⟨0,0,pcmRead,0,produced,flags⟩

def plainReply (result : Mp3Result) (taken : Bool) (decoded : List UInt8) : Mp3Reply :=
  ⟨result,taken,decoded,fun p => p.toUInt8⟩

/-- What `zzplay` asks for a file of one byte, up to the feed of the byte and from the next read on, where
the feed at the end decodes a frame -/
def smallStart : List (Answered Mp3Call Mp3Answer) :=
  [⟨.begin,some (plainResult 0 0 0)⟩,⟨.goesOn,true⟩,⟨.fread 4,some [7]⟩,⟨.stage [7],true⟩]

def smallEnd : List (Answered Mp3Call Mp3Answer) :=
  [⟨.goesOn,true⟩,⟨.fread 4,some []⟩,
    ⟨.feed 0 true,some (plainReply (plainResult 4 0 0) true [0,1,2,3])⟩,
    ⟨.read 4,some (plainReply (plainResult 4 4 0) true [])⟩,
    ⟨.read 0,some (plainReply (plainResult 4 4 0) true [])⟩,
    ⟨.read 0,some (plainReply (plainResult 4 4 0) true [])⟩,⟨.finish,true⟩]

/-- The feed of the byte is taken. -/
def takenRun : List (Answered Mp3Call Mp3Answer) :=
  smallStart++[⟨.feed 1 false,some (plainReply (plainResult 0 0 0) true [])⟩]++smallEnd

/-- The feed of the byte is rejected, and the next read clears that. -/
def rejectedRun : List (Answered Mp3Call Mp3Answer) :=
  smallStart++[⟨.feed 1 false,some (plainReply (plainResult 0 0 8) false [])⟩,
    ⟨.read 0,some (plainReply (plainResult 0 0 0) true [])⟩]++smallEnd

theorem mp3_chunks_taken_small : Mp3Client.Keeps (.zzplay smallPlayer) [7] (.ok ())
    ((mp3World smallPlayer.setup).after (.fresh [7] fun p => p.toUInt8) takenRun) :=
  @mp3_chunks_taken (.zzplay smallPlayer) (by decide) ⟨by decide,nofun⟩ _ _ _
    (show ([7] : List UInt8).length < 2 by decide) _ _ (Ask.runs_of_replay rfl)
    ⟨⟨by decide,by decide⟩,trivial,⟨List.prefix_rfl,by decide,nofun⟩,rfl,⟨by decide,nofun,nofun⟩,
      trivial,⟨List.nil_prefix,by decide,fun _ => .inl rfl⟩,⟨by decide,nofun,nofun⟩,
      ⟨by decide,nofun⟩,⟨by decide,nofun⟩,⟨by decide,nofun⟩,trivial,trivial⟩

/-- A chunk whose first feed was rejected is lost, and the tool comes through. -/
theorem mp3_chunk_lost : ¬ ∀ (client : Mp3Client) (file : List UInt8) (ring : Nat → UInt8)
    (fuel : Nat) (log : List (Answered Mp3Call Mp3Answer)) (r : Except Mp3Ended Unit),
    0 < client.setup.ringLength.toNat → client.Sized → client.setup.clears < 64 →
    file.length < fuel → (client.decode fuel).run.Runs log r →
    (mp3World client.setup).Allows (.fresh file ring) log →
    ∀ c ∈ ((mp3World client.setup).after (.fresh file ring) log).read, c.TakenOnce := by
  intro h
  have hlost := h (.zzplay smallPlayer) [7] (fun p => p.toUInt8) 2 rejectedRun (.ok ()) (by decide)
    ⟨by decide,nofun⟩ (by decide) (by decide) (Ask.runs_of_replay rfl)
    ⟨⟨by decide,by decide⟩,trivial,⟨List.prefix_rfl,by decide,nofun⟩,rfl,
      ⟨by decide,nofun,fun _ => ⟨rfl,rfl⟩⟩,⟨by decide,nofun⟩,
      trivial,⟨List.nil_prefix,by decide,fun _ => .inl rfl⟩,⟨by decide,nofun,nofun⟩,
      ⟨by decide,nofun⟩,⟨by decide,nofun⟩,⟨by decide,nofun⟩,trivial,trivial⟩
    ⟨[7],[⟨[7],false⟩]⟩ (List.mem_singleton.mpr rfl)
  cases hlost

end Runs

end ZZ9K.Audio
