import ZZ9K.Abi.BigEndian
import ZZ9K.Framework.Seqlock
import Mathlib.Data.Fin.VecNotation

namespace ZZ9K.Audio

open ZZ9K.Abi ZZ9K.Framework ZZ9K.Framework.Seqlock

/-- `ZZ9KAudioRingProducerSnapshot`, which is also what `zz9k_audio_ring_producer_publish` is
given. -/
structure ProducerSnapshot where
  generation : UInt32
  writeCursor : UInt64
  heartbeat : UInt32
  flags : UInt32
  deriving DecidableEq, Repr

/-- `ZZ9KAudioRingFirmwareSnapshot`, likewise -/
structure FirmwareSnapshot where
  generation : UInt32
  consumedCursor : UInt64
  status : UInt32
  deriving DecidableEq, Repr

/-- The words of `ZZ9KAudioRingProducerLine` after its sequence word, in the order in which they
are stored and loaded. -/
def producerWords (p : ProducerSnapshot) : Fin 5 → UInt32 :=
  ![p.generation,mediaU64Hi p.writeCursor,mediaU64Lo p.writeCursor,p.heartbeat,p.flags]

def producerOfWords (w : Fin 5 → UInt32) : ProducerSnapshot where
  generation := w 0
  writeCursor := mediaU64FromBe (w 1) (w 2)
  heartbeat := w 3
  flags := w 4

/-- The words of `ZZ9KAudioRingFirmwareLine` after its sequence word -/
def firmwareWords (p : FirmwareSnapshot) : Fin 4 → UInt32 :=
  ![p.generation,mediaU64Hi p.consumedCursor,mediaU64Lo p.consumedCursor,p.status]

def firmwareOfWords (w : Fin 4 → UInt32) : FirmwareSnapshot where
  generation := w 0
  consumedCursor := mediaU64FromBe (w 1) (w 2)
  status := w 3

@[simp] theorem producerOfWords_producerWords (p : ProducerSnapshot) :
    producerOfWords (producerWords p) = p := by
  simp [producerOfWords,producerWords]

@[simp] theorem firmwareOfWords_firmwareWords (p : FirmwareSnapshot) :
    firmwareOfWords (firmwareWords p) = p := by
  simp [firmwareOfWords,firmwareWords]

/-- `zz9k_audio_ring_producer_publish` -/
def audioRingProducerPublish (p : ProducerSnapshot) : Res (State 5 ProducerSnapshot) Unit :=
  publish producerWords p

/-- `zz9k_audio_ring_producer_snapshot`; the flag is its result. -/
def audioRingProducerSnapshot : Res (State 5 ProducerSnapshot) (Bool × ProducerSnapshot) :=
  snapshot >>= fun (r,words) => .ret (r,producerOfWords words)

/-- `zz9k_audio_ring_firmware_publish` -/
def audioRingFirmwarePublish (p : FirmwareSnapshot) : Res (State 4 FirmwareSnapshot) Unit :=
  publish firmwareWords p

/-- `zz9k_audio_ring_firmware_snapshot` -/
def audioRingFirmwareSnapshot : Res (State 4 FirmwareSnapshot) (Bool × FirmwareSnapshot) :=
  snapshot >>= fun (r,words) => .ret (r,firmwareOfWords words)

/-- One writer that publishes, and may crash anywhere, and one reader of a producer line -/
def producerLineSystem : System Party (State 5 ProducerSnapshot) where
  ops
    | .writer,p => ∃ a, p = audioRingProducerPublish a
    | .reader,p => p = audioRingProducerSnapshot >>= fun _ => .ret ()
  env _ _ := False
  halts i := i = .writer

/-- The same for a firmware line -/
def firmwareLineSystem : System Party (State 4 FirmwareSnapshot) where
  ops
    | .writer,p => ∃ a, p = audioRingFirmwarePublish a
    | .reader,p => p = audioRingFirmwareSnapshot >>= fun _ => .ret ()
  env _ _ := False
  halts i := i = .writer

theorem producerLineSystem_eq : producerLineSystem = system producerWords := by
  unfold producerLineSystem system
  congr 1
  funext i p
  cases i with
  | writer => rfl
  | reader => simp only [audioRingProducerSnapshot,Res.bind_assoc,Res.ret_bind]

theorem firmwareLineSystem_eq : firmwareLineSystem = system firmwareWords := by
  unfold firmwareLineSystem system
  congr 1
  funext i p
  cases i with
  | writer => rfl
  | reader => simp only [audioRingFirmwareSnapshot,Res.bind_assoc,Res.ret_bind]

/-- The commits of a line: each leaves an even sequence word, one or two on from the one it
found. -/
def Advances (commits : List (UInt32 × UInt32)) : Prop :=
  ∀ commit ∈ commits, commit.2 &&& 1 = 0 ∧
    (commit.2 = commit.1+1 ∨ commit.2 = commit.1+2)

/-- Snapshots of either control line are never torn, wherever the writer crashed, as long as
fewer than 2^31 publications begin while one is taken. -/
theorem control_lines_whole :
    (∀ (line : Line 5) (c : Config Party (State 5 ProducerSnapshot)),
      Reach producerLineSystem (fun _ _ => True) ⟨fun _ => .ret (),{line}⟩ c →
      Advances c.state.commits ∧
      ∀ r ∈ c.state.reads, r.stable = true → r.ended-r.marked < 2^31 →
        producerOfWords r.words = producerOfWords line.words ∨
          producerOfWords r.words ∈ c.state.published) ∧
    ∀ (line : Line 4) (c : Config Party (State 4 FirmwareSnapshot)),
      Reach firmwareLineSystem (fun _ _ => True) ⟨fun _ => .ret (),{line}⟩ c →
      Advances c.state.commits ∧
      ∀ r ∈ c.state.reads, r.stable = true → r.ended-r.marked < 2^31 →
        firmwareOfWords r.words = firmwareOfWords line.words ∨
          firmwareOfWords r.words ∈ c.state.published := by
  constructor
  · intro line c hc
    rw [producerLineSystem_eq] at hc
    refine ⟨fun commit hm => ?_,reach_decoded producerOfWords_producerWords line c hc⟩
    rw [and_one_eq_zero]
    exact (reach_whole line c hc).2 commit hm
  · intro line c hc
    rw [firmwareLineSystem_eq] at hc
    refine ⟨fun commit hm => ?_,reach_decoded firmwareOfWords_firmwareWords line c hc⟩
    rw [and_one_eq_zero]
    exact (reach_whole line c hc).2 commit hm

private def zeroLine : State 5 ProducerSnapshot := {line := ⟨0,fun _ => 0⟩}

private def ones : ProducerSnapshot := ⟨1,1,1,1⟩

private def publishedOnes : State 5 ProducerSnapshot :=
  ((audioRingProducerPublish ones).run zeroLine).2

private def readOnes : State 5 ProducerSnapshot :=
  ((audioRingProducerSnapshot >>= fun _ => .ret ()).run publishedOnes).2

private def readOne : Read 5 := readOnes.reads.head (by decide +kernel)

/-- A publication and a snapshot after it -/
theorem control_lines_whole_read : readOne.stable = true ∧
    producerOfWords readOne.words = ones ∧ (producerOfWords readOne.words = ⟨0,0,0,0⟩ ∨
      producerOfWords readOne.words ∈ readOnes.published) := by
  have h1 : Reach producerLineSystem (fun _ _ => True) ⟨fun _ => .ret (),zeroLine⟩
      ⟨fun _ => .ret (),publishedOnes⟩ :=
    reach_solo (S := producerLineSystem) Party.writer rfl (Exists.intro ones rfl)
  have h2 : Reach producerLineSystem (fun _ _ => True) ⟨fun _ => .ret (),publishedOnes⟩
      ⟨fun _ => .ret (),readOnes⟩ :=
    reach_solo (S := producerLineSystem) (p := audioRingProducerSnapshot >>= fun _ => .ret ())
      Party.reader rfl rfl
  exact ⟨by decide +kernel,by decide +kernel,
    (control_lines_whole.1 ⟨0,fun _ => 0⟩ ⟨fun _ => .ret (),readOnes⟩ (h1.trans h2)).2 readOne
      (List.head_mem _) (by decide +kernel) (by decide +kernel)⟩

private def readStarted : Config Party (State 5 ProducerSnapshot) :=
  let read := audioRingProducerSnapshot >>= fun _ => .ret ()
  Config.set ⟨fun _ => .ret (),zeroLine⟩ .reader (read.advance 2 zeroLine).1
    (read.advance 2 zeroLine).2

private def wrapped : State 5 ProducerSnapshot :=
  {line := ⟨0xffffffff,fun _ => 0⟩,begun := 2^31-1}

private def republished : State 5 ProducerSnapshot :=
  ((audioRingProducerPublish ones).run wrapped).2

private def readEnded : Config Party (State 5 ProducerSnapshot) :=
  Config.set ⟨readStarted.prog,republished⟩ .reader (.ret ())
    ((readStarted.prog .reader).run republished).2

private def tornRead : Read 5 := readEnded.state.reads.head (by decide +kernel)

/-- Publications that crash are not completed but move the sequence word on: after 2^31-1 of them
the next completed one brings it back to where a snapshot found it. -/
theorem producer_snapshot_torn : ¬∀ (line : Line 5) (c : Config Party (State 5 ProducerSnapshot)),
    Reach producerLineSystem (fun _ _ => True) ⟨fun _ => .ret (),{line}⟩ c →
    c.state.published.length < 2^31 → ∀ r ∈ c.state.reads, r.stable = true →
      producerOfWords r.words = producerOfWords line.words ∨
        producerOfWords r.words ∈ c.state.published := by
  intro h
  have h1 : Reach producerLineSystem (fun _ _ => True) ⟨fun _ => .ret (),zeroLine⟩
      (Config.set ⟨fun _ => .ret (),zeroLine⟩ .reader
        (audioRingProducerSnapshot >>= fun _ => .ret ()) zeroLine) :=
    .single ⟨.start _ Party.reader _ rfl rfl,trivial⟩
  have h2 : Reach producerLineSystem (fun _ _ => True)
      (Config.set ⟨fun _ => .ret (),zeroLine⟩ .reader
        (audioRingProducerSnapshot >>= fun _ => .ret ()) zeroLine) readStarted := by
    have hr := reach_advance (S := producerLineSystem) (C := fun _ _ => True) Party.reader 2
      (c := Config.set ⟨fun _ => .ret (),zeroLine⟩ .reader
        (audioRingProducerSnapshot >>= fun _ => .ret ()) zeroLine) (Res.along_true ..)
    simp only [Config.set,Function.update_self,Function.update_idem] at hr
    exact hr
  have h3 : Reach producerLineSystem (fun _ _ => True) readStarted
      ⟨readStarted.prog,wrapped⟩ := by
    have hodd : nextOdd^[2^31-1] 0 = 0xffffffff := by
      rw [show 2^31-1 = 2^31-2+1 by decide,← UInt32.toNat_inj,nextOdd_iterate]
      decide
    have hr := reach_crashed producerWords ones (2^31-1) (c := readStarted) rfl
    rw [State.crashed,show readStarted.state.line = ⟨0,fun _ => 0⟩ from rfl,hodd,
      ← producerLineSystem_eq] at hr
    exact hr
  have h4 : Reach producerLineSystem (fun _ _ => True) ⟨readStarted.prog,wrapped⟩
      ⟨readStarted.prog,republished⟩ :=
    reach_solo (S := producerLineSystem) Party.writer rfl (Exists.intro ones rfl)
  have h5 : Reach producerLineSystem (fun _ _ => True) ⟨readStarted.prog,republished⟩ readEnded :=
    reach_finish Party.reader 20 (Res.along_true ..) (by decide +kernel)
  have hx := h ⟨0,fun _ => 0⟩ readEnded ((((h1.trans h2).trans h3).trans h4).trans h5)
    (by decide +kernel) tornRead (List.head_mem _) (by decide +kernel)
  exact absurd hx (by decide +kernel)

end ZZ9K.Audio
