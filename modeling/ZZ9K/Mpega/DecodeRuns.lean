import ZZ9K.Mpega.Stream

namespace ZZ9K.Mpega

open ZZ9K.Framework ZZ9K.Math

/-- One decoding session: how it was set up, the format of its PCM, where it starts in the ring and
all the PCM bytes that the firmware ever decodes in it -/
structure Session where
  setup : MpegaSetup
  number : Nat
  channels : Nat
  sampleRate : Nat
  frequency : Nat
  start : Nat
  pcm : Nat → UInt8
  number_ne : number ≠ 0
  stereo : channels = 1 ∨ channels = 2
  ring_pos : 0 < setup.pcmRingLength
  ring_frames : channels*2 ∣ setup.pcmRingLength

/-- The firmware's side of a session: the bytes it has reported as produced and those it has been
told are read. Beside them stand the frames that the ring has been read for so far, and whether an
acknowledgement was refused since it was read last. -/
structure Producer where
  produced : Nat
  acked : Nat
  taken : Nat
  refused : Bool

namespace Session

variable (session : Session)

def frameBytes : Nat := session.channels*2

/-- The frames on offer, at most the 1152 of one call -/
def onOffer (w : Producer) : Nat :=
  min pcmSize ((w.produced-w.taken*session.frameBytes)/session.frameBytes)

/-- What a result of the firmware says once so many bytes are acknowledged -/
structure Reports (w : Producer) (acked : Nat) (result : StreamResult) : Prop where
  number : result.session = session.number
  format : 0 < result.bytesProduced →
    result.channels = session.channels ∧ result.sampleRate = session.sampleRate
  rate : result.sampleRate = 0 ∨ result.sampleRate = session.sampleRate
  read : result.pcmRead = (session.start+acked)%session.setup.pcmRingLength
  more : w.produced ≤ result.bytesProduced
  room : result.bytesProduced ≤ acked+session.setup.pcmRingLength
  small : result.bytesProduced < 2^32
  frames : session.frameBytes ∣ result.bytesProduced

/-- The firmware of a session. It knows no other session, and so what a failed call has done in it
does not matter any more: the library has lost the session's number with it. -/
abbrev firmware : World MpegaAsk MpegaAnswer where
  State := Producer
  allowed w
    | ⟨.feed number _ _ _,.ok result⟩ =>
      number = session.number ∧ session.Reports w w.acked result
    | ⟨.read number pcmRead,.ok result⟩ =>
      number = session.number ∧ session.Reports w (w.acked+pcmRead) result
    | ⟨.ring,ring⟩ => ∀ p,w.acked ≤ p → p < w.produced →
      ring ((session.start+p)%session.setup.pcmRingLength) = session.pcm p
    | _ => True
  next w
    | ⟨.feed _ _ _ _,.ok result⟩ => { w with produced := result.bytesProduced }
    | ⟨.read _ pcmRead,.ok result⟩ =>
      { w with produced := result.bytesProduced,acked := w.acked+pcmRead }
    | ⟨.read _ _,_⟩ => { w with refused := true }
    | ⟨.ring,_⟩ => { w with taken := w.taken+session.onOffer w,refused := false }
    | _ => w

/-- The rate that the output divisor depends on -/
def sourceRate : Nat := if session.sampleRate ≠ 0 then session.sampleRate else session.frequency

/-- The session's `freq_div` -/
def freqDiv : Nat :=
  session.setup.outputFreqDiv (outputChannels session.setup.outputForceMono session.channels)
    session.sourceRate

theorem freqDiv_pos : 0 < session.freqDiv := session.setup.outputFreqDiv_pos _ _

/-- What a frame of the source becomes on the output channels -/
def output (f : Nat) : List Int16 :=
  rendered session.setup.outputForceMono session.setup.scalePercent
    (sourceFrame session.pcm session.channels f)

/-- The library holds a result of the firmware and reads the ring where the firmware has written
the next frame. -/
structure Alive (s : MpegaStream) (w : Producer) : Prop where
  number : s.result.session = session.number
  produced : s.result.bytesProduced = w.produced
  format : 0 < w.produced →
    s.result.channels = session.channels ∧ s.result.sampleRate = session.sampleRate
  offset : s.pcmReadOffset = (session.start+s.pcmSeenBytes)%session.setup.pcmRingLength
  room : w.produced ≤ w.acked+session.setup.pcmRingLength
  small : w.produced < 2^32
  frames : session.frameBytes ∣ w.produced

/-- What holds between the calls of a session -/
structure Synced (s : MpegaStream) (w : Producer) : Prop where
  setup : s.setup = session.setup
  opened : s.sessionOpen = true
  frequency : session.sampleRate = 0 → s.frequency = session.frequency
  taken : s.pcmSeenBytes = w.taken*session.frameBytes
  seen : s.pcmSeenBytes ≤ w.produced
  pending : w.acked+s.pcmPendingAckBytes = s.pcmSeenBytes
  result : session.Alive s w ∨ s.result = .zero

end Session

section

variable (s : MpegaStream)

@[simp] theorem updateStreamInfo_setup : s.updateStreamInfo.setup = s.setup := by
  unfold MpegaStream.updateStreamInfo
  split_ifs <;> rfl

@[simp] theorem updateStreamInfo_result : s.updateStreamInfo.result = s.result := by
  unfold MpegaStream.updateStreamInfo
  split_ifs <;> rfl

@[simp] theorem updateStreamInfo_seen : s.updateStreamInfo.pcmSeenBytes = s.pcmSeenBytes := by
  unfold MpegaStream.updateStreamInfo
  split_ifs <;> rfl

@[simp] theorem updateStreamInfo_offset : s.updateStreamInfo.pcmReadOffset = s.pcmReadOffset := by
  unfold MpegaStream.updateStreamInfo
  split_ifs <;> rfl

@[simp] theorem updateStreamInfo_pending :
    s.updateStreamInfo.pcmPendingAckBytes = s.pcmPendingAckBytes := by
  unfold MpegaStream.updateStreamInfo
  split_ifs <;> rfl

@[simp] theorem updateStreamInfo_opened : s.updateStreamInfo.sessionOpen = s.sessionOpen := by
  unfold MpegaStream.updateStreamInfo
  split_ifs <;> rfl

theorem updateStreamInfo_frequency (h : s.result.sampleRate = 0) :
    s.updateStreamInfo.frequency = s.frequency := by
  rw [MpegaStream.updateStreamInfo,if_pos h]

end

namespace Session

variable {session : Session} {s : MpegaStream} {w : Producer}

theorem frameBytes_pos : 0 < session.frameBytes := by
  have h := session.stereo
  unfold frameBytes
  omega

/-- Where the library still knows the session's number, it has all of the firmware's result. -/
theorem Synced.alive (h : session.Synced s w) (hn : s.result.session = session.number) :
    session.Alive s w := by
  cases h.result with
  | inl ha => exact ha
  | inr hz =>
    rw [hz] at hn
    exact absurd hn.symm session.number_ne

/-- A result of the firmware, once it is stored and its acknowledgement is counted -/
theorem Synced.reported (h : session.Synced s w) {acked : Nat} {result : StreamResult}
    (hr : session.Reports w acked result) {pending : Nat} (hp : acked+pending = s.pcmSeenBytes)
    {offset : Nat} (ho : offset = (session.start+s.pcmSeenBytes)%session.setup.pcmRingLength) :
    session.Synced (MpegaStream.updateStreamInfo { s with
        result := result
        pcmPendingAckBytes := pending
        pcmReadOffset := offset }) { w with
        produced := result.bytesProduced
        acked := acked } := by
  refine ⟨?_,?_,?_,?_,?_,?_,Or.inl ⟨?_,?_,?_,?_,hr.room,hr.small,hr.frames⟩⟩
  · rw [updateStreamInfo_setup]
    exact h.setup
  · rw [updateStreamInfo_opened]
    exact h.opened
  · intro hzero
    have hrate : result.sampleRate = 0 := by
      cases hr.rate with
      | inl h0 => exact h0
      | inr h0 => exact h0.trans hzero
    rw [updateStreamInfo_frequency _ hrate]
    exact h.frequency hzero
  · rw [updateStreamInfo_seen]
    exact h.taken
  · rw [updateStreamInfo_seen]
    exact le_trans h.seen hr.more
  · rw [updateStreamInfo_seen,updateStreamInfo_pending]
    exact hp
  · rw [updateStreamInfo_result]
    exact hr.number
  · rw [updateStreamInfo_result]
  · rw [updateStreamInfo_result]
    exact hr.format
  · rw [updateStreamInfo_offset,updateStreamInfo_seen]
    exact ho

/-- A call that fails leaves a stream that has lost its session, or one that is as before. -/
theorem Synced.unanswered (h : session.Synced s w) {answer : StreamAnswer}
    (hno : answer.isOk = false) (refused : Bool) :
    session.Synced { s with result := answer.stored s.result } { w with refused := refused } := by
  cases answer with
  | ok result => cases hno
  | failed => exact ⟨h.setup,h.opened,h.frequency,h.taken,h.seen,h.pending,Or.inr rfl⟩
  | notEntered =>
    refine ⟨h.setup,h.opened,h.frequency,h.taken,h.seen,h.pending,?_⟩
    cases h.result with
    | inl ha =>
      exact Or.inl ⟨ha.number,ha.produced,ha.format,ha.offset,ha.room,ha.small,ha.frames⟩
    | inr hz => exact Or.inr hz

/-- An acknowledgement keeps the sides together; the firmware is told just what was read. -/
theorem ackPcm_wp (h : session.Synced s w) (force : Bool) :
    session.firmware.wp (s.ackPcm force) (fun r w' => session.Synced r.2 w' ∧ w'.taken = w.taken ∧
      w'.refused = (w.refused || !r.1)) w := by
  have hopen : ¬ (!s.sessionOpen) = true := by simp [h.opened]
  unfold MpegaStream.ackPcm
  rw [if_neg hopen]
  split_ifs with hnone hsoon
  · exact ⟨h,rfl,(Bool.or_false _).symm⟩
  · exact ⟨h,rfl,(Bool.or_false _).symm⟩
  intro answer hallowed
  cases answer with
  | ok result =>
    obtain ⟨hnumber,hr⟩ := hallowed
    have hoffset := hr.read
    rw [h.pending] at hoffset
    exact ⟨h.reported hr (by rw [h.pending,Nat.add_zero]) hoffset,rfl,(Bool.or_false _).symm⟩
  | failed => exact ⟨h.unanswered rfl true,rfl,(Bool.or_true _).symm⟩
  | notEntered => exact ⟨h.unanswered rfl true,rfl,(Bool.or_true _).symm⟩

theorem Synced.sent (h : session.Synced s w) (sent : Bool) :
    session.Synced { s with eofSent := sent } w := by
  refine ⟨h.setup,h.opened,h.frequency,h.taken,h.seen,h.pending,?_⟩
  cases h.result with
  | inl ha => exact Or.inl ⟨ha.number,ha.produced,ha.format,ha.offset,ha.room,ha.small,ha.frames⟩
  | inr hz => exact Or.inr hz

theorem feedAnswered_snd (answer : StreamAnswer) :
    (s.feedAnswered answer).2 = if answer.isOk then
      MpegaStream.updateStreamInfo { s with result := answer.stored s.result }
      else { s with result := answer.stored s.result } := by
  unfold MpegaStream.feedAnswered
  dsimp only
  split_ifs <;> rfl

/-- So does a feed. -/
theorem feedGot_wp (h : session.Synced s w) (got : Int) :
    session.firmware.wp (s.feedGot got) (fun r w' => session.Synced r.2 w' ∧ w'.taken = w.taken)
      w := by
  have hsent := h.sent (s.eofSent || decide (got = 0))
  unfold MpegaStream.feedGot
  dsimp only
  split_ifs with hbad hstage hdesc
  · exact ⟨h,rfl⟩
  · exact ⟨hsent,rfl⟩
  · exact ⟨hsent,rfl⟩
  intro answer hallowed
  refine ⟨?_,by cases answer <;> rfl⟩
  rw [feedAnswered_snd]
  cases answer with
  | ok result =>
    exact hsent.reported hallowed.2 h.pending (h.alive hallowed.1).offset
  | failed => exact hsent.unanswered rfl w.refused
  | notEntered => exact hsent.unanswered rfl w.refused

theorem feedAttempt_wp (h : session.Synced s w) :
    session.firmware.wp s.feedAttempt (fun r w' => session.Synced r.2 w' ∧ w'.taken = w.taken)
      w := by
  unfold MpegaStream.feedAttempt
  split_ifs with havail
  · exact ⟨h,rfl⟩
  rw [World.wp_bind]
  refine session.firmware.wp_mono (ackPcm_wp h true) fun r w' hr => ?_
  obtain ⟨acked,s'⟩ := r
  obtain ⟨hs',htaken,-⟩ := hr
  dsimp only at hs' ⊢
  split_ifs
  · exact ⟨hs',htaken⟩
  · exact ⟨hs',htaken⟩
  · exact ⟨hs',htaken⟩
  intro got _
  refine session.firmware.wp_mono (feedGot_wp hs' got) fun r w'' hr => ?_
  exact ⟨hr.1,hr.2.trans htaken⟩

theorem feedAttempts_wp (attempts : Nat) (h : session.Synced s w) :
    session.firmware.wp (MpegaStream.feedAttempts attempts s)
      (fun r w' => session.Synced r.2 w' ∧ w'.taken = w.taken) w := by
  induction attempts generalizing s w with
  | zero => exact ⟨h,rfl⟩
  | succ attempts ih =>
    rw [MpegaStream.feedAttempts,World.wp_bind]
    refine session.firmware.wp_mono (feedAttempt_wp h) fun r w' hr => ?_
    obtain ⟨status,s'⟩ := r
    cases status with
    | some status => exact hr
    | none =>
      refine session.firmware.wp_mono (ih hr.1) fun r w'' hr' => ?_
      exact ⟨hr'.1,hr'.2.trans hr.2⟩

/-- Where there is anything to read, the session is alive. -/
theorem Synced.available (h : session.Synced s w) (ha : s.pcmAvailable ≠ 0) :
    session.Alive s w ∧ s.pcmAvailable = w.produced-w.taken*session.frameBytes ∧
      0 < s.pcmAvailable := by
  have hpos := Nat.pos_of_ne_zero ha
  cases h.result with
  | inl halive =>
    refine ⟨halive,?_,hpos⟩
    have hseen := h.seen
    unfold MpegaStream.pcmAvailable
    rw [halive.produced,if_neg (by omega),h.taken]
  | inr hz =>
    unfold MpegaStream.pcmAvailable at ha
    rw [hz] at ha
    have hzero : StreamResult.zero.bytesProduced = 0 := rfl
    rw [hzero,Nat.zero_sub,ite_self] at ha
    exact absurd rfl ha

section

variable (h : session.Synced s w) (ha : s.pcmAvailable ≠ 0)

include h ha

theorem sourceChannels_eq : s.sourceChannels = session.channels := by
  obtain ⟨halive,heq,hpos⟩ := h.available ha
  have hc := (halive.format (by omega)).1
  have hst := session.stereo
  unfold MpegaStream.sourceChannels maxChannels
  rw [hc]
  dsimp only
  split_ifs <;> omega

theorem planarChannels_eq :
    s.planarChannels = outputChannels session.setup.outputForceMono session.channels := by
  have hst : 0 < outputChannels session.setup.outputForceMono session.channels ∧
      outputChannels session.setup.outputForceMono session.channels ≤ 2 := by
    have := session.stereo
    unfold outputChannels
    split_ifs <;> omega
  unfold MpegaStream.planarChannels maxChannels
  rw [sourceChannels_eq h ha,h.setup]
  dsimp only
  rw [if_neg (by omega)]

theorem planarFreqDiv_eq : s.planarFreqDiv = session.freqDiv := by
  obtain ⟨halive,heq,hpos⟩ := h.available ha
  have hrate := (halive.format (by omega)).2
  have hsource : s.sourceRate = session.sourceRate := by
    unfold MpegaStream.sourceRate sourceRate
    rw [hrate]
    split_ifs with h0
    · rfl
    · exact h.frequency (not_not.mp h0)
  rw [MpegaStream.planarFreqDiv,freqDiv,planarChannels_eq h ha,hsource,h.setup]

/-- The bytes copied are those of the frames on offer. -/
theorem planarBytes_eq : s.planarBytes = session.onOffer w*session.frameBytes := by
  obtain ⟨halive,heq,hpos⟩ := h.available ha
  have hfb : 0 < session.frameBytes := frameBytes_pos
  unfold MpegaStream.planarBytes
  rw [sourceChannels_eq h ha,heq,onOffer]
  dsimp only
  have hsize : pcmSize*session.channels*2 = pcmSize*session.frameBytes := Nat.mul_assoc _ _ _
  have hframe : session.channels*2 = session.frameBytes := rfl
  rw [hsize,hframe]
  have hround : ∀ x,x-x%session.frameBytes = x/session.frameBytes*session.frameBytes := by
    intro x
    have := Nat.div_add_mod x session.frameBytes
    rw [Nat.mul_comm] at this
    omega
  rw [hround]
  split_ifs with hlt
  · have hle := Nat.div_le_of_le_mul (Nat.le_of_lt (Nat.mul_comm pcmSize _ ▸ hlt))
    rw [Nat.min_eq_right hle]
  · have hle := (Nat.le_div_iff_mul_le hfb).mpr (Nat.not_lt.mp hlt)
    rw [Nat.min_eq_left hle,Nat.mul_div_cancel _ hfb]

theorem onOffer_fits :
    w.taken*session.frameBytes+session.onOffer w*session.frameBytes ≤ w.produced := by
  obtain ⟨halive,heq,hpos⟩ := h.available ha
  have hle : session.onOffer w*session.frameBytes ≤ w.produced-w.taken*session.frameBytes :=
    le_trans (Nat.mul_le_mul_right _ (Nat.min_le_right _ _)) (Nat.div_mul_le_self _ _)
  omega

theorem onOffer_pos : 0 < session.onOffer w := by
  obtain ⟨halive,heq,hpos⟩ := h.available ha
  obtain ⟨q,hq⟩ := halive.frames
  have hfb : 0 < session.frameBytes := frameBytes_pos
  have hdiff : w.produced-w.taken*session.frameBytes = session.frameBytes*(q-w.taken) := by
    rw [hq,Nat.mul_sub,Nat.mul_comm w.taken]
  have hq' : 0 < q-w.taken := by
    apply Nat.pos_of_ne_zero
    intro h0
    rw [hdiff,h0,Nat.mul_zero] at heq
    omega
  rw [onOffer,hdiff,Nat.mul_div_cancel_left _ hfb]
  exact Nat.lt_min.mpr ⟨by decide,hq'⟩

/-- Both copies render the frames on offer, every `freq_div`-th, and stop behind them. -/
theorem copyRing_eq {ring : Nat → UInt8} (hring : ∀ p,w.acked ≤ p → p < w.produced →
      ring ((session.start+p)%session.setup.pcmRingLength) = session.pcm p) :
    s.copyRing ring =
      ((multiples session.freqDiv (session.onOffer w)).map fun j => session.output (w.taken+j),
        (session.start+(s.pcmSeenBytes+session.onOffer w*session.frameBytes))%
          session.setup.pcmRingLength) := by
  obtain ⟨halive,heq,hpos⟩ := h.available ha
  have hfit := onOffer_fits h ha
  have hfb : 0 < session.frameBytes := frameBytes_pos
  have hseen := h.taken
  have hpending := h.pending
  have hlen := session.ring_pos
  have hroom := halive.room
  have ho : s.pcmReadOffset < session.setup.pcmRingLength := by
    rw [halive.offset]
    exact Nat.mod_lt _ hlen
  have hframe : session.channels*2 = session.frameBytes := rfl
  -- the ring holds the frames from the read offset on
  have hbytes : ∀ i < session.onOffer w*(session.channels*2),
      ring ((s.pcmReadOffset+i)%session.setup.pcmRingLength) =
        session.pcm (w.taken*session.channels*2+i) := by
    intro i hi
    rw [hframe] at hi
    have hplace : (s.pcmReadOffset+i)%session.setup.pcmRingLength =
        (session.start+(s.pcmSeenBytes+i))%session.setup.pcmRingLength := by
      rw [halive.offset,Nat.mod_add_mod,Nat.add_assoc]
    have hpos : w.taken*session.channels*2+i = s.pcmSeenBytes+i := by
      rw [hseen,Nat.mul_assoc,hframe]
    rw [hplace,hpos]
    exact hring _ (by omega) (by omega)
  have hend : (s.pcmReadOffset+session.onOffer w*session.frameBytes)%session.setup.pcmRingLength =
      (session.start+(s.pcmSeenBytes+session.onOffer w*session.frameBytes))%
        session.setup.pcmRingLength := by
    rw [halive.offset,Nat.mod_add_mod,Nat.add_assoc]
  have hlinear : s.pcmReadOffset ≤
      session.setup.pcmRingLength-session.onOffer w*session.frameBytes →
      copyPcmLinear session.channels (outputChannels session.setup.outputForceMono session.channels)
        session.setup.scalePercent (fun i => ring (s.pcmReadOffset+i)) (session.onOffer w)
        session.freqDiv =
      (multiples session.freqDiv (session.onOffer w)).map fun j => session.output (w.taken+j) := by
    intro hline
    apply copyPcmLinear_eq session.stereo _ _ session.freqDiv_pos
    intro i hi
    have hlt : s.pcmReadOffset+i < session.setup.pcmRingLength := by
      rw [hframe] at hi
      omega
    have hplain := hbytes i hi
    rwa [Nat.mod_eq_of_lt hlt] at hplain
  unfold MpegaStream.copyRing
  rw [planarBytes_eq h ha,sourceChannels_eq h ha,planarChannels_eq h ha,planarFreqDiv_eq h ha,
    h.setup,hframe,Nat.mul_div_cancel _ hfb]
  dsimp only
  split_ifs with hline hover
  · rw [hlinear hline,← hend]
    have hfull : s.pcmReadOffset+session.onOffer w*session.frameBytes =
        session.setup.pcmRingLength := by omega
    rw [hfull,Nat.mod_self]
  · rw [hlinear hline,← hend,Nat.mod_eq_of_lt (by omega)]
  · rw [copyPcmWrapped_eq session.stereo _ _ session.freqDiv_pos _ w.taken ho hbytes,← hend]
    rfl

end

variable (session) in
/-- What a call hands out in a session: nothing, with the ring left alone, or the frames that were
on offer, unless their acknowledgement is refused -/
def Hands (w : Producer) (r : Int × List (List Int16) × MpegaStream) (w' : Producer) : Prop :=
  (w'.taken = w.taken ∧ delivered r = []) ∨
    ∃ n,0 < n ∧ w'.taken = w.taken+n ∧ delivered r =
      if w'.refused then []
      else (multiples session.freqDiv n).map fun j => session.output (w.taken+j)

/-- The state that `mpega_copy_pcm_planar` leaves before its acknowledgement -/
theorem Synced.copied (h : session.Synced s w) (ha : s.pcmAvailable ≠ 0) :
    session.Synced { s with
        pcmSeenBytes := (s.pcmSeenBytes+session.onOffer w*session.frameBytes)%2^32
        pcmPendingAckBytes := s.pcmPendingAckBytes+session.onOffer w*session.frameBytes
        pcmReadOffset :=
          (session.start+(s.pcmSeenBytes+session.onOffer w*session.frameBytes))%
            session.setup.pcmRingLength }
      { w with taken := w.taken+session.onOffer w,refused := false } := by
  obtain ⟨halive,heq,hpos⟩ := h.available ha
  have hfit := onOffer_fits h ha
  have hsmall := halive.small
  have hseen := h.taken
  have hpending := h.pending
  have hwrap : (s.pcmSeenBytes+session.onOffer w*session.frameBytes)%2^32 =
      s.pcmSeenBytes+session.onOffer w*session.frameBytes := Nat.mod_eq_of_lt (by omega)
  rw [hwrap]
  refine ⟨h.setup,h.opened,h.frequency,?_,?_,?_,Or.inl ⟨halive.number,halive.produced,
    halive.format,rfl,halive.room,halive.small,halive.frames⟩⟩
  · rw [hseen,Nat.add_mul]
  · change s.pcmSeenBytes+session.onOffer w*session.frameBytes ≤ w.produced
    omega
  · change w.acked+(s.pcmPendingAckBytes+session.onOffer w*session.frameBytes) =
      s.pcmSeenBytes+session.onOffer w*session.frameBytes
    omega

/-- `mpega_copy_pcm_planar` hands out the frames on offer. -/
theorem copyPcmPlanar_wp (h : session.Synced s w) :
    session.firmware.wp s.copyPcmPlanar
      (fun r w' => session.Synced r.2.2 w' ∧ session.Hands w r w') w := by
  unfold MpegaStream.copyPcmPlanar
  split_ifs with hnone hlong hbeyond
  · exact ⟨h,Or.inl ⟨rfl,rfl⟩⟩
  · exact ⟨h,Or.inl ⟨rfl,rfl⟩⟩
  · exact ⟨h,Or.inl ⟨rfl,rfl⟩⟩
  intro ring hring
  obtain ⟨halive,heq,hpos⟩ := h.available hnone
  have hfit := onOffer_fits h hnone
  have hpending := h.pending
  have hseen := h.taken
  have hsmall := halive.small
  have hroom : ¬ 0xffffffff-session.onOffer w*session.frameBytes < s.pcmPendingAckBytes := by omega
  have hfb : 0 < session.frameBytes := frameBytes_pos
  have hframe : session.channels*2 = session.frameBytes := rfl
  change session.firmware.wp (s.planarCopied (s.copyRing ring).1 (s.copyRing ring).2) _ _
  rw [copyRing_eq h hnone hring]
  unfold MpegaStream.planarCopied
  rw [planarBytes_eq h hnone,planarFreqDiv_eq h hnone,sourceChannels_eq h hnone,hframe]
  dsimp only
  rw [Nat.mul_div_cancel _ hfb,← length_multiples,if_neg hroom,World.wp_bind]
  refine session.firmware.wp_mono (ackPcm_wp (h.copied hnone) false) fun r w' hr => ?_
  obtain ⟨acked,s'⟩ := r
  obtain ⟨hs',htaken,hrefused⟩ := hr
  have hpos := onOffer_pos h hnone
  cases acked with
  | false =>
    refine ⟨hs',Or.inr ⟨session.onOffer w,hpos,htaken,?_⟩⟩
    rw [hrefused]
    rfl
  | true =>
    refine ⟨hs',Or.inr ⟨session.onOffer w,hpos,htaken,?_⟩⟩
    rw [hrefused]
    change (_ : List (List Int16)).take (multiples _ _).length = _
    rw [List.take_of_length_le (by rw [List.length_map])]
    rfl

/-- A call keeps a session's two sides together, and hands out what was on offer. -/
theorem decodeFrame_wp (h : session.Synced s w) :
    session.firmware.wp s.decodeFrame
      (fun r w' => session.Synced r.2.2 w' ∧ session.Hands w r w') w := by
  unfold MpegaStream.decodeFrame MpegaStream.feedUntilPcm
  rw [World.wp_bind]
  refine session.firmware.wp_mono (feedAttempts_wp maxFeedAttempts h) fun r w' hr => ?_
  obtain ⟨status,s'⟩ := r
  obtain ⟨hs',htaken⟩ := hr
  dsimp only at hs' ⊢
  split_ifs with hno herr
  · exact ⟨hs',Or.inl ⟨htaken,rfl⟩⟩
  · exact ⟨hs',Or.inl ⟨htaken,List.take_nil⟩⟩
  · refine session.firmware.wp_mono (copyPcmPlanar_wp hs') fun r w'' hr => ?_
    refine ⟨hr.1,?_⟩
    have hhands := hr.2
    unfold Hands at hhands ⊢
    rwa [htaken] at hhands

/-- A batch: how many frames were on offer when the ring was read, and whether the call could then
acknowledge what it had to -/
structure Batch where
  frames : Nat
  kept : Bool

/-- The batch of a call that takes the firmware from `w` to `w'`, if it has read the ring -/
def batch (w w' : Producer) : List Batch :=
  if w'.taken = w.taken then [] else [⟨w'.taken-w.taken,!w'.refused⟩]

/-- How many frames of some batches were handed out -/
def framesKept (batches : List Batch) : Nat := ((batches.filter (·.kept)).map (·.frames)).sum

variable (session)

/-- A session from its `ZZ9KAudioStreamBegin` on: the stream and the firmware after some calls of
`MPEGA_decode_frame`, the batches these have met, and the samples they have returned -/
inductive Calls : MpegaStream → Producer → List Batch → List (List Int16) → Prop
  | begin {s : MpegaStream} (setup : s.setup = session.setup)
      (opened : s.sessionOpen = true) (frequency : s.frequency = session.frequency)
      (seen : s.pcmSeenBytes = 0) (pending : s.pcmPendingAckBytes = 0)
      (offset : s.pcmReadOffset = s.result.pcmRead)
      (reported : session.Reports ⟨0,0,0,false⟩ 0 s.result) :
      Calls s ⟨s.result.bytesProduced,0,0,false⟩ [] []
  | decode {s : MpegaStream} {w : Producer} {batches : List Batch} {samples : List (List Int16)}
      {r : Int × List (List Int16) × MpegaStream} {log : List (Answered MpegaAsk MpegaAnswer)}
      (h : Calls s w batches samples) (hr : s.decodeFrame.Runs log r)
      (ha : session.firmware.Allows w log) :
      Calls r.2.2 (session.firmware.after w log) (batches++batch w (session.firmware.after w log))
        (samples++delivered r)

/-- What a call must meet: but for the last, every batch is of a multiple of `freq_div` frames and
is kept. -/
def Steady (batches : List Batch) : Prop :=
  ∀ b ∈ batches.dropLast,b.frames%session.freqDiv = 0 ∧ b.kept = true

variable {session}

theorem Calls.synced {batches : List Batch} {samples : List (List Int16)}
    (h : session.Calls s w batches samples) : session.Synced s w := by
  induction h with
  | begin setup opened frequency seen pending offset reported =>
    refine ⟨setup,opened,fun _ => frequency,?_,?_,?_,Or.inl ⟨reported.number,rfl,reported.format,?_,
      reported.room,reported.small,reported.frames⟩⟩
    · rw [seen,Nat.zero_mul]
    · rw [seen]
      exact Nat.zero_le _
    · rw [seen,pending]
    · rw [offset,seen]
      exact reported.read
  | decode h hr ha ih => exact (session.firmware.wp_sound (decodeFrame_wp ih) hr ha).1

theorem Calls.taken {batches : List Batch} {samples : List (List Int16)}
    (h : session.Calls s w batches samples) : (batches.map (·.frames)).sum = w.taken := by
  induction h with
  | begin setup opened frequency seen pending offset reported => rfl
  | decode h hr ha ih =>
    have hhands := (session.firmware.wp_sound (decodeFrame_wp h.synced) hr ha).2
    rw [List.map_append,List.sum_append,ih,batch]
    cases hhands with
    | inl hsame => rw [if_pos hsame.1,hsame.1,List.map_nil,List.sum_nil,Nat.add_zero]
    | inr hmore =>
      obtain ⟨n,hn,htaken,-⟩ := hmore
      rw [if_neg (by omega),htaken]
      simp

theorem framesKept_all {batches : List Batch} (h : ∀ b ∈ batches,b.kept = true) :
    framesKept batches = (batches.map (·.frames)).sum := by
  rw [framesKept,List.filter_eq_self.mpr h]

theorem framesKept_le (batches : List Batch) :
    framesKept batches ≤ (batches.map (·.frames)).sum := by
  induction batches with
  | nil => exact Nat.zero_le _
  | cons b batches ih =>
    unfold framesKept at ih ⊢
    rw [List.filter_cons]
    split_ifs
    · rw [List.map_cons,List.map_cons,List.sum_cons,List.sum_cons]
      omega
    · rw [List.map_cons,List.sum_cons]
      omega

theorem sum_frames_mod {batches : List Batch} {d : Nat} (h : ∀ b ∈ batches,b.frames%d = 0) :
    (batches.map (·.frames)).sum%d = 0 := by
  induction batches with
  | nil => exact Nat.zero_mod d
  | cons b batches ih =>
    rw [List.map_cons,List.sum_cons,Nat.add_mod,h b List.mem_cons_self,
      ih fun b hb => h b (List.mem_cons_of_mem _ hb)]
    exact Nat.zero_mod d

end Session

/-- A mono session of 44100 Hz whose second frame alone is not silent, to be handed out at half the
rate -/
def halfRate : Session where
  setup :=
    { layer := 3
      layer3 := ⟨0,⟨2,0⟩,⟨2,0⟩⟩
      layer12 := ⟨0,⟨2,0⟩,⟨2,0⟩⟩
      pcmRingLength := 16
      stagingHandle := 1
      stagingLength := 16
      inputChunkBytes := 16
      scalePercent := 100 }
  number := 1
  channels := 1
  sampleRate := 44100
  frequency := 44100
  start := 0
  pcm p := if p = 3 then 1 else 0
  number_ne := by decide
  stereo := Or.inl rfl
  ring_pos := by decide
  ring_frames := by decide

namespace Session

/-- What the firmware says of that session -/
def halfRateResult (produced acked : Nat) : StreamResult :=
  { session := 1,sampleRate := 44100,channels := 1,pcmRead := acked,bytesProduced := produced
    done := false }

def halfRateStream : MpegaStream :=
  { setup := halfRate.setup,frequency := 44100,channels := 1,result := halfRateResult 0 0
    pcmSeenBytes := 0,pcmReadOffset := 0,pcmPendingAckBytes := 0,sessionOpen := true
    eofSent := false }

/-- A call that meets a batch of `k` frames, and one that meets a single frame more -/
def halfRateLogs (k : Nat) :
    List (Answered MpegaAsk MpegaAnswer) × List (Answered MpegaAsk MpegaAnswer) :=
  ([⟨.readSource 16,(4 : Int)⟩,⟨.feed 1 1 4 false,StreamAnswer.ok (halfRateResult (k*2) 0)⟩,
    ⟨.ring,halfRate.pcm⟩],
  [⟨.read 1 (k*2),StreamAnswer.ok (halfRateResult (k*2) (k*2))⟩,⟨.readSource 16,(4 : Int)⟩,
    ⟨.feed 1 1 4 false,StreamAnswer.ok (halfRateResult (k*2+2) (k*2))⟩,⟨.ring,halfRate.pcm⟩])

theorem halfRate_reports {w : Producer} {produced acked : Nat} (hmore : w.produced ≤ produced*2)
    (hroom : produced*2 ≤ acked+16) (hacked : acked < 16) :
    halfRate.Reports w acked (halfRateResult (produced*2) acked) where
  number := rfl
  format _ := ⟨rfl,rfl⟩
  rate := Or.inr rfl
  read := by
    change acked = (0+acked)%16
    rw [Nat.zero_add,Nat.mod_eq_of_lt hacked]
  more := hmore
  room := hroom
  small := by
    change produced*2 < 2^32
    omega
  frames := Nat.dvd_mul_left 2 produced

theorem halfRate_ring {w : Producer} (h : w.produced ≤ 16) (p : Nat) (_ : w.acked ≤ p)
    (hp : p < w.produced) : halfRate.pcm ((0+p)%16) = halfRate.pcm p := by
  rw [Nat.zero_add,Nat.mod_eq_of_lt (by omega)]

theorem halfRate_calls {k : Nat} (hpos : 0 < k) (hk : k ≤ 2)
    {r₁ r₂ : Int × List (List Int16) × MpegaStream}
    (h₁ : halfRateStream.decodeFrame.replay (halfRateLogs k).1 = some r₁)
    (h₂ : r₁.2.2.decodeFrame.replay (halfRateLogs k).2 = some r₂) :
    halfRate.Calls r₂.2.2 ⟨(k+1)*2,k*2,k+1,false⟩ [⟨k,true⟩,⟨1,true⟩]
      (delivered r₁++delivered r₂) := by
  have hbegin : halfRate.Calls halfRateStream ⟨0,0,0,false⟩ [] [] :=
    .begin rfl rfl rfl rfl rfl rfl (@halfRate_reports ⟨0,0,0,false⟩ 0 0 (by decide) (by decide)
      (by decide))
  have hoffer₁ : halfRate.onOffer ⟨k*2,0,0,false⟩ = k := by
    change min 1152 ((k*2-0*2)/2) = k
    omega
  have hoffer₂ : halfRate.onOffer ⟨(k+1)*2,k*2,k,false⟩ = 1 := by
    change min 1152 (((k+1)*2-k*2)/2) = 1
    omega
  have hafter₁ : halfRate.firmware.after ⟨0,0,0,false⟩ (halfRateLogs k).1 = ⟨k*2,0,k,false⟩ := by
    change Producer.mk (k*2) 0 (0+halfRate.onOffer ⟨k*2,0,0,false⟩) false = _
    rw [hoffer₁,Nat.zero_add]
  have hafter₂ : halfRate.firmware.after ⟨k*2,0,k,false⟩ (halfRateLogs k).2 =
      ⟨(k+1)*2,k*2,k+1,false⟩ := by
    change Producer.mk (k*2+2) (0+k*2) (k+halfRate.onOffer ⟨k*2+2,0+k*2,k,false⟩) false = _
    rw [Nat.zero_add,← Nat.succ_mul,hoffer₂]
  have hallows₁ : halfRate.firmware.Allows ⟨0,0,0,false⟩ (halfRateLogs k).1 :=
    ⟨trivial,⟨rfl,halfRate_reports (Nat.zero_le _) (by omega) (by decide)⟩,
      halfRate_ring (show k*2 ≤ 16 by omega),trivial⟩
  have hallows₂ : halfRate.firmware.Allows ⟨k*2,0,k,false⟩ (halfRateLogs k).2 := by
    refine ⟨⟨rfl,?_⟩,trivial,⟨rfl,?_⟩,halfRate_ring (show k*2+2 ≤ 16 by omega),trivial⟩
    · change halfRate.Reports _ (0+k*2) _
      rw [Nat.zero_add]
      exact halfRate_reports (Nat.le_refl _) (by omega) (by omega)
    · change halfRate.Reports _ (0+k*2) _
      rw [Nat.zero_add,← Nat.succ_mul]
      exact halfRate_reports (show k*2 ≤ (k+1)*2 by omega) (by omega) (by omega)
  have hfirst := hbegin.decode (Ask.runs_of_replay h₁) hallows₁
  rw [hafter₁] at hfirst
  have hsecond := hfirst.decode (Ask.runs_of_replay h₂) hallows₂
  rw [hafter₂] at hsecond
  have hbatch₁ : batch ⟨0,0,0,false⟩ ⟨k*2,0,k,false⟩ = [⟨k,true⟩] := if_neg (Nat.ne_of_gt hpos)
  have hbatch₂ : batch ⟨k*2,0,k,false⟩ ⟨(k+1)*2,k*2,k+1,false⟩ = [⟨1,true⟩] := by
    rw [batch,if_neg (show ¬ k+1 = k by omega)]
    simp
  rw [hbatch₁,hbatch₂] at hsecond
  exact hsecond

/-- The two calls in full -/
def halfRateOut (k : Nat) : Option (List (List Int16) × MpegaStream) := do
  let r₁ ← halfRateStream.decodeFrame.replay (halfRateLogs k).1
  let r₂ ← r₁.2.2.decodeFrame.replay (halfRateLogs k).2
  return (delivered r₁++delivered r₂,r₂.2.2)

theorem halfRateOut_calls {k : Nat} (hpos : 0 < k) (hk : k ≤ 2) {samples : List (List Int16)}
    (h : (halfRateOut k).map Prod.fst = some samples) : ∃ s,halfRate.Calls s
      ⟨(k+1)*2,k*2,k+1,false⟩ [⟨k,true⟩,⟨1,true⟩] samples := by
  unfold halfRateOut at h
  cases h₁ : halfRateStream.decodeFrame.replay (halfRateLogs k).1 with
  | none =>
    rw [h₁] at h
    cases h
  | some r₁ =>
    cases h₂ : r₁.2.2.decodeFrame.replay (halfRateLogs k).2 with
    | none =>
      rw [h₁] at h
      simp only [Option.bind_eq_bind,Option.bind_some,h₂,Option.bind_none,Option.map_none] at h
      cases h
    | some r₂ =>
      rw [h₁] at h
      simp only [Option.bind_eq_bind,Option.bind_some,h₂,Option.pure_def,Option.map_some] at h
      exact ⟨_,Option.some.inj h ▸ halfRate_calls hpos hk h₁ h₂⟩

/-- Every run of `MPEGA_decode_frame` calls returns the frames 0, d, 2d, … of the source, however
the firmware cuts it into batches, as long as every batch but the last is of a multiple of d
frames. -/
theorem decodeFrame_decimates {session : Session} {s : MpegaStream} {w : Producer}
    {batches : List Batch} {samples : List (List Int16)} (h : session.Calls s w batches samples)
    (hsteady : session.Steady batches) :
    samples = (multiples session.freqDiv (framesKept batches)).map session.output ∧
      framesKept batches*session.frameBytes ≤ w.produced := by
  have hall : framesKept batches ≤ w.taken := by
    rw [← h.taken]
    exact framesKept_le batches
  have hbound : framesKept batches*session.frameBytes ≤ w.produced := by
    have hseen := h.synced.seen
    rw [h.synced.taken] at hseen
    exact le_trans (Nat.mul_le_mul_right _ hall) hseen
  refine ⟨?_,hbound⟩
  clear hall hbound
  induction h with
  | begin setup opened frequency seen pending offset reported =>
    rw [framesKept]
    change [] = (multiples session.freqDiv 0).map session.output
    rw [multiples_zero]
    rfl
  | @decode s w batches samples r log h hr ha ih =>
    have hhands := (session.firmware.wp_sound (decodeFrame_wp h.synced) hr ha).2
    generalize session.firmware.after w log = w' at hhands hsteady
    unfold batch at hsteady ⊢
    cases hhands with
    | inl hsame =>
      obtain ⟨htaken,hnone⟩ := hsame
      rw [if_pos htaken,List.append_nil] at hsteady ⊢
      rw [hnone,List.append_nil]
      exact ih hsteady
    | inr hmore =>
      obtain ⟨n,hn,htaken,hsome⟩ := hmore
      have hne : ¬ w'.taken = w.taken := by omega
      rw [if_neg hne] at hsteady ⊢
      -- so far every batch was of a multiple of the divisor, and the call starts at one
      have hsteady' : ∀ b ∈ batches,b.frames%session.freqDiv = 0 ∧ b.kept = true := by
        intro b hb
        apply hsteady
        rwa [List.dropLast_concat]
      have htotal : framesKept batches = w.taken := by
        rw [framesKept_all fun b hb => (hsteady' b hb).2]
        exact h.taken
      have hmod : w.taken%session.freqDiv = 0 := by
        rw [← h.taken]
        exact sum_frames_mod fun b hb => (hsteady' b hb).1
      have hbefore := ih fun b hb => hsteady' b (List.dropLast_subset _ hb)
      have hcount : w'.taken-w.taken = n := by omega
      have happend : framesKept (batches++[⟨n,!w'.refused⟩]) =
          w.taken+if w'.refused then 0 else n := by
        rw [← htotal]
        unfold framesKept
        cases w'.refused <;> simp
      rw [hcount,happend,hsome,hbefore,htotal]
      cases w'.refused with
      | true => exact List.append_nil _
      | false =>
        change _++_ = (multiples session.freqDiv (w.taken+n)).map session.output
        rw [multiples_add session.freqDiv_pos hmod,List.map_append,List.map_map]
        rfl

/-- With a first batch of two frames the second frame of the source is left out. -/
theorem decodeFrame_decimates_halved : ∃ s,
    halfRate.Calls s ⟨6,4,3,false⟩ [⟨2,true⟩,⟨1,true⟩] [[0],[0]] ∧
      [[0],[0]] = (multiples halfRate.freqDiv 3).map halfRate.output := by
  obtain ⟨s,h⟩ := @halfRateOut_calls 2 (by decide) (by decide) [[0],[0]] (by decide +kernel)
  have hsteady : halfRate.Steady [⟨2,true⟩,⟨1,true⟩] := by
    intro b hb
    rw [List.eq_of_mem_singleton hb]
    exact ⟨by decide,rfl⟩
  exact ⟨s,h,(decodeFrame_decimates h hsteady).1⟩

/-- With two batches of one frame each it is handed out, and no choice of frames 0, 2, 4, … does
so. -/
theorem decodeFrame_not_decimates : ¬ ∀ (session : Session) (s : MpegaStream) (w : Producer)
    (batches : List Batch) (samples : List (List Int16)),session.Calls s w batches samples →
      ∃ n,samples = (multiples session.freqDiv n).map session.output := by
  intro hall
  obtain ⟨s,h⟩ := @halfRateOut_calls 1 (by decide) (by decide) [[0],[1]] (by decide +kernel)
  obtain ⟨n,hn⟩ := hall _ _ _ _ _ h
  have hlen := congrArg List.length hn
  rw [List.length_map,length_multiples] at hlen
  have hdiv : halfRate.freqDiv = 2 := by decide
  rw [hdiv] at hlen hn
  have hcount : n = 3 ∨ n = 4 := by
    change 2 = (n+2-1)/2 at hlen
    omega
  cases hcount with
  | inl h3 =>
    subst h3
    exact absurd hn (by decide +kernel)
  | inr h4 =>
    subst h4
    exact absurd hn (by decide +kernel)

end Session

end ZZ9K.Mpega
