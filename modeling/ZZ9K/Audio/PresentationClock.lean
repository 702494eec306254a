import Mathlib.Tactic.Ring
import ZZ9K.Audio.PlayClockRuns

namespace ZZ9K.Audio

open ZZ9K.Framework

/-- The frames that may be presented at most -/
def PlayClock.horizon (clock : PlayClock) : Nat :=
  clock.submittedFrames.toNat-clock.discardedFrames.toNat

/-- A call leaves the clock playing or draining, its estimate before the horizon, and what has been
played is not beyond the estimate that stood before. -/
structure Presenting (before after : PlayClock) : Prop where
  state : after.state = .playing ∨ after.state = .draining
  played : after.playedFrames.toNat ≤ before.presentationFrames.toNat
  horizon : after.presentationFrames.toNat < after.horizon

/-- A run does not start the presentation anew, and each of its calls leaves the clock presenting. -/
def Undisturbed : List ClockCall → PlayClock → Prop
  | [],_ => True
  | call::calls,clock => (∀ nowUs,call ≠ .startPresentation nowUs) ∧
    Presenting clock (call.step clock).1 ∧ Undisturbed calls (call.step clock).1

/-- What an update counts with -/
structure SameEstimate (before after : PlayClock) : Prop where
  rate : after.sampleRate = before.sampleRate
  active : after.presentationActive = before.presentationActive
  frames : after.presentationFrames = before.presentationFrames
  lastUs : after.presentationLastUs = before.presentationLastUs
  fraction : after.presentationFraction = before.presentationFraction

section

variable {clock : PlayClock}

theorem presentationHorizon_toNat (clock : PlayClock) :
    (Id.run clock.presentationHorizon).toNat = clock.horizon := by
  unfold PlayClock.presentationHorizon PlayClock.horizon
  by_cases h : clock.discardedFrames ≤ clock.submittedFrames
  · rw [if_pos h]
    exact UInt64.toNat_sub_of_le _ _ h
  · rw [if_neg h]
    rw [UInt64.le_iff_toNat_le] at h
    change 0 = _
    omega

theorem SameEstimate.refl (clock : PlayClock) : SameEstimate clock clock := ⟨rfl,rfl,rfl,rfl,rfl⟩

/-- An estimate that is neither overtaken nor cut off stays as it is. -/
theorem reconciled_sameEstimate {before counted : PlayClock} {horizon : UInt64}
    (hhorizon : horizon.toNat = counted.horizon) (hsame : SameEstimate before counted)
    {caught after : PlayClock}
    (hcaught : caught = if counted.presentationFrames < counted.playedFrames then
      {counted with presentationFrames := counted.playedFrames} else counted)
    (hafter : after = if horizon < caught.presentationFrames then
      {caught with presentationFrames := horizon,presentationFraction := 0} else caught)
    (h : Presenting before after) : SameEstimate before after := by
  have hplayed : after.playedFrames = counted.playedFrames := by
    rw [hafter,hcaught]
    split_ifs <;> rfl
  have hnot : ¬ counted.presentationFrames < counted.playedFrames := by
    have hle := h.played
    rw [hplayed,← hsame.frames] at hle
    rw [UInt64.lt_iff_toNat_lt]
    omega
  rw [if_neg hnot] at hcaught
  subst hcaught
  split_ifs at hafter with hover
  · have hlt := h.horizon
    rw [hafter] at hlt
    change horizon.toNat < caught.horizon at hlt
    omega
  · rw [hafter]
    exact hsame

/-- A completion that neither overtakes the estimate nor cuts it off leaves it as it is. -/
theorem complete_sameEstimate {submitted played : UInt32}
    (h : Presenting clock (Id.run (clock.complete submitted played)).1) :
    SameEstimate clock (Id.run (clock.complete submitted played)).1 := by
  unfold PlayClock.complete at h ⊢
  split_ifs at h ⊢
  · exact .refl clock
  · have hcounted : SameEstimate clock {clock with
        queuedFrames := Id.run (WordArith.sub64 clock.queuedFrames submitted.toUInt64)
        playedFrames := Id.run (WordArith.add64 clock.playedFrames played.toUInt64)
        discardedFrames := Id.run (WordArith.add64 clock.discardedFrames
          (Id.run (WordArith.sub32 submitted played)).toUInt64)} := ⟨rfl,rfl,rfl,rfl,rfl⟩
    exact reconciled_sameEstimate (presentationHorizon_toNat _) hcounted rfl rfl h

/-- Among the calls that leave the clock presenting, only an update changes the estimate. -/
theorem step_sameEstimate {call : ClockCall} (hstart : ∀ nowUs,call ≠ .startPresentation nowUs)
    (hupdate : ∀ nowUs,call ≠ .updatePresentation nowUs)
    (hstate : clock.state = .playing ∨ clock.state = .draining)
    (h : Presenting clock (call.step clock).1) : SameEstimate clock (call.step clock).1 := by
  have hgone := h.state
  cases call with
  | prepare sampleRate limit =>
    change (PlayClock.prepare sampleRate limit).state = .playing ∨
      (PlayClock.prepare sampleRate limit).state = .draining at hgone
    unfold PlayClock.prepare at hgone
    dsimp only at hgone
    split_ifs at hgone <;> simp at hgone
  | queue frames =>
    change SameEstimate clock (Id.run (clock.queue frames)).1
    unfold PlayClock.queue
    split_ifs
    · exact .refl clock
    · rw [Id.run_bind]
      split_ifs
      · exact .refl clock
      · exact ⟨rfl,rfl,rfl,rfl,rfl⟩
  | play =>
    change SameEstimate clock clock.play.1
    unfold PlayClock.play
    split_ifs <;> exact ⟨rfl,rfl,rfl,rfl,rfl⟩
  | pause =>
    change clock.pause.1.state = .playing ∨ clock.pause.1.state = .draining at hgone
    change SameEstimate clock clock.pause.1
    unfold PlayClock.pause at hgone ⊢
    split_ifs at hgone ⊢
    · exact .refl clock
    · simp at hgone
  | resume =>
    change SameEstimate clock clock.resume.1
    unfold PlayClock.resume
    split_ifs <;> exact ⟨rfl,rfl,rfl,rfl,rfl⟩
  | beginDrain =>
    change SameEstimate clock clock.beginDrain.1
    unfold PlayClock.beginDrain
    split_ifs <;> exact ⟨rfl,rfl,rfl,rfl,rfl⟩
  | complete submitted played => exact complete_sameEstimate h
  | startPresentation nowUs => exact absurd rfl (hstart nowUs)
  | updatePresentation nowUs => exact absurd rfl (hupdate nowUs)
  | noteUnderrun =>
    change SameEstimate clock clock.noteUnderrun
    unfold PlayClock.noteUnderrun
    split_ifs <;> exact ⟨rfl,rfl,rfl,rfl,rfl⟩
  | retractUnderrun =>
    change SameEstimate clock (Id.run clock.retractUnderrun)
    unfold PlayClock.retractUnderrun
    split_ifs <;> exact ⟨rfl,rfl,rfl,rfl,rfl⟩
  | stop =>
    change (Id.run clock.stop).state = .playing ∨ (Id.run clock.stop).state = .draining at hgone
    unfold PlayClock.stop at hgone
    split_ifs at hgone with hclosed
    · rw [hclosed] at hstate
      simp at hstate
    · simp at hgone
  | close =>
    rcases hgone with hgone | hgone <;> cases hgone

/-- What the estimate and its fraction are worth, in parts of a frame -/
def PlayClock.estimate (clock : PlayClock) : Nat :=
  clock.presentationFrames.toNat*1000000+clock.presentationFraction.toNat

/-- A presentation has run since `t0`, from `frames` on, and nothing of it was lost. -/
structure Exact (frames t0 : Nat) (clock : PlayClock) : Prop where
  active : clock.presentationActive = true
  state : clock.state = .playing ∨ clock.state = .draining
  played : clock.playedFrames.toNat ≤ clock.presentationFrames.toNat
  since : t0 ≤ clock.presentationLastUs.toNat
  fraction : clock.presentationFraction.toNat < 1000000
  estimate : clock.estimate =
    frames*1000000+(clock.presentationLastUs.toNat-t0)*clock.sampleRate.toNat

/-- Seconds and microseconds scaled apart, with a fraction carried, are the elapsed time scaled. -/
theorem scaled_apart (e r f : Nat) : (e/1000000*r+(e%1000000*r+f)/1000000)*1000000+
    (e%1000000*r+f)%1000000 = e*r+f := by
  have hsplit : e*r = 1000000*(e/1000000*r)+e%1000000*r := by
    conv_lhs => rw [← Nat.div_add_mod e 1000000]
    ring
  omega

theorem fits_horizon (clock : PlayClock) :
    Fits clock.presentationHorizon fun horizon => horizon.toNat = clock.horizon := by
  by_cases h : clock.discardedFrames.toNat ≤ clock.submittedFrames.toNat
  · exact fits_presentationHorizon h
  · unfold PlayClock.presentationHorizon
    rw [if_neg (by rwa [UInt64.le_iff_toNat_le])]
    apply fits_pure
    rw [PlayClock.horizon]
    change 0 = _
    omega

/-- An update that does not reach the horizon adds what the elapsed time is worth. -/
theorem updatePresentation_estimate {nowUs : UInt64} (hactive : clock.presentationActive = true)
    (hstate : clock.state = .playing ∨ clock.state = .draining)
    (hrate : clock.sampleRate.toNat ≤ 1000000) (hfraction : clock.presentationFraction.toNat < 1000000)
    (hplayed : clock.playedFrames.toNat ≤ clock.presentationFrames.toNat)
    (hlast : clock.presentationLastUs.toNat ≤ nowUs.toNat) :
    Fits (clock.updatePresentation nowUs) fun after => after.horizon = clock.horizon ∧
      (after.presentationFrames.toNat < clock.horizon ∨
          clock.estimate+(nowUs.toNat-clock.presentationLastUs.toNat)*clock.sampleRate.toNat <
            clock.horizon*1000000 → ∃ frames fraction,after = {clock with
          presentationLastUs := nowUs,presentationFrames := frames
          presentationFraction := fraction} ∧ fraction.toNat < 1000000 ∧
        frames.toNat*1000000+fraction.toNat =
          clock.estimate+(nowUs.toNat-clock.presentationLastUs.toNat)*clock.sampleRate.toNat) := by
  have hus : usPerSecond.toNat = 1000000 := rfl
  have hrun : ¬ (clock.presentationActive = false ∨
      (clock.state ≠ .playing ∧ clock.state ≠ .draining)) := by
    rw [hactive]
    rcases hstate with he | he <;> simp [he]
  have hcaught : (if clock.presentationFrames < clock.playedFrames then
      {clock with presentationLastUs := nowUs,presentationFrames := clock.playedFrames}
      else {clock with presentationLastUs := nowUs}) =
        {clock with presentationLastUs := nowUs} := by
    rw [if_neg]
    rw [UInt64.lt_iff_toNat_lt,Nat.not_lt]
    exact hplayed
  unfold PlayClock.updatePresentation
  rw [if_neg hrun]
  by_cases hback : nowUs ≤ clock.presentationLastUs
  · rw [if_pos hback]
    refine fits_pure ⟨rfl,fun _ =>
      ⟨clock.presentationFrames,clock.presentationFraction,rfl,hfraction,?_⟩⟩
    rw [UInt64.le_iff_toNat_le] at hback
    rw [show nowUs.toNat-clock.presentationLastUs.toNat = 0 by omega,Nat.zero_mul,Nat.add_zero,
      PlayClock.estimate]
  · rw [if_neg hback]
    refine (fits_sub64 hlast).bind fun elapsed helapsed => ?_
    have hlt := elapsed.toNat_lt
    have hparts := scaled_apart elapsed.toNat clock.sampleRate.toNat clock.presentationFraction.toNat
    obtain ⟨hadvance,hscale⟩ := advance_le (e := elapsed.toNat) hrate hfraction
    refine (fits_mul64 (by rw [UInt64.toNat_div,UInt32.toNat_toUInt64,hus]; dsimp only; omega)).bind
      fun whole hwhole => ?_
    refine (fits_mul64 (by rw [UInt64.toNat_mod,UInt32.toNat_toUInt64,hus]; dsimp only; omega)).bind
      fun scaled hscaled => ?_
    rw [UInt64.toNat_div,UInt32.toNat_toUInt64,hus] at hwhole
    rw [UInt64.toNat_mod,UInt32.toNat_toUInt64,hus] at hscaled
    dsimp only at hwhole hscaled ⊢
    refine (fits_add64 (by rw [UInt32.toNat_toUInt64]; omega)).bind fun scaled' hscaled' => ?_
    rw [UInt32.toNat_toUInt64,hscaled] at hscaled'
    refine (fits_add64 (by rw [UInt64.toNat_div,hus,hscaled']; omega)).bind
      fun advance hadv => ?_
    rw [UInt64.toNat_div,hus,hwhole,hscaled'] at hadv
    refine (fits_horizon _).bind fun horizon hhor => ?_
    change horizon.toNat = clock.horizon at hhor
    rw [hcaught]
    dsimp only
    split_ifs with hfull
    · refine fits_pure ⟨rfl,fun hlt => absurd hlt ?_⟩
      change ¬ (horizon.toNat < clock.horizon ∨ _)
      have hle := Nat.mul_le_mul_right 1000000 (UInt64.le_iff_toNat_le.mp hfull)
      rw [hhor] at hle
      rw [hhor,PlayClock.estimate]
      omega
    · rw [UInt64.le_iff_toNat_le,Nat.not_le] at hfull
      refine (fits_sub64 hfull.le).bind fun room hroom => ?_
      split_ifs with henough
      · refine fits_pure ⟨rfl,fun hlt => absurd hlt ?_⟩
        change ¬ (horizon.toNat < clock.horizon ∨ _)
        have hle : horizon.toNat ≤ clock.presentationFrames.toNat+advance.toNat := by
          rw [UInt64.le_iff_toNat_le,hroom] at henough
          omega
        have hle := Nat.mul_le_mul_right 1000000 hle
        rw [hhor,Nat.add_mul,hadv] at hle
        rw [hhor,PlayClock.estimate,← helapsed]
        omega
      · rw [UInt64.le_iff_toNat_le,Nat.not_le] at henough
        have hhorizonLt := horizon.toNat_lt
        refine (fits_add64 (by omega)).bind fun presentation hpres => ?_
        have hrest : (scaled'%usPerSecond).toNat = scaled'.toNat%1000000 := by
          rw [UInt64.toNat_mod,hus]
        refine (fits_narrow (by omega)).bind fun fraction hfrac => ?_
        refine fits_pure ⟨rfl,fun _ => ⟨presentation,fraction,rfl,by omega,?_⟩⟩
        rw [PlayClock.estimate,← helapsed,hpres,hadv,hfrac,hrest,hscaled',Nat.add_mul,Nat.add_assoc,
          hparts,Nat.add_assoc,Nat.add_comm clock.presentationFraction.toNat]

/-- When a clock was last updated, after one more call -/
def ClockCall.lastUs (last : Nat) : ClockCall → Nat
  | updatePresentation nowUs => nowUs.toNat
  | _ => last

theorem Exact.step {frames t0 : Nat} (h : Exact frames t0 clock) (hrate : clock.sampleRate.toNat ≤ 1000000)
    {call : ClockCall} (hstart : ∀ nowUs,call ≠ .startPresentation nowUs)
    (hlast : clock.presentationLastUs.toNat ≤ call.lastUs clock.presentationLastUs.toNat)
    (hpresenting : Presenting clock (call.step clock).1) :
    Exact frames t0 (call.step clock).1 ∧ (call.step clock).1.sampleRate = clock.sampleRate ∧
      (call.step clock).1.presentationLastUs.toNat = call.lastUs clock.presentationLastUs.toNat := by
  obtain ⟨hactive,hstate,hplayed,hsince,hfraction,hestimate⟩ := h
  by_cases hupdate : ∃ nowUs,call = .updatePresentation nowUs
  · obtain ⟨nowUs,rfl⟩ := hupdate
    have hstep : ((ClockCall.updatePresentation nowUs).step clock).1 =
        Id.run (clock.updatePresentation nowUs) := rfl
    obtain ⟨_,hhorizon,hmoved⟩ := (updatePresentation_estimate hactive hstate hrate hfraction hplayed
      hlast).machine (agrees_updatePresentation clock nowUs)
    have hbefore := hpresenting.horizon
    have hrunning := hpresenting.state
    rw [hstep,hhorizon] at hbefore
    rw [hstep] at hrunning ⊢
    obtain ⟨frames',fraction',heq,hsmall,hsum⟩ := hmoved (Or.inl hbefore)
    rw [heq] at hrunning ⊢
    change clock.presentationLastUs.toNat ≤ nowUs.toNat at hlast
    have hup : clock.presentationFrames.toNat*1000000 ≤ frames'.toNat*1000000+fraction'.toNat := by
      rw [hsum,PlayClock.estimate]
      omega
    refine ⟨⟨hactive,hrunning,?_,?_,hsmall,?_⟩,rfl,rfl⟩
    · change clock.playedFrames.toNat ≤ frames'.toNat
      omega
    · change t0 ≤ nowUs.toNat
      omega
    · change frames'.toNat*1000000+fraction'.toNat =
        frames*1000000+(nowUs.toNat-t0)*clock.sampleRate.toNat
      rw [hsum,hestimate,Nat.add_assoc,← Nat.add_mul]
      congr 2
      omega
  · have hsame := step_sameEstimate hstart (fun nowUs he => hupdate ⟨nowUs,he⟩) hstate hpresenting
    have hlastUs : call.lastUs clock.presentationLastUs.toNat = clock.presentationLastUs.toNat := by
      cases call with
      | updatePresentation nowUs => exact absurd ⟨nowUs,rfl⟩ hupdate
      | _ => rfl
    have hestimates : (call.step clock).1.estimate = clock.estimate := by
      rw [PlayClock.estimate,hsame.frames,hsame.fraction,PlayClock.estimate]
    refine ⟨⟨?_,hpresenting.state,?_,?_,?_,?_⟩,hsame.rate,?_⟩
    · rw [hsame.active,hactive]
    · rw [hsame.frames]
      exact hpresenting.played
    · rw [hsame.lastUs]
      exact hsince
    · rw [hsame.fraction]
      exact hfraction
    · rw [hestimates,hsame.lastUs,hsame.rate]
      exact hestimate
    · rw [hsame.lastUs,hlastUs]

/-- The clock after all calls of a run -/
def clockFrom (calls : List ClockCall) (clock : PlayClock) : PlayClock := Id.run (runCalls calls clock)

/-- When a run last updates the estimate -/
def lastUpdate (last : Nat) (calls : List ClockCall) : Nat := calls.foldl ClockCall.lastUs last

/-- The times of a run's updates do not go back. -/
def InOrder : Nat → List ClockCall → Prop
  | _,[] => True
  | last,call::calls => last ≤ call.lastUs last ∧ InOrder (call.lastUs last) calls

theorem Exact.run {frames t0 : Nat} (h : Exact frames t0 clock) (hrate : clock.sampleRate.toNat ≤ 1000000)
    {calls : List ClockCall} (horder : InOrder clock.presentationLastUs.toNat calls)
    (hundisturbed : Undisturbed calls clock) :
    Exact frames t0 (clockFrom calls clock) ∧ (clockFrom calls clock).sampleRate = clock.sampleRate ∧
      (clockFrom calls clock).presentationLastUs.toNat =
        lastUpdate clock.presentationLastUs.toNat calls := by
  induction calls generalizing clock with
  | nil => exact ⟨h,rfl,rfl⟩
  | cons call calls ih =>
    obtain ⟨hstart,hpresenting,hrest⟩ := hundisturbed
    obtain ⟨hstep,hsame,hlast⟩ := h.step hrate hstart horder.1 hpresenting
    have htail := horder.2
    rw [← hlast] at htail
    obtain ⟨hrun,hrate',hlast'⟩ := ih hstep (by rwa [hsame]) htail hrest
    refine ⟨hrun,hrate'.trans hsame,hlast'.trans ?_⟩
    rw [hlast]
    rfl

theorem startPresentation_exact (hplaying : clock.state = .playing) (nowUs : UInt64) :
    Exact (clock.startPresentation nowUs).presentationFrames.toNat nowUs.toNat
        (clock.startPresentation nowUs) ∧
      (clock.startPresentation nowUs).sampleRate = clock.sampleRate ∧
      (clock.startPresentation nowUs).presentationLastUs = nowUs := by
  unfold PlayClock.startPresentation
  have hzero : (0 : UInt32).toNat < 1000000 := by decide
  rw [if_neg (not_not.mpr hplaying)]
  by_cases hbehind : clock.presentationFrames < clock.playedFrames
  · rw [if_pos hbehind]
    refine ⟨⟨rfl,Or.inl hplaying,le_refl _,le_refl _,hzero,?_⟩,rfl,rfl⟩
    rw [Nat.sub_self,Nat.zero_mul]
    rfl
  · rw [if_neg hbehind]
    rw [UInt64.lt_iff_toNat_lt,Nat.not_lt] at hbehind
    refine ⟨⟨rfl,Or.inl hplaying,hbehind,le_refl _,hzero,?_⟩,rfl,rfl⟩
    rw [Nat.sub_self,Nat.zero_mul]
    rfl

/-- The frames of an exact presentation -/
theorem Exact.frames_eq {frames t0 : Nat} (h : Exact frames t0 clock) :
    clock.presentationFrames.toNat =
      frames+(clock.presentationLastUs.toNat-t0)*clock.sampleRate.toNat/1000000 := by
  have hestimate := h.estimate
  have hfraction := h.fraction
  rw [PlayClock.estimate] at hestimate
  omega

/-- Whole seconds and the rest of one, each turned into ticks, are all the ticks. -/
theorem ticks_apart (f : Nat) {r : Nat} (hr : 0 < r) (hz : Nat) :
    f/r*hz+f%r*hz/r = f*hz/r := by
  have hsplit : f*hz = r*(f/r*hz)+f%r*hz := by
    conv_lhs => rw [← Nat.div_add_mod f r]
    ring
  rw [hsplit,Nat.mul_add_div hr]

theorem presentationPts_toNat (clock : PlayClock) (originPts : UInt64) :
    (Id.run (clock.presentationPts originPts)).toNat = (originPts.toNat+
      clock.presentationFrames.toNat*90000/clock.sampleRate.toNat)%2^64 := by
  unfold PlayClock.presentationPts PlayClock.framesToPts
  by_cases hzero : clock.sampleRate = 0
  · rw [if_pos hzero,hzero]
    change originPts.toNat = (originPts.toNat+_/0)%2^64
    rw [Nat.div_zero,Nat.add_zero,Nat.mod_eq_of_lt originPts.toNat_lt]
  · rw [if_neg hzero]
    have hpos : 0 < clock.sampleRate.toNat := by
      rw [Nat.pos_iff_ne_zero]
      exact fun he => hzero (UInt32.toNat_inj.mp he)
    have hlt := clock.sampleRate.toNat_lt
    have hrest := Nat.mod_lt clock.presentationFrames.toNat hpos
    change (originPts+clock.presentationFrames/clock.sampleRate.toUInt64*ptsHz+
      clock.presentationFrames%clock.sampleRate.toUInt64*ptsHz/clock.sampleRate.toUInt64).toNat = _
    have hscaled : (clock.presentationFrames%clock.sampleRate.toUInt64*ptsHz).toNat =
        clock.presentationFrames.toNat%clock.sampleRate.toNat*90000 := by
      rw [UInt64.toNat_mul,UInt64.toNat_mod,UInt32.toNat_toUInt64]
      exact Nat.mod_eq_of_lt (by change _*90000 < _; omega)
    rw [UInt64.toNat_add,UInt64.toNat_add,UInt64.toNat_mul,UInt64.toNat_div,UInt64.toNat_div,hscaled,
      UInt32.toNat_toUInt64]
    have hticks := ticks_apart clock.presentationFrames.toNat hpos 90000
    change (((originPts.toNat+_*90000%2^64)%2^64)+_)%2^64 = _
    omega

/-- Over a run that leaves the presentation undisturbed, the estimate advances by what the time from
its start to its last update is worth, as one update would. Its time stamp is the origin and the
ticks of its frames, as far as that fits a word, and does not go back then. -/
theorem presentation_exact {t0 : UInt64} {calls : List ClockCall} (hplaying : clock.state = .playing)
    (hrate : clock.sampleRate.toNat ≤ 1000000) (horder : InOrder t0.toNat calls)
    (h : Undisturbed calls (clock.startPresentation t0)) :
    ((clockFrom calls (clock.startPresentation t0)).presentationFrames.toNat =
        (clock.startPresentation t0).presentationFrames.toNat+
          (lastUpdate t0.toNat calls-t0.toNat)*clock.sampleRate.toNat/1000000 ∧
      ∀ tk : UInt64,tk.toNat = lastUpdate t0.toNat calls →
        (clockFrom calls (clock.startPresentation t0)).presentationFrames.toNat <
          (clock.startPresentation t0).horizon →
        (clockFrom [.updatePresentation tk] (clock.startPresentation t0)).presentationFrames =
          (clockFrom calls (clock.startPresentation t0)).presentationFrames) ∧
    ∀ (clock : PlayClock) (originPts : UInt64),
      (Id.run (clock.presentationPts originPts)).toNat = (originPts.toNat+
        clock.presentationFrames.toNat*90000/clock.sampleRate.toNat)%2^64 ∧
      ∀ later : PlayClock,later.sampleRate = clock.sampleRate →
        clock.presentationFrames ≤ later.presentationFrames →
        originPts.toNat+later.presentationFrames.toNat*90000/later.sampleRate.toNat < 2^64 →
        Id.run (clock.presentationPts originPts) ≤ Id.run (later.presentationPts originPts) := by
  obtain ⟨hexact,hsame,hlast⟩ := startPresentation_exact hplaying t0
  have hlastNat : (clock.startPresentation t0).presentationLastUs.toNat = t0.toNat := by rw [hlast]
  rw [← hsame] at hrate
  obtain ⟨hrun,hrunRate,hrunLast⟩ := hexact.run hrate (by rwa [hlastNat]) h
  have hframes := hrun.frames_eq
  rw [hrunRate,hrunLast,hlastNat,hsame] at hframes
  refine ⟨⟨hframes,?_⟩,?_⟩
  · intro tk htk hbefore
    have hstep : clockFrom [.updatePresentation tk] (clock.startPresentation t0) =
        Id.run ((clock.startPresentation t0).updatePresentation tk) := rfl
    have hle : t0.toNat ≤ tk.toNat := by
      rw [htk,← hlastNat,← hrunLast,hlastNat]
      exact hrun.since
    obtain ⟨_,_,hmoved⟩ := (updatePresentation_estimate hexact.active hexact.state hrate hexact.fraction
      hexact.played (by rwa [hlastNat])).machine (agrees_updatePresentation _ tk)
    rw [hlastNat,hexact.estimate,hlastNat,Nat.sub_self,Nat.zero_mul,Nat.add_zero,hsame] at hmoved
    rw [hframes,← htk] at hbefore
    obtain ⟨frames,fraction,heq,hsmall,hsum⟩ := hmoved (Or.inr (by omega))
    rw [hstep,heq]
    apply UInt64.toNat_inj.mp
    change frames.toNat = _
    rw [hframes,← htk]
    omega
  · intro clock originPts
    refine ⟨presentationPts_toNat clock originPts,?_⟩
    intro later hsame hle hfits
    rw [UInt64.le_iff_toNat_le,presentationPts_toNat,presentationPts_toNat,Nat.mod_eq_of_lt hfits]
    rw [UInt64.le_iff_toNat_le] at hle
    have hticks : clock.presentationFrames.toNat*90000/clock.sampleRate.toNat ≤
        later.presentationFrames.toNat*90000/later.sampleRate.toNat := by
      have hmul := Nat.mul_le_mul_right 90000 hle
      rw [hsame]
      exact Nat.div_le_div_right hmul
    have hsum := Nat.add_le_add_left hticks originPts.toNat
    rw [Nat.mod_eq_of_lt (Nat.lt_of_le_of_lt hsum hfits)]
    exact hsum

end

/-- A clock that plays, with more than two seconds in its queue -/
def playingClock : PlayClock := clockAfter [.prepare 44100 0,.queue 100000,.play]

/-- Two updates, half a second after the start the second one -/
def halfSecond : List ClockCall := [.updatePresentation 100008,.noteUnderrun,.updatePresentation 500007]

theorem presentation_exact_halfSecond :
    (clockFrom halfSecond (playingClock.startPresentation 7)).presentationFrames.toNat = 22050 := by
  have horder : InOrder (7 : UInt64).toNat halfSecond := ⟨by decide,by decide,by decide,trivial⟩
  have hundisturbed : Undisturbed halfSecond (playingClock.startPresentation 7) :=
    ⟨nofun,⟨Or.inl rfl,by decide,by decide⟩,nofun,⟨Or.inl rfl,by decide,by decide⟩,
      nofun,⟨Or.inl rfl,by decide,by decide⟩,trivial⟩
  exact (presentation_exact rfl (by decide) horder hundisturbed).1.1

/-- At the end of the words, the time stamp of one frame more is before that of the other. -/
theorem presentationPts_wraps : ¬ ∀ (clock later : PlayClock) (originPts : UInt64),
    clock.sampleRate.toNat ≤ 1000000 → later.sampleRate = clock.sampleRate →
    clock.presentationFrames ≤ later.presentationFrames →
    (Id.run (later.presentationPts originPts)).toNat = originPts.toNat+
        later.presentationFrames.toNat*90000/later.sampleRate.toNat ∧
      Id.run (clock.presentationPts originPts) ≤ Id.run (later.presentationPts originPts) := by
  intro h
  have hboth := h {PlayClock.zero with sampleRate := 1} {PlayClock.zero with
    sampleRate := 1,presentationFrames := 1} 0xffffffffffffffff (by decide) rfl (by decide)
  exact absurd hboth.2 (by decide)

end ZZ9K.Audio
