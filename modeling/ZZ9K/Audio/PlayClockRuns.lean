import ZZ9K.Audio.PlayClock

namespace ZZ9K.Audio

open ZZ9K.Framework

/-- The calls that change a clock -/
inductive ClockCall
  | prepare (sampleRate queueLimitFrames : UInt32)
  | queue (frames : UInt32)
  | play
  | pause
  | resume
  | beginDrain
  | complete (submittedFrames playedFrames : UInt32)
  | startPresentation (nowUs : UInt64)
  | updatePresentation (nowUs : UInt64)
  | noteUnderrun
  | retractUnderrun
  | stop
  | close

namespace ClockCall

/-- The clock after a call, and what the call returns, if anything -/
def perform {M : Type → Type} [Monad M] [WordArith M] (clock : PlayClock) :
    ClockCall → M (PlayClock × Option Bool)
  | prepare sampleRate limit => return (PlayClock.prepare sampleRate limit,none)
  | queue frames => do
    let (clock,ok) ← clock.queue frames
    return (clock,some ok)
  | play => return (clock.play.1,some clock.play.2)
  | pause => return (clock.pause.1,some clock.pause.2)
  | resume => return (clock.resume.1,some clock.resume.2)
  | beginDrain => return (clock.beginDrain.1,some clock.beginDrain.2)
  | complete submitted played => do
    let (clock,ok) ← clock.complete submitted played
    return (clock,some ok)
  | startPresentation nowUs => return (clock.startPresentation nowUs,none)
  | updatePresentation nowUs => do
    let clock ← clock.updatePresentation nowUs
    return (clock,none)
  | noteUnderrun => return (clock.noteUnderrun,none)
  | retractUnderrun => do
    let clock ← clock.retractUnderrun
    return (clock,none)
  | stop => do
    let clock ← clock.stop
    return (clock,none)
  | close => do
    let clock ← clock.close
    return (clock,none)

/-- A call as the machine makes it -/
def step (clock : PlayClock) (call : ClockCall) : PlayClock × Option Bool :=
  Id.run (call.perform clock)

/-- The frames that a call adds to the clock -/
def accepted (clock : PlayClock) : ClockCall → Nat
  | queue frames => if (Id.run (clock.queue frames)).2 then frames.toNat else 0
  | _ => 0

/-- The sample rate that a call sets, or 0 -/
def rate : ClockCall → Nat
  | prepare sampleRate _ => sampleRate.toNat
  | _ => 0

/-- Whether a stop or close cuts frames off that the presentation estimate has passed already -/
def cuts (clock : PlayClock) : ClockCall → Bool
  | stop | close => clock.state ≠ .closed && clock.presentationFrames ≠ clock.playedFrames
  | _ => false

/-- Whether the last calls have cut anything off, after one more call -/
def cutAfter (clock : PlayClock) (cut : Bool) : ClockCall → Bool
  | prepare _ _ => false
  | call => cut || call.cuts clock

end ClockCall

/-- All calls of a run, from a clock on -/
def runCalls {M : Type → Type} [Monad M] [WordArith M] : List ClockCall → PlayClock → M PlayClock
  | [],clock => return clock
  | call::calls,clock => do
    let (clock,_) ← call.perform clock
    runCalls calls clock

/-- The clock as a run leaves it that starts from zeroed memory -/
def clockAfter (calls : List ClockCall) : PlayClock := Id.run (runCalls calls .zero)

/-- The frames that a run submits in total -/
def framesTotal : List ClockCall → PlayClock → Nat
  | [],_ => 0
  | call::calls,clock => call.accepted clock+framesTotal calls (call.step clock).1

/-- Whether a stop or close since the last `prepare` has cut presented frames off -/
def cutSince : List ClockCall → PlayClock → Bool → Bool
  | [],_,cut => cut
  | call::calls,clock,cut => cutSince calls (call.step clock).1 (call.cutAfter clock cut)

/-- The counters of a clock fit together. -/
structure Accounted (clock : PlayClock) : Prop where
  submitted : clock.submittedFrames.toNat =
    clock.playedFrames.toNat+clock.discardedFrames.toNat+clock.queuedFrames.toNat
  queued : clock.queueLimitFrames ≠ 0 → clock.queuedFrames.toNat ≤ clock.queueLimitFrames.toNat
  played : clock.playedFrames.toNat ≤ clock.presentationFrames.toNat
  fraction : clock.presentationFraction.toNat < 1000000

/-- The presentation estimate is not beyond the frames that can still be heard. -/
def WithinHorizon (clock : PlayClock) : Prop :=
  clock.presentationFrames.toNat ≤ clock.submittedFrames.toNat-clock.discardedFrames.toNat

/-- What every call keeps: the accounts, and the horizon until something is cut off, after which
the clock is out of use -/
structure Kept (total : Nat) (cut : Bool) (clock : PlayClock) : Prop where
  accounted : Accounted clock
  rate : clock.sampleRate.toNat ≤ 1000000
  total : clock.submittedFrames.toNat ≤ total
  within : cut = false → WithinHorizon clock
  idle : cut = true → clock.state = .stopped ∨ clock.state = .closed

theorem kept_prepare (total : Nat) (sampleRate limit : UInt32) (h : sampleRate.toNat ≤ 1000000) :
    Kept total false (PlayClock.prepare sampleRate limit) := by
  refine ⟨⟨rfl,?_,le_refl _,?_⟩,h,Nat.zero_le _,?_,nofun⟩
  · intro _
    exact Nat.zero_le _
  · change (0 : UInt32).toNat < 1000000
    decide
  · intro _
    exact le_refl _

section

variable {clock : PlayClock} {total : Nat} {cut : Bool}

theorem fits_overLimit (clock : PlayClock) (frames : UInt32) :
    Fits (clock.overLimit frames) fun full => full = false → clock.queueLimitFrames ≠ 0 →
      clock.queuedFrames.toNat+frames.toNat ≤ clock.queueLimitFrames.toNat := by
  unfold PlayClock.overLimit
  split_ifs with h0 hlt
  · exact fits_pure fun _ hne => absurd h0 hne
  · exact fits_pure nofun
  · rw [UInt32.lt_iff_toNat_lt,Nat.not_lt] at hlt
    refine (fits_sub64 (by simpa using hlt)).bind fun room hroom => ?_
    refine fits_pure fun hover _ => ?_
    have hle := of_decide_eq_false hover
    rw [UInt64.lt_iff_toNat_lt,hroom,UInt32.toNat_toUInt64,UInt32.toNat_toUInt64] at hle
    omega

theorem agrees_overLimit (clock : PlayClock) (frames : UInt32) :
    Agrees (clock.overLimit frames) (clock.overLimit frames) :=
  agrees_ite (agrees_pure _) (agrees_ite (agrees_pure _)
    ((agrees_sub64 _ _).bind fun _ => agrees_pure _))

theorem Kept.queue (h : Kept total cut clock) {frames : UInt32}
    (hframes : total+(ClockCall.queue frames).accepted clock < 2^64) :
    Fits (clock.queue frames) fun r =>
      Kept (total+(ClockCall.queue frames).accepted clock) cut r.1 ∧
        (r.2 = false → r.1 = clock) ∧ r.1.presentationFrames = clock.presentationFrames := by
  obtain ⟨⟨hsum,hlimit,hplayed,hfraction⟩,hrate,htotal,hwithin,hidle⟩ := h
  have hsame : ∀ n,Kept (total+n) cut clock := fun n =>
    ⟨⟨hsum,hlimit,hplayed,hfraction⟩,hrate,by omega,hwithin,hidle⟩
  obtain ⟨hsome,hover⟩ := (fits_overLimit clock frames).machine (agrees_overLimit clock frames)
  unfold PlayClock.queue
  split_ifs with hrefused
  · exact fits_pure ⟨hsame _,fun _ => rfl,rfl⟩
  · rw [hsome]
    change Fits (if _ then _ else _) _
    by_cases hfull : Id.run (clock.overLimit frames) = true
    · rw [if_pos hfull]
      exact fits_pure ⟨hsame _,fun _ => rfl,rfl⟩
    · have haccepted : (ClockCall.queue frames).accepted clock = frames.toNat := by
        have hok : (Id.run (clock.queue frames)).2 = true := by
          unfold PlayClock.queue
          rw [if_neg hrefused,Id.run_bind,if_neg hfull]
          rfl
        rw [ClockCall.accepted,hok,if_pos rfl]
      rw [if_neg hfull]
      rw [haccepted] at hframes ⊢
      refine (fits_add64 (by rw [UInt32.toNat_toUInt64]; omega)).bind fun submitted hs => ?_
      refine (fits_add64 (by rw [UInt32.toNat_toUInt64]; omega)).bind fun queued hq => ?_
      rw [UInt32.toNat_toUInt64] at hs hq
      refine fits_pure ⟨⟨⟨?_,?_,hplayed,hfraction⟩,hrate,?_,?_,hidle⟩,nofun,rfl⟩
      · dsimp only
        omega
      · intro hne
        have := hover (Bool.eq_false_iff.mpr hfull) hne
        dsimp only
        omega
      · dsimp only
        omega
      · intro hcut
        have := hwithin hcut
        simp only [WithinHorizon] at this ⊢
        omega

/-- A clock in use has had nothing cut off. -/
theorem Kept.uncut (h : Kept total cut clock) (hstate : clock.state ≠ .stopped)
    (hstate' : clock.state ≠ .closed) : cut = false := by
  cases hcut : cut
  · rfl
  · exact absurd (h.idle hcut) (by simp [hstate,hstate'])

/-- A clock in use may change its state, and what says nothing about frames. -/
theorem Kept.restate (h : Kept total cut clock) (hcut : cut = false) (state : ClockState)
    (active : Bool) (lastUs : UInt64) (underruns : UInt32) :
    Kept total cut {clock with
      state := state,presentationActive := active,presentationLastUs := lastUs
      underruns := underruns} := by
  obtain ⟨⟨hsum,hlimit,hplayed,hfraction⟩,hrate,htotal,hwithin,-⟩ := h
  refine ⟨⟨hsum,hlimit,hplayed,hfraction⟩,hrate,htotal,hwithin,?_⟩
  intro htrue
  rw [hcut] at htrue
  exact absurd htrue nofun

theorem Kept.play (h : Kept total cut clock) : Kept total cut clock.play.1 ∧
    (clock.play.2 = false → clock.play.1 = clock) := by
  unfold PlayClock.play
  split_ifs with hrefused
  · exact ⟨h,fun _ => rfl⟩
  · rw [not_or,not_not] at hrefused
    have hcut := h.uncut (by rw [hrefused.1]; nofun) (by rw [hrefused.1]; nofun)
    exact ⟨h.restate hcut .playing _ _ _,nofun⟩

theorem Kept.pause (h : Kept total cut clock) : Kept total cut clock.pause.1 ∧
    (clock.pause.2 = false → clock.pause.1 = clock) := by
  unfold PlayClock.pause
  split_ifs with hrefused
  · exact ⟨h,fun _ => rfl⟩
  · rw [not_not] at hrefused
    have hcut := h.uncut (by rw [hrefused]; nofun) (by rw [hrefused]; nofun)
    exact ⟨h.restate hcut .paused false _ _,nofun⟩

theorem Kept.resume (h : Kept total cut clock) : Kept total cut clock.resume.1 ∧
    (clock.resume.2 = false → clock.resume.1 = clock) := by
  unfold PlayClock.resume
  split_ifs with hrefused
  · exact ⟨h,fun _ => rfl⟩
  · rw [not_not] at hrefused
    have hcut := h.uncut (by rw [hrefused]; nofun) (by rw [hrefused]; nofun)
    exact ⟨h.restate hcut .playing _ _ _,nofun⟩

theorem Kept.beginDrain (h : Kept total cut clock) : Kept total cut clock.beginDrain.1 ∧
    (clock.beginDrain.2 = false → clock.beginDrain.1 = clock) := by
  unfold PlayClock.beginDrain
  split_ifs with hrefused
  · exact ⟨h,fun _ => rfl⟩
  · have hstate : clock.state = .playing ∨ clock.state = .prebuffering := by
      by_cases hp : clock.state = .playing
      · exact .inl hp
      · exact .inr (not_not.mp fun hne => hrefused ⟨hp,hne⟩)
    have hcut : cut = false := by
      rcases hstate with hp | hp
      · exact h.uncut (by rw [hp]; nofun) (by rw [hp]; nofun)
      · exact h.uncut (by rw [hp]; nofun) (by rw [hp]; nofun)
    exact ⟨h.restate hcut .draining _ _ _,nofun⟩

/-- The estimate never lags behind what has been played. -/
theorem catchUp_eq (h : Accounted clock) : (if clock.presentationFrames < clock.playedFrames then
    {clock with presentationFrames := clock.playedFrames} else clock) = clock := by
  have hplayed := h.played
  rw [if_neg]
  rw [UInt64.lt_iff_toNat_lt]
  omega

theorem Kept.startPresentation (h : Kept total cut clock) (nowUs : UInt64) :
    Kept total cut (clock.startPresentation nowUs) ∧
      (clock.startPresentation nowUs).presentationFrames = clock.presentationFrames := by
  unfold PlayClock.startPresentation
  rw [catchUp_eq h.accounted]
  split_ifs with hrefused
  · exact ⟨h,rfl⟩
  · rw [not_not] at hrefused
    have hcut := h.uncut (by rw [hrefused]; nofun) (by rw [hrefused]; nofun)
    obtain ⟨⟨hsum,hlimit,hplayed,-⟩,hrate,htotal,hwithin,hidle⟩ :=
      h.restate hcut clock.state true nowUs clock.underruns
    refine ⟨⟨⟨hsum,hlimit,hplayed,?_⟩,hrate,htotal,hwithin,hidle⟩,rfl⟩
    change (0 : UInt32).toNat < 1000000
    decide

theorem Kept.noteUnderrun (h : Kept total cut clock) : Kept total cut clock.noteUnderrun ∧
    clock.noteUnderrun.presentationFrames = clock.presentationFrames := by
  unfold PlayClock.noteUnderrun
  split_ifs with hplaying
  · have hcut := h.uncut (by rw [hplaying]; nofun) (by rw [hplaying]; nofun)
    exact ⟨h.restate hcut _ _ _ _,rfl⟩
  · exact ⟨h,rfl⟩

theorem Kept.retractUnderrun (h : Kept total cut clock) : Fits clock.retractUnderrun fun clock' =>
    Kept total cut clock' ∧ clock'.presentationFrames = clock.presentationFrames := by
  unfold PlayClock.retractUnderrun
  split_ifs with hsome
  · have hpos : (1 : UInt32).toNat ≤ clock.underruns.toNat := by
      rw [show (1 : UInt32).toNat = 1 from rfl,Nat.one_le_iff_ne_zero]
      intro hzero
      exact hsome (UInt32.toNat_inj.mp hzero)
    refine (fits_sub32 hpos).bind fun underruns _ => ?_
    obtain ⟨⟨hsum,hlimit,hplayed,hfraction⟩,hrate,htotal,hwithin,hidle⟩ := h
    exact fits_pure ⟨⟨⟨hsum,hlimit,hplayed,hfraction⟩,hrate,htotal,hwithin,hidle⟩,rfl⟩
  · exact fits_pure ⟨h,rfl⟩

theorem fits_presentationHorizon (h : clock.discardedFrames.toNat ≤ clock.submittedFrames.toNat) :
    Fits clock.presentationHorizon fun horizon =>
      horizon.toNat = clock.submittedFrames.toNat-clock.discardedFrames.toNat := by
  unfold PlayClock.presentationHorizon
  rw [if_pos (UInt64.le_iff_toNat_le.mpr h)]
  exact fits_sub64 h

/-- A completion moves the estimate up to what has been heard, and back to the horizon. -/
theorem kept_reconciled {horizon : UInt64} (hsum : clock.submittedFrames.toNat =
      clock.playedFrames.toNat+clock.discardedFrames.toNat+clock.queuedFrames.toNat)
    (hlimit : clock.queueLimitFrames ≠ 0 →
      clock.queuedFrames.toNat ≤ clock.queueLimitFrames.toNat)
    (hfraction : clock.presentationFraction.toNat < 1000000)
    (hrate : clock.sampleRate.toNat ≤ 1000000) (htotal : clock.submittedFrames.toNat ≤ total)
    (hcut : cut = false)
    (hhorizon : horizon.toNat = clock.submittedFrames.toNat-clock.discardedFrames.toNat) :
    let caught := if clock.presentationFrames < clock.playedFrames then
      {clock with presentationFrames := clock.playedFrames} else clock
    let clamped := if horizon < caught.presentationFrames then
      {caught with presentationFrames := horizon,presentationFraction := 0} else caught
    Kept total cut clamped ∧ clamped.discardedFrames = clock.discardedFrames ∧
      (clamped.presentationFrames.toNat < clock.presentationFrames.toNat →
        horizon.toNat < clock.presentationFrames.toNat) := by
  intro caught
  have hcaught : caught = {clock with presentationFrames := caught.presentationFrames} ∧
      clock.playedFrames.toNat ≤ caught.presentationFrames.toNat ∧
      clock.presentationFrames.toNat ≤ caught.presentationFrames.toNat := by
    unfold caught
    split_ifs with hlt
    · rw [UInt64.lt_iff_toNat_lt] at hlt
      exact ⟨rfl,le_refl _,hlt.le⟩
    · rw [UInt64.lt_iff_toNat_lt,Nat.not_lt] at hlt
      exact ⟨rfl,hlt,le_refl _⟩
  obtain ⟨heq,hheard,hup⟩ := hcaught
  rw [heq]
  generalize caught.presentationFrames = presentation at hheard hup
  have hidle : cut = true → clock.state = .stopped ∨ clock.state = .closed := by
    intro htrue
    rw [hcut] at htrue
    exact absurd htrue nofun
  dsimp only
  split_ifs with hbeyond
  · rw [UInt64.lt_iff_toNat_lt] at hbeyond
    refine ⟨⟨⟨hsum,hlimit,?_,?_⟩,hrate,htotal,?_,hidle⟩,rfl,id⟩
    · dsimp only
      omega
    · change (0 : UInt32).toNat < 1000000
      decide
    · intro _
      exact hhorizon.le
  · rw [UInt64.lt_iff_toNat_lt,Nat.not_lt] at hbeyond
    refine ⟨⟨⟨hsum,hlimit,hheard,hfraction⟩,hrate,htotal,?_,hidle⟩,rfl,?_⟩
    · intro _
      rw [WithinHorizon]
      exact hhorizon ▸ hbeyond
    · intro hlt
      exact absurd hlt (by dsimp only; omega)

theorem Kept.complete (h : Kept total cut clock) (hfit : total < 2^64)
    (submitted played : UInt32) : Fits (clock.complete submitted played) fun r =>
      Kept total cut r.1 ∧ (r.2 = false → r.1 = clock) ∧
        (r.1.presentationFrames.toNat < clock.presentationFrames.toNat →
          clock.discardedFrames.toNat < r.1.discardedFrames.toNat) := by
  unfold PlayClock.complete
  split_ifs with hrefused
  · exact fits_pure ⟨h,fun _ => rfl,fun hlt => absurd hlt (lt_irrefl _)⟩
  · simp only [not_or,UInt32.lt_iff_toNat_lt,UInt64.lt_iff_toNat_lt,UInt32.toNat_toUInt64,
      Nat.not_lt] at hrefused
    obtain ⟨hpos,hle,hqueued,hstate⟩ := hrefused
    have hcut : cut = false := by
      apply h.uncut
      · intro he
        exact hstate (by rw [he]; exact ⟨nofun,nofun⟩)
      · intro he
        exact hstate (by rw [he]; exact ⟨nofun,nofun⟩)
    obtain ⟨⟨hsum,hlimit,hplayed,hfraction⟩,hrate,htotal,hwithin,hidle⟩ := h
    have hhorizon := hwithin hcut
    rw [WithinHorizon] at hhorizon
    refine (fits_sub32 hle).bind fun cutoff hcutoff => ?_
    refine (fits_sub64 (by rw [UInt32.toNat_toUInt64]; exact hqueued)).bind fun left hleft => ?_
    rw [UInt32.toNat_toUInt64] at hleft
    refine (fits_add64 (by rw [UInt32.toNat_toUInt64]; omega)).bind fun heard hheard => ?_
    rw [UInt32.toNat_toUInt64] at hheard
    refine (fits_add64 (by rw [UInt32.toNat_toUInt64]; omega)).bind fun discarded hdis => ?_
    rw [UInt32.toNat_toUInt64] at hdis
    refine (fits_presentationHorizon (by dsimp only; omega)).bind fun horizon hhor => ?_
    dsimp only at hhor
    obtain ⟨hkept,hsame,hdown⟩ := @kept_reconciled {clock with
      queuedFrames := left,playedFrames := heard,discardedFrames := discarded} total cut horizon
      (by dsimp only; omega) (by intro hne; have := hlimit hne; dsimp only; omega) hfraction hrate
      htotal hcut hhor
    refine fits_pure ⟨hkept,nofun,?_⟩
    intro hlt
    have := hdown hlt
    dsimp only at this hsame ⊢
    rw [hsame]
    omega

/-- The estimate of a clock in use moves to anywhere up to the horizon. -/
theorem Kept.present (h : Kept total cut clock) (lastUs : UInt64)
    {presentation : UInt64} {fraction : UInt32}
    (hup : clock.presentationFrames.toNat ≤ presentation.toNat)
    (hhorizon : presentation.toNat ≤ clock.submittedFrames.toNat-clock.discardedFrames.toNat)
    (hfraction : fraction.toNat < 1000000) :
    Kept total cut {clock with
      presentationLastUs := lastUs,presentationFrames := presentation
      presentationFraction := fraction} := by
  obtain ⟨⟨hsum,hlimit,hplayed,-⟩,hrate,htotal,-,hidle⟩ := h
  exact ⟨⟨hsum,hlimit,hplayed.trans hup,hfraction⟩,hrate,htotal,fun _ => hhorizon,hidle⟩

/-- The frames of an elapsed time are no more than its microseconds. -/
theorem advance_le {e R f : Nat} (hR : R ≤ 1000000) (hf : f < 1000000) :
    e/1000000*R+(e%1000000*R+f)/1000000 ≤ e ∧ e%1000000*R ≤ 1000000*1000000 := by
  have hq : e/1000000*R ≤ e/1000000*1000000 := Nat.mul_le_mul_left _ hR
  have hr : e%1000000*R ≤ e%1000000*1000000 := Nat.mul_le_mul_left _ hR
  omega

theorem Kept.updatePresentation (h : Kept total cut clock) (nowUs : UInt64) :
    Fits (clock.updatePresentation nowUs) fun clock' => Kept total cut clock' ∧
      clock.presentationFrames.toNat ≤ clock'.presentationFrames.toNat := by
  unfold PlayClock.updatePresentation
  split_ifs with hrefused hback
  · exact fits_pure ⟨h,le_refl _⟩
  · refine fits_pure ⟨?_,le_refl _⟩
    obtain ⟨⟨hsum,hlimit,hplayed,hfraction⟩,hrate,htotal,hwithin,hidle⟩ := h
    exact ⟨⟨hsum,hlimit,hplayed,hfraction⟩,hrate,htotal,hwithin,hidle⟩
  · have hstate := (not_or.mp hrefused).2
    have hcut : cut = false := by
      apply h.uncut
      · intro he
        exact hstate (by rw [he]; exact ⟨nofun,nofun⟩)
      · intro he
        exact hstate (by rw [he]; exact ⟨nofun,nofun⟩)
    rw [UInt64.le_iff_toNat_le,Nat.not_le] at hback
    have hus : usPerSecond.toNat = 1000000 := rfl
    have hzero : (0 : UInt32).toNat < 1000000 := by decide
    have hwithin := h.within hcut
    rw [WithinHorizon] at hwithin
    have hsum := h.accounted.submitted
    have hrate := h.rate
    have hfraction := h.accounted.fraction
    have hcatch := catchUp_eq h.accounted
    refine (fits_sub64 hback.le).bind fun elapsed helapsed => ?_
    have hlt := elapsed.toNat_lt
    obtain ⟨hadvance,hscale⟩ := advance_le (e := elapsed.toNat) hrate hfraction
    refine (fits_mul64 (by rw [UInt64.toNat_div,UInt32.toNat_toUInt64,hus]; dsimp only; omega)).bind
      fun whole hwhole => ?_
    refine (fits_mul64 (by rw [UInt64.toNat_mod,UInt32.toNat_toUInt64,hus]; dsimp only; omega)).bind
      fun scaled hscaled => ?_
    rw [UInt64.toNat_div,UInt32.toNat_toUInt64,hus] at hwhole
    rw [UInt64.toNat_mod,UInt32.toNat_toUInt64,hus] at hscaled
    dsimp only at hwhole hscaled ⊢
    refine (fits_add64 (by rw [UInt32.toNat_toUInt64]; omega)).bind fun scaled' hscaled' => ?_
    rw [UInt32.toNat_toUInt64,hscaled] at hscaled'
    refine (fits_add64 (by rw [UInt64.toNat_div,hus,hscaled']; omega)).bind
      fun advance hadv => ?_
    refine (fits_presentationHorizon (by dsimp only; omega)).bind fun horizon hhor => ?_
    dsimp only at hhor
    have hcaught : (if clock.presentationFrames < clock.playedFrames then
        {clock with presentationLastUs := nowUs,presentationFrames := clock.playedFrames}
        else {clock with presentationLastUs := nowUs}) =
          {clock with presentationLastUs := nowUs} := by
      rw [if_neg]
      rw [UInt64.lt_iff_toNat_lt,Nat.not_lt]
      exact h.accounted.played
    rw [hcaught]
    dsimp only
    split_ifs with hfull
    · exact fits_pure ⟨h.present nowUs (hhor ▸ hwithin) hhor.le hzero,hhor ▸ hwithin⟩
    · rw [UInt64.le_iff_toNat_le,Nat.not_le] at hfull
      refine (fits_sub64 hfull.le).bind fun room hroom => ?_
      split_ifs with henough
      · exact fits_pure ⟨h.present nowUs (hhor ▸ hwithin) hhor.le hzero,hhor ▸ hwithin⟩
      · rw [UInt64.le_iff_toNat_le,Nat.not_le] at henough
        have hhorizonLt := horizon.toNat_lt
        refine (fits_add64 (by omega)).bind fun presentation hpres => ?_
        have hrest : (scaled'%usPerSecond).toNat < 1000000 := by
          rw [UInt64.toNat_mod,hus]
          exact Nat.mod_lt _ (by decide)
        refine (fits_narrow (by omega)).bind fun fraction hfrac => ?_
        exact fits_pure ⟨h.present nowUs (by omega) (by omega) (by omega),by
          dsimp only; omega⟩

/-- Stopping keeps the accounts; it keeps the horizon where the estimate is not ahead. -/
theorem Kept.stop (h : Kept total cut clock) (hfit : total < 2^64) :
    Fits clock.stop fun clock' => Kept total (cut || ClockCall.stop.cuts clock) clock' ∧
      clock'.presentationFrames = clock.presentationFrames := by
  unfold PlayClock.stop
  split_ifs with hclosed
  · have hcuts : ClockCall.stop.cuts clock = false := by
      simp [ClockCall.cuts,hclosed]
    rw [hcuts,Bool.or_false]
    exact fits_pure ⟨h,rfl⟩
  · obtain ⟨⟨hsum,hlimit,hplayed,hfraction⟩,hrate,htotal,hwithin,hidle⟩ := h
    refine (fits_add64 (by omega)).bind fun discarded hdis => ?_
    refine fits_pure ⟨⟨⟨?_,?_,hplayed,hfraction⟩,hrate,htotal,?_,?_⟩,rfl⟩
    · change clock.submittedFrames.toNat =
        clock.playedFrames.toNat+discarded.toNat+(0 : UInt64).toNat
      rw [UInt64.toNat_zero]
      omega
    · intro _
      exact Nat.zero_le _
    · intro hnone
      have hlevel : clock.presentationFrames = clock.playedFrames := by
        simp [ClockCall.cuts,hclosed] at hnone
        exact hnone.2
      rw [WithinHorizon]
      dsimp only
      rw [hlevel]
      omega
    · intro _
      exact .inl rfl

theorem Kept.close (h : Kept total cut clock) (hfit : total < 2^64) :
    Fits clock.close fun clock' => Kept total (cut || ClockCall.close.cuts clock) clock' ∧
      clock'.presentationFrames = clock.presentationFrames := by
  refine (h.stop hfit).bind fun clock' hstopped => ?_
  obtain ⟨⟨⟨hsum,hlimit,hplayed,hfraction⟩,hrate,htotal,hwithin,-⟩,hsame⟩ := hstopped
  exact fits_pure ⟨⟨⟨hsum,hlimit,hplayed,hfraction⟩,hrate,htotal,hwithin,fun _ => .inr rfl⟩,hsame⟩

theorem agrees_presentationHorizon (clock : PlayClock) :
    Agrees clock.presentationHorizon clock.presentationHorizon :=
  agrees_ite (agrees_sub64 _ _) (agrees_pure _)

theorem agrees_stop (clock : PlayClock) : Agrees clock.stop clock.stop :=
  agrees_ite (agrees_pure _) ((agrees_add64 _ _).bind fun _ => agrees_pure _)

theorem agrees_updatePresentation (clock : PlayClock) (nowUs : UInt64) :
    Agrees (clock.updatePresentation nowUs) (clock.updatePresentation nowUs) := by
  apply agrees_ite (agrees_pure _)
  apply agrees_ite (agrees_pure _)
  apply (agrees_sub64 _ _).bind fun _ => ?_
  apply (agrees_mul64 _ _).bind fun _ => ?_
  apply (agrees_mul64 _ _).bind fun _ => ?_
  apply (agrees_add64 _ _).bind fun _ => ?_
  apply (agrees_add64 _ _).bind fun _ => ?_
  apply (agrees_presentationHorizon _).bind fun _ => ?_
  apply agrees_ite (agrees_pure _)
  apply (agrees_sub64 _ _).bind fun _ => ?_
  apply agrees_ite (agrees_pure _)
  apply (agrees_add64 _ _).bind fun _ => ?_
  exact (agrees_narrow _).bind fun _ => agrees_pure _

/-- Where nothing overflows, the machine makes every call as it is written. -/
theorem agrees_perform (clock : PlayClock) (call : ClockCall) :
    Agrees (call.perform clock) (call.perform clock) := by
  cases call with
  | prepare | play | pause | resume | beginDrain | startPresentation | noteUnderrun =>
    exact agrees_pure _
  | queue frames =>
    apply Agrees.bind
    · apply agrees_ite (agrees_pure _)
      apply (agrees_overLimit clock frames).bind
      intro full
      apply agrees_ite (agrees_pure _)
      apply (agrees_add64 _ _).bind fun _ => ?_
      exact (agrees_add64 _ _).bind fun _ => agrees_pure _
    · exact fun _ => agrees_pure _
  | complete submitted played =>
    apply Agrees.bind
    · apply agrees_ite (agrees_pure _)
      apply (agrees_sub32 _ _).bind fun _ => ?_
      apply (agrees_sub64 _ _).bind fun _ => ?_
      apply (agrees_add64 _ _).bind fun _ => ?_
      apply (agrees_add64 _ _).bind fun _ => ?_
      exact (agrees_presentationHorizon _).bind fun _ => agrees_pure _
    · exact fun _ => agrees_pure _
  | updatePresentation nowUs =>
    exact (agrees_updatePresentation clock nowUs).bind fun _ => agrees_pure _
  | retractUnderrun =>
    apply Agrees.bind
    · exact agrees_ite ((agrees_sub32 _ _).bind fun _ => agrees_pure _) (agrees_pure _)
    · exact fun _ => agrees_pure _
  | stop => exact (agrees_stop clock).bind fun _ => agrees_pure _
  | close =>
    apply Agrees.bind
    · exact (agrees_stop clock).bind fun _ => agrees_pure _
    · exact fun _ => agrees_pure _

/-- Whether the estimate may have gone back: frames were cut off, or the clock is a new one -/
def MayGoBack (call : ClockCall) (before after : PlayClock) : Prop :=
  before.discardedFrames.toNat < after.discardedFrames.toNat ∨
    ∃ sampleRate limit,call = .prepare sampleRate limit

/-- What one call keeps, and what it may change -/
theorem Kept.perform (h : Kept total cut clock) (call : ClockCall)
    (hframes : total+call.accepted clock < 2^64) (hrate : call.rate ≤ 1000000) :
    Fits (call.perform clock) fun r =>
      Kept (total+call.accepted clock) (call.cutAfter clock cut) r.1 ∧
        (r.2 = some false → r.1 = clock) ∧
        (r.1.presentationFrames.toNat < clock.presentationFrames.toNat →
          MayGoBack call clock r.1) := by
  have hsame : ∀ {clock' : PlayClock},clock'.presentationFrames = clock.presentationFrames →
      clock'.presentationFrames.toNat < clock.presentationFrames.toNat →
        MayGoBack call clock clock' := by
    intro clock' heq hlt
    rw [heq] at hlt
    exact absurd hlt (lt_irrefl _)
  cases call with
  | prepare sampleRate limit =>
    exact fits_pure ⟨kept_prepare _ _ _ hrate,nofun,fun _ => .inr ⟨sampleRate,limit,rfl⟩⟩
  | queue frames =>
    refine (h.queue hframes).bind fun r hr => fits_pure ⟨?_,?_,hsame hr.2.2⟩
    · rw [show ClockCall.cutAfter clock cut (.queue frames) = cut from Bool.or_false cut]
      exact hr.1
    · intro hfalse
      exact hr.2.1 (Option.some.inj hfalse)
  | play =>
    rw [show ClockCall.cutAfter clock cut .play = cut from Bool.or_false cut]
    refine fits_pure ⟨h.play.1,fun hfalse => h.play.2 (Option.some.inj hfalse),hsame ?_⟩
    dsimp only [PlayClock.play]
    split_ifs <;> rfl
  | pause =>
    rw [show ClockCall.cutAfter clock cut .pause = cut from Bool.or_false cut]
    refine fits_pure ⟨h.pause.1,fun hfalse => h.pause.2 (Option.some.inj hfalse),hsame ?_⟩
    dsimp only [PlayClock.pause]
    split_ifs <;> rfl
  | resume =>
    rw [show ClockCall.cutAfter clock cut .resume = cut from Bool.or_false cut]
    refine fits_pure ⟨h.resume.1,fun hfalse => h.resume.2 (Option.some.inj hfalse),hsame ?_⟩
    dsimp only [PlayClock.resume]
    split_ifs <;> rfl
  | beginDrain =>
    rw [show ClockCall.cutAfter clock cut .beginDrain = cut from Bool.or_false cut]
    refine fits_pure ⟨h.beginDrain.1,fun hfalse => h.beginDrain.2 (Option.some.inj hfalse),
      hsame ?_⟩
    dsimp only [PlayClock.beginDrain]
    split_ifs <;> rfl
  | complete submitted played =>
    refine (h.complete (by omega) submitted played).bind fun r hr => fits_pure ⟨?_,?_,?_⟩
    · rw [show ClockCall.cutAfter clock cut (.complete submitted played) = cut
        from Bool.or_false cut]
      exact hr.1
    · intro hfalse
      exact hr.2.1 (Option.some.inj hfalse)
    · exact fun hlt => .inl (hr.2.2 hlt)
  | startPresentation nowUs =>
    rw [show ClockCall.cutAfter clock cut (.startPresentation nowUs) = cut from Bool.or_false cut]
    obtain ⟨hkept,heq⟩ := h.startPresentation nowUs
    exact fits_pure ⟨hkept,nofun,hsame heq⟩
  | updatePresentation nowUs =>
    rw [show ClockCall.cutAfter clock cut (.updatePresentation nowUs) = cut
      from Bool.or_false cut]
    refine (h.updatePresentation nowUs).bind fun clock' hr => fits_pure ⟨hr.1,nofun,?_⟩
    intro hlt
    exact absurd hlt (Nat.not_lt.mpr hr.2)
  | noteUnderrun =>
    rw [show ClockCall.cutAfter clock cut .noteUnderrun = cut from Bool.or_false cut]
    exact fits_pure ⟨h.noteUnderrun.1,nofun,hsame h.noteUnderrun.2⟩
  | retractUnderrun =>
    rw [show ClockCall.cutAfter clock cut .retractUnderrun = cut from Bool.or_false cut]
    exact h.retractUnderrun.bind fun clock' hr => fits_pure ⟨hr.1,nofun,hsame hr.2⟩
  | stop =>
    exact (h.stop (by omega)).bind fun clock' hr => fits_pure ⟨hr.1,nofun,hsame hr.2⟩
  | close =>
    exact (h.close (by omega)).bind fun clock' hr => fits_pure ⟨hr.1,nofun,hsame hr.2⟩

/-- A run that overflows nowhere: by induction on its calls -/
theorem Kept.run (h : Kept total cut clock) (calls : List ClockCall)
    (hframes : total+framesTotal calls clock < 2^64) (hrates : ∀ call ∈ calls,call.rate ≤ 1000000) :
    runCalls calls clock = some (Id.run (runCalls calls clock)) ∧
      Kept (total+framesTotal calls clock) (cutSince calls clock cut)
        (Id.run (runCalls calls clock)) := by
  induction calls generalizing clock total cut with
  | nil => exact ⟨rfl,h⟩
  | cons call calls ih =>
    rw [framesTotal] at hframes ⊢
    obtain ⟨hsome,hkept,-⟩ := (h.perform call (by omega)
      (hrates call List.mem_cons_self)).machine (agrees_perform clock call)
    rw [← Nat.add_assoc] at hframes ⊢
    obtain ⟨hrun,hrest⟩ := ih hkept hframes fun c hc => hrates c (List.mem_cons_of_mem _ hc)
    refine ⟨?_,hrest⟩
    rw [runCalls,hsome]
    exact hrun

end

theorem kept_zero : Kept 0 false .zero := kept_prepare 0 0 0 (by decide)

theorem runCalls_append (calls : List ClockCall) (call : ClockCall) (clock : PlayClock) :
    Id.run (runCalls (calls++[call]) clock) = (call.step (Id.run (runCalls calls clock))).1 := by
  induction calls generalizing clock with
  | nil => rfl
  | cons c calls ih => exact ih (c.step clock).1

theorem framesTotal_append (calls : List ClockCall) (call : ClockCall) (clock : PlayClock) :
    framesTotal (calls++[call]) clock =
      framesTotal calls clock+call.accepted (Id.run (runCalls calls clock)) := by
  induction calls generalizing clock with
  | nil => exact Nat.add_comm _ _
  | cons c calls ih =>
    rw [List.cons_append,framesTotal,ih,framesTotal,Nat.add_assoc]
    rfl

/-- A clock keeps its accounts over whole runs and overflows nowhere. The estimate is within the
horizon until a stop or close cuts presented frames off, and it goes back only where frames are
discarded or the clock is prepared anew. -/
theorem playClock_consistent (calls : List ClockCall) (call : ClockCall)
    (hframes : framesTotal (calls++[call]) .zero < 2^64)
    (hrates : ∀ c ∈ calls++[call],c.rate ≤ 1000000) :
    let before := clockAfter calls
    let after := clockAfter (calls++[call])
    runCalls (calls++[call]) .zero = some after ∧ Accounted after ∧
      (cutSince (calls++[call]) .zero false = false ∨
        (after.state ≠ .stopped ∧ after.state ≠ .closed) → WithinHorizon after) ∧
      ((call.step before).2 = some false → after = before) ∧
      (after.presentationFrames.toNat < before.presentationFrames.toNat →
        MayGoBack call before after) := by
  intro before after
  obtain ⟨hrun,hkept⟩ := kept_zero.run (calls++[call]) (by omega) hrates
  have hafter : after = (call.step before).1 := runCalls_append calls call .zero
  rw [framesTotal_append] at hframes
  obtain ⟨-,hbefore⟩ := kept_zero.run calls (by omega)
    fun c hc => hrates c (List.mem_append_left _ hc)
  obtain ⟨-,-,hrefused,hback⟩ := (hbefore.perform call (by rw [Nat.zero_add]; exact hframes)
    (hrates call (by simp))).machine (agrees_perform _ call)
  refine ⟨hrun,hkept.accounted,?_,?_,?_⟩
  · rintro (hnone | ⟨hstopped,hclosed⟩)
    · exact hkept.within hnone
    · exact hkept.within (hkept.uncut hstopped hclosed)
  · intro hfalse
    rw [hafter]
    exact hrefused hfalse
  · rw [hafter]
    exact hback

/-- A clock that plays 100 frames at 1 kHz, and has presented them all -/
def presentedCalls : List ClockCall :=
  [.prepare 1000 0,.queue 100,.play,.startPresentation 0,.updatePresentation 1000000]

theorem playClock_consistent_stop : Accounted (clockAfter (presentedCalls++[.stop])) :=
  (playClock_consistent presentedCalls .stop (by decide) (by decide)).2.1

/-- A stop leaves the estimate behind the frames that it discards, and `prepare` sets it back
when all frames have been played. -/
theorem playClock_not_consistent :
    (¬ ∀ calls,framesTotal calls .zero < 2^64 → (∀ c ∈ calls,c.rate ≤ 1000000) →
      WithinHorizon (clockAfter calls)) ∧
    ¬ ∀ calls call,framesTotal (calls++[call]) .zero < 2^64 →
      (∀ c ∈ calls++[call],c.rate ≤ 1000000) →
      (clockAfter (calls++[call])).presentationFrames.toNat <
        (clockAfter calls).presentationFrames.toNat →
      (clockAfter calls).discardedFrames.toNat <
        (clockAfter (calls++[call])).discardedFrames.toNat := by
  constructor
  · intro hall
    have hwithin := hall (presentedCalls++[.stop]) (by decide) (by decide)
    rw [WithinHorizon] at hwithin
    exact absurd hwithin (by decide)
  · intro hall
    have hless := hall (presentedCalls++[.complete 100 100]) (.prepare 1000 0)
      (by decide +kernel) (by decide +kernel) (by decide +kernel)
    exact absurd hless (by decide +kernel)

end ZZ9K.Audio
