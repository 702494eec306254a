import ZZ9K.Audio.Mp3Sound

namespace ZZ9K.Audio

open Framework Framework.Attempt

variable {player : Mp3Player} {source : List UInt8}

/-- Whether there is AHI to deliver to -/
abbrev Mp3Player.sounds (player : Mp3Player) : Bool := player.ahi.isSome

/-- What holds of `zzplay` and the board -/
abbrev Mp3Decode.Sound (player : Mp3Player) (source : List UInt8) (d : Mp3Decode) (s : Mp3Board) :
    Prop :=
  Mp3Sound player.setup player.sounds source d.cursor s

/-- What a part of `zzplay` gives up with -/
abbrev Mp3Player.Gives (player : Mp3Player) (source : List UInt8) : Mp3Ended → Mp3Board → Prop :=
  Audio.Gives player.setup source false

/-- A period of AHI has bytes. -/
def Mp3Player.HasPeriods (player : Mp3Player) : Prop :=
  ∀ frames bytes, player.ahi = some (frames,bytes) → 0 < (frames*bytes).toNat

section

variable {d : Mp3Decode} {s : Mp3Board}

theorem mp3Ack_wp (h : d.Sound player source s) (force : Bool) :
    wp (mp3World player.setup) (mp3Ack player d force)
      (fun d' s' => d'.Sound player source s' ∧ Quiet (if force then 1 else 0) s s' ∧
        d'.cursor.producedSeen = d.cursor.producedSeen)
      (player.Gives source) s := by
  rw [mp3Ack]
  by_cases hdue : (!pcmReadDue d.cursor.pendingAck player.setup.ringLength force) = true
  · rw [if_pos hdue]
    cases force with
    | true => cases hdue
    | false => exact ⟨h,.refl s,rfl⟩
  · rw [if_neg hdue]
    refine Attempt.wp_ask fun answer hallowed => ?_
    refine wp_bind.mpr (wp_given (fun reply hreply => ?_) (fun hnone => ?_))
    · subst hreply
      obtain ⟨hsound,hquiet⟩ := h.onRead hallowed
      refine wp_bind.mpr (wp_ensure (fun _ => ⟨hsound,?_,rfl⟩) (fun _ => hsound.gives false))
      cases force with
      | true => exact hquiet
      | false => exact hquiet.weaken
    · subst hnone
      exact h.gives false

/-- What is copied from the ring is the next part of the PCM. -/
theorem mp3CopyRing_wp (h : d.Sound player source s) (hring : 0 < player.setup.ringLength.toNat)
    {bytes : UInt32} (hbytes : d.cursor.producedSeen.toNat+bytes.toNat ≤ s.pcm.length)
    (hsize : bytes.toNat ≤ player.setup.ringLength.toNat) :
    wp (mp3World player.setup) (mp3CopyRing player d bytes)
      (fun data s' => s' = s ∧ data = (s.pcm.drop d.cursor.producedSeen.toNat).take bytes.toNat)
      (player.Gives source) s := by
  have hoffset : d.cursor.pcmOffset.toNat < player.setup.ringLength.toNat := by
    rw [h.offset]
    exact Nat.mod_lt _ hring
  have hlinear : (player.setup.ringLength-d.cursor.pcmOffset).toNat =
      player.setup.ringLength.toNat-d.cursor.pcmOffset.toNat :=
    UInt32.toNat_sub_of_le _ _ (UInt32.le_iff_toNat_le.mpr (Nat.le_of_lt hoffset))
  rw [mp3CopyRing]
  generalize hfirst : (if player.setup.ringLength-d.cursor.pcmOffset < bytes then
    player.setup.ringLength-d.cursor.pcmOffset else bytes) = first
  have hcases : first = bytes ∧ d.cursor.pcmOffset.toNat+bytes.toNat ≤ player.setup.ringLength.toNat ∨
      d.cursor.pcmOffset.toNat+first.toNat = player.setup.ringLength.toNat ∧
        first.toNat < bytes.toNat := by
    rw [← hfirst]
    split_ifs with hwraps
    · right
      rw [UInt32.lt_iff_toNat_lt] at hwraps
      omega
    · left
      rw [UInt32.lt_iff_toNat_lt] at hwraps
      exact ⟨rfl,by omega⟩
  have hfits : d.cursor.pcmOffset.toNat+first.toNat ≤ player.setup.ringLength.toNat := by
    rcases hcases with ⟨rfl,hle⟩ | ⟨heq,-⟩
    · exact hle
    · exact Nat.le_of_eq heq
  have hfirstle : first.toNat ≤ bytes.toNat := by
    rcases hcases with ⟨rfl,-⟩ | ⟨-,hlt⟩
    · exact Nat.le_refl _
    · exact Nat.le_of_lt hlt
  have hdata : s.ringBytes d.cursor.pcmOffset first =
      (s.pcm.drop (d.cursor.producedSeen.toNat+0)).take first.toNat :=
    h.ringBytes_eq (by rw [Nat.add_zero,Nat.mod_eq_of_lt hoffset]) (by omega) hfits
  refine Attempt.wp_ask fun answer hallowed => wp_bind.mpr ?_
  have hanswer : answer = some (s.ringBytes d.cursor.pcmOffset first) :=
    hallowed.trans (if_pos hfits)
  refine wp_given (fun data heq => ?_) (fun hnone => by rw [hanswer] at hnone; cases hnone)
  obtain rfl := Option.some.inj (heq.symm.trans hanswer)
  by_cases hwhole : first = bytes
  · rw [if_pos hwhole]
    subst hwhole
    exact ⟨rfl,hdata⟩
  rw [if_neg hwhole]
  obtain ⟨hend,hlt⟩ := hcases.resolve_left fun h => hwhole h.1
  have hrest : (bytes-first).toNat = bytes.toNat-first.toNat :=
    UInt32.toNat_sub_of_le _ _ (UInt32.le_iff_toNat_le.mpr (Nat.le_of_lt hlt))
  have hzero : (0 : UInt32).toNat = 0 := rfl
  have hrestData : s.ringBytes 0 (bytes-first) =
      (s.pcm.drop (d.cursor.producedSeen.toNat+first.toNat)).take (bytes-first).toNat :=
    h.ringBytes_eq (by rw [hend,Nat.mod_self]; rfl) (by omega) (by omega)
  refine Attempt.wp_ask fun answer hallowed => wp_bind.mpr ?_
  have hanswer : answer = some (s.ringBytes 0 (bytes-first)) :=
    hallowed.trans (if_pos (by omega))
  refine wp_given (fun data heq => ?_) (fun hnone => by rw [hanswer] at hnone; cases hnone)
  obtain rfl := Option.some.inj (heq.symm.trans hanswer)
  refine ⟨rfl,?_⟩
  have hsum : bytes.toNat = first.toNat+(bytes-first).toNat := by omega
  rw [hdata,hrestData,Nat.add_zero,hsum,List.take_add,List.drop_drop]

/-- What the checks on a result let through is what holds anyway. -/
theorem Mp3Decode.Sound.available (h : d.Sound player source s) :
    (d.cursor.result.bytesProduced-d.cursor.producedSeen).toNat =
      s.pcm.length-d.cursor.producedSeen.toNat := by
  have hle := h.seen_le
  rw [← h.tells.produced] at hle
  rw [UInt32.toNat_sub_of_le _ _ (UInt32.le_iff_toNat_le.mpr hle),h.tells.produced]

theorem mp3PumpAhi_wp (hring : 0 < player.setup.ringLength.toNat) {periodFrames frameBytes : UInt32}
    (hahi : player.ahi = some (periodFrames,frameBytes)) {periodBytes : UInt32}
    (hperiod : 0 < periodBytes.toNat) (final : Bool) {fuel : Nat} {available : UInt32}
    (hfuel : available.toNat < fuel) (h : d.Sound player source s)
    (havailable : d.cursor.producedSeen.toNat+available.toNat ≤ s.pcm.length)
    (hsize : available.toNat ≤ player.setup.ringLength.toNat) :
    wp (mp3World player.setup) (mp3PumpAhi player periodBytes frameBytes final fuel available d)
      (fun d' s' => d'.Sound player source s' ∧ Quiet 0 s s') (player.Gives source) s := by
  induction fuel generalizing available d s with
  | zero => exact absurd hfuel (Nat.not_lt_zero _)
  | succ fuel ih =>
    rw [mp3PumpAhi]
    by_cases hmore : periodBytes ≤ available ∨ (final = true ∧ available ≠ 0)
    swap
    · rw [if_neg hmore]
      exact ⟨h,.refl s⟩
    rw [if_pos hmore]
    dsimp only
    generalize hbytes : (if available < periodBytes then available else periodBytes) = bytes
    have hle : bytes.toNat ≤ available.toNat ∧ 0 < bytes.toNat := by
      rw [← hbytes]
      split_ifs with hless
      · rw [UInt32.lt_iff_toNat_lt] at hless
        refine ⟨Nat.le_refl _,Nat.pos_of_ne_zero fun hzero => ?_⟩
        rcases hmore with hmore | ⟨-,hne⟩
        · rw [UInt32.le_iff_toNat_le] at hmore
          omega
        · exact hne (UInt32.toNat_inj.mp hzero)
      · rw [UInt32.lt_iff_toNat_lt,Nat.not_lt] at hless
        exact ⟨hless,hperiod⟩
    have hrest : (available-bytes).toNat = available.toNat-bytes.toNat :=
      UInt32.toNat_sub_of_le _ _ (UInt32.le_iff_toNat_le.mpr hle.1)
    have hgives := h.gives false
    refine Attempt.wp_ask fun ok _ => wp_bind.mpr (wp_ensure (fun _ => ?_) fun _ => hgives)
    refine Attempt.wp_ask fun ok _ => wp_bind.mpr (wp_ensure (fun _ => ?_) fun _ => hgives)
    refine wp_step (mp3CopyRing_wp h hring (Nat.le_trans (Nat.add_le_add_left hle.1 _) havailable)
      (Nat.le_trans hle.1 hsize)) ?_
    rintro data s' ⟨rfl,hdata⟩
    refine Attempt.wp_ask fun ok _ => wp_bind.mpr (wp_ensure (fun hok => ?_) fun hok => ?_)
    swap
    · obtain rfl : ok = false := hok
      exact hgives
    obtain rfl : ok = true := hok
    have hsounds : player.sounds = true := by
      rw [Mp3Player.sounds,hahi]
      rfl
    have hsound : Mp3Sound player.setup player.sounds source
        (d.cursor.seen bytes player.setup.ringLength) {s' with delivered := s'.delivered++data} :=
      h.seen hring (by omega) (by rw [hdata,hsounds]; rfl)
    refine Attempt.wp_ask fun ok _ => wp_bind.mpr
      (wp_ensure (fun _ => ?_) fun _ => hsound.gives false)
    refine wp_step (mp3Ack_wp (d := ⟨_,_,_⟩) hsound false) ?_
    rintro d'' s'' ⟨hsound',hquiet,hseen⟩
    have hsum : d''.cursor.producedSeen.toNat = d.cursor.producedSeen.toNat+bytes.toNat := by
      have hsmall := h.tells.small
      rw [hseen]
      refine (UInt32.toNat_add _ _).trans (Nat.mod_eq_of_lt ?_)
      omega
    have hlength : s'.pcm.length ≤ s''.pcm.length := hquiet.pcm.length_le
    refine wp_mono (ih (by omega) hsound' (by omega) (by omega)) ?_
    rintro d₃ s₃ ⟨hsound₃,hquiet₃⟩
    exact ⟨hsound₃,((Quiet.delivered s' _).trans hquiet).trans hquiet₃⟩

theorem mp3PumpPcm_wp (hring : 0 < player.setup.ringLength.toNat)
    (hperiod : player.HasPeriods)
    (final : Bool) (h : d.Sound player source s) :
    wp (mp3World player.setup) (mp3PumpPcm player final d)
      (fun d' s' => d'.Sound player source s' ∧ Quiet 0 s s') (player.Gives source) s := by
  have havailable := h.available
  have hroom := h.tells.room
  have hacked := h.acked
  have hle := h.seen_le
  rw [mp3PumpPcm]
  refine wp_bind.mpr (wp_ensure (fun _ => ?_) fun _ => h.gives false)
  cases hahi : player.ahi with
  | none =>
    have hsounds : player.sounds = false := by
      rw [Mp3Player.sounds,hahi]
      rfl
    have hsound : Mp3Sound player.setup player.sounds source
        (d.cursor.seen (d.cursor.result.bytesProduced-d.cursor.producedSeen) player.setup.ringLength)
        {s with delivered := s.delivered++[]} :=
      h.seen hring (by omega) (by rw [hsounds]; rfl)
    rw [List.append_nil] at hsound
    refine wp_mono (mp3Ack_wp (d := ⟨_,_,_⟩) hsound final) ?_
    rintro d' s' ⟨hsound',hquiet,-⟩
    exact ⟨hsound',hquiet.weaken⟩
  | some frames =>
    obtain ⟨periodFrames,frameBytes⟩ := frames
    exact mp3PumpAhi_wp hring hahi (hperiod _ _ hahi) final (Nat.lt_succ_self _) h (by omega) (by omega)

/-- A chunk is fed until no pressure is told of; that never takes all attempts where each rejection is
cleared by fewer reads. -/
theorem mp3FeedChunk_wp (hring : 0 < player.setup.ringLength.toNat) (hperiod : player.HasPeriods)
    {length : UInt32} {eof : Bool} {attempts : Nat} (hattempts : attempts ≤ 64)
    (h : d.Sound player source s) (hready : Ready false length attempts s) :
    wp (mp3World player.setup) (mp3FeedChunk player length eof attempts d)
      (fun d' s' => d'.Sound player source s' ∧ s'.file = s.file ∧
        (s.current = none → s'.current = none) ∧
        ∀ c, s'.current = some c → c.Shown ∧ (length ≠ 0 → c.feeds ≠ []))
      (player.Gives source) s := by
  induction attempts generalizing d s with
  | zero => exact h.stuck (n := 63) (by simpa using hready.waits (by decide)) (Nat.le_refl 63)
  | succ attempts ih =>
    rw [mp3FeedChunk]
    refine Attempt.wp_ask fun answer hallowed => ?_
    refine wp_bind.mpr (wp_given (fun reply hreply => ?_) fun hnone => ?_)
    swap
    · subst hnone
      exact h.gives false
    subst hreply
    obtain ⟨hfed,hoffered,hnone⟩ := h.onFeed eof hready hattempts hallowed
    refine wp_step (mp3PumpPcm_wp (d := ⟨_,_,_⟩) hring hperiod eof hfed) ?_
    rintro d₁ s₁ ⟨hsound₁,hquiet₁⟩
    have hshown : ∀ s₂ : Mp3Board, s₂.current = s₁.current →
        (s.current = none → s₂.current = none) ∧
          ∀ c, s₂.current = some c → c.Shown ∧ (length ≠ 0 → c.feeds ≠ []) := by
      intro s₂ hsame
      have hcurrent := hsame.trans hquiet₁.current
      exact ⟨fun h => hcurrent.trans (hnone h),fun c hc => hoffered.shown c (hcurrent ▸ hc)⟩
    by_cases hpressed : d₁.cursor.result.backpressure = true
    · rw [if_pos hpressed]
      refine wp_step (mp3Ack_wp hsound₁ true) ?_
      rintro d₂ s₂ ⟨hsound₂,hquiet₂,-⟩
      dsimp only
      have hquiet := hquiet₁.trans hquiet₂
      by_cases hstill : d₂.cursor.result.backpressure = true
      · rw [if_pos hstill]
        have hready₂ := hoffered.ready hattempts hquiet (.inl Nat.one_pos) (hsound₂.flag ▸ hstill)
        refine wp_mono (ih (Nat.le_of_lt hattempts) hsound₂ hready₂) ?_
        rintro d₃ s₃ ⟨hsound₃,hfile₃,hnone₃,hshown₃⟩
        exact ⟨hsound₃,hfile₃.trans hquiet.file,
          fun h => hnone₃ ((hshown s₂ hquiet₂.current).1 h),hshown₃⟩
      · rw [if_neg hstill]
        exact ⟨hsound₂,hquiet.file,hshown s₂ hquiet₂.current⟩
    · rw [if_neg hpressed]
      refine wp_bind.mpr ?_
      rw [wp_pure]
      dsimp only
      rw [if_neg hpressed]
      exact ⟨hsound₁,hquiet₁.file,hshown s₁ rfl⟩

/-- The whole file is read and fed, chunk by chunk. -/
theorem mp3FeedFile_wp (hring : 0 < player.setup.ringLength.toNat)
    (hstaging : 0 < player.setup.stagingLength.toNat) (hperiod : player.HasPeriods)
    {fuel : Nat} (hfuel : s.file.length < fuel) (h : d.Sound player source s)
    (hbetween : s.Between) :
    wp (mp3World player.setup) (mp3FeedFile player fuel d)
      (fun d' s' => d'.Sound player source s' ∧ s'.current = none ∧ s'.file = [])
      (player.Gives source) s := by
  induction fuel generalizing d s with
  | zero => exact absurd hfuel (Nat.not_lt_zero _)
  | succ fuel ih =>
    rw [mp3FeedFile]
    have hgives := h.gives false
    refine Attempt.wp_ask fun ok _ => wp_bind.mpr (wp_ensure (fun _ => ?_) fun _ => hgives)
    refine Attempt.wp_ask fun answer hallowed => ?_
    refine wp_bind.mpr (wp_given (fun chunk hchunk => ?_) fun hnone => ?_)
    swap
    · subst hnone
      exact hgives
    subst hchunk
    obtain ⟨hstarts,hwant,hend⟩ : chunk <+: s.file ∧
        chunk.length ≤ player.setup.stagingLength.toNat ∧
        (chunk = [] → s.file = [] ∨ player.setup.stagingLength.toNat = 0) := hallowed
    have hread := h.onFread hbetween hstarts
    by_cases hempty : chunk = []
    · -- At the end of the file the feed shows no bytes.
      subst hempty
      have hnofile : s.file = [] := (hend rfl).resolve_right (Nat.ne_of_gt hstaging)
      have hcurrent : (s.onFread []).current = none := by simp [Mp3Board.onFread]
      rw [if_neg (fun hne => hne rfl)]
      refine wp_bind.mpr (wp_bind.mpr (wp_ensure (fun _ => ?_) (by simp)))
      refine wp_step (mp3FeedChunk_wp hring hperiod (Nat.le_refl 64) hread
        (ready_end false _ hcurrent)) ?_
      rintro d' s' ⟨hsound,hfile,hnone,-⟩
      exact ⟨hsound,hnone hcurrent,hfile.trans hnofile⟩
    · rw [if_pos hempty]
      refine Attempt.wp_ask fun ok hstaged => wp_bind.mpr (wp_ensure (fun hok => ?_) fun hok => ?_)
      swap
      · obtain rfl : ok = false := hok
        exact hread.gives false
      obtain rfl : ok = true := hok
      have hlength : chunk.length.toUInt32.toNat = chunk.length := by
        have := player.setup.stagingLength.toNat_lt
        exact UInt32.toNat_ofNat_of_lt' (Nat.lt_of_le_of_lt hwant this)
      have hpos : 0 < chunk.length := List.length_pos_iff.mpr hempty
      have hready := ready_chunk false (s := {s.onFread chunk with staging := chunk})
        (if_neg hempty) rfl hlength
      refine wp_step (mp3FeedChunk_wp hring hperiod (Nat.le_refl 64) (hread.staged chunk) hready) ?_
      rintro d' s' ⟨hsound,hfile,-,hshown⟩
      have hfile' : s'.file = s.file.drop chunk.length := hfile
      have hne : chunk.length.toUInt32 ≠ 0 := by
        intro hzero
        rw [hzero] at hlength
        exact absurd hlength (Nat.ne_of_lt hpos)
      dsimp only
      rw [if_neg (by simpa using hempty)]
      refine ih ?_ hsound fun c hc => ⟨(hshown c hc).1,(hshown c hc).2 hne⟩
      have hle := hstarts.length_le
      rw [hfile',List.length_drop]
      omega

/-- In the end all PCM was used. -/
theorem mp3Drain_wp (hring : 0 < player.setup.ringLength.toNat) (hperiod : player.HasPeriods)
    {guard : Nat} (h : d.Sound player source s) :
    wp (mp3World player.setup) (mp3Drain player guard d)
      (fun d' s' => d'.Sound player source s' ∧ Quiet 0 s s' ∧
        d'.cursor.producedSeen.toNat = s'.pcm.length)
      (player.Gives source) s := by
  induction guard generalizing d s with
  | zero => exact h.gives false
  | succ guard ih =>
    rw [mp3Drain]
    refine wp_step (mp3PumpPcm_wp hring hperiod true h) ?_
    rintro d₁ s₁ ⟨hsound₁,hquiet₁⟩
    refine wp_step (mp3Ack_wp hsound₁ true) ?_
    rintro d₂ s₂ ⟨hsound₂,hquiet₂,-⟩
    have hquiet := (hquiet₁.trans hquiet₂).weaken
    split_ifs with hdone
    · refine ⟨hsound₂,hquiet,?_⟩
      rw [← hdone.2.1]
      exact hsound₂.tells.produced
    · refine wp_mono (ih hsound₂) ?_
      rintro d₃ s₃ ⟨hsound₃,hquiet₃,hall⟩
      exact ⟨hsound₃,hquiet.trans hquiet₃,hall⟩

end

end ZZ9K.Audio
