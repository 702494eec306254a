import ZZ9K.Audio.Mp3Sound

namespace ZZ9K.Audio

open Framework Framework.Attempt

variable {tool : Mp3Tool} {source : List UInt8}

/-- What holds of `zz9k-mp3` and the board -/
abbrev Mp3Stream.Sound (tool : Mp3Tool) (source : List UInt8) (d : Mp3Stream) (s : Mp3Board) : Prop :=
  Mp3Sound tool.setup tool.output source d.cursor s

/-- What a part of `zz9k-mp3` gives up with -/
abbrev Mp3Tool.Gives (tool : Mp3Tool) (source : List UInt8) : Mp3Ended → Mp3Board → Prop :=
  Audio.Gives tool.setup source true

section

variable {d : Mp3Stream} {s : Mp3Board}

/-- A read that is forced is left out only where nothing is pending. -/
theorem ackStreamPcm_wp (h : d.Sound tool source s) (force : Bool) :
    wp (mp3World tool.setup) (ackStreamPcm tool force d)
      (fun d' s' => d'.Sound tool source s' ∧ d'.cursor.producedSeen = d.cursor.producedSeen ∧
        (Quiet 1 s s' ∨ d' = d ∧ s' = s ∧ (force = true → d.cursor.pendingAck = 0)))
      (tool.Gives source) s := by
  rw [ackStreamPcm]
  by_cases hdue : (!pcmAckDue d.cursor.pendingAck tool.setup.ringLength force) = true
  · rw [if_pos hdue]
    refine ⟨h,rfl,.inr ⟨rfl,rfl,fun hforce => ?_⟩⟩
    subst hforce
    by_contra hne
    simp [pcmAckDue,hne] at hdue
  · rw [if_neg hdue]
    refine Attempt.wp_ask fun answer hallowed => ?_
    refine wp_bind.mpr (wp_given (fun reply hreply => ?_) fun hnone => ?_)
    · subst hreply
      obtain ⟨hsound,hquiet⟩ := h.onRead hallowed
      exact ⟨hsound,rfl,.inl hquiet⟩
    · subst hnone
      exact h.gives true

/-- So many bytes of the PCM after a place were written. -/
def Mp3Board.written (s : Mp3Board) (place n : Nat) : Mp3Board := {s with
  delivered := s.delivered++(s.pcm.drop place).take n}

theorem Mp3Board.written_written (s : Mp3Board) (place n m : Nat) :
    {s.written place n with
      delivered := (s.written place n).delivered++(s.pcm.drop (place+n)).take m} =
      s.written place (n+m) := by
  rw [written,written,List.take_add,List.append_assoc,List.drop_drop]

theorem Mp3Stream.Sound.written_gives (h : d.Sound tool source s) (houtput : tool.output = true)
    (n : Nat) : tool.Gives source .failed (s.written d.cursor.producedSeen.toNat n) := by
  refine ⟨.inl rfl,⟨h.fed,h.whole⟩,?_⟩
  have hdelivered : s.delivered = s.pcm.take d.cursor.producedSeen.toNat :=
    h.delivered.trans (if_pos houtput)
  rw [Mp3Board.written,hdelivered,← List.take_add]
  exact List.take_prefix _ _

/-- A part of the ring that is written at once -/
theorem ringPart_bounds {capacity cursor remaining part : UInt32}
    (hcursor : cursor.toNat < capacity.toNat) (hremaining : remaining ≠ 0)
    (hpart : (if 32768 < (if capacity-cursor < remaining then capacity-cursor else remaining) then 32768
      else if capacity-cursor < remaining then capacity-cursor else remaining) = part) :
    0 < part.toNat ∧ part.toNat ≤ remaining.toNat ∧ cursor.toNat+part.toNat ≤ capacity.toNat := by
  have hlinear : (capacity-cursor).toNat = capacity.toNat-cursor.toNat :=
    UInt32.toNat_sub_of_le _ _ (UInt32.le_iff_toNat_le.mpr (Nat.le_of_lt hcursor))
  have hpos : 0 < remaining.toNat :=
    Nat.pos_of_ne_zero fun hzero => hremaining (UInt32.toNat_inj.mp hzero)
  have hsize : (32768 : UInt32).toNat = 32768 := rfl
  rw [← hpart]
  split_ifs with hlarge hwraps hwraps <;>
    simp only [UInt32.lt_iff_toNat_lt,hlinear,hsize,Nat.not_lt] at hlarge hwraps ⊢ <;> omega

/-- What is written of the ring is the next part of the PCM. -/
theorem writeSharedRing_wp (h : d.Sound tool source s) (houtput : tool.output = true)
    (hring : 0 < tool.setup.ringLength.toNat) {n fuel : Nat} {remaining cursor : UInt32}
    (hfuel : remaining.toNat < fuel)
    (hcursor : cursor.toNat = (d.cursor.pcmOffset.toNat+n) % tool.setup.ringLength.toNat)
    (hbytes : d.cursor.producedSeen.toNat+n+remaining.toNat ≤ s.pcm.length) :
    wp (mp3World tool.setup) (writeSharedRing tool.setup.ringLength fuel remaining cursor)
      (fun _ s' => s' = s.written d.cursor.producedSeen.toNat (n+remaining.toNat)) (tool.Gives source)
      (s.written d.cursor.producedSeen.toNat n) := by
  induction fuel generalizing n remaining cursor with
  | zero => exact absurd hfuel (Nat.not_lt_zero _)
  | succ fuel ih =>
    rw [writeSharedRing]
    by_cases hmore : remaining ≠ 0
    swap
    · rw [if_neg hmore]
      rw [not_not] at hmore
      subst hmore
      exact rfl
    rw [if_pos hmore]
    have hinside : cursor.toNat < tool.setup.ringLength.toNat := hcursor ▸ Nat.mod_lt _ hring
    dsimp only
    generalize hpart : (if 32768 < (if tool.setup.ringLength-cursor < remaining then
      tool.setup.ringLength-cursor else remaining) then 32768 else
      if tool.setup.ringLength-cursor < remaining then tool.setup.ringLength-cursor else remaining) =
      part
    obtain ⟨hpos,hle,hfits⟩ := ringPart_bounds hinside hmore hpart
    have hdata : s.ringBytes cursor part =
        (s.pcm.drop (d.cursor.producedSeen.toNat+n)).take part.toNat :=
      h.ringBytes_eq hcursor (by omega) hfits
    refine Attempt.wp_ask fun answer hallowed => wp_bind.mpr ?_
    have hanswer : answer = some (s.ringBytes cursor part) := hallowed.trans (if_pos hfits)
    refine wp_given (fun data heq => ?_) fun hnone => by rw [hanswer] at hnone; cases hnone
    obtain rfl := Option.some.inj (heq.symm.trans hanswer)
    refine Attempt.wp_ask fun ok _ => wp_bind.mpr (wp_ensure (fun hok => ?_) fun hok => ?_)
    swap
    · obtain rfl : ok = false := hok
      exact h.written_gives houtput n
    obtain rfl : ok = true := hok
    have hnext : mp3Next (s.written d.cursor.producedSeen.toNat n)
        ⟨.deliver (s.ringBytes cursor part),true⟩ =
        s.written d.cursor.producedSeen.toNat (n+part.toNat) := by
      rw [hdata]
      exact s.written_written _ n _
    have hrest : (remaining-part).toNat = remaining.toNat-part.toNat :=
      UInt32.toNat_sub_of_le _ _ (UInt32.le_iff_toNat_le.mpr hle)
    have hplace : ((cursor+part)%tool.setup.ringLength).toNat =
        (d.cursor.pcmOffset.toNat+(n+part.toNat)) % tool.setup.ringLength.toNat := by
      have hcapacity := tool.setup.ringLength.toNat_lt
      have hsum : (cursor+part).toNat = cursor.toNat+part.toNat := by
        rw [UInt32.toNat_add]
        exact Nat.mod_eq_of_lt (by omega)
      rw [UInt32.toNat_mod,hsum,hcursor,Nat.mod_add_mod,Nat.add_assoc]
    have hrun := ih (show (remaining-part).toNat < fuel by omega) hplace (by omega)
    rw [hrest,Nat.add_assoc,Nat.add_sub_cancel' hle] at hrun
    rw [← hnext] at hrun
    exact hrun

/-- What the checks on a result let through is what holds anyway. -/
theorem Mp3Stream.Sound.available (h : d.Sound tool source s) :
    (d.cursor.result.bytesProduced-d.cursor.producedSeen).toNat =
      s.pcm.length-d.cursor.producedSeen.toNat := by
  have hle := h.seen_le
  rw [← h.tells.produced] at hle
  rw [UInt32.toNat_sub_of_le _ _ (UInt32.le_iff_toNat_le.mpr hle),h.tells.produced]

/-- After it was drained, all PCM was used; either there was a read, or something is pending, or all had
been acknowledged before. -/
theorem drainStreamPcm_wp (hring : 0 < tool.setup.ringLength.toNat) {guard : Nat}
    (h : d.Sound tool source s) :
    wp (mp3World tool.setup) (drainStreamPcm tool guard d)
      (fun d' s' => d'.Sound tool source s' ∧ d'.cursor.producedSeen.toNat = s'.pcm.length ∧
        ∃ n, Quiet n s s' ∧
          (0 < n ∨ d'.cursor.pendingAck ≠ 0 ∨ s.pcm.length ≤ s.acknowledged))
      (tool.Gives source) s := by
  induction guard generalizing d s with
  | zero => exact h.gives true
  | succ guard ih =>
    have havailable := h.available
    have hacked := h.acked
    have hle := h.seen_le
    have hgives := h.gives true
    rw [drainStreamPcm]
    by_cases hbehind : d.cursor.result.bytesProduced < d.cursor.producedSeen
    · rw [if_pos hbehind]
      exact hgives
    rw [if_neg hbehind]
    dsimp only
    split_ifs with hnone hlarge
    · have hall : d.cursor.producedSeen.toNat = s.pcm.length := by
        rw [hnone] at havailable
        have hzero : (0 : UInt32).toNat = 0 := rfl
        omega
      refine ⟨h,hall,0,.refl s,.inr ?_⟩
      by_cases hpending : d.cursor.pendingAck = 0
      · rw [hpending] at hacked
        have hzero : (0 : UInt32).toNat = 0 := rfl
        exact .inr (by omega)
      · exact .inl hpending
    · exact hgives
    · generalize hdelta : d.cursor.result.bytesProduced-d.cursor.producedSeen = delta at *
      have hwrite : wp (mp3World tool.setup) (writeProduced tool delta d.cursor.pcmOffset)
          (fun _ s' => s' = {s with delivered := s.delivered++
            if tool.output then (s.pcm.drop d.cursor.producedSeen.toNat).take delta.toNat else []})
          (tool.Gives source) s := by
        rw [writeProduced]
        by_cases houtput : tool.output = true
        · have hoffset : d.cursor.pcmOffset.toNat =
              (d.cursor.pcmOffset.toNat+0) % tool.setup.ringLength.toNat := by
            rw [Nat.add_zero,h.offset,Nat.mod_mod]
          have hrun := writeSharedRing_wp h houtput hring (Nat.lt_succ_self _) hoffset
            (show d.cursor.producedSeen.toNat+0+delta.toNat ≤ s.pcm.length by omega)
          have hstart : s.written d.cursor.producedSeen.toNat 0 = s := by
            rw [Mp3Board.written,List.take_zero,List.append_nil]
          rw [hstart,Nat.zero_add] at hrun
          rw [if_pos houtput,houtput]
          exact hrun
        · rw [if_neg houtput,if_neg houtput,List.append_nil]
          exact rfl
      refine wp_step hwrite ?_
      rintro - s₁ rfl
      have hsound := h.seen hring (show d.cursor.producedSeen.toNat+delta.toNat ≤ s.pcm.length by omega)
        rfl
      refine wp_bind.mpr (wp_ensure (fun _ => ?_) fun _ => hsound.gives true)
      refine wp_step (ackStreamPcm_wp (d := ⟨_,_⟩) hsound false) ?_
      rintro d₁ s₁ ⟨hsound₁,-,hread⟩
      refine wp_mono (ih hsound₁) ?_
      rintro d₂ s₂ ⟨hsound₂,hall,n,hquiet,hcause⟩
      refine ⟨hsound₂,hall,?_⟩
      rcases hread with hread | ⟨-,rfl,-⟩
      · exact ⟨_,((Quiet.delivered s _).trans hread).trans hquiet,.inl (by omega)⟩
      · exact ⟨_,(Quiet.delivered s _).trans hquiet,by rwa [Nat.zero_add]⟩

theorem flushStreamPcm_wp (hring : 0 < tool.setup.ringLength.toNat) {guard : Nat}
    (h : d.Sound tool source s) :
    wp (mp3World tool.setup) (flushStreamPcm tool guard d)
      (fun d' s' => d'.Sound tool source s' ∧ d'.cursor.producedSeen.toNat = s'.pcm.length ∧
        Quiet 0 s s')
      (tool.Gives source) s := by
  induction guard generalizing d s with
  | zero => exact h.gives true
  | succ guard ih =>
    rw [flushStreamPcm]
    refine wp_step (drainStreamPcm_wp hring h) ?_
    rintro d₁ s₁ ⟨hsound₁,hall₁,n,hquiet₁,-⟩
    split_ifs with hdone
    · exact ⟨hsound₁,hall₁,hquiet₁.weaken⟩
    · refine wp_step (ackStreamPcm_wp hsound₁ true) ?_
      rintro d₂ s₂ ⟨hsound₂,-,hread⟩
      have hquiet₂ : Quiet 0 s₁ s₂ := by
        rcases hread with hread | ⟨-,rfl,-⟩
        · exact hread.weaken
        · exact .refl _
      refine wp_mono (ih hsound₂) ?_
      rintro d₃ s₃ ⟨hsound₃,hall₃,hquiet₃⟩
      exact ⟨hsound₃,hall₃,(hquiet₁.weaken.trans hquiet₂).trans hquiet₃⟩

theorem makeStreamInputRoom_wp (hring : 0 < tool.setup.ringLength.toNat) (nextFeedBytes : UInt32)
    {guard : Nat} (h : d.Sound tool source s) :
    wp (mp3World tool.setup) (makeStreamInputRoom tool nextFeedBytes guard d)
      (fun d' s' => d'.Sound tool source s' ∧ Quiet 0 s s') (tool.Gives source) s := by
  induction guard generalizing d s with
  | zero =>
    rw [makeStreamInputRoom]
    split_ifs
    · exact ⟨h,.refl s⟩
    · exact ⟨h,.refl s⟩
    · exact h.gives true
  | succ guard ih =>
    rw [makeStreamInputRoom]
    split_ifs
    · exact ⟨h,.refl s⟩
    · exact ⟨h,.refl s⟩
    · refine wp_step (ackStreamPcm_wp h true) ?_
      rintro d₁ s₁ ⟨hsound₁,-,hread⟩
      have hquiet₁ : Quiet 0 s s₁ := by
        rcases hread with hread | ⟨-,rfl,-⟩
        · exact hread.weaken
        · exact .refl _
      refine wp_step (drainStreamPcm_wp hring hsound₁) ?_
      rintro d₂ s₂ ⟨hsound₂,-,n,hquiet₂,-⟩
      refine wp_mono (ih hsound₂) ?_
      rintro d₃ s₃ ⟨hsound₃,hquiet₃⟩
      exact ⟨hsound₃,(hquiet₁.trans hquiet₂.weaken).trans hquiet₃⟩

/-- A chunk is fed until no pressure is told of. That takes all attempts only where a rejection needs as
many reads, or where a feed was sent without a read in between. -/
theorem streamFeedChunk_wp (hring : 0 < tool.setup.ringLength.toNat) {length : UInt32} {eof : Bool}
    {attempts : Nat} (hattempts : attempts ≤ 64) (h : d.Sound tool source s)
    (hready : Ready true length attempts s) :
    wp (mp3World tool.setup) (streamFeedChunk tool length eof attempts d)
      (fun d' s' => d'.Sound tool source s' ∧ s'.file = s.file ∧
        (s.current = none → s'.current = none) ∧
        ∀ c, s'.current = some c → c.Shown ∧ (length ≠ 0 → c.feeds ≠ []))
      (tool.Gives source) s := by
  induction attempts generalizing d s with
  | zero => exact h.stuck (n := 63) (by simpa using hready.waits (by decide)) (Nat.le_refl 63)
  | succ attempts ih =>
    rw [streamFeedChunk]
    refine Attempt.wp_ask fun answer hallowed => ?_
    refine wp_bind.mpr (wp_given (fun reply hreply => ?_) fun hnone => ?_)
    swap
    · subst hnone
      exact h.gives true
    subst hreply
    obtain ⟨hfed,hoffered,hnone⟩ := h.onFeed eof hready hattempts hallowed
    refine wp_step (drainStreamPcm_wp (d := ⟨_,_⟩) hring hfed) ?_
    rintro d₁ s₁ ⟨hsound₁,-,n,hquiet₁,hcause⟩
    have hshown : ∀ s₂ : Mp3Board, s₂.current = s₁.current →
        (s.current = none → s₂.current = none) ∧
          ∀ c, s₂.current = some c → c.Shown ∧ (length ≠ 0 → c.feeds ≠ []) := by
      intro s₂ hsame
      have hcurrent := hsame.trans hquiet₁.current
      exact ⟨fun h => hcurrent.trans (hnone h),fun c hc => hoffered.shown c (hcurrent ▸ hc)⟩
    by_cases hpressed : d₁.cursor.result.backpressure = true
    · rw [if_pos hpressed]
      refine wp_step (ackStreamPcm_wp hsound₁ true) ?_
      rintro d₂ s₂ ⟨hsound₂,-,hread⟩
      obtain ⟨m,hquiet,hreads⟩ : ∃ m, Quiet m (s.onFeed length reply) s₂ ∧ (0 < m ∨ true = true ∧
          (s.onFeed length reply).pcm.length ≤ (s.onFeed length reply).acknowledged) := by
        rcases hread with hread | ⟨rfl,rfl,hpending⟩
        · exact ⟨_,hquiet₁.trans hread,.inl (Nat.succ_pos n)⟩
        · refine ⟨n,hquiet₁,hcause.imp_right fun h => ⟨rfl,?_⟩⟩
          exact h.resolve_left fun hne => hne (hpending rfl)
      have hcurrent : s₂.current = s₁.current := hquiet.current.trans hquiet₁.current.symm
      dsimp only
      by_cases hstill : d₂.cursor.result.backpressure = true
      · rw [if_pos hstill]
        have hready₂ := hoffered.ready hattempts hquiet hreads (hsound₂.flag ▸ hstill)
        refine wp_mono (ih (Nat.le_of_lt hattempts) hsound₂ hready₂) ?_
        rintro d₃ s₃ ⟨hsound₃,hfile₃,hnone₃,hshown₃⟩
        exact ⟨hsound₃,hfile₃.trans hquiet.file,fun h => hnone₃ ((hshown s₂ hcurrent).1 h),hshown₃⟩
      · rw [if_neg hstill]
        exact ⟨hsound₂,hquiet.file,hshown s₂ hcurrent⟩
    · rw [if_neg hpressed]
      refine wp_bind.mpr ?_
      rw [wp_pure]
      dsimp only
      rw [if_neg hpressed]
      exact ⟨hsound₁,hquiet₁.file,hshown s₁ rfl⟩

/-- The whole file is read and fed, chunk by chunk. -/
theorem streamFeedFile_wp (hring : 0 < tool.setup.ringLength.toNat) (hchunk : 0 < tool.feedChunk.toNat)
    {fuel : Nat} (hfuel : s.file.length < fuel) (h : d.Sound tool source s) (hbetween : s.Between) :
    wp (mp3World tool.setup) (streamFeedFile tool fuel d)
      (fun d' s' => d'.Sound tool source s' ∧ s'.current = none ∧ s'.file = [])
      (tool.Gives source) s := by
  induction fuel generalizing d s with
  | zero => exact absurd hfuel (Nat.not_lt_zero _)
  | succ fuel ih =>
    rw [streamFeedFile]
    refine Attempt.wp_ask fun answer hallowed => ?_
    refine wp_bind.mpr (wp_given (fun chunk heq => ?_) fun hnone => ?_)
    swap
    · subst hnone
      exact h.gives true
    subst heq
    obtain ⟨hstarts,hwant,hend⟩ : chunk <+: s.file ∧ chunk.length ≤ tool.feedChunk.toNat ∧
        (chunk = [] → s.file = [] ∨ tool.feedChunk.toNat = 0) := hallowed
    have hread := h.onFread hbetween hstarts
    by_cases hempty : chunk = []
    · -- At the end of the file the feed shows no bytes.
      subst hempty
      have hnofile : s.file = [] := (hend rfl).resolve_right (Nat.ne_of_gt hchunk)
      have hcurrent : (s.onFread []).current = none := by simp [Mp3Board.onFread]
      refine wp_bind.mpr ?_
      rw [wp_pure]
      refine wp_step (streamFeedChunk_wp hring (Nat.le_refl 64) hread (ready_end true _ hcurrent)) ?_
      rintro d' s' ⟨hsound,hfile,hnone,-⟩
      exact ⟨hsound,hnone hcurrent,hfile.trans hnofile⟩
    · have hlength : chunk.length.toUInt32.toNat = chunk.length := by
        have := tool.feedChunk.toNat_lt
        exact UInt32.toNat_ofNat_of_lt' (Nat.lt_of_le_of_lt hwant this)
      have hpos : 0 < chunk.length := List.length_pos_iff.mpr hempty
      have hne : chunk.length.toUInt32 ≠ 0 := by
        intro hzero
        rw [hzero] at hlength
        exact absurd hlength (Nat.ne_of_lt hpos)
      have hmore : ¬ decide (chunk = []) = true := by simpa using hempty
      dsimp only
      rw [if_neg hmore]
      refine wp_step (makeStreamInputRoom_wp hring _ hread) ?_
      rintro d₁ s₁ ⟨hsound₁,hquiet₁⟩
      have hcurrent : s₁.current = some ⟨chunk,[]⟩ := hquiet₁.current.trans (if_neg hempty)
      refine Attempt.wp_ask fun ok hstaged => wp_bind.mpr (wp_ensure (fun hok => ?_) fun hok => ?_)
      swap
      · obtain rfl : ok = false := hok
        exact hsound₁.gives true
      obtain rfl : ok = true := hok
      have hready := ready_chunk true (s := {s₁ with staging := chunk}) hcurrent rfl hlength
      refine wp_bind.mpr ?_
      rw [wp_pure]
      refine wp_step (streamFeedChunk_wp hring (Nat.le_refl 64) (hsound₁.staged chunk) hready) ?_
      rintro d' s' ⟨hsound,hfile,-,hshown⟩
      have hfile' : s'.file = s.file.drop chunk.length := hfile.trans hquiet₁.file
      rw [if_neg hmore]
      refine ih ?_ hsound fun c hc => ⟨(hshown c hc).1,(hshown c hc).2 hne⟩
      have hle := hstarts.length_le
      rw [hfile',List.length_drop]
      omega

end

end ZZ9K.Audio
