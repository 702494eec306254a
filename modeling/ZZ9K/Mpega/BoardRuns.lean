import ZZ9K.Mpega.BoardOwners

namespace ZZ9K.Mpega

open ZZ9K.Framework

variable {others : Multiset BoardStream} {base : MpegaBase} {s : BoardStream} {b : Board}

/-- The count changes with the flag of one stream. -/
theorem Owns.recounted (h : Owns (s ::ₘ others) base b) {acquired : Bool} {base' : MpegaBase}
    {b' : Board} (hsound : b'.sound) (hlive : b'.live = b.live) (hsessions : b'.sessions = b.sessions)
    (hcount : base'.zz9kOpenCount = others.countP (·.zz9kAcquired = true)+acquired.toNat)
    (hopened : base'.zz9kBase = true ↔ 0 < base'.zz9kOpenCount)
    (hlibrary : b'.libraryOpens = base'.zz9kBase.toNat)
    (hvalid : { s with zz9kAcquired := acquired }.Valid) :
    Owns ({ s with zz9kAcquired := acquired } ::ₘ others) base' b' where
  sound := hsound
  live := by
    rw [hlive,h.live_cons,Multiset.cons_bind]
    rfl
  nodup := hlive ▸ h.nodup
  sessions := by
    rw [hsessions,h.sessions_cons,Multiset.cons_bind]
    rfl
  numbers := hsessions ▸ h.numbers
  count := by
    rw [Multiset.countP_cons,hcount]
    cases acquired with
    | true => rfl
    | false => rfl
  opened := hopened
  library := hlibrary
  few := by
    have hfew := h.few
    rwa [Multiset.card_cons] at hfew ⊢
  valid := by
    intro t ht
    cases Multiset.mem_cons.mp ht with
    | inl heq => exact heq ▸ hvalid
    | inr hmem => exact h.valid t (Multiset.mem_cons_of_mem hmem)

theorem zz9kAcquire_owns (h : Owns (s ::ₘ others) base b) (hacquired : s.zz9kAcquired = false) :
    board.wp base.zz9kAcquire
      (fun r b' => Owns ({ s with zz9kAcquired := r.1 } ::ₘ others) r.2 b') b := by
  have hsame : { s with zz9kAcquired := false } = s := by
    rw [← hacquired]
  have hcount : base.zz9kOpenCount = others.countP (·.zz9kAcquired = true) := by
    rw [h.count,Multiset.countP_cons,if_neg (by simp [hacquired])]
    rfl
  have hmore : (base.zz9kOpenCount+1)%65536 = base.zz9kOpenCount+1 := by
    have hle := Multiset.countP_le_card (·.zz9kAcquired = true) others
    have hfew := h.few
    rw [Multiset.card_cons] at hfew
    omega
  have hvalid : { s with zz9kAcquired := true }.Valid :=
    ⟨fun _ => rfl,h.valid_head.opened,h.valid_head.unringed⟩
  unfold MpegaBase.zz9kAcquire
  by_cases hbase : base.zz9kBase = true
  · have hlibrary : b.libraryOpens = 1 := by
      rw [h.library,hbase]
      rfl
    rw [if_pos hbase]
    intro ok _
    have hproper : b.Proper .queryService := by
      show 0 < b.libraryOpens
      omega
    cases ok with
    | true =>
      rw [next_proper h.sound hproper]
      refine h.recounted trivial rfl rfl ?_ ?_ ?_ hvalid
      · show (base.zz9kOpenCount+1)%65536 = _
        rw [hmore,hcount]
        rfl
      · show base.zz9kBase = true ↔ 0 < (base.zz9kOpenCount+1)%65536
        simp [hbase,hmore]
      · show b.libraryOpens = base.zz9kBase.toNat
        exact h.library
    | false =>
      rw [next_idle h.sound hproper rfl]
      show Owns ({ s with zz9kAcquired := false } ::ₘ others) base b
      rwa [hsame]
  · have hnone : base.zz9kOpenCount = 0 := by
      have := mt h.opened.mpr hbase
      omega
    have hlibrary : b.libraryOpens = 0 := by
      rw [h.library,Bool.not_eq_true _ |>.mp hbase]
      rfl
    rw [if_neg hbase]
    intro opened _
    have hopen : b.Proper .openLibrary := trivial
    cases opened with
    | false =>
      rw [next_idle h.sound hopen rfl]
      show Owns ({ s with zz9kAcquired := false } ::ₘ others) base b
      rwa [hsame]
    | true =>
      rw [next_proper h.sound hopen]
      -- The library is open now, and no stream has it yet.
      let b₁ : Board := { b with libraryOpens := b.libraryOpens+1,sound := True }
      show board.wp _ _ b₁
      intro ok _
      have hquery : b₁.Proper .queryService := Nat.succ_pos _
      cases ok with
      | true =>
        rw [next_idle trivial hquery rfl]
        refine h.recounted trivial rfl rfl ?_ ?_ ?_ hvalid
        · show (base.zz9kOpenCount+1)%65536 = _
          rw [hmore,hcount]
          rfl
        · show true = true ↔ 0 < (base.zz9kOpenCount+1)%65536
          simp [hmore]
        · show b.libraryOpens+1 = true.toNat
          rw [hlibrary]
          rfl
      | false =>
        rw [next_idle trivial hquery rfl]
        intro closed _
        have hclose : b₁.Proper .closeLibrary := Nat.succ_pos _
        rw [next_proper trivial hclose]
        refine h.recounted trivial rfl rfl ?_ ?_ ?_ (hsame ▸ h.valid_head)
        · show base.zz9kOpenCount = _
          rw [hcount]
          rfl
        · show false = true ↔ 0 < base.zz9kOpenCount
          simp [hnone]
        · show b.libraryOpens+1-1 = false.toNat
          rw [hlibrary]
          rfl

section

variable {setup : MpegaSetup} {number pcm : Nat} {t : MpegaStream}

/-- A stream that decodes in its session -/
structure InSession (setup : MpegaSetup) (number : Nat) (t : MpegaStream) : Prop where
  setup : t.setup = setup
  opened : t.sessionOpen = true
  number : t.result.session = number

/-- The board has what a session needs. -/
structure Serving (setup : MpegaSetup) (number pcm : Nat) (b : Board) : Prop where
  sound : b.sound
  library : 0 < b.libraryOpens
  ring : pcm ∈ b.live
  staging : setup.stagingHandle ∈ b.live
  session : b.Decoding number pcm

theorem InSession.answered (h : InSession setup number t) {answer : StreamAnswer}
    (hserves : answer.Serves number) :
    InSession setup number { t with result := answer.stored t.result } := by
  refine ⟨h.setup,h.opened,?_⟩
  cases answer with
  | ok result => exact hserves
  | failed => exact absurd hserves not_false
  | notEntered => exact h.number

theorem InSession.updated (h : InSession setup number t) :
    InSession setup number t.updateStreamInfo := by
  constructor
  · rw [updateStreamInfo_setup,h.setup]
  · rw [updateStreamInfo_opened,h.opened]
  · rw [updateStreamInfo_result,h.number]

/-- An acknowledgement stays in the session and on its buffers. -/
theorem ackPcm_inSession (h : InSession setup number t) (hb : Serving setup number pcm b)
    (force : Bool) :
    (board.comap (.stream pcm setup.stagingHandle)).wp (t.ackPcm force)
      (fun r b' => b' = b ∧ InSession setup number r.2) b := by
  have hopen : ¬ (!t.sessionOpen) = true := by simp [h.opened]
  unfold MpegaStream.ackPcm
  rw [if_neg hopen]
  split_ifs with hnone hsoon
  · exact ⟨rfl,h⟩
  · exact ⟨rfl,h⟩
  intro answer hserves
  rw [h.number] at hserves
  have hproper : b.Proper (.stream pcm setup.stagingHandle
      (.read t.result.session t.pcmPendingAckBytes)) := ⟨hb.library,h.number ▸ hb.session⟩
  refine ⟨next_idle hb.sound hproper rfl,?_⟩
  have hanswered := h.answered hserves
  show InSession setup number (t.ackAnswered answer).2
  unfold MpegaStream.ackAnswered
  dsimp only
  split_ifs
  · exact InSession.updated ⟨hanswered.setup,hanswered.opened,hanswered.number⟩
  · exact hanswered

theorem feedGot_inSession (h : InSession setup number t) (hb : Serving setup number pcm b)
    (got : Int) :
    (board.comap (.stream pcm setup.stagingHandle)).wp (t.feedGot got)
      (fun r b' => b' = b ∧ InSession setup number r.2) b := by
  have hsent (sent : Bool) : InSession setup number { t with eofSent := sent } :=
    ⟨h.setup,h.opened,h.number⟩
  unfold MpegaStream.feedGot
  dsimp only
  split_ifs
  · exact ⟨rfl,h⟩
  · exact ⟨rfl,hsent _⟩
  · exact ⟨rfl,hsent _⟩
  intro answer hserves
  rw [h.number] at hserves
  have hproper : b.Proper (.stream pcm setup.stagingHandle
      (.feed t.result.session t.setup.stagingHandle got.toNat (decide (got = 0)))) :=
    ⟨hb.library,h.setup ▸ hb.staging,h.number ▸ hb.session⟩
  refine ⟨next_idle hb.sound hproper rfl,?_⟩
  have hanswered := (hsent (t.eofSent || decide (got = 0))).answered hserves
  rw [Session.feedAnswered_snd]
  split_ifs
  · exact hanswered.updated
  · exact hanswered

theorem feedAttempt_inSession (h : InSession setup number t) (hb : Serving setup number pcm b) :
    (board.comap (.stream pcm setup.stagingHandle)).wp t.feedAttempt
      (fun r b' => b' = b ∧ InSession setup number r.2) b := by
  unfold MpegaStream.feedAttempt
  split_ifs
  · exact ⟨rfl,h⟩
  rw [World.wp_bind]
  refine World.wp_mono _ (ackPcm_inSession h hb true) fun r b' hr => ?_
  obtain ⟨acked,t'⟩ := r
  obtain ⟨rfl,ht'⟩ := hr
  dsimp only at ht' ⊢
  split_ifs
  · exact ⟨rfl,ht'⟩
  · exact ⟨rfl,ht'⟩
  · exact ⟨rfl,ht'⟩
  intro got _
  have hproper : b'.Proper (.stream pcm setup.stagingHandle (.readSource t'.setup.inputChunkBytes)) :=
    hb.staging
  have hidle : (board.comap (.stream pcm setup.stagingHandle)).next b'
      ⟨.readSource t'.setup.inputChunkBytes,got⟩ = b' := next_idle hb.sound hproper rfl
  rw [hidle]
  exact feedGot_inSession ht' hb got

theorem feedAttempts_inSession (attempts : Nat) (h : InSession setup number t)
    (hb : Serving setup number pcm b) :
    (board.comap (.stream pcm setup.stagingHandle)).wp (MpegaStream.feedAttempts attempts t)
      (fun r b' => b' = b ∧ InSession setup number r.2) b := by
  induction attempts generalizing t with
  | zero => exact ⟨rfl,h⟩
  | succ attempts ih =>
    rw [MpegaStream.feedAttempts,World.wp_bind]
    refine World.wp_mono _ (feedAttempt_inSession h hb) fun r b' hr => ?_
    obtain ⟨status,t'⟩ := r
    obtain ⟨rfl,ht'⟩ := hr
    cases status with
    | some status => exact ⟨rfl,ht'⟩
    | none => exact ih ht'

theorem copyPcmPlanar_inSession (h : InSession setup number t) (hb : Serving setup number pcm b) :
    (board.comap (.stream pcm setup.stagingHandle)).wp t.copyPcmPlanar
      (fun r b' => b' = b ∧ InSession setup number r.2.2) b := by
  have hcopied (seen offset pending : Nat) : InSession setup number
      { t with pcmSeenBytes := seen,pcmReadOffset := offset,pcmPendingAckBytes := pending } :=
    ⟨h.setup,h.opened,h.number⟩
  unfold MpegaStream.copyPcmPlanar
  split_ifs
  · exact ⟨rfl,h⟩
  · exact ⟨rfl,h⟩
  · exact ⟨rfl,h⟩
  intro ring _
  have hproper : b.Proper (.stream pcm setup.stagingHandle .ring) := hb.ring
  have hidle : (board.comap (.stream pcm setup.stagingHandle)).next b ⟨.ring,ring⟩ = b :=
    next_idle hb.sound hproper rfl
  rw [hidle]
  show World.wp _ (t.planarCopied (t.copyRing ring).1 (t.copyRing ring).2) _ _
  unfold MpegaStream.planarCopied
  dsimp only
  split_ifs
  · exact ⟨rfl,h⟩
  rw [World.wp_bind]
  refine World.wp_mono _ (ackPcm_inSession (hcopied _ _ _) hb false) fun r b' hr => ?_
  obtain ⟨acked,t'⟩ := r
  cases acked with
  | false => exact hr
  | true => exact hr

/-- A decode stays in the session and on its buffers. -/
theorem decodeFrame_inSession (h : InSession setup number t) (hb : Serving setup number pcm b) :
    (board.comap (.stream pcm setup.stagingHandle)).wp t.decodeFrame
      (fun r b' => b' = b ∧ InSession setup number r.2.2) b := by
  unfold MpegaStream.decodeFrame MpegaStream.feedUntilPcm
  rw [World.wp_bind]
  refine World.wp_mono _ (feedAttempts_inSession maxFeedAttempts h hb) fun r b' hr => ?_
  obtain ⟨status,t'⟩ := r
  obtain ⟨rfl,ht'⟩ := hr
  dsimp only at ht' ⊢
  split_ifs
  · exact ⟨rfl,ht'⟩
  · exact ⟨rfl,ht'⟩
  · exact copyPcmPlanar_inSession ht' hb

end

/-- Without a session, and with nothing to decode from, a decode touches nothing. -/
theorem decodeFrame_settled {t : MpegaStream} (hclosed : t.sessionOpen = false)
    (hsettled : t.setup.pcmRingLength = 0 ∨ t.pcmAvailable = 0) :
    ∃ result, t.decodeFrame = .ret (result,[],t) := by
  have hack : t.ackPcm true = .ret (false,t) := by
    unfold MpegaStream.ackPcm
    rw [hclosed]
    rfl
  by_cases havailable : t.pcmAvailable = 0
  · have hattempt : t.feedAttempt = .ret (some errBadFrame,t) := by
      unfold MpegaStream.feedAttempt
      rw [if_neg (not_not_intro havailable),hack]
      rfl
    refine ⟨errBadFrame,?_⟩
    unfold MpegaStream.decodeFrame MpegaStream.feedUntilPcm maxFeedAttempts
    rw [MpegaStream.feedAttempts,hattempt]
    rfl
  · have hattempt : t.feedAttempt = .ret (some errNone,t) := by
      unfold MpegaStream.feedAttempt
      rw [if_pos havailable]
      rfl
    have hring : t.setup.pcmRingLength < t.pcmAvailable := by
      have := hsettled.resolve_right havailable
      omega
    have hcopy : t.copyPcmPlanar = .ret (errBadFrame,[],t) := by
      unfold MpegaStream.copyPcmPlanar
      rw [if_neg havailable,if_pos hring]
      rfl
    refine ⟨errBadFrame,?_⟩
    unfold MpegaStream.decodeFrame MpegaStream.feedUntilPcm maxFeedAttempts
    rw [MpegaStream.feedAttempts,hattempt]
    exact hcopy

/-- The board serves the session of a stream. -/
theorem Owns.serving (h : Owns (s ::ₘ others) base b) (hopen : s.stream.sessionOpen = true) :
    Serving s.stream.setup s.stream.result.session s.pcmHandle b := by
  obtain ⟨hmp3,hpcm,hstaging⟩ := h.valid_head.opened hopen
  have hlive := h.live_cons
  refine ⟨h.sound,h.in_use (h.valid_head.acquired (.inl hmp3)),?_,?_,?_⟩
  · simp [hlive,BoardStream.handles,hpcm]
  · simp [hlive,BoardStream.handles,hstaging]
  · refine ⟨⟨s.stream.result.session,s.mp3Ring.handle,s.pcmHandle⟩,?_,rfl,rfl⟩
    simp [h.sessions_cons,BoardStream.sessions,hopen]

/-- A stream that holds nothing more gives the library back. -/
theorem releaseBoard_owns (h : Owns (s ::ₘ others) base b) (hmp3 : s.mp3Allocated = false)
    (hpcm : s.pcmAllocated = false) (hstaging : s.stagingAllocated = false) :
    board.wp (s.releaseBoard base)
      (fun r b' => Owns (r.2 ::ₘ others) r.1 b' ∧ r.2 = { s with zz9kAcquired := false }) b := by
  have hvalid : { s with zz9kAcquired := false }.Valid :=
    ⟨fun hany => by simp [hmp3,hpcm,hstaging] at hany,h.valid_head.opened,h.valid_head.unringed⟩
  unfold BoardStream.releaseBoard
  by_cases hacquired : s.zz9kAcquired = true
  · have hcount : base.zz9kOpenCount = others.countP (·.zz9kAcquired = true)+1 := by
      rw [h.count,Multiset.countP_cons,if_pos hacquired]
    have hbase : base.zz9kBase = true := h.opened.mpr (by omega)
    rw [if_pos hacquired,World.wp_bind]
    unfold MpegaBase.zz9kRelease
    rw [if_neg (by omega)]
    dsimp only
    by_cases hlast : base.zz9kOpenCount-1 = 0
    · rw [if_pos ⟨hlast,hbase⟩]
      intro closed _
      have hproper : b.Proper .closeLibrary := h.in_use hacquired
      rw [next_proper h.sound hproper]
      refine ⟨h.recounted trivial rfl rfl ?_ ?_ ?_ hvalid,rfl⟩
      · show base.zz9kOpenCount-1 = _
        rw [hcount]
        rfl
      · show false = true ↔ 0 < base.zz9kOpenCount-1
        simp [hlast]
      · show b.libraryOpens-1 = false.toNat
        rw [h.library,hbase]
        rfl
    · rw [if_neg (fun hboth => hlast hboth.1)]
      refine ⟨h.recounted h.sound rfl rfl ?_ ?_ h.library hvalid,rfl⟩
      · show base.zz9kOpenCount-1 = _
        rw [hcount]
        rfl
      · show base.zz9kBase = true ↔ 0 < base.zz9kOpenCount-1
        simp only [hbase,true_iff]
        omega
  · have hsame : { s with zz9kAcquired := false } = s := by
      rw [← Bool.not_eq_true _ |>.mp hacquired]
    rw [if_neg hacquired]
    exact ⟨h,hsame.symm⟩

/-- The session is closed while its rings are still there. -/
theorem closeSession_owns (h : Owns (s ::ₘ others) base b) :
    board.wp s.closeSession
      (fun s' b' => Owns (s' ::ₘ others) base b' ∧ s'.stream.sessionOpen = false) b := by
  unfold BoardStream.closeSession
  by_cases hopen : s.stream.sessionOpen = true
  · have hserving := h.serving hopen
    rw [if_pos hopen,World.wp_bind,BoardStream.onBoard,World.wp_translate]
    refine World.wp_mono _ (ackPcm_inSession ⟨rfl,hopen,rfl⟩ hserving true) fun r b' hr => ?_
    obtain ⟨acked,t⟩ := r
    obtain ⟨rfl,ht⟩ := hr
    have hsetup : t.setup = s.stream.setup := ht.setup
    have hnumber : t.result.session = s.stream.result.session := ht.number
    intro closed _
    show Owns ({ s with stream := { t with sessionOpen := false } } ::ₘ others) base
      (board.next b' ⟨.streamClose t.result.session,closed⟩) ∧ false = false
    rw [hnumber]
    refine ⟨h.closed hopen ?_ rfl rfl ?_,rfl⟩
    · simp only [BoardStream.handles,hsetup]
    · refine ⟨h.valid_head.acquired,fun hopen' => absurd hopen' Bool.false_ne_true,?_⟩
      intro hpcm
      show t.setup.pcmRingLength = 0
      rw [hsetup]
      exact h.valid_head.unringed hpcm
  · rw [if_neg hopen]
    exact ⟨h,Bool.not_eq_true _ |>.mp hopen⟩

theorem freeMp3_owns (h : Owns (s ::ₘ others) base b) (hclosed : s.stream.sessionOpen = false) :
    board.wp s.freeMp3 (fun s' b' => Owns (s' ::ₘ others) base b' ∧
      s'.stream.sessionOpen = false ∧ s'.mp3Allocated = false) b := by
  unfold BoardStream.freeMp3
  by_cases hmp3 : s.mp3Allocated = true
  · have hvalid : { s with mp3Allocated := false,mp3Ring := ⟨invalidHandle,0⟩ }.Valid := by
      refine ⟨fun _ => h.valid_head.acquired (.inl hmp3),?_,h.valid_head.unringed⟩
      intro hopen
      rw [hclosed] at hopen
      exact absurd hopen Bool.false_ne_true
    rw [if_pos hmp3]
    intro freed _
    refine ⟨h.freed (h.valid_head.acquired (.inl hmp3)) hclosed ?_ hclosed
      (h.valid_head.acquired (.inl hmp3)) hvalid,hclosed,rfl⟩
    simp [BoardStream.handles,hmp3]
  · rw [if_neg hmp3]
    exact ⟨h,hclosed,Bool.not_eq_true _ |>.mp hmp3⟩

theorem freePcm_owns (h : Owns (s ::ₘ others) base b) (hclosed : s.stream.sessionOpen = false)
    (hmp3 : s.mp3Allocated = false) :
    board.wp s.freePcm (fun s' b' => Owns (s' ::ₘ others) base b' ∧
      s'.stream.sessionOpen = false ∧ s'.mp3Allocated = false ∧ s'.pcmAllocated = false) b := by
  unfold BoardStream.freePcm
  by_cases hpcm : s.pcmAllocated = true
  · rw [if_pos hpcm]
    intro freed _
    refine ⟨h.freed (h.valid_head.acquired (.inr (.inl hpcm))) hclosed ?_ hclosed
      (h.valid_head.acquired (.inr (.inl hpcm))) ?_,hclosed,hmp3,rfl⟩
    · simp [BoardStream.handles,hmp3,hpcm]
    · refine ⟨fun _ => h.valid_head.acquired (.inr (.inl hpcm)),?_,fun _ => rfl⟩
      intro hopen
      rw [hclosed] at hopen
      exact absurd hopen Bool.false_ne_true
  · rw [if_neg hpcm]
    exact ⟨h,hclosed,hmp3,Bool.not_eq_true _ |>.mp hpcm⟩

theorem freeStaging_owns (h : Owns (s ::ₘ others) base b) (hclosed : s.stream.sessionOpen = false)
    (hmp3 : s.mp3Allocated = false) (hpcm : s.pcmAllocated = false) :
    board.wp s.freeStaging (fun s' b' => Owns (s' ::ₘ others) base b' ∧
      s'.mp3Allocated = false ∧ s'.pcmAllocated = false ∧ s'.stagingAllocated = false) b := by
  unfold BoardStream.freeStaging
  by_cases hstaging : s.stagingAllocated = true
  · have hacquired := h.valid_head.acquired (.inr (.inr hstaging))
    rw [if_pos hstaging]
    intro freed _
    refine ⟨h.freed hacquired hclosed ?_ hclosed hacquired ?_,hmp3,hpcm,rfl⟩
    · simp [BoardStream.handles,hmp3,hpcm,hstaging]
    · refine ⟨fun _ => hacquired,?_,h.valid_head.unringed⟩
      intro hopen
      rw [hclosed] at hopen
      exact absurd hopen Bool.false_ne_true
  · rw [if_neg hstaging]
    exact ⟨h,hmp3,hpcm,Bool.not_eq_true _ |>.mp hstaging⟩

/-- A stream whose session has ended holds nothing, wherever its beginning had failed. -/
theorem endSession_owns (h : Owns (s ::ₘ others) base b) :
    board.wp (s.endSession base)
      (fun r b' => Owns (r.2 ::ₘ others) r.1 b' ∧ r.2.zz9kAcquired = false) b := by
  unfold BoardStream.endSession
  rw [World.wp_bind]
  refine World.wp_mono _ (closeSession_owns h) fun s₁ b₁ h₁ => ?_
  rw [World.wp_bind]
  refine World.wp_mono _ (freeMp3_owns h₁.1 h₁.2) fun s₂ b₂ h₂ => ?_
  rw [World.wp_bind]
  refine World.wp_mono _ (freePcm_owns h₂.1 h₂.2.1 h₂.2.2) fun s₃ b₃ h₃ => ?_
  rw [World.wp_bind]
  obtain ⟨howns₃,hclosed₃,hmp3₃,hpcm₃⟩ := h₃
  refine World.wp_mono _ (freeStaging_owns howns₃ hclosed₃ hmp3₃ hpcm₃) fun s₄ b₄ h₄ => ?_
  obtain ⟨howns₄,hmp3₄,hpcm₄,hstaging₄⟩ := h₄
  refine World.wp_mono _ (releaseBoard_owns howns₄ hmp3₄ hpcm₄ hstaging₄) fun r b₅ h₅ => ?_
  exact ⟨h₅.1,by rw [h₅.2]⟩

/-- A stream that has acquired the library to begin a session, and has decoded nothing in it -/
structure Beginning (s : BoardStream) : Prop where
  acquired : s.zz9kAcquired = true
  closed : s.stream.sessionOpen = false
  empty : s.stream.pcmAvailable = 0

theorem Beginning.settled (h : Beginning s) : s.Settled := .inr (.inr h.empty)

theorem pcmAvailable_zero (t : MpegaStream) :
    MpegaStream.pcmAvailable { t with result := .zero } = 0 := by
  unfold MpegaStream.pcmAvailable
  split_ifs
  · rfl
  · exact Nat.zero_sub _

theorem beginSession_owns (h : Owns (s ::ₘ others) base b) (hs : Beginning s)
    (hmp3 : s.mp3Allocated = true) (hpcm : s.pcmAllocated = true)
    (hstaging : s.stagingAllocated = true) (lowWaterBytes : Nat) :
    board.wp (s.beginSession lowWaterBytes)
      (fun r b' => Owns (r.2 ::ₘ others) base b' ∧ r.2.Settled) b := by
  unfold BoardStream.beginSession
  split_ifs
  · intro answer hallowed
    cases answer with
    | ok result =>
      refine ⟨h.begun hmp3 hpcm hs.closed hallowed rfl rfl hs.acquired ?_,.inl rfl⟩
      exact ⟨h.valid_head.acquired,fun _ => ⟨hmp3,hpcm,hstaging⟩,h.valid_head.unringed⟩
    | failed =>
      have hleft : Owns (s ::ₘ others) base
          (board.next b ⟨.streamBegin s.mp3Ring.handle s.pcmHandle,.failed⟩) :=
        h.unbegun hmp3 hpcm rfl
      refine ⟨hleft.kept rfl ?_ rfl ?_,.inr (.inr (pcmAvailable_zero _))⟩
      · show BoardStream.sessions { s with stream := { s.stream with result := .zero } } = _
        simp [BoardStream.sessions,hs.closed]
      · exact ⟨h.valid_head.acquired,h.valid_head.opened,h.valid_head.unringed⟩
    | notEntered => exact ⟨h.unbegun hmp3 hpcm rfl,hs.settled⟩
  · exact ⟨h,hs.settled⟩

theorem beginStaging_owns (h : Owns (s ::ₘ others) base b) (hs : Beginning s)
    (hmp3 : s.mp3Allocated = true) (hpcm : s.pcmAllocated = true)
    (hstaging : s.stagingAllocated = false) (bytes : Nat) :
    board.wp (s.beginStaging bytes)
      (fun r b' => Owns (r.2 ::ₘ others) base b' ∧ r.2.Settled) b := by
  intro staging hnew
  cases staging with
  | none => exact ⟨h.unallocated hs.acquired,hs.settled⟩
  | some staging =>
    refine beginSession_owns ?_ ?_ ?_ ?_ ?_ bytes
    · refine h.allocated hs.acquired hnew ?_ rfl hs.acquired ?_
      · simp [BoardStream.handles,hstaging,add_comm]
      · exact ⟨fun _ => hs.acquired,fun _ => ⟨hmp3,hpcm,rfl⟩,h.valid_head.unringed⟩
    · exact ⟨hs.acquired,hs.closed,hs.empty⟩
    · exact hmp3
    · exact hpcm
    · rfl

/-- A PCM ring of either size -/
theorem withPcm_owns (h : Owns (s ::ₘ others) base b) (hs : Beginning s)
    (hmp3 : s.mp3Allocated = true) (hpcm : s.pcmAllocated = false)
    (hstaging : s.stagingAllocated = false) {capacity : Nat} {pcm : SharedBuffer}
    (hnew : pcm.handle ∉ b.live) (bytes : Nat) :
    board.wp ((s.withPcm pcm).beginStaging bytes)
      (fun r b' => Owns (r.2 ::ₘ others) base b' ∧ r.2.Settled)
      (board.next b ⟨.allocShared capacity,some pcm⟩) := by
  have hopen : s.stream.sessionOpen ≠ true := by simp [hs.closed]
  have howns : Owns (s.withPcm pcm ::ₘ others) base
      (board.next b ⟨.allocShared capacity,some pcm⟩) := by
    refine h.allocated hs.acquired hnew ?_ ?_ hs.acquired ?_
    · simp [BoardStream.handles,BoardStream.withPcm,hpcm,hstaging,add_comm]
    · simp [BoardStream.sessions,BoardStream.withPcm,hopen]
    · exact ⟨fun _ => hs.acquired,fun hopen' => absurd hopen' hopen,fun hno => by cases hno⟩
  exact beginStaging_owns howns ⟨hs.acquired,hs.closed,hs.empty⟩ hmp3 rfl hstaging bytes

theorem beginPcm_owns (h : Owns (s ::ₘ others) base b) (hs : Beginning s)
    (hmp3 : s.mp3Allocated = true) (hpcm : s.pcmAllocated = false)
    (hstaging : s.stagingAllocated = false) :
    board.wp s.beginPcm (fun r b' => Owns (r.2 ::ₘ others) base b' ∧ r.2.Settled) b := by
  intro pcm hnew
  cases pcm with
  | some pcm => exact withPcm_owns h hs hmp3 hpcm hstaging hnew stagingBytes
  | none =>
    have h' : Owns (s ::ₘ others) base (board.next b ⟨.allocShared pcmRingCapacity,none⟩) :=
      h.unallocated hs.acquired
    intro pcm hnew'
    cases pcm with
    | some pcm => exact withPcm_owns h' hs hmp3 hpcm hstaging hnew' stagingCompactBytes
    | none => exact ⟨h'.unallocated hs.acquired,hs.settled⟩

theorem beginMp3_owns (h : Owns (s ::ₘ others) base b) (hs : Beginning s)
    (hmp3 : s.mp3Allocated = false) (hpcm : s.pcmAllocated = false)
    (hstaging : s.stagingAllocated = false) :
    board.wp s.beginMp3 (fun r b' => Owns (r.2 ::ₘ others) base b' ∧ r.2.Settled) b := by
  have hopen : s.stream.sessionOpen ≠ true := by simp [hs.closed]
  intro mp3 hnew
  cases mp3 with
  | none => exact ⟨h.unallocated hs.acquired,hs.settled⟩
  | some mp3 =>
    refine beginPcm_owns (h.allocated hs.acquired hnew ?_ ?_ hs.acquired ?_)
      ⟨hs.acquired,hs.closed,hs.empty⟩ rfl hpcm hstaging
    · simp [BoardStream.handles,hmp3,hpcm,hstaging]
    · simp [BoardStream.sessions,hopen]
    · exact ⟨fun _ => hs.acquired,fun hopen' => absurd hopen' hopen,h.valid_head.unringed⟩

/-- A beginning that fails at any step leaves a stream that owns what it got so far. -/
theorem streamBegin_owns (h : Owns (s ::ₘ others) base b) (hacquired : s.zz9kAcquired = false)
    (hempty : s.stream.pcmAvailable = 0) :
    board.wp (s.streamBegin base)
      (fun r b' => Owns (r.2.2 ::ₘ others) r.2.1 b' ∧ r.2.2.Settled) b := by
  have hno : ¬ s.zz9kAcquired = true := by simp [hacquired]
  have hmp3 := mt (fun hmp3 => h.valid_head.acquired (.inl hmp3)) hno
  have hpcm := mt (fun hpcm => h.valid_head.acquired (.inr (.inl hpcm))) hno
  have hstaging := mt (fun hstaging => h.valid_head.acquired (.inr (.inr hstaging))) hno
  have hopen := mt (fun hopen => (h.valid_head.opened hopen).1) hmp3
  rw [Bool.not_eq_true] at hmp3 hpcm hstaging hopen
  unfold BoardStream.streamBegin
  rw [World.wp_bind]
  refine World.wp_mono _ (zz9kAcquire_owns h hacquired) fun r b' hr => ?_
  obtain ⟨acquired,base'⟩ := r
  cases acquired with
  | false =>
    have hsame : { s with zz9kAcquired := false } = s := by
      rw [← hacquired]
    dsimp only at hr
    rw [hsame] at hr
    exact ⟨hr,.inr (.inr hempty)⟩
  | true =>
    show World.wp _ (BoardStream.beginMp3 _ >>= _) _ _
    rw [World.wp_bind]
    exact beginMp3_owns hr ⟨rfl,hopen,hempty⟩ hmp3 hpcm hstaging

/-- A stream that holds nothing has nothing to decode from. -/
theorem settled_of_bare (hvalid : s.Valid) (hacquired : s.zz9kAcquired = false) : s.Settled := by
  refine .inr (.inl (hvalid.unringed ?_))
  rw [← Bool.not_eq_true]
  intro hpcm
  have := hvalid.acquired (.inr (.inl hpcm))
  rw [hacquired] at this
  exact Bool.false_ne_true this

/-- Whichever step of a seek fails, the stream owns what it has then. -/
theorem restartAtByte_owns (h : Owns (s ::ₘ others) base b) (hs : s.Settled) (absBytePos : Int) :
    board.wp (s.restartAtByte base absBytePos)
      (fun r b' => Owns (r.2.2 ::ₘ others) r.2.1 b' ∧ r.2.2.Settled) b := by
  unfold BoardStream.restartAtByte
  split_ifs
  · exact ⟨h,hs⟩
  rw [World.wp_bind]
  refine World.wp_mono _ (endSession_owns h) fun r b' hr => ?_
  obtain ⟨base',s'⟩ := r
  obtain ⟨howns,hacquired⟩ := hr
  intro sought _
  have hproper : b'.Proper (.seekSource absBytePos) := trivial
  rw [next_idle howns.sound hproper rfl]
  cases sought with
  | false => exact ⟨howns,settled_of_bare howns.valid_head hacquired⟩
  | true =>
    have hopen : ¬ s'.stream.sessionOpen = true := by
      intro hopen
      have := howns.valid_head.acquired (.inl (howns.valid_head.opened hopen).1)
      rw [show s'.zz9kAcquired = false from hacquired] at this
      exact Bool.false_ne_true this
    have hrewound : Owns (s'.rewound ::ₘ others) base' b' := by
      refine howns.kept rfl ?_ rfl ?_
      · simp [BoardStream.sessions,BoardStream.rewound,hopen]
      · exact ⟨howns.valid_head.acquired,howns.valid_head.opened,howns.valid_head.unringed⟩
    exact streamBegin_owns hrewound hacquired rfl

theorem callSeek_owns (h : Owns (s ::ₘ others) base b) (hs : s.Settled) (bytePos : Int) :
    board.wp (s.callSeek base bytePos)
      (fun r b' => Owns (r.2.2 ::ₘ others) r.2.1 b' ∧ r.2.2.Settled) b := by
  unfold BoardStream.callSeek
  split_ifs
  · exact ⟨h,hs⟩
  · rw [World.wp_bind]
    exact restartAtByte_owns h hs bytePos

theorem callDecodeFrame_owns (h : Owns (s ::ₘ others) base b) (hs : s.Settled) :
    board.wp s.callDecodeFrame
      (fun r b' => Owns (r.2.2 ::ₘ others) base b' ∧ r.2.2.Settled) b := by
  unfold BoardStream.callDecodeFrame
  rw [World.wp_bind,BoardStream.onBoard,World.wp_translate]
  by_cases hopen : s.stream.sessionOpen = true
  · refine World.wp_mono _ (decodeFrame_inSession ⟨rfl,hopen,rfl⟩ (h.serving hopen))
      fun r b' hr => ?_
    obtain ⟨result,samples,t⟩ := r
    obtain ⟨rfl,ht⟩ := hr
    have hsetup : t.setup = s.stream.setup := ht.setup
    have hopened : t.sessionOpen = true := ht.opened
    have hnumber : t.result.session = s.stream.result.session := ht.number
    refine ⟨h.kept ?_ ?_ rfl ?_,.inl hopened⟩
    · simp [BoardStream.handles,hsetup]
    · simp [BoardStream.sessions,hopened,hopen,hnumber]
    · refine ⟨h.valid_head.acquired,fun _ => h.valid_head.opened hopen,?_⟩
      intro hpcm
      rw [← h.valid_head.unringed hpcm,← hsetup]
  · obtain ⟨result,hresult⟩ :=
      decodeFrame_settled (Bool.not_eq_true _ |>.mp hopen) (hs.resolve_left hopen)
    rw [hresult]
    exact ⟨h,hs⟩

/-- A stream that holds nothing may go. -/
theorem Owns.dropped (h : Owns (s ::ₘ others) base b) (hacquired : s.zz9kAcquired = false) :
    Owns others base b := by
  have hno : ¬ s.zz9kAcquired = true := by simp [hacquired]
  have hmp3 := mt (fun hmp3 => h.valid_head.acquired (.inl hmp3)) hno
  have hpcm := mt (fun hpcm => h.valid_head.acquired (.inr (.inl hpcm))) hno
  have hstaging := mt (fun hstaging => h.valid_head.acquired (.inr (.inr hstaging))) hno
  have hopen := mt (fun hopen => (h.valid_head.opened hopen).1) hmp3
  rw [Bool.not_eq_true] at hmp3 hpcm hstaging hopen
  refine ⟨h.sound,?_,h.nodup,?_,h.numbers,?_,h.opened,h.library,?_,?_⟩
  · rw [h.live_cons]
    simp [BoardStream.handles,hmp3,hpcm,hstaging]
  · rw [h.sessions_cons]
    simp [BoardStream.sessions,hopen]
  · rw [h.count,Multiset.countP_cons,if_neg hno,Nat.add_zero]
  · have hfew := h.few
    rw [Multiset.card_cons] at hfew
    omega
  · exact fun t ht => h.valid t (Multiset.mem_cons_of_mem ht)

theorem callClose_owns (h : Owns (s ::ₘ others) base b) :
    board.wp (s.callClose base) (fun base' b' => Owns others base' b') b := by
  unfold BoardStream.callClose
  rw [World.wp_bind]
  refine World.wp_mono _ (endSession_owns h) fun r b' hr => ?_
  exact hr.1.dropped hr.2

/-- A stream in its defaults holds nothing. -/
theorem Owns.defaulted (h : Owns others base b) (hfew : others.card+1 < 65536)
    (layer frequency channels : Nat) (layer3 layer12 : MpegaLayer) (inputChunkBytes : Int) :
    Owns (BoardStream.defaults layer frequency channels layer3 layer12 inputChunkBytes ::ₘ others)
      base b where
  sound := h.sound
  live := by
    rw [h.live,Multiset.cons_bind]
    exact (zero_add _).symm
  nodup := h.nodup
  sessions := by
    rw [h.sessions,Multiset.cons_bind]
    exact (zero_add _).symm
  numbers := h.numbers
  count := by
    rw [h.count,Multiset.countP_cons]
    rfl
  opened := h.opened
  library := h.library
  few := by rwa [Multiset.card_cons]
  valid := by
    intro t ht
    cases Multiset.mem_cons.mp ht with
    | inl heq =>
      rw [heq]
      exact ⟨fun hany => by simp [BoardStream.defaults] at hany,nofun,fun _ => rfl⟩
    | inr hmem => exact h.valid t hmem

/-- Who owns what once a stream is opened, or is not -/
def Opened (others : Multiset BoardStream) (r : MpegaBase × Option BoardStream) (b : Board) :
    Prop :=
  match r.2 with
  | some s => Owns (s ::ₘ others) r.1 b ∧ s.Settled
  | none => Owns others r.1 b

theorem callOpen_owns (h : Owns others base b) (hfew : others.card+1 < 65536)
    (layer frequency channels : Nat) (layer3 layer12 : MpegaLayer) (inputChunkBytes : Int) :
    board.wp ((BoardStream.defaults layer frequency channels layer3 layer12
      inputChunkBytes).callOpen base) (Opened others) b := by
  have hs := h.defaulted hfew layer frequency channels layer3 layer12 inputChunkBytes
  have hidle (call : BoardCall) (hp : b.Proper call) (x : BoardAnswer call)
      (hafter : b.after ⟨call,x⟩ = b) : board.next b ⟨call,x⟩ = b := next_idle h.sound hp hafter
  have hclose {s : BoardStream} {base' : MpegaBase} {b' : Board}
      (howns : Owns (s ::ₘ others) base' b') :
      board.wp (s.callClose base' >>= fun base => Ask.ret (base,none)) (Opened others) b' := by
    rw [World.wp_bind]
    exact callClose_owns howns
  intro state _
  rw [hidle .allocMem trivial state rfl]
  cases state with
  | false => exact h
  | true =>
    intro inputBuffer _
    rw [hidle .allocMem trivial inputBuffer rfl]
    cases inputBuffer with
    | false => exact hclose hs
    | true =>
      intro opened _
      rw [hidle .openSource trivial opened rfl]
      cases opened with
      | false => exact hclose hs
      | true =>
        intro probed _
        rw [hidle .probeMetadata trivial probed rfl]
        cases probed with
        | false => exact hclose hs
        | true =>
          show board.wp (BoardStream.streamBegin _ base >>= _) _ b
          rw [World.wp_bind]
          refine World.wp_mono _ (streamBegin_owns hs rfl rfl) fun r b' hr => ?_
          obtain ⟨begun,base',s'⟩ := r
          cases begun with
          | true => exact hr
          | false => exact hclose hr.1

end ZZ9K.Mpega
