import ZZ9K.Mpega.Stream

namespace ZZ9K.Mpega

open ZZ9K.Framework ZZ9K.Math

/-- A source with so many bytes left, the feeds so far, and those that the firmware has accepted a
chunk of the source with -/
structure Feeding where
  left : Nat
  feeds : Nat
  chunks : Nat

/-- Any firmware, and any source that ends: a read brings no more than is left. The counters that the
firmware reports are 32-bit words. -/
abbrev anyFirmware : World MpegaAsk MpegaAnswer where
  State := Feeding
  allowed v
    | ⟨.readSource _,got⟩ => got ≤ (v.left : Int)
    | ⟨.feed _ _ _ _,.ok result⟩ => result.bytesProduced < 2^32
    | ⟨.read _ _,.ok result⟩ => result.bytesProduced < 2^32
    | _ => True
  next v
    | ⟨.readSource _,got⟩ => { v with left := v.left-got.toNat }
    | ⟨.feed _ _ length _,answer⟩ =>
      { v with
        feeds := v.feeds+1
        chunks := if answer.isOk ∧ 0 < length then v.chunks+1 else v.chunks }
    | _ => v

namespace MpegaStream

variable (s : MpegaStream)

/-- PCM is on offer, but less than a frame. -/
def PartialFrame : Prop := 0 < s.pcmAvailable ∧ s.pcmAvailable < s.sourceChannels*2

/-- The counters are 32-bit words. -/
def Words : Prop := s.result.bytesProduced < 2^32 ∧ s.pcmSeenBytes < 2^32

/-- What an attempt, or several, leave: the counters are words, nothing is copied, and the source
does not grow. -/
structure Kept (s : MpegaStream) (v : Feeding) (s' : MpegaStream) (v' : Feeding) : Prop where
  words : s'.Words
  seen : s'.pcmSeenBytes = s.pcmSeenBytes
  left : v'.left ≤ v.left
  chunks : v.chunks ≤ v'.chunks
  sent : s.eofSent = true → s'.eofSent = true

/-- The firmware has accepted a chunk of the source. -/
def FedChunk (v v' : Feeding) : Prop := v.chunks < v'.chunks ∧ v'.left < v.left

/-- The firmware, which has not been told that the source ends, has accepted a chunk or is told now,
and nothing is left to acknowledge. -/
def Fed (s : MpegaStream) (v : Feeding) (s' : MpegaStream) (v' : Feeding) : Prop :=
  s.eofSent = false ∧ s'.pcmPendingAckBytes = 0 ∧ (FedChunk v v' ∨ s'.eofSent = true)

variable {s} {v : Feeding}

theorem updateStreamInfo_keeps (s : MpegaStream) :
    s.updateStreamInfo.result = s.result ∧ s.updateStreamInfo.pcmSeenBytes = s.pcmSeenBytes ∧
      s.updateStreamInfo.pcmPendingAckBytes = s.pcmPendingAckBytes ∧
      s.updateStreamInfo.eofSent = s.eofSent := by
  rw [updateStreamInfo]
  split_ifs <;> exact ⟨rfl,rfl,rfl,rfl⟩

theorem stored_words (hs : s.Words) {answer : StreamAnswer}
    (h : ∀ result, answer = .ok result → result.bytesProduced < 2^32) :
    (answer.stored s.result).bytesProduced < 2^32 := by
  cases answer with
  | ok result => exact h result rfl
  | failed => exact Nat.two_pow_pos 32
  | notEntered => exact hs.1

theorem ackAnswered_keeps (hs : s.Words) {answer : StreamAnswer}
    (h : ∀ result, answer = .ok result → result.bytesProduced < 2^32) :
    (s.ackAnswered answer).2.Words ∧ (s.ackAnswered answer).2.pcmSeenBytes = s.pcmSeenBytes ∧
      (s.ackAnswered answer).2.eofSent = s.eofSent ∧
      ((s.ackAnswered answer).1 = true → (s.ackAnswered answer).2.pcmPendingAckBytes = 0) := by
  have hstored := stored_words hs h
  rw [ackAnswered]
  dsimp only
  cases answer.isOk with
  | false =>
    rw [if_neg Bool.false_ne_true]
    exact ⟨⟨hstored,hs.2⟩,rfl,rfl,fun h => absurd h Bool.false_ne_true⟩
  | true =>
    rw [if_pos rfl]
    obtain ⟨hresult,hseen,hpending,hsent⟩ := updateStreamInfo_keeps
      { s with
        result := answer.stored s.result
        pcmPendingAckBytes := 0
        pcmReadOffset := (answer.stored s.result).pcmRead }
    refine ⟨⟨?_,?_⟩,hseen,hsent,fun _ => hpending⟩
    · rw [hresult]
      exact hstored
    · rw [hseen]
      exact hs.2

/-- An acknowledgement, once it is made, leaves nothing to acknowledge. -/
theorem ackPcm_keeps (hs : s.Words) (force : Bool) :
    anyFirmware.wp (s.ackPcm force) (fun r v' => v' = v ∧ r.2.Words ∧
      r.2.pcmSeenBytes = s.pcmSeenBytes ∧ r.2.eofSent = s.eofSent ∧
      (r.1 = true → force = true → r.2.pcmPendingAckBytes = 0) ∧
      (s.pcmPendingAckBytes = 0 → r.2 = s)) v := by
  rw [ackPcm]
  split_ifs with hopen hnone hsoon
  · exact ⟨rfl,hs,rfl,rfl,fun h _ => absurd h Bool.false_ne_true,fun _ => rfl⟩
  · exact ⟨rfl,hs,rfl,rfl,fun _ _ => hnone,fun _ => rfl⟩
  · refine ⟨rfl,hs,rfl,rfl,fun _ hforce => ?_,fun _ => rfl⟩
    rw [hforce] at hsoon
    exact absurd hsoon.1 (by decide)
  · intro answer hallowed
    have hwords : ∀ result,answer = .ok result → result.bytesProduced < 2^32 := by
      rintro result rfl
      exact hallowed
    obtain ⟨hw,hseen,hsent,hpending⟩ := ackAnswered_keeps hs hwords
    exact ⟨rfl,hw,hseen,hsent,fun h _ => hpending h,fun h => absurd h hnone⟩

theorem feedAnswered_keeps (hs : s.Words) {answer : StreamAnswer}
    (h : ∀ result, answer = .ok result → result.bytesProduced < 2^32) :
    (s.feedAnswered answer).2.Words ∧ (s.feedAnswered answer).2.pcmSeenBytes = s.pcmSeenBytes ∧
      (s.feedAnswered answer).2.pcmPendingAckBytes = s.pcmPendingAckBytes ∧
      (s.feedAnswered answer).2.eofSent = s.eofSent := by
  have hstored := stored_words hs h
  obtain ⟨hresult,hseen,hpending,hsent⟩ := updateStreamInfo_keeps
    { s with result := answer.stored s.result }
  have hupdated : (updateStreamInfo { s with result := answer.stored s.result }).Words := by
    rw [Words,hresult,hseen]
    exact ⟨hstored,hs.2⟩
  rw [feedAnswered]
  dsimp only
  split_ifs
  · exact ⟨hupdated,hseen,hpending,hsent⟩
  · exact ⟨hupdated,hseen,hpending,hsent⟩
  · exact ⟨hupdated,hseen,hpending,hsent⟩
  · exact ⟨⟨hstored,hs.2⟩,rfl,rfl,rfl⟩

/-- An attempt goes on, or ends with PCM, only where the firmware has accepted its feed. -/
theorem feedAnswered_status (s : MpegaStream) (answer : StreamAnswer) :
    ((s.feedAnswered answer).1 = none ∨ (s.feedAnswered answer).1 = some errNone →
        answer.isOk = true) ∧
      ((s.feedAnswered answer).1 = some errNone → (s.feedAnswered answer).2.pcmAvailable ≠ 0) ∧
      ∀ code, (s.feedAnswered answer).1 = some code → code ≤ 0 := by
  rw [feedAnswered]
  dsimp only
  split_ifs with hok havailable hdone
  · exact ⟨fun _ => hok,fun _ => havailable,fun code h => Int.le_of_eq (Option.some.inj h).symm⟩
  · refine ⟨fun _ => hok,fun h => absurd (Option.some.inj h) (by decide),?_⟩
    intro code h
    obtain rfl := Option.some.inj h
    decide
  · exact ⟨fun _ => hok,fun h => h.elim,fun code h => h.elim⟩
  · refine ⟨fun h => ?_,fun h => absurd (Option.some.inj h) (by decide),?_⟩
    · rcases h with h | h
      · cases h
      · exact absurd (Option.some.inj h) (by decide)
    · intro code h
      obtain rfl := Option.some.inj h
      decide

/-- What an attempt brings about: it goes on or ends with PCM only if something was fed, and else it
ends with an error. -/
structure Attempted (s : MpegaStream) (v : Feeding) (status : Option Int) (s' : MpegaStream)
    (v' : Feeding) : Prop where
  kept : Kept s v s' v'
  feeds : v'.feeds ≤ v.feeds+1
  fed : status = none ∨ status = some errNone → Fed s v s' v'
  offer : status = some errNone → s'.pcmAvailable ≠ 0
  ends : ∀ code, status = some code → code ≤ 0

theorem attempted_failed {s' : MpegaStream} {v' : Feeding} {code : Int} (hkept : Kept s v s' v')
    (hfeeds : v'.feeds ≤ v.feeds+1) (hcode : code < 0) : Attempted s v (some code) s' v' where
  kept := hkept
  feeds := hfeeds
  fed h := by
    rcases h with h | h
    · cases h
    · exact absurd (Option.some.inj h) (Int.ne_of_lt hcode)
  offer h := absurd (Option.some.inj h) (Int.ne_of_lt hcode)
  ends _ h := Option.some.inj h ▸ Int.le_of_lt hcode

/-- An attempt from the bytes it has got on -/
theorem feedGot_attempted (hs : s.Words) (hpending : s.pcmPendingAckBytes = 0)
    (hsent : s.eofSent = false) {got : Int} (hgot : got ≤ v.left) :
    anyFirmware.wp (s.feedGot got) (fun r v' => Attempted s v r.1 r.2 v')
      { v with left := v.left-got.toNat } := by
  have hsame : ∀ sent, Kept s v { s with eofSent := sent } { v with left := v.left-got.toNat } := by
    intro sent
    exact ⟨hs,rfl,Nat.sub_le _ _,le_rfl,fun h => absurd (hsent.symm.trans h) Bool.false_ne_true⟩
  rw [feedGot]
  dsimp only
  split_ifs with hbad hstage hdesc
  · exact attempted_failed (hsame s.eofSent) (Nat.le_succ _) (by decide)
  · exact attempted_failed (hsame _) (Nat.le_succ _) (by decide)
  · exact attempted_failed (hsame _) (Nat.le_succ _) (by decide)
  intro answer hallowed
  have hwords : ∀ result,answer = .ok result → result.bytesProduced < 2^32 := by
    rintro result rfl
    exact hallowed
  obtain ⟨hw,hseen,hstill,hsent'⟩ := feedAnswered_keeps
    (s := { s with eofSent := s.eofSent || decide (got = 0) }) hs hwords
  obtain ⟨hok,hoffer,hends⟩ := feedAnswered_status
    { s with eofSent := s.eofSent || decide (got = 0) } answer
  refine ⟨⟨hw,hseen,Nat.sub_le _ _,?_,fun h => absurd (hsent.symm.trans h) Bool.false_ne_true⟩,
    le_rfl,?_,hoffer,hends⟩
  · dsimp only
    split_ifs
    · exact Nat.le_succ _
    · exact le_rfl
  · intro hstatus
    have haccepted := hok hstatus
    refine ⟨hsent,hstill.trans hpending,?_⟩
    by_cases hend : got = 0
    · refine .inr (hsent'.trans ?_)
      rw [hend]
      exact Bool.or_true _
    · have hpos : 0 < got.toNat := by omega
      refine .inl ⟨?_,?_⟩
      · dsimp only
        rw [if_pos ⟨haccepted,hpos⟩]
        exact Nat.lt_succ_self _
      · dsimp only
        omega

theorem Kept.trans {s₁ s₂ : MpegaStream} {v₁ v₂ : Feeding} (h : Kept s v s₁ v₁)
    (h' : Kept s₁ v₁ s₂ v₂) : Kept s v s₂ v₂ where
  words := h'.words
  seen := h'.seen.trans h.seen
  left := Nat.le_trans h'.left h.left
  chunks := Nat.le_trans h.chunks h'.chunks
  sent hsent := h'.sent (h.sent hsent)

theorem Attempted.of_acked {s₁ s₂ : MpegaStream} {v' : Feeding} {status : Option Int}
    (h : Attempted s₁ v status s₂ v') (hseen : s₁.pcmSeenBytes = s.pcmSeenBytes)
    (hsent : s₁.eofSent = s.eofSent) : Attempted s v status s₂ v' where
  kept := ⟨h.kept.words,h.kept.seen.trans hseen,h.kept.left,h.kept.chunks,
    fun hs => h.kept.sent (hsent.trans hs)⟩
  feeds := h.feeds
  fed hstatus := by
    obtain ⟨hfirst,hrest⟩ := h.fed hstatus
    exact ⟨hsent.symm.trans hfirst,hrest⟩
  offer := h.offer
  ends := h.ends

/-- One attempt: nothing is done where PCM is on offer. -/
theorem feedAttempt_attempted (hs : s.Words) :
    anyFirmware.wp s.feedAttempt (fun r v' =>
      if s.pcmAvailable ≠ 0 then r = (some errNone,s) ∧ v' = v else Attempted s v r.1 r.2 v') v := by
  rw [feedAttempt]
  split_ifs with havailable
  · exact ⟨rfl,rfl⟩
  rw [World.wp_bind]
  apply anyFirmware.wp_mono (ackPcm_keeps (v := v) hs true)
  rintro ⟨acked,s₁⟩ v₁ ⟨rfl,hw,hseen,hsent,hacked,-⟩
  dsimp only at hw hseen hsent hacked ⊢
  have hkept : Kept s v₁ s₁ v₁ := ⟨hw,hseen,le_rfl,le_rfl,fun h => hsent.trans h⟩
  split_ifs with hno hdone heof
  · exact attempted_failed hkept (Nat.le_succ _) (by decide)
  · exact attempted_failed hkept (Nat.le_succ _) (by decide)
  · exact attempted_failed hkept (Nat.le_succ _) (by decide)
  intro got hgot
  have hpending : s₁.pcmPendingAckBytes = 0 := by
    refine hacked ?_ rfl
    cases acked with
    | false => exact absurd rfl hno
    | true => rfl
  apply anyFirmware.wp_mono
    (feedGot_attempted (v := v₁) hw hpending (Bool.not_eq_true _ ▸ heof) hgot)
  intro r v' h
  exact h.of_acked hseen hsent

theorem FedChunk.trans {v₁ v₂ : Feeding} (h : FedChunk v v₁) (hchunks : v₁.chunks ≤ v₂.chunks)
    (hleft : v₂.left ≤ v₁.left) : FedChunk v v₂ :=
  ⟨Nat.lt_of_lt_of_le h.1 hchunks,Nat.lt_of_le_of_lt hleft h.2⟩

/-- What several attempts bring about -/
structure Searched (attempts : Nat) (s : MpegaStream) (v : Feeding) (status : Int)
    (s' : MpegaStream) (v' : Feeding) : Prop where
  kept : Kept s v s' v'
  feeds : v'.feeds ≤ v.feeds+attempts
  offer : status = errNone → s'.pcmAvailable ≠ 0 ∧ (s' = s ∧ v' = v ∨ Fed s v s' v')
  none : status = internalNoPcm → 0 < attempts → s.eofSent = false
  chunk : status = internalNoPcm → 1 < attempts → FedChunk v v'
  ends : status ≤ 0 ∨ status = internalNoPcm

theorem feedAttempts_searched (attempts : Nat) (hs : s.Words) :
    anyFirmware.wp (feedAttempts attempts s) (fun r v' => Searched attempts s v r.1 r.2 v') v := by
  induction attempts generalizing s v with
  | zero =>
    refine ⟨⟨hs,rfl,le_rfl,le_rfl,id⟩,le_rfl,fun h => ?_,fun _ h => ?_,fun _ h => ?_,.inr rfl⟩
    · exact absurd (show internalNoPcm = errNone from h) (by decide)
    · exact absurd h (by decide)
    · exact absurd h (by decide)
  | succ attempts ih =>
    rw [feedAttempts,World.wp_bind]
    apply anyFirmware.wp_mono (feedAttempt_attempted (v := v) hs)
    rintro ⟨status,s₁⟩ v₁ h
    split_ifs at h with havailable
    · obtain ⟨hr,rfl⟩ := h
      obtain ⟨rfl,rfl⟩ := Prod.mk.inj hr
      have hother : ¬errNone = internalNoPcm := by decide
      exact ⟨⟨hs,rfl,le_rfl,le_rfl,id⟩,Nat.le_add_right _ _,fun _ => ⟨havailable,.inl ⟨rfl,rfl⟩⟩,
        fun h => absurd h hother,fun h => absurd h hother,.inl (Int.le_refl 0)⟩
    · cases status with
      | some code =>
        have hends := h.ends code rfl
        have hother : ¬code = internalNoPcm := by
          rintro rfl
          exact absurd hends (by decide)
        refine ⟨h.kept,Nat.le_trans h.feeds (by omega),fun hstatus => ?_,
          fun hstatus => absurd hstatus hother,fun hstatus => absurd hstatus hother,.inl hends⟩
        obtain rfl : code = errNone := hstatus
        exact ⟨h.offer rfl,.inr (h.fed (.inr rfl))⟩
      | none =>
        obtain ⟨hfirst,hpending,hfed⟩ := h.fed (.inl rfl)
        apply anyFirmware.wp_mono (ih (v := v₁) h.kept.words)
        intro r v' hrest
        have hlater : FedChunk v v₁ → FedChunk v v' :=
          fun hchunk => hchunk.trans hrest.kept.chunks hrest.kept.left
        refine ⟨h.kept.trans hrest.kept,?_,?_,fun _ _ => hfirst,?_,hrest.ends⟩
        · have := h.feeds
          have := hrest.feeds
          omega
        · intro hstatus
          obtain ⟨hoffer,hwhen⟩ := hrest.offer hstatus
          refine ⟨hoffer,.inr ?_⟩
          rcases hwhen with ⟨hsame,rfl⟩ | ⟨-,hpending',hfed'⟩
          · rw [hsame]
            exact ⟨hfirst,hpending,hfed⟩
          · refine ⟨hfirst,hpending',?_⟩
            rcases hfed' with hchunk | hsent
            · exact .inl ⟨Nat.lt_of_le_of_lt h.kept.chunks hchunk.1,
                Nat.lt_of_lt_of_le hchunk.2 h.kept.left⟩
            · exact .inr hsent
        · intro hstatus hmore
          have hunsent := hrest.none hstatus (by omega)
          rcases hfed with hchunk | hsent
          · exact hlater hchunk
          · exact absurd (hunsent.symm.trans hsent) Bool.false_ne_true

theorem sourceChannels_bounds (s : MpegaStream) : 0 < s.sourceChannels ∧ s.sourceChannels ≤ 2 := by
  rw [sourceChannels,maxChannels]
  split_ifs <;> omega

/-- What is copied is on offer, and nothing is copied just where less than a frame is. -/
theorem planarBytes_bounds (havailable : s.pcmAvailable ≠ 0) :
    s.planarBytes ≤ s.pcmAvailable ∧ (s.planarBytes = 0 ↔ s.PartialFrame) := by
  obtain ⟨hpos,-⟩ := sourceChannels_bounds s
  have hframe : 0 < s.sourceChannels*2 := by omega
  have hcall : s.sourceChannels*2 ≤ pcmSize*s.sourceChannels*2 := by
    rw [pcmSize]
    omega
  have hround : ∀ x,x-x%(s.sourceChannels*2) = 0 ↔ x < s.sourceChannels*2 := by
    intro x
    have hlt := Nat.mod_lt x hframe
    have hle := Nat.mod_le x (s.sourceChannels*2)
    constructor
    · intro h
      omega
    · intro h
      rw [Nat.mod_eq_of_lt h,Nat.sub_self]
  rw [planarBytes,PartialFrame]
  split_ifs with hless
  · refine ⟨Nat.sub_le _ _,?_⟩
    rw [hround]
    omega
  · refine ⟨Nat.le_trans (Nat.sub_le _ _) (Nat.not_lt.mp hless),?_⟩
    rw [hround]
    omega

/-- What a copy brings about that does not fail -/
structure Copied (s s' : MpegaStream) : Prop where
  words : s'.Words
  seen : s.pcmSeenBytes ≤ s'.pcmSeenBytes
  consumed : ¬s.PartialFrame → s.pcmSeenBytes < s'.pcmSeenBytes
  stays : s.PartialFrame → s.pcmPendingAckBytes = 0 → s'.PartialFrame

theorem planarCopied_copied (hs : s.Words) (havailable : s.pcmAvailable ≠ 0)
    (samples : List (List Int16)) (offset : Nat) :
    anyFirmware.wp (s.planarCopied samples offset)
      (fun r v' => v' = v ∧ (0 ≤ r.1 → Copied s r.2.2)) v := by
  obtain ⟨hbytes,hnone⟩ := planarBytes_bounds havailable
  have hseen : (s.pcmSeenBytes+s.planarBytes)%2^32 = s.pcmSeenBytes+s.planarBytes := by
    have := hs.1
    rw [pcmAvailable] at hbytes havailable
    split_ifs at hbytes havailable with hbehind
    · exact absurd rfl havailable
    · exact Nat.mod_eq_of_lt (by omega)
  have hfailed : ¬0 ≤ errBadFrame := by decide
  rw [planarCopied]
  dsimp only
  split_ifs with hpending
  · exact ⟨rfl,fun h => absurd h hfailed⟩
  let s₁ : MpegaStream := { s with
    pcmSeenBytes := (s.pcmSeenBytes+s.planarBytes)%2^32
    pcmPendingAckBytes := s.pcmPendingAckBytes+s.planarBytes
    pcmReadOffset := offset }
  have hwords : s₁.Words := ⟨hs.1,Nat.mod_lt _ (Nat.two_pow_pos 32)⟩
  have hseen₁ : s₁.pcmSeenBytes = s.pcmSeenBytes+s.planarBytes := hseen
  have hpending₁ : s₁.pcmPendingAckBytes = s.pcmPendingAckBytes+s.planarBytes := rfl
  rw [World.wp_bind]
  apply anyFirmware.wp_mono (ackPcm_keeps (v := v) hwords false)
  rintro ⟨acked,s₂⟩ v₂ ⟨rfl,hw,hseen₂,-,-,hsame⟩
  dsimp only at hw hseen₂ hsame ⊢
  have hcopied : Copied s s₂ := by
    refine ⟨hw,by omega,fun hwhole => ?_,fun hpartial hzero => ?_⟩
    · have hsome : s.planarBytes ≠ 0 := fun h => hwhole (hnone.mp h)
      omega
    · have hbytes := hnone.mpr hpartial
      have hs₁ : s₁.PartialFrame := by
        have hnothing : s₁.pcmSeenBytes = s.pcmSeenBytes := by
          omega
        have havail : s₁.pcmAvailable = s.pcmAvailable := by
          rw [pcmAvailable,pcmAvailable,hnothing]
        rw [PartialFrame,havail]
        exact hpartial
      rw [hsame (by omega)]
      exact hs₁
  split_ifs
  · exact ⟨rfl,fun _ => hcopied⟩
  · exact ⟨rfl,fun h => absurd h hfailed⟩

/-- `mpega_copy_pcm_planar` with PCM on offer -/
theorem copyPcmPlanar_copied (hs : s.Words) (havailable : s.pcmAvailable ≠ 0) :
    anyFirmware.wp s.copyPcmPlanar (fun r v' => v' = v ∧ (0 ≤ r.1 → Copied s r.2.2)) v := by
  have hfailed : ¬0 ≤ errBadFrame := by decide
  rw [copyPcmPlanar,if_neg havailable]
  split_ifs
  · exact ⟨rfl,fun h => absurd h hfailed⟩
  · exact ⟨rfl,fun h => absurd h hfailed⟩
  intro ring _
  exact planarCopied_copied hs havailable _ _

/-- What a call brings about that does not fail: the counters are words, nothing is taken back, and
between states without a partial frame a chunk is fed or PCM consumed. -/
structure Advanced (s : MpegaStream) (v : Feeding) (s' : MpegaStream) (v' : Feeding) : Prop where
  words : s'.Words
  left : v'.left ≤ v.left
  seen : s.pcmSeenBytes ≤ s'.pcmSeenBytes
  progress : ¬s.PartialFrame → ¬s'.PartialFrame →
    FedChunk v v' ∨ s.pcmSeenBytes < s'.pcmSeenBytes

/-- One call: it makes no more feeds than attempts. -/
theorem decodeFrame_advanced (hs : s.Words) :
    anyFirmware.wp s.decodeFrame (fun r v' =>
      v'.feeds ≤ v.feeds+maxFeedAttempts ∧ (0 ≤ r.1 → Advanced s v r.2.2 v')) v := by
  rw [decodeFrame,World.wp_bind]
  apply anyFirmware.wp_mono (feedAttempts_searched (v := v) maxFeedAttempts hs)
  rintro ⟨status,s₁⟩ v₁ h
  dsimp only
  split_ifs with hnone hother
  · have hchunk := h.chunk hnone (by decide)
    exact ⟨h.feeds,fun _ =>
      ⟨h.kept.words,h.kept.left,Nat.le_of_eq h.kept.seen.symm,fun _ _ => .inl hchunk⟩⟩
  · refine ⟨h.feeds,fun hok => ?_⟩
    have hzero : status = errNone := by
      rcases h.ends with hle | hno
      · exact Int.le_antisymm hle hok
      · exact absurd hno hnone
    exact absurd hzero hother
  · obtain ⟨havailable,hwhen⟩ := h.offer (not_not.mp hother)
    apply anyFirmware.wp_mono (copyPcmPlanar_copied (v := v₁) h.kept.words havailable)
    rintro ⟨result,samples,s'⟩ v' ⟨rfl,hcopied⟩
    refine ⟨h.feeds,fun hok => ?_⟩
    have hcopy := hcopied hok
    have hseen : s₁.pcmSeenBytes = s.pcmSeenBytes := h.kept.seen
    by_cases hpartial : s₁.PartialFrame
    · refine ⟨hcopy.words,h.kept.left,hseen ▸ hcopy.seen,fun hbefore hafter => ?_⟩
      rcases hwhen with ⟨hsame,-⟩ | ⟨-,hpending,-⟩
      · exact absurd (hsame ▸ hpartial) hbefore
      · exact absurd (hcopy.stays hpartial hpending) hafter
    · have hmore := hcopy.consumed hpartial
      rw [hseen] at hmore
      exact ⟨hcopy.words,h.kept.left,Nat.le_of_lt hmore,fun _ _ => .inr hmore⟩

end MpegaStream

/-- A call of `MPEGA_decode_frame` that is not in error: the stream and the source before and after
it, and what it returns -/
structure DecodeCall where
  before : MpegaStream × Feeding
  result : Int
  after : MpegaStream × Feeding

namespace DecodeCall

/-- A client calls again and again: each call begins where the last has ended. -/
def Calls : MpegaStream × Feeding → List DecodeCall → Prop
  | _,[] => True
  | begun,call::calls => call.before = begun ∧ 0 ≤ call.result ∧
      (∃ samples, anyFirmware.Reaches begun.1.decodeFrame begun.2
        (call.result,samples,call.after.1) call.after.2) ∧ Calls call.after calls

/-- There is no partial frame on offer, neither where the call begins nor where the next does. -/
def WholeFrames (call : DecodeCall) : Prop :=
  ¬call.before.1.PartialFrame ∧ ¬call.after.1.PartialFrame

/-- The call has fed a chunk of the source, or it has consumed PCM. -/
def Progress (call : DecodeCall) : Prop :=
  MpegaStream.FedChunk call.before.2 call.after.2 ∨
    call.before.1.pcmSeenBytes < call.after.1.pcmSeenBytes

/-- What calls can still go on with: the bytes of the source, and the PCM a 32-bit counter has room
for -/
def measure (begun : MpegaStream × Feeding) : Nat :=
  begun.2.left+(2^32-begun.1.pcmSeenBytes)

theorem calls_progress (begun : MpegaStream × Feeding) {calls : List DecodeCall}
    (hs : begun.1.Words) (hcalls : Calls begun calls) (hwhole : ∀ call ∈ calls,call.WholeFrames) :
    (∀ call ∈ calls,call.Progress) ∧ calls.length ≤ measure begun := by
  induction calls generalizing begun with
  | nil => exact ⟨fun call h => absurd h List.not_mem_nil,Nat.zero_le _⟩
  | cons call calls ih =>
    obtain ⟨hbefore,hok,⟨samples,hreach⟩,hrest⟩ := hcalls
    obtain ⟨-,hadvanced⟩ := anyFirmware.wp_reaches
      (MpegaStream.decodeFrame_advanced (v := begun.2) hs) hreach
    have hadv : MpegaStream.Advanced begun.1 begun.2 call.after.1 call.after.2 := hadvanced hok
    obtain ⟨hstart,hend⟩ := hwhole call List.mem_cons_self
    rw [hbefore] at hstart
    have hprogress := hadv.progress hstart hend
    obtain ⟨hothers,hlength⟩ := ih call.after hadv.words hrest fun c hc => hwhole c (List.mem_cons_of_mem _ hc)
    constructor
    · intro c hc
      rcases List.mem_cons.mp hc with rfl | hc
      · rw [Progress,hbefore]
        exact hprogress
      · exact hothers c hc
    · have hleft := hadv.left
      have hseen := hadv.seen
      have hword := hadv.words.2
      have hless : measure call.after < measure begun := by
        rw [measure,measure]
        rcases hprogress with hchunk | hmore
        · have := hchunk.2
          omega
        · omega
      rw [List.length_cons]
      omega

/-- Every call makes at most 128 feeds. And where no partial frame is on offer between the calls, each
feeds a chunk or consumes PCM, so that there are no more of them than the source has bytes and the
counter of the PCM has room for. -/
theorem decodeFrame_progress (s : MpegaStream) (v : Feeding) (hs : s.Words) :
    (∀ result samples s' v',anyFirmware.Reaches s.decodeFrame v (result,samples,s') v' →
        v'.feeds ≤ v.feeds+maxFeedAttempts) ∧
      ∀ calls,Calls (s,v) calls → (∀ call ∈ calls,call.WholeFrames) →
        (∀ call ∈ calls,call.Progress) ∧ calls.length ≤ v.left+(2^32-s.pcmSeenBytes) := by
  constructor
  · intro result samples s' v' hreach
    exact (anyFirmware.wp_reaches (MpegaStream.decodeFrame_advanced (v := v) hs) hreach).1
  · intro calls hcalls hwhole
    exact calls_progress (s,v) hs hcalls hwhole

/-- A stream whose session has just begun -/
def justBegun : MpegaStream where
  setup :=
    { layer := 3
      layer3 := ⟨0,⟨1,44100⟩,⟨1,44100⟩⟩
      layer12 := ⟨0,⟨1,44100⟩,⟨1,44100⟩⟩
      pcmRingLength := 262144
      stagingHandle := 3
      stagingLength := 65536
      inputChunkBytes := 65536
      scalePercent := 100 }
  frequency := 44100
  channels := 2
  result := { StreamResult.zero with session := 7 }
  pcmSeenBytes := 0
  pcmReadOffset := 0
  pcmPendingAckBytes := 0
  sessionOpen := true
  eofSent := false

/-- The stream after its first feed has been answered with half a frame -/
def halfFrame : MpegaStream := { justBegun with
  result :=
    { session := 7,sampleRate := 44100,channels := 2,pcmRead := 0,bytesProduced := 2,done := false } }

/-- In a stream that has just begun no call makes more than 128 feeds, and so on. -/
theorem decodeFrame_progress_justBegun :
    (∀ result samples s' v',anyFirmware.Reaches justBegun.decodeFrame ⟨4,0,0⟩
        (result,samples,s') v' → v'.feeds ≤ 0+maxFeedAttempts) ∧
      ∀ calls,Calls (justBegun,⟨4,0,0⟩) calls → (∀ call ∈ calls,call.WholeFrames) →
        (∀ call ∈ calls,call.Progress) ∧ calls.length ≤ 4+(2^32-0) :=
  decodeFrame_progress justBegun ⟨4,0,0⟩ ⟨by decide,by decide⟩

/-- Half a frame is offered, and nothing of it is copied. -/
theorem halfFrame_copy (v : Feeding) :
    ∃ samples, anyFirmware.Reaches halfFrame.copyPcmPlanar v (0,samples,halfFrame) v := by
  refine ⟨(halfFrame.copyRing fun _ => 0).1,?_⟩
  have hcopy : halfFrame.copyPcmPlanar = .ask .ring fun ring =>
      halfFrame.planarCopied (halfFrame.copyRing ring).1 (halfFrame.copyRing ring).2 := rfl
  rw [hcopy]
  exact World.reaches_ask (fun _ => 0) trivial (anyFirmware.reaches_ret _ v)

/-- With half a frame on offer a call may bring nothing about. -/
theorem halfFrame_idle (v : Feeding) :
    ∃ samples, anyFirmware.Reaches halfFrame.decodeFrame v (0,samples,halfFrame) v := by
  obtain ⟨samples,hcopy⟩ := halfFrame_copy v
  have hfeed : halfFrame.feedUntilPcm = .ret (errNone,halfFrame) := rfl
  refine ⟨samples,?_⟩
  rw [MpegaStream.decodeFrame,hfeed]
  exact hcopy

/-- The feeds of a stream that has just begun, after the first read of the source -/
theorem feedUntilPcm_justBegun :
    justBegun.feedUntilPcm = .ask (.readSource 65536) fun got =>
      justBegun.feedGot got >>= fun r => match r.1 with
        | some status => .ret (status,r.2)
        | none => MpegaStream.feedAttempts 127 r.2 := rfl

/-- A firmware that answers the first feed with half a frame is never fed again: the client may call
for ever, and each call returns 0 and leaves all as it is. -/
theorem decodeFrame_livelock :
    (∃ samples, anyFirmware.Reaches justBegun.decodeFrame ⟨4,0,0⟩ (0,samples,halfFrame) ⟨0,1,1⟩) ∧
      ∀ n, Calls (halfFrame,⟨0,1,1⟩)
        (List.replicate n ⟨(halfFrame,⟨0,1,1⟩),0,(halfFrame,⟨0,1,1⟩)⟩) := by
  constructor
  · obtain ⟨samples,hcopy⟩ := halfFrame_copy ⟨0,1,1⟩
    have hfeed : anyFirmware.Reaches justBegun.feedUntilPcm ⟨4,0,0⟩ (errNone,halfFrame) ⟨0,1,1⟩ := by
      rw [feedUntilPcm_justBegun]
      refine World.reaches_ask (4 : Int) (Int.le_refl 4) ?_
      exact World.reaches_ask (StreamAnswer.ok halfFrame.result) (by decide)
        (anyFirmware.reaches_ret _ _)
    refine ⟨samples,World.reaches_bind hfeed ?_⟩
    exact hcopy
  · intro n
    induction n with
    | zero => trivial
    | succ n ih => exact ⟨rfl,Int.le_refl 0,halfFrame_idle ⟨0,1,1⟩,ih⟩

end DecodeCall

end ZZ9K.Mpega
