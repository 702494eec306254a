import ZZ9K.Audio.Session
import ZZ9K.Host.AllocShared

namespace ZZ9K.Audio

open ZZ9K.Abi ZZ9K.Host CallProg

def opAudioRingAcquire : UInt16 := 0x0513
def opAudioRingRelease : UInt16 := 0x0514

/-- Long word `i` of the payload of a reply -/
def replyWord (reply : MailboxEntry) (i : Nat) : UInt32 :=
  if h : 4*i+3 < 48 then reply.payload.be32 (4*i) h else 0

/-- `zz9k_audio_build_ring_acquire_desc`, on the fields of `desc` -/
def audioBuildRingAcquireDesc (desc : AudioRingAcquireDesc) : Bool :=
  if desc.slot = 0 ∨ audioRingSlotMax < desc.slot ∨ audioMeterIdentitySdkStream < desc.identity ∨
      255 < desc.gain ∨ desc.flags &&& ~~~audioRingAcquireFlagSourceRate ≠ 0 then false
  else if desc.flags &&& audioRingAcquireFlagSourceRate ≠ 0 then
    audioRingRateKnown desc.sourceRateHz
  else desc.sourceRateHz = 0

/-- `zz9k_request_audio_ring_acquire` -/
def requestAudioRingAcquire (desc : AudioRingAcquireDesc) : Except Status MailboxEntry :=
  if audioBuildRingAcquireDesc desc = false then .error .badRequest
  else .ok (requestInit opAudioRingAcquire
    [desc.slot,desc.identity,desc.gain,desc.flags,desc.sourceRateHz])

/-- `zz9k_request_audio_ring_release`, with `zz9k_audio_build_ring_release_desc` -/
def requestAudioRingRelease (slot generation flags : UInt32) : Except Status MailboxEntry :=
  if slot = 0 ∨ audioRingSlotMax < slot ∨ generation = 0 ∨ flags ≠ 0 then .error .badRequest
  else .ok (requestInit opAudioRingRelease [slot,generation,flags])

/-- `zz9k_audio_ring_release` -/
def audioRingRelease (slot generation flags : UInt32) : CallProg Status :=
  match requestAudioRingRelease slot generation flags with
  | .error status => .ret status
  | .ok request => .call request defaultTimeoutTicks fun status _ => .ret status

/-- The fields of a grant as a reply has them -/
def decodedGrant (reply : MailboxEntry) : AudioRingAcquireResult :=
  { slot := replyWord reply 0,generation := replyWord reply 1,ringOffset := replyWord reply 2
    ringCapacity := replyWord reply 3,controlOffset := replyWord reply 4
    periodBytes := replyWord reply 5,periodUs := replyWord reply 6
    sampleContract := replyWord reply 7,gainApplied := replyWord reply 8
    slotCount := replyWord reply 9,flags := replyWord reply 10,sourceRate := replyWord reply 11 }

/-- The rate that earlier firmware leaves out of a bypass grant -/
def normalizedGrant (grant : AudioRingAcquireResult) : AudioRingAcquireResult :=
  if grant.sourceRate = 0 ∧ grant.sampleContract = audioRingContract48k then
    {grant with sourceRate := 48000}
  else grant

theorem normalizedGrant_lease (grant : AudioRingAcquireResult) :
    (normalizedGrant grant).slot = grant.slot ∧
      (normalizedGrant grant).generation = grant.generation := by
  rw [normalizedGrant]
  split <;> exact ⟨rfl,rfl⟩

/-- `zz9k_reply_audio_ring_acquire_result` -/
def replyAudioRingAcquireResult (reply : MailboxEntry) : Except Status AudioRingAcquireResult :=
  match replyRequire reply opAudioRingAcquire 48 with
  | .error status => .error status
  | .ok _ =>
      let result := normalizedGrant (decodedGrant reply)
      if audioRingGrantValid result = false then .error .internalError else .ok result

/-- `zz9k_audio_ring_acquire` from the reply on -/
def audioRingAcquireReply (desc : AudioRingAcquireDesc) (reply : MailboxEntry) :
    CallProg (Status × AudioRingAcquireResult) :=
  match replyAudioRingAcquireResult reply with
  | .error status =>
      (match replyRequire reply opAudioRingAcquire 48 with
        | .error _ => .ret .ok
        | .ok _ =>
            if 1 ≤ replyWord reply 0 ∧ replyWord reply 0 ≤ audioRingSlotMax ∧
                replyWord reply 1 ≠ 0 then
              audioRingRelease (replyWord reply 0) (replyWord reply 1) 0
            else .ret .ok) >>= fun _ => .ret (status,{})
  | .ok result =>
      if audioRingGrantMatchesDesc desc result = false then
        audioRingRelease result.slot result.generation 0 >>= fun _ => .ret (.internalError,{})
      else .ret (.ok,result)

/-- `zz9k_audio_ring_acquire` -/
def audioRingAcquire (desc : AudioRingAcquireDesc) : CallProg (Status × AudioRingAcquireResult) :=
  match requestAudioRingAcquire desc with
  | .error status => .ret (status,{})
  | .ok request =>
      .call request defaultTimeoutTicks fun status reply =>
      if status ≠ .ok then .ret (status,{}) else audioRingAcquireReply desc reply

/-- The pointers and cursors `zz9k_audio_ring_session_begin` derives from a grant, before the first
publication -/
def mappedSession (board : Board) (grant : AudioRingAcquireResult) : AudioRingSession :=
  { grant
    ring := board.boardAddr+grant.ringOffset
    producerLine := board.boardAddr+grant.controlOffset
    firmwareLine := board.boardAddr+grant.controlOffset+audioRingControlLineSize
    heartbeat := 1
    mapped := true }

/-- What both failing branches of `zz9k_audio_ring_session_begin` do with a grant -/
def abandonGrant (grant : AudioRingAcquireResult) : CallProg (Status × AudioRingSession) :=
  audioRingRelease grant.slot grant.generation 0 >>= fun _ => .ret (.internalError,{})

/-- `zz9k_audio_ring_session_begin` up to the first publication, which is that of
`audioRingPublish` and `audioRingTakeCredits` -/
def audioRingSessionBegin (desc : AudioRingAcquireDesc) : CallProg (Status × AudioRingSession) :=
  audioRingAcquire desc >>= fun (status,grant) =>
  if status ≠ .ok then .ret (status,{grant})
  else .look fun ctx =>
    if audioRingGrantValid grant = false ∨
        boardRangeFits ctx.board.boardSize grant.ringOffset grant.ringCapacity = false ∨
        boardRangeFits ctx.board.boardSize grant.controlOffset audioRingControlSize = false then
      abandonGrant grant
    else if ctx.board.zorroVersion = 2 then
      queryApertureLayout >>= fun
        | .error _ => abandonGrant grant
        | .ok layout =>
            if apertureRangeFree layout grant.ringOffset grant.ringCapacity = false ∨
                apertureRangeFree layout grant.controlOffset audioRingControlSize = false then
              abandonGrant grant
            else .ret (.ok,mappedSession ctx.board grant)
    else .ret (.ok,mappedSession ctx.board grant)

/-- `zz9k_audio_ring_session_end` -/
def audioRingSessionEnd (session : AudioRingSession) : CallProg (Status × AudioRingSession) :=
  if session.mapped = false then .ret (.badRequest,session)
  else audioRingRelease session.grant.slot session.grant.generation 0 >>= fun status =>
    .ret (status,{})

/-- The request that gives a slot and its generation back -/
def releaseRequest (lease : UInt32 × UInt32) : MailboxEntry :=
  requestInit opAudioRingRelease [lease.1,lease.2,0]

/-- The slot and the generation an exchange leases out: `zz9k_call` hands the reply on, and it is
complete and names both. -/
def leased (x : Exchange) : Option (UInt32 × UInt32) :=
  if x.status = .ok ∧ (replyRequire x.reply opAudioRingAcquire 48).isOk ∧ 1 ≤ replyWord x.reply 0 ∧
      replyWord x.reply 0 ≤ audioRingSlotMax ∧ replyWord x.reply 1 ≠ 0 then
    some (replyWord x.reply 0,replyWord x.reply 1)
  else none

def leases (log : List Exchange) : List (UInt32 × UInt32) := log.filterMap leased

/-- The RELEASE requests issued -/
def releases (log : List Exchange) : List MailboxEntry :=
  (log.map (·.request)).filter fun request => request.opcode = opAudioRingRelease

theorem leases_append (log₁ log₂ : List Exchange) :
    leases (log₁++log₂) = leases log₁++leases log₂ := by
  simp [leases]

theorem releases_append (log₁ log₂ : List Exchange) :
    releases (log₁++log₂) = releases log₁++releases log₂ := by
  simp [releases]

/-- All that the firmware may answer is a completion for the request. -/
theorem genuine_of_runs {α : Type} {ctx ctx' : Context} {p : CallProg α} {log : List Exchange} {a : α}
    (h : Runs ctx p log ctx' a) : ∀ x ∈ log, x.Genuine := by
  induction h with
  | ret ctx a => simp
  | call hx hc h ih => simpa using ⟨hx,ih⟩
  | look h ih => exact ih
  | remember h ih => exact ih

/-- Only an ACQUIRE leases a slot. -/
theorem leased_eq_none {x : Exchange} (hx : x.Genuine) (hop : x.request.opcode ≠ opAudioRingAcquire) :
    leased x = none := by
  rw [leased,if_neg]
  rintro ⟨hstatus,hrequire,-⟩
  cases hx with
  | answered request reply hsame =>
    cases hreply : replyRequire reply opAudioRingAcquire 48 with
    | error status => simp [hreply,Except.isOk,Except.toBool] at hrequire
    | ok _ => exact hop (hsame.symm.trans (replyRequire_eq_ok.mp hreply).opcode)
  | interrupted request reply hsame => cases hstatus
  | failed request reply status hfailed => exact hfailed hstatus

theorem leases_eq_nil {log : List Exchange} (hg : ∀ x ∈ log, x.Genuine)
    (hop : ∀ x ∈ log, x.request.opcode ≠ opAudioRingAcquire) : leases log = [] := by
  rw [leases,List.filterMap_eq_nil_iff]
  intro x hx
  exact leased_eq_none (hg x hx) (hop x hx)

section

variable {ctx ctx' : Context} {log : List Exchange} {desc : AudioRingAcquireDesc}

/-- A query leases nothing and gives nothing back. -/
theorem queries_accounts (hg : ∀ x ∈ log, x.Genuine) (h : Queries log) :
    leases log = [] ∧ releases log = [] := by
  constructor
  · apply leases_eq_nil hg
    intro x hx he
    rcases h x hx with h | h <;> exact absurd (he.symm.trans h) (by decide)
  · rw [releases,List.filter_eq_nil_iff]
    simp only [List.mem_map,forall_exists_index,and_imp,forall_apply_eq_imp_iff₂,decide_eq_true_eq]
    intro x hx he
    rcases h x hx with h | h <;> exact absurd (he.symm.trans h) (by decide)

/-- A slot in range is given back in one exchange. -/
theorem audioRingRelease_runs {slot generation : UInt32} (h1 : 1 ≤ slot)
    (hmax : slot ≤ audioRingSlotMax) (hg : generation ≠ 0) {status : Status}
    (h : Runs ctx (audioRingRelease slot generation 0) log ctx' status) :
    ctx'.known = ctx.known ∧ leases log = [] ∧
      releases log = [releaseRequest (slot,generation)] := by
  have hslot : slot ≠ 0 := by
    rintro rfl
    exact absurd h1 (by decide)
  have hgenuine := genuine_of_runs h
  rw [audioRingRelease,requestAudioRingRelease,
    if_neg (by simp [hslot,hg,UInt32.not_lt.mpr hmax])] at h
  simp only [runs_call,runs_ret] at h
  obtain ⟨x,ctx₁,rest,hr,hx,hc,rfl,rfl,rfl,-⟩ := h
  refine ⟨hc,leases_eq_nil hgenuine ?_,?_⟩
  · intro y hy
    rw [List.mem_singleton.mp hy,hr]
    exact (by decide : opAudioRingRelease ≠ opAudioRingAcquire)
  · simp [releases,hr,releaseRequest,requestInit]

theorem replyAudioRingAcquireResult_ok {reply : MailboxEntry} {grant : AudioRingAcquireResult}
    (h : replyAudioRingAcquireResult reply = .ok grant) :
    (replyRequire reply opAudioRingAcquire 48).isOk = true ∧ audioRingGrantValid grant = true ∧
      grant.slot = replyWord reply 0 ∧ grant.generation = replyWord reply 1 := by
  rw [replyAudioRingAcquireResult] at h
  cases hreply : replyRequire reply opAudioRingAcquire 48 with
  | error status => simp [hreply] at h
  | ok _ =>
    simp only [hreply] at h
    split at h
    · cases h
    · next hvalid =>
      obtain rfl := Except.ok.inj h
      exact ⟨rfl,by simpa using hvalid,normalizedGrant_lease _⟩

theorem replyAudioRingAcquireResult_error {reply : MailboxEntry} {status : Status}
    (h : replyAudioRingAcquireResult reply = .error status) : status ≠ .ok := by
  rw [replyAudioRingAcquireResult] at h
  cases hreply : replyRequire reply opAudioRingAcquire 48 with
  | error s =>
    simp only [hreply] at h
    obtain rfl := Except.error.inj h
    exact (replyRequire_error hreply).1
  | ok _ =>
    simp only [hreply] at h
    split at h
    · obtain rfl := Except.error.inj h
      simp
    · cases h

/-- From a reply that `zz9k_call` hands on: the slot it leases out is either granted or given back. -/
theorem audioRingAcquireReply_runs {x : Exchange} (hx : x.status = .ok) {status : Status}
    {grant : AudioRingAcquireResult}
    (h : Runs ctx (audioRingAcquireReply desc x.reply) log ctx' (status,grant)) :
    ctx'.known = ctx.known ∧ leases log = [] ∧
      (status = .ok → audioRingGrantValid grant = true ∧ audioRingGrantMatchesDesc desc grant = true ∧
        leased x = some (grant.slot,grant.generation) ∧ releases log = []) ∧
      (status ≠ .ok → grant = {} ∧ (leased x).toList.map releaseRequest = releases log) := by
  rw [audioRingAcquireReply] at h
  cases hresult : replyAudioRingAcquireResult x.reply with
  | error s =>
    have hs := replyAudioRingAcquireResult_error hresult
    simp only [hresult,runs_bind] at h
    obtain ⟨_,ctx₁,log₁,log₂,hrelease,h,rfl⟩ := h
    obtain ⟨rfl,rfl,he⟩ := runs_ret.mp h
    obtain ⟨rfl,rfl⟩ := Prod.mk.inj he
    rw [List.append_nil]
    cases hreply : replyRequire x.reply opAudioRingAcquire 48 with
    | error _ =>
      simp only [hreply] at hrelease
      obtain ⟨rfl,rfl,-⟩ := runs_ret.mp hrelease
      have hnone : leased x = none := by simp [leased,hreply,Except.isOk,Except.toBool]
      exact ⟨rfl,rfl,fun hok => absurd hok hs,fun _ => ⟨rfl,by simp [hnone,releases]⟩⟩
    | ok _ =>
      simp only [hreply] at hrelease
      split at hrelease
      · next hnamed =>
        obtain ⟨hknown,hleases,hreleases⟩ :=
          audioRingRelease_runs hnamed.1 hnamed.2.1 hnamed.2.2 hrelease
        have hsome : leased x = some (replyWord x.reply 0,replyWord x.reply 1) := by
          simp [leased,hreply,hx,hnamed,Except.isOk,Except.toBool]
        exact ⟨hknown,hleases,fun hok => absurd hok hs,fun _ => ⟨rfl,by simp [hsome,hreleases]⟩⟩
      · next hunnamed =>
        obtain ⟨rfl,rfl,-⟩ := runs_ret.mp hrelease
        have hnone : leased x = none := by
          rw [leased,if_neg]
          exact fun hn => hunnamed hn.2.2
        exact ⟨rfl,rfl,fun hok => absurd hok hs,fun _ => ⟨rfl,by simp [hnone,releases]⟩⟩
  | ok result =>
    obtain ⟨hreply,hvalid,hslot,hgeneration⟩ := replyAudioRingAcquireResult_ok hresult
    have husable := audioRingGrantValid_usable hvalid
    have hsome : leased x = some (result.slot,result.generation) := by
      rw [leased,if_pos,hslot,hgeneration]
      rw [← hslot,← hgeneration]
      exact ⟨hx,hreply,husable.slot.1,husable.slot.2,husable.generation⟩
    simp only [hresult] at h
    split at h
    · simp only [runs_bind] at h
      obtain ⟨_,ctx₁,log₁,log₂,hrelease,h,rfl⟩ := h
      obtain ⟨rfl,rfl,he⟩ := runs_ret.mp h
      obtain ⟨rfl,rfl⟩ := Prod.mk.inj he
      obtain ⟨hknown,hleases,hreleases⟩ :=
        audioRingRelease_runs husable.slot.1 husable.slot.2 husable.generation hrelease
      rw [List.append_nil]
      exact ⟨hknown,hleases,by simp,fun _ => ⟨rfl,by simp [hsome,hreleases]⟩⟩
    · next hmatches =>
      obtain ⟨rfl,rfl,he⟩ := runs_ret.mp h
      obtain ⟨rfl,rfl⟩ := Prod.mk.inj he
      exact ⟨rfl,rfl,fun _ => ⟨hvalid,by simpa using hmatches,hsome,rfl⟩,by simp⟩

/-- What a request to acquire has cost when it is over -/
theorem audioRingAcquire_runs {status : Status} {grant : AudioRingAcquireResult}
    (h : Runs ctx (audioRingAcquire desc) log ctx' (status,grant)) :
    ctx'.known = ctx.known ∧
      (status = .ok → audioRingGrantValid grant = true ∧ audioRingGrantMatchesDesc desc grant = true ∧
        leases log = [(grant.slot,grant.generation)] ∧ releases log = []) ∧
      (status ≠ .ok → grant = {} ∧ (leases log).map releaseRequest = releases log) := by
  rw [audioRingAcquire] at h
  cases hrequest : requestAudioRingAcquire desc with
  | error s =>
    have hs : s ≠ .ok := by
      rw [requestAudioRingAcquire] at hrequest
      split_ifs at hrequest
      obtain rfl := Except.error.inj hrequest
      simp
    simp only [hrequest] at h
    obtain ⟨rfl,rfl,he⟩ := runs_ret.mp h
    obtain ⟨rfl,rfl⟩ := Prod.mk.inj he
    exact ⟨rfl,fun hok => absurd hok hs,fun _ => ⟨rfl,rfl⟩⟩
  | ok request =>
    have hop : request.opcode = opAudioRingAcquire := by
      rw [requestAudioRingAcquire] at hrequest
      split_ifs at hrequest
      rw [← Except.ok.inj hrequest]
      rfl
    simp only [hrequest,runs_call] at h
    obtain ⟨x,ctx₁,rest,hr,hx,hc,rfl,h⟩ := h
    have hleases : ∀ log,leases (x :: log) = (leased x).toList++leases log := by
      intro log
      rw [leases,List.filterMap_cons]
      cases leased x <;> rfl
    have hreleases : ∀ log,releases (x :: log) = releases log := by
      intro log
      simp [releases,hr,hop,show opAudioRingAcquire ≠ opAudioRingRelease by decide]
    rw [hleases,hreleases]
    split at h
    · next hs =>
      obtain ⟨rfl,rfl,he⟩ := runs_ret.mp h
      obtain ⟨rfl,rfl⟩ := Prod.mk.inj he
      have hnone : leased x = none := by simp [leased,hs]
      exact ⟨hc,fun hok => absurd hok hs,fun _ => ⟨rfl,by simp [hnone,leases,releases]⟩⟩
    · next hs =>
      obtain ⟨hknown,hnil,hok,hfailed⟩ := audioRingAcquireReply_runs (not_not.mp hs) h
      rw [hnil,List.append_nil]
      refine ⟨hknown.trans hc,fun h => ?_,hfailed⟩
      obtain ⟨hvalid,hmatches,hsome,hnone⟩ := hok h
      exact ⟨hvalid,hmatches,by rw [hsome,Option.toList_some],hnone⟩

/-- A layout that the context remembers is one of the board. -/
def LayoutKnown (ctx : Context) : Prop :=
  ctx.apertureLayoutValid = true → ctx.apertureLayout.Sound ctx.board

theorem LayoutKnown.of_known (h : LayoutKnown ctx) (hc : ctx'.known = ctx.known) :
    LayoutKnown ctx' := by
  simp only [Context.known,Prod.mk.injEq] at hc
  obtain ⟨hboard,-,hlayout,hvalid⟩ := hc
  intro hv
  rw [hlayout,hboard]
  exact h (hvalid ▸ hv)

/-- The layout that a query hands out has been compared with the board, now or before. -/
theorem queryApertureLayout_sound (hctx : LayoutKnown ctx) {r : Except Status ApertureLayout}
    (h : Runs ctx queryApertureLayout log ctx' r) :
    LayoutKnown ctx' ∧ ∀ layout,r = .ok layout → layout.Sound ctx.board := by
  simp only [queryApertureLayout,runs_look] at h
  split_ifs at h with hvalid hbus
  · obtain ⟨rfl,rfl,rfl⟩ := runs_ret.mp h
    refine ⟨hctx,fun layout he => ?_⟩
    rw [← Except.ok.inj he]
    exact hctx hvalid.1
  · simp only [runs_remember,runs_ret] at h
    obtain ⟨rfl,rfl,rfl⟩ := h
    exact ⟨by simp [LayoutKnown],by simp⟩
  · simp only [runs_remember,runs_call] at h
    obtain ⟨x,ctx₁,rest,-,-,hc,rfl,h⟩ := h
    have hunknown : LayoutKnown ctx₁ := by
      refine LayoutKnown.of_known ?_ hc
      simp [LayoutKnown]
    split_ifs at h with hs
    · obtain ⟨rfl,rfl,rfl⟩ := runs_ret.mp h
      exact ⟨hunknown,by simp⟩
    · split at h
      · obtain ⟨rfl,rfl,rfl⟩ := runs_ret.mp h
        exact ⟨hunknown,by simp⟩
      · next decoded _ =>
        split_ifs at h with hmatches
        · obtain ⟨rfl,rfl,rfl⟩ := runs_ret.mp h
          exact ⟨hunknown,by simp⟩
        · simp only [runs_remember,runs_ret] at h
          obtain ⟨rfl,rfl,rfl⟩ := h
          have hsound := apertureLayoutMatches_sound (by simpa using hmatches)
          refine ⟨fun _ => ?_,fun layout he => ?_⟩
          · have hboard : ctx₁.board = ctx.board := congrArg (·.1) hc
            exact hboard ▸ hsound
          · rw [← Except.ok.inj he]
            exact hsound

/-- The session is over a grant as it was asked for, apart from its control block, on the board, and on
Zorro II in the part of the aperture that no region of the layout takes up. -/
structure Leases (board : Board) (desc : AudioRingAcquireDesc) (session : AudioRingSession) :
    Prop where
  grant : session.grant.Usable
  asked : (session.grant.sampleContract,session.grant.sourceRate) =
    if desc.flags &&& audioRingAcquireFlagSourceRate ≠ 0 then
      (audioRingContractSourceRate,desc.sourceRateHz)
    else (audioRingContract48k,48000)
  mapped : session.mapped = true
  ring : session.ring = board.boardAddr+session.grant.ringOffset
  producerLine : session.producerLine = board.boardAddr+session.grant.controlOffset
  firmwareLine : session.firmwareLine = session.producerLine+audioRingControlLineSize
  inside : board.boardSize ≠ 0 →
    session.grant.ringOffset.toNat+session.grant.ringCapacity.toNat ≤ board.boardSize.toNat ∧
    session.grant.controlOffset.toNat+128 ≤ board.boardSize.toNat
  unreported : board.zorroVersion = 2 → ∃ layout : ApertureLayout,layout.Sound board ∧
    layout.Unreported session.grant.ringOffset session.grant.ringCapacity ∧
    layout.Unreported session.grant.controlOffset audioRingControlSize

theorem audioRingGrantMatchesDesc_eq {grant : AudioRingAcquireResult}
    (h : audioRingGrantMatchesDesc desc grant = true) :
    (grant.sampleContract,grant.sourceRate) =
      if desc.flags &&& audioRingAcquireFlagSourceRate ≠ 0 then
        (audioRingContractSourceRate,desc.sourceRateHz)
      else (audioRingContract48k,48000) := by
  rw [audioRingGrantMatchesDesc] at h
  split at h
  · next hrate => simpa [hrate] using h
  · next hrate => simpa [hrate] using h

/-- A grant that is given up is given back. -/
theorem abandonGrant_runs {grant : AudioRingAcquireResult} (hgrant : grant.Usable) {status : Status}
    {session : AudioRingSession} (h : Runs ctx (abandonGrant grant) log ctx' (status,session)) :
    ctx'.known = ctx.known ∧ leases log = [] ∧
      releases log = [releaseRequest (grant.slot,grant.generation)] ∧ status ≠ .ok ∧
        session = {} := by
  simp only [abandonGrant,runs_bind] at h
  obtain ⟨_,ctx₁,log₁,log₂,hrelease,h,rfl⟩ := h
  obtain ⟨rfl,rfl,he⟩ := runs_ret.mp h
  obtain ⟨rfl,rfl⟩ := Prod.mk.inj he
  obtain ⟨hknown,hleases,hreleases⟩ :=
    audioRingRelease_runs hgrant.slot.1 hgrant.slot.2 hgrant.generation hrelease
  rw [List.append_nil]
  exact ⟨hknown,hleases,hreleases,by simp,rfl⟩

/-- `zz9k_audio_ring_session_begin` comes back with a session that is safe to use, or with none and
nothing leased. -/
theorem audioRingSessionBegin_runs (hctx : LayoutKnown ctx) {status : Status}
    {session : AudioRingSession}
    (h : Runs ctx (audioRingSessionBegin desc) log ctx' (status,session)) :
    ctx'.board = ctx.board ∧ LayoutKnown ctx' ∧
      (status = .ok → Leases ctx.board desc session ∧
        leases log = [(session.grant.slot,session.grant.generation)] ∧ releases log = []) ∧
      (status ≠ .ok → session = {} ∧ (leases log).map releaseRequest = releases log) := by
  simp only [audioRingSessionBegin,runs_bind] at h
  obtain ⟨⟨s,grant⟩,ctx₁,log₁,log₂,hacquire,h,rfl⟩ := h
  obtain ⟨hknown,hok,hfailed⟩ := audioRingAcquire_runs hacquire
  have hboard : ctx₁.board = ctx.board := congrArg (·.1) hknown
  have hctx₁ := hctx.of_known hknown
  dsimp only at h
  by_cases hs : s = .ok
  swap
  · rw [if_pos hs] at h
    obtain ⟨rfl,rfl,he⟩ := runs_ret.mp h
    obtain ⟨rfl,rfl⟩ := Prod.mk.inj he
    obtain ⟨rfl,hgiven⟩ := hfailed hs
    rw [List.append_nil]
    exact ⟨hboard,hctx₁,fun hok => absurd hok hs,fun _ => ⟨rfl,hgiven⟩⟩
  obtain ⟨hvalid,hmatches,hleased,hnone⟩ := hok hs
  have husable := audioRingGrantValid_usable hvalid
  rw [if_neg (not_not.mpr hs),runs_look] at h
  -- a branch that gives up, after what it has asked in between
  have habandon : ∀ {ctx₂ rest} between,ctx₂.board = ctx.board → LayoutKnown ctx₂ →
      leases between = [] → releases between = [] →
      Runs ctx₂ (abandonGrant grant) rest ctx' (status,session) →
      ctx'.board = ctx.board ∧ LayoutKnown ctx' ∧ status ≠ .ok ∧ session = {} ∧
        (leases (log₁++(between++rest))).map releaseRequest = releases (log₁++(between++rest)) := by
    intro ctx₂ rest between hboard₂ hctx₂ hl hr hrun
    obtain ⟨hknown',hleases,hreleases,hbad,hzero⟩ := abandonGrant_runs husable hrun
    have hboard' : ctx'.board = ctx₂.board := congrArg (·.1) hknown'
    refine ⟨hboard'.trans hboard₂,hctx₂.of_known hknown',hbad,hzero,?_⟩
    simp [leases_append,releases_append,hleased,hnone,hl,hr,hleases,hreleases]
  split at h
  · obtain ⟨hb,hc,hbad,hzero,hgiven⟩ := habandon [] hboard hctx₁ rfl rfl h
    exact ⟨hb,hc,fun hok => absurd hok hbad,fun _ => ⟨hzero,hgiven⟩⟩
  next hfits =>
  simp only [not_or,Bool.not_eq_false,hboard] at hfits
  obtain ⟨-,hring,hcontrol⟩ := hfits
  have hinside : ctx.board.boardSize ≠ 0 →
      grant.ringOffset.toNat+grant.ringCapacity.toNat ≤ ctx.board.boardSize.toNat ∧
      grant.controlOffset.toNat+128 ≤ ctx.board.boardSize.toNat :=
    fun hsize => ⟨(boardRangeFits_iff.mp hring).2.2 hsize,(boardRangeFits_iff.mp hcontrol).2.2 hsize⟩
  split at h
  · next hbus =>
    rw [runs_bind] at h
    obtain ⟨r,ctx₂,log₃,log₄,hquery,h,rfl⟩ := h
    obtain ⟨hboard₂,hqueries,-⟩ := queryApertureLayout_runs hquery
    obtain ⟨hctx₂,hsound⟩ := queryApertureLayout_sound hctx₁ hquery
    obtain ⟨hl,hr⟩ := queries_accounts (genuine_of_runs hquery) hqueries
    cases r with
    | error _ =>
      obtain ⟨hb,hc,hbad,hzero,hgiven⟩ := habandon _ (hboard₂.trans hboard) hctx₂ hl hr h
      exact ⟨hb,hc,fun hok => absurd hok hbad,fun _ => ⟨hzero,hgiven⟩⟩
    | ok layout =>
      dsimp only at h
      split at h
      · obtain ⟨hb,hc,hbad,hzero,hgiven⟩ := habandon _ (hboard₂.trans hboard) hctx₂ hl hr h
        exact ⟨hb,hc,fun hok => absurd hok hbad,fun _ => ⟨hzero,hgiven⟩⟩
      · next hfree =>
        simp only [not_or,Bool.not_eq_false] at hfree
        obtain ⟨rfl,rfl,he⟩ := runs_ret.mp h
        obtain ⟨rfl,rfl⟩ := Prod.mk.inj he
        have hlayout : layout.Sound ctx.board := hboard ▸ hsound layout rfl
        refine ⟨hboard₂.trans hboard,hctx₂,fun _ => ⟨?_,?_,?_⟩,by simp⟩
        · rw [hboard]
          exact ⟨husable,audioRingGrantMatchesDesc_eq hmatches,rfl,rfl,rfl,rfl,hinside,fun _ =>
            ⟨layout,hlayout,apertureRangeFree_unreported hlayout hfree.1,
              apertureRangeFree_unreported hlayout hfree.2⟩⟩
        · simp only [leases_append,hl,List.append_nil]
          exact hleased
        · simp only [releases_append,hr,List.append_nil]
          exact hnone
  · next hbus =>
    obtain ⟨rfl,rfl,he⟩ := runs_ret.mp h
    obtain ⟨rfl,rfl⟩ := Prod.mk.inj he
    rw [List.append_nil]
    refine ⟨hboard,hctx₁,fun _ => ⟨?_,hleased,hnone⟩,by simp⟩
    rw [hboard] at hbus ⊢
    exact ⟨husable,audioRingGrantMatchesDesc_eq hmatches,rfl,rfl,rfl,rfl,hinside,fun hz => absurd hz hbus⟩

/-- The lease a session holds -/
def held (session : AudioRingSession) : List (UInt32 × UInt32) :=
  if session.mapped then [(session.grant.slot,session.grant.generation)] else []

theorem audioRingSessionEnd_runs {session session' : AudioRingSession} {status : Status}
    (hgrant : session.mapped = true → session.grant.Usable)
    (h : Runs ctx (audioRingSessionEnd session) log ctx' (status,session')) :
    ctx'.known = ctx.known ∧ session'.mapped = false ∧
      leases log = [] ∧ (held session).map releaseRequest = releases log := by
  rw [audioRingSessionEnd] at h
  split at h
  · next hunmapped =>
    obtain ⟨rfl,rfl,he⟩ := runs_ret.mp h
    obtain ⟨rfl,rfl⟩ := Prod.mk.inj he
    exact ⟨rfl,hunmapped,rfl,by simp [held,hunmapped,releases]⟩
  · next hmapped =>
    rw [Bool.not_eq_false] at hmapped
    have husable := hgrant hmapped
    rw [runs_bind] at h
    obtain ⟨_,ctx₁,log₁,log₂,hrelease,h,rfl⟩ := h
    obtain ⟨rfl,rfl,he⟩ := runs_ret.mp h
    obtain ⟨rfl,rfl⟩ := Prod.mk.inj he
    obtain ⟨hknown,hleases,hreleases⟩ :=
      audioRingRelease_runs husable.slot.1 husable.slot.2 husable.generation hrelease
    rw [List.append_nil]
    exact ⟨hknown,rfl,hleases,by simp [held,hmapped,hreleases]⟩

end

/-- A client with one session. `desc` is history: what the session was last begun for. -/
structure Lessee where
  ctx : Context
  session : AudioRingSession
  desc : AudioRingAcquireDesc

namespace Lessee

/-- What a client does: it begins the session when it has none, moves its cursors, makes other calls,
and ends it. -/
inductive Step : Lessee → List Exchange → Lessee → Prop
  | begin {s : Lessee} {desc : AudioRingAcquireDesc} {log : List Exchange} {ctx' : Context}
      {status : Status} {session' : AudioRingSession} (hfree : s.session.mapped = false)
      (hrun : Runs s.ctx (audioRingSessionBegin desc) log ctx' (status,session')) :
      Step s log ⟨ctx',session',desc⟩
  | use (s : Lessee) (writeCursor consumedCursor : UInt64) (heartbeat flags : UInt32) :
      Step s [] {s with session := {s.session with writeCursor,consumedCursor,heartbeat,flags}}
  | other {s : Lessee} {ctx' : Context} (hboard : ctx'.board = s.ctx.board)
      (hknown : LayoutKnown s.ctx → LayoutKnown ctx') : Step s [] {s with ctx := ctx'}
  | finish {s : Lessee} {log : List Exchange} {ctx' : Context} {status : Status}
      {session' : AudioRingSession}
      (hrun : Runs s.ctx (audioRingSessionEnd s.session) log ctx' (status,session')) :
      Step s log ⟨ctx',session',s.desc⟩

inductive Run : Lessee → List Exchange → Lessee → Prop
  | nil (s : Lessee) : Run s [] s
  | snoc {s t u : Lessee} {log log' : List Exchange} (h : Run s log t) (hstep : Step t log' u) :
      Run s (log++log') u

/-- A mapped session is safe to use. -/
structure Sound (s : Lessee) : Prop where
  known : LayoutKnown s.ctx
  leases : s.session.mapped = true → Leases s.ctx.board s.desc s.session

/-- A step keeps the session safe and the account of the leases. -/
theorem Sound.step {s t : Lessee} {log : List Exchange} (hs : s.Sound) (h : Step s log t) :
    t.Sound ∧ t.ctx.board = s.ctx.board ∧
      (held s.session++Audio.leases log).map releaseRequest =
        releases log++(held t.session).map releaseRequest := by
  cases h with
  | @begin desc log ctx' status session' hfree hrun =>
    obtain ⟨hboard,hknown,hok,hfailed⟩ := audioRingSessionBegin_runs hs.known hrun
    by_cases hstatus : status = .ok
    · obtain ⟨hleases,hleased,hreleases⟩ := hok hstatus
      refine ⟨⟨hknown,fun _ => ?_⟩,hboard,?_⟩
      · exact hboard ▸ hleases
      · simp [held,hfree,hleases.mapped,hleased,hreleases]
    · obtain ⟨rfl,hgiven⟩ := hfailed hstatus
      refine ⟨⟨hknown,by simp⟩,hboard,?_⟩
      simpa [held,hfree] using hgiven
  | use writeCursor consumedCursor heartbeat flags =>
    refine ⟨⟨hs.known,fun hmapped => ?_⟩,rfl,by simp [held,Audio.leases,releases]⟩
    obtain ⟨hgrant,hasked,-,hring,hproducer,hfirmware,hinside,hunreported⟩ := hs.leases hmapped
    exact ⟨hgrant,hasked,hmapped,hring,hproducer,hfirmware,hinside,hunreported⟩
  | @other ctx' hboard hknown =>
    refine ⟨⟨hknown hs.known,fun hmapped => ?_⟩,hboard,by simp [held,Audio.leases,releases]⟩
    exact hboard ▸ hs.leases hmapped
  | @finish log ctx' status session' hrun =>
    obtain ⟨hknown,hunmapped,hleases,hgiven⟩ :=
      audioRingSessionEnd_runs (fun hmapped => (hs.leases hmapped).grant) hrun
    refine ⟨⟨hs.known.of_known hknown,by simp [hunmapped]⟩,congrArg (·.1) hknown,?_⟩
    simpa [hleases,held,hunmapped] using hgiven

private def freshLessee : Lessee where
  ctx := {board := {boardAddr := 0x40000000,boardSize := 0x10000000,zorroVersion := 3}}
  session := {}
  desc := ⟨0,0,0,0,0⟩

private def bypassDesc : AudioRingAcquireDesc := ⟨1,3,128,0,0⟩

/-- A grant of four periods -/
private def grantReply : MailboxEntry where
  opcode := opAudioRingAcquire
  payloadLen := 48
  payload := Payload.ofWords [1,5,0x10000,15360,0x20000,3840,20000,1,128,2,0,48000]

private def grantAnswer : Exchange :=
  ⟨requestInit opAudioRingAcquire [1,3,128,0,0],.ok,grantReply,true⟩

end Lessee

end ZZ9K.Audio
