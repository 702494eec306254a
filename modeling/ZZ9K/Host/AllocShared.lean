import ZZ9K.Host.Replies

namespace ZZ9K.Host

open ZZ9K.Abi

/-- `ZZ9K_HOST_WINDOW_MIN_BOARD_SIZE` -/
def hostWindowMinBoardSize : UInt32 := 0x00400000

/-- `zz9k_query_caps`, with the bits the context remembers as its only output -/
def queryCaps : CallProg Status :=
  .call requestQueryCaps defaultTimeoutTicks fun status reply =>
  if status ≠ .ok then .ret status
  else match replyCaps reply with
    | .error status => .ret status
    | .ok capabilityBits => .look fun ctx =>
        .remember capabilityBits ctx.apertureLayout ctx.apertureLayoutValid (.ret .ok)

/-- `zz9k_query_aperture_layout` -/
def queryApertureLayout : CallProg (Except Status ApertureLayout) :=
  .look fun ctx =>
  if ctx.apertureLayoutValid ∧ ctx.apertureLayout.profile &&& apertureFlagAcked ≠ 0 then
    .ret (.ok ctx.apertureLayout)
  else
    .remember ctx.capabilityBits {} false <|
    if ctx.board.zorroVersion ≠ 2 ∨ ctx.capabilityBits &&& capApertureLayout = 0 then
      .ret (.error .unsupported)
    else
      .call requestQueryApertureLayout defaultTimeoutTicks fun status reply =>
      if status ≠ .ok then .ret (.error status)
      else match replyApertureLayout reply with
        | .error status => .ret (.error status)
        | .ok decoded =>
            if apertureLayoutMatches ctx.board decoded = false then .ret (.error .internalError)
            else .remember ctx.capabilityBits decoded true (.ret (.ok decoded))

/-- `zz9k_refresh_z2_aperture` -/
def refreshZ2Aperture : CallProg Status :=
  queryCaps >>= fun status =>
  if status ≠ .ok then .ret status
  else .look fun ctx =>
    if ctx.capabilityBits &&& capApertureLayout = 0 then .ret .unsupported
    else if ctx.capabilityBits &&& capHostWindowHeap = 0 then .ret .unsupported
    else queryApertureLayout >>= fun
      | .ok _ => .ret .ok
      | .error status => .ret status

/-- `zz9k_mem_copy` -/
def memCopy (dstHandle dstOffset srcHandle srcOffset length : UInt32) : CallProg Status :=
  match requestMemCopy dstHandle dstOffset srcHandle srcOffset length with
  | .error status => .ret status
  | .ok request => .call request defaultTimeoutTicks fun status _ => .ret status

/-- The layout is known, acknowledged, and has a heap in the host window. -/
def hostWindowReady (ctx : Context) : Bool :=
  ctx.capabilityBits &&& capHostWindowHeap ≠ 0 ∧ ctx.apertureLayoutValid ∧
    ctx.apertureLayout.profile &&& apertureFlagAcked ≠ 0

/-- The first part of `zz9k_alloc_shared`: whether the negotiated host window is used. -/
def negotiateHostWindow (flags : UInt32) : CallProg (Except Status Bool) :=
  if flags &&& allocHostWindow = 0 then .ret (.ok false)
  else .look fun ctx =>
    if ctx.capabilityBits &&& capApertureLayout ≠ 0 then
      (if hostWindowReady ctx then .ret .ok else refreshZ2Aperture) >>= fun status =>
      if status ≠ .ok then .ret (.error status)
      else .look fun ctx =>
        if hostWindowReady ctx then .ret (.ok true) else .ret (.error .unsupported)
    else if ctx.board.boardSize ≠ hostWindowMinBoardSize then .ret (.error .unsupported)
    else .ret (.ok false)

/-- `zz9k_alloc_shared`, on what `buffer` held before -/
def allocShared (length alignment flags : UInt32) (buffer : SharedBuffer) :
    CallProg (Status × SharedBuffer) :=
  if length = 0 then .ret (.badRequest,buffer)
  else .look fun ctx =>
    let cardOnly : Bool := flags &&& allocCardOnly ≠ 0
    let flags := if cardOnly ∨ ctx.board.zorroVersion ≠ 2 then flags &&& ~~~allocHostWindow
      else flags
    negotiateHostWindow flags >>= fun
    | .error status => .ret (status,{})
    | .ok negotiated =>
        match requestAllocShared length alignment flags with
        | .error status => .ret (status,{})
        | .ok request =>
            .call request defaultTimeoutTicks fun status reply =>
            if status ≠ .ok then .ret (status,{})
            else allocSharedReply length cardOnly negotiated reply

/-- The `FREE_SHARED` requests issued -/
def frees (log : List Exchange) : List MailboxEntry :=
  (log.map (·.request)).filter fun request => request.opcode = opFreeShared

/-- Only queries were made. -/
def Queries (log : List Exchange) : Prop :=
  ∀ x ∈ log, x.request.opcode = opQueryCaps ∨ x.request.opcode = opQueryApertureLayout

theorem Queries.append {log₁ log₂ : List Exchange} (h₁ : Queries log₁) (h₂ : Queries log₂) :
    Queries (log₁++log₂) := by
  intro x hx
  rcases List.mem_append.mp hx with hx | hx
  · exact h₁ x hx
  · exact h₂ x hx

theorem frees_append (log₁ log₂ : List Exchange) :
    frees (log₁++log₂) = frees log₁++frees log₂ := by
  simp [frees]

theorem Queries.frees {log : List Exchange} (h : Queries log) : frees log = [] := by
  rw [Host.frees,List.filter_eq_nil_iff]
  simp only [List.mem_map,forall_exists_index,and_imp,forall_apply_eq_imp_iff₂,decide_eq_true_eq]
  intro x hx he
  rcases h x hx with h | h <;> exact absurd (he.symm.trans h) (by decide)

section

open CallProg

variable {ctx ctx' : Context} {log : List Exchange}

theorem queryCaps_runs {status : Status} (h : Runs ctx queryCaps log ctx' status) :
    ctx'.board = ctx.board ∧ Queries log := by
  simp only [queryCaps,runs_call] at h
  obtain ⟨x,ctx₁,rest,hr,_,hc,rfl,h⟩ := h
  have hq : x.request.opcode = opQueryCaps := hr ▸ rfl
  have hb : ctx₁.board = ctx.board := congrArg (·.1) hc
  split_ifs at h with hs
  · obtain ⟨rfl,rfl,_⟩ := runs_ret.mp h
    exact ⟨hb,by simp [Queries,hq]⟩
  · split at h
    · obtain ⟨rfl,rfl,_⟩ := runs_ret.mp h
      exact ⟨hb,by simp [Queries,hq]⟩
    · simp only [runs_look,runs_remember,runs_ret] at h
      obtain ⟨rfl,rfl,_⟩ := h
      exact ⟨hb,by simp [Queries,hq]⟩

theorem queryApertureLayout_runs {r : Except Status ApertureLayout}
    (h : Runs ctx queryApertureLayout log ctx' r) :
    ctx'.board = ctx.board ∧ Queries log ∧ ∀ status, r = .error status → status ≠ .ok := by
  simp only [queryApertureLayout,runs_look] at h
  split_ifs at h with hv hz
  · obtain ⟨rfl,rfl,rfl⟩ := runs_ret.mp h
    exact ⟨rfl,by simp [Queries],by simp⟩
  · simp only [runs_remember,runs_ret] at h
    obtain ⟨rfl,rfl,rfl⟩ := h
    exact ⟨rfl,by simp [Queries],by simp⟩
  · simp only [runs_remember,runs_call] at h
    obtain ⟨x,ctx₁,rest,hr,_,hc,rfl,h⟩ := h
    have hq : x.request.opcode = opQueryApertureLayout := hr ▸ rfl
    have hb : ctx₁.board = ctx.board := congrArg (·.1) hc
    split_ifs at h with hs
    · obtain ⟨rfl,rfl,rfl⟩ := runs_ret.mp h
      exact ⟨hb,by simp [Queries,hq],by simpa using hs⟩
    · split at h
      · rename_i status hrep
        obtain ⟨rfl,rfl,rfl⟩ := runs_ret.mp h
        refine ⟨hb,by simp [Queries,hq],?_⟩
        rintro _ ⟨⟩
        unfold replyApertureLayout at hrep
        split at hrep
        · obtain rfl := Except.error.inj hrep
          exact (replyRequire_error ‹_›).1
        · cases hrep
      · split_ifs at h with hm
        · obtain ⟨rfl,rfl,rfl⟩ := runs_ret.mp h
          exact ⟨hb,by simp [Queries,hq],by simp⟩
        · simp only [runs_remember,runs_ret] at h
          obtain ⟨rfl,rfl,rfl⟩ := h
          exact ⟨hb,by simp [Queries,hq],by simp⟩

theorem refreshZ2Aperture_runs {status : Status} (h : Runs ctx refreshZ2Aperture log ctx' status) :
    ctx'.board = ctx.board ∧ Queries log := by
  simp only [refreshZ2Aperture,runs_bind] at h
  obtain ⟨caps,ctx₁,log₁,log₂,hcaps,h,rfl⟩ := h
  obtain ⟨hb₁,hq₁⟩ := queryCaps_runs hcaps
  split_ifs at h with hs
  · obtain ⟨rfl,rfl,_⟩ := runs_ret.mp h
    exact ⟨hb₁,by simpa using hq₁⟩
  simp only [runs_look] at h
  split_ifs at h
  · obtain ⟨rfl,rfl,_⟩ := runs_ret.mp h
    exact ⟨hb₁,by simpa using hq₁⟩
  · obtain ⟨rfl,rfl,_⟩ := runs_ret.mp h
    exact ⟨hb₁,by simpa using hq₁⟩
  · simp only [runs_bind] at h
    obtain ⟨r,ctx₂,log₃,log₄,hl,h,rfl⟩ := h
    obtain ⟨hb₂,hq₂,_⟩ := queryApertureLayout_runs hl
    obtain ⟨rfl,rfl⟩ : log₄ = [] ∧ ctx' = ctx₂ := by
      split at h <;> exact ⟨(runs_ret.mp h).1,(runs_ret.mp h).2.1⟩
    exact ⟨hb₂.trans hb₁,by simpa using hq₁.append hq₂⟩

/-- The negotiation only queries; where it agrees, it says whether the layout is used. -/
theorem negotiateHostWindow_runs {flags : UInt32} {r : Except Status Bool}
    (h : Runs ctx (negotiateHostWindow flags) log ctx' r) :
    ctx'.board = ctx.board ∧ Queries log ∧
      (∀ status, r = .error status → status ≠ .ok) ∧
      ∀ negotiated, r = .ok negotiated → (negotiated = true ↔
        flags &&& allocHostWindow ≠ 0 ∧ ctx.capabilityBits &&& capApertureLayout ≠ 0) := by
  unfold negotiateHostWindow at h
  by_cases hf : flags &&& allocHostWindow = 0
  · rw [if_pos hf] at h
    obtain ⟨rfl,rfl,rfl⟩ := runs_ret.mp h
    exact ⟨rfl,by simp [Queries],by simp,by simp [hf]⟩
  rw [if_neg hf,runs_look] at h
  by_cases hc : ctx.capabilityBits &&& capApertureLayout ≠ 0
  · rw [if_pos hc,runs_bind] at h
    obtain ⟨status,ctx₁,log₁,log₂,hp,h,rfl⟩ := h
    obtain ⟨hb₁,hq₁⟩ : ctx₁.board = ctx.board ∧ Queries log₁ := by
      split_ifs at hp
      · obtain ⟨rfl,rfl,_⟩ := runs_ret.mp hp
        exact ⟨rfl,by simp [Queries]⟩
      · exact refreshZ2Aperture_runs hp
    by_cases hs : status ≠ .ok
    · rw [if_pos hs] at h
      obtain ⟨rfl,rfl,rfl⟩ := runs_ret.mp h
      exact ⟨hb₁,by simpa using hq₁,by simpa using hs,by simp⟩
    rw [if_neg hs,runs_look] at h
    split_ifs at h
    · obtain ⟨rfl,rfl,rfl⟩ := runs_ret.mp h
      exact ⟨hb₁,by simpa using hq₁,by simp,by simp [hf,hc]⟩
    · obtain ⟨rfl,rfl,rfl⟩ := runs_ret.mp h
      exact ⟨hb₁,by simpa using hq₁,by simp,by simp⟩
  · rw [if_neg hc] at h
    split_ifs at h
    · obtain ⟨rfl,rfl,rfl⟩ := runs_ret.mp h
      exact ⟨rfl,by simp [Queries],by simp,by simp⟩
    · obtain ⟨rfl,rfl,rfl⟩ := runs_ret.mp h
      exact ⟨rfl,by simp [Queries],by simp,by simpa using fun _ => not_not.mp hc⟩

theorem freeShared_runs {handle : UInt32} (hh : handle ≠ invalidHandle) {status : Status}
    (h : Runs ctx (freeShared handle) log ctx' status) : ctx'.known = ctx.known ∧
      log.map (·.request) = [requestInit opFreeShared [handle]] := by
  simp only [freeShared,requestFreeShared,if_neg hh,runs_call,runs_ret] at h
  obtain ⟨x,ctx₁,rest,hr,_,hc,rfl,rfl,rfl,_⟩ := h
  exact ⟨hc,by simp [hr]⟩

/-- A mapped range starts at the board address plus an offset that fits the board. -/
theorem armRangeToBoardPtr_ne_zero {boardAddr boardSize armAddr length : UInt32}
    (h : armRangeToBoardPtr boardAddr boardSize armAddr length ≠ 0) :
    ∃ o, armRangeToBoardOffset boardSize armAddr length = some o ∧
      armRangeToBoardPtr boardAddr boardSize armAddr length = boardAddr+o := by
  unfold armRangeToBoardPtr at h ⊢
  by_cases hb : boardAddr = 0
  · simp [hb] at h
  cases ho : armRangeToBoardOffset boardSize armAddr length with
  | none => simp [ho] at h
  | some o => exact ⟨o,rfl,by simp [hb]⟩

theorem inHostWindow_bounds {info : SharedBufferInfo} (h : inHostWindow ctx info = true) :
    ∃ o, armRangeToBoardOffset ctx.board.boardSize info.armAddr info.length = some o ∧
      ctx.apertureLayout.hostBase.toNat ≤ o.toNat ∧ o.toNat+info.length.toNat ≤
        ctx.apertureLayout.hostBase.toNat+ctx.apertureLayout.hostSize.toNat := by
  unfold inHostWindow at h
  cases ho : armRangeToBoardOffset ctx.board.boardSize info.armAddr info.length with
  | none => simp [ho] at h
  | some o =>
    simp only [ho] at h
    split_ifs at h with h1 h2 h3
    have hle : ctx.apertureLayout.hostBase ≤ o := UInt32.not_lt.mp h1
    have hsub : (o-ctx.apertureLayout.hostBase).toNat =
        o.toNat-ctx.apertureLayout.hostBase.toNat := UInt32.toNat_sub_of_le _ _ hle
    have hlt : o-ctx.apertureLayout.hostBase < ctx.apertureLayout.hostSize := UInt32.not_le.mp h2
    have hroom := UInt32.not_lt.mp h3
    rw [UInt32.le_iff_toNat_le] at hle hroom
    rw [UInt32.lt_iff_toNat_lt,hsub] at hlt
    rw [UInt32.toNat_sub_of_le _ _ (UInt32.le_iff_toNat_le.mpr (hsub ▸ hlt.le)),hsub] at hroom
    exact ⟨o,rfl,hle,by omega⟩

/-- A buffer that may be handed out: it is long enough, and its mapping lies on the board and,
where the negotiated host window is used, inside that window. -/
structure SharedBuffer.Usable (board : Board) (layout : ApertureLayout) (length : UInt32)
    (mapped negotiated : Prop) (b : SharedBuffer) : Prop where
  handle : b.handle ≠ invalidHandle
  length : length ≤ b.length
  data : mapped → ∃ o, b.data = board.boardAddr+o ∧
    boardRangeFits board.boardSize o b.length = true ∧
    (negotiated → layout.hostBase.toNat ≤ o.toNat ∧
      o.toNat+b.length.toNat ≤ layout.hostBase.toNat+layout.hostSize.toNat)

theorem frees_free {handle : UInt32} {log : List Exchange}
    (h : log.map (·.request) = [requestInit opFreeShared [handle]]) :
    frees log = [requestInit opFreeShared [handle]] := by
  rw [frees,h]
  rfl

theorem allocSharedReply_runs {length : UInt32} {cardOnly negotiated : Bool}
    {reply : MailboxEntry} {status : Status} {b : SharedBuffer}
    (h : Runs ctx (allocSharedReply length cardOnly negotiated reply) log ctx' (status,b)) :
    (status = .ok → b.Usable ctx'.board ctx'.apertureLayout length (cardOnly = false)
      (negotiated = true) ∧ ctx' = ctx ∧ log = []) ∧
    (status ≠ .ok → b = {} ∧
      (Allocates reply → frees log = [requestInit opFreeShared [reply.payload.be32 0]]) ∧
      (¬Allocates reply → frees log = [])) := by
  unfold allocSharedReply at h
  cases hrep : replySharedBuffer reply with
  | error s =>
    simp only [hrep,runs_bind] at h
    obtain ⟨_,ctx₁,log₁,log₂,hf,h,rfl⟩ := h
    obtain ⟨rfl,rfl,he⟩ := runs_ret.mp h
    obtain ⟨rfl,rfl⟩ := Prod.mk.inj he
    refine ⟨fun h => absurd h (replySharedBuffer_error hrep),fun _ => ⟨rfl,?_,?_⟩⟩
    · rintro ⟨hreq,hne⟩
      simp only [replyRequire_eq_ok.mpr hreq,if_pos hne] at hf
      simpa using frees_free (freeShared_runs hne hf).2
    · intro hno
      split at hf
      · obtain ⟨rfl,_,_⟩ := runs_ret.mp hf
        rfl
      · have hne : ¬reply.payload.be32 0 ≠ invalidHandle := fun hne =>
          hno ⟨replyRequire_eq_ok.mp ‹_›,hne⟩
        rw [if_neg hne] at hf
        obtain ⟨rfl,_,_⟩ := runs_ret.mp hf
        rfl
  | ok info =>
    obtain ⟨hreq,hhandle,_,rfl⟩ := replySharedBuffer_eq_ok.mp hrep
    have hall : Allocates reply := ⟨hreq,hhandle⟩
    simp only [hrep,runs_look] at h
    have given : ∀ {log₁ ctx₁ s}, Runs ctx (freeShared (reply.payload.be32 0)) log₁ ctx₁ s →
        frees log₁ = [requestInit opFreeShared [reply.payload.be32 0]] :=
      fun hf => frees_free (freeShared_runs hhandle hf).2
    generalize hptr : (if cardOnly = true then 0 else armRangeToBoardPtr ctx.board.boardAddr
      ctx.board.boardSize (reply.payload.be32 4) (reply.payload.be32 8)) = data at h
    by_cases hchecks : reply.payload.be32 0 = invalidHandle ∨ reply.payload.be32 8 < length ∨
        (cardOnly = false ∧ data = 0) ∨
        (negotiated = true ∧ reply.payload.be32 12 &&& allocHostWindow = 0)
    · rw [if_pos hchecks,if_pos hhandle,runs_bind] at h
      obtain ⟨_,ctx₁,log₁,log₂,hf,h,rfl⟩ := h
      obtain ⟨rfl,rfl,he⟩ := runs_ret.mp h
      obtain ⟨rfl,rfl⟩ := Prod.mk.inj he
      refine ⟨by simp,fun _ => ⟨rfl,fun _ => ?_,fun hno => absurd hall hno⟩⟩
      simpa using given hf
    rw [if_neg hchecks] at h
    simp only [not_or,not_and] at hchecks
    obtain ⟨_,hlen,hdata,_⟩ := hchecks
    split at h
    · rw [runs_bind] at h
      obtain ⟨_,ctx₁,log₁,log₂,hf,h,rfl⟩ := h
      obtain ⟨rfl,rfl,he⟩ := runs_ret.mp h
      obtain ⟨rfl,rfl⟩ := Prod.mk.inj he
      refine ⟨by simp,fun _ => ⟨rfl,fun _ => ?_,fun hno => absurd hall hno⟩⟩
      simpa using given hf
    rename_i hwindow
    obtain ⟨rfl,rfl,he⟩ := runs_ret.mp h
    obtain ⟨rfl,rfl⟩ := Prod.mk.inj he
    refine ⟨fun _ => ⟨⟨hhandle,UInt32.not_lt.mp hlen,fun hc => ?_⟩,rfl,rfl⟩,
      fun hne => absurd rfl hne⟩
    have hne := hdata hc
    simp only [hc,Bool.false_eq_true,if_false] at hptr
    subst hptr
    obtain ⟨o,ho,he⟩ := armRangeToBoardPtr_ne_zero hne
    refine ⟨o,he,armRangeToBoardOffset_fits ho,fun hn => ?_⟩
    obtain ⟨o',ho',hbase,hend⟩ := inHostWindow_bounds (by simpa using not_and.mp hwindow hn)
    obtain rfl := Option.some.inj (ho.symm.trans ho')
    exact ⟨hbase,hend⟩

theorem freeShared_opcode {handle : UInt32} {s : Status}
    (h : Runs ctx (freeShared handle) log ctx' s) : ∀ x ∈ log, x.request.opcode = opFreeShared := by
  by_cases hh : handle = invalidHandle
  · simp only [freeShared,requestFreeShared,if_pos hh] at h
    obtain ⟨rfl,_,_⟩ := runs_ret.mp h
    simp
  · have hlog := (freeShared_runs hh h).2
    intro x hx
    have := List.mem_map_of_mem (f := (·.request)) hx
    rw [hlog,List.mem_singleton] at this
    rw [this]
    rfl

theorem giveBack_opcode {p : CallProg Status} {r r' : Status × SharedBuffer}
    (hp : p = .ret .ok ∨ ∃ handle, p = freeShared handle)
    (h : Runs ctx (p >>= fun _ => ret r') log ctx' r) :
    ∀ x ∈ log, x.request.opcode = opFreeShared := by
  rw [runs_bind] at h
  obtain ⟨_,ctx₁,log₁,log₂,hf,hret,rfl⟩ := h
  obtain ⟨rfl,_,_⟩ := runs_ret.mp hret
  rw [List.append_nil]
  rcases hp with rfl | ⟨handle,rfl⟩
  · obtain ⟨rfl,_,_⟩ := runs_ret.mp hf
    simp
  · exact freeShared_opcode hf

/-- After the reply, blocks are only ever given back. -/
theorem allocSharedReply_opcode {length : UInt32} {cardOnly negotiated : Bool}
    {reply : MailboxEntry} {r : Status × SharedBuffer}
    (h : Runs ctx (allocSharedReply length cardOnly negotiated reply) log ctx' r) :
    ∀ x ∈ log, x.request.opcode = opFreeShared := by
  unfold allocSharedReply at h
  split at h
  · refine giveBack_opcode ?_ h
    split
    · exact Or.inl rfl
    · split_ifs
      · exact Or.inr ⟨_,rfl⟩
      · exact Or.inl rfl
  · rename_i info _
    rw [runs_look] at h
    dsimp only at h
    generalize (if cardOnly = true then 0 else armRangeToBoardPtr ctx.board.boardAddr
      ctx.board.boardSize info.armAddr info.length) = data at h
    split at h
    · refine giveBack_opcode ?_ h
      split_ifs
      · exact Or.inr ⟨_,rfl⟩
      · exact Or.inl rfl
    · split at h
      · exact giveBack_opcode (Or.inr ⟨_,rfl⟩) h
      · obtain ⟨rfl,_,_⟩ := runs_ret.mp h
        simp

/-- A block that is handed out and mapped lies in a window that the board shows. -/
theorem allocSharedReply_shown {length : UInt32} {negotiated : Bool} {reply : MailboxEntry}
    {b : SharedBuffer}
    (h : Runs ctx (allocSharedReply length false negotiated reply) log ctx' (.ok,b)) :
    ∃ armAddr o,armRangeToBoardOffset ctx.board.boardSize armAddr b.length = some o := by
  unfold allocSharedReply at h
  cases hrep : replySharedBuffer reply with
  | error s =>
    simp only [hrep,runs_bind] at h
    obtain ⟨_,ctx₁,log₁,log₂,_,h,rfl⟩ := h
    obtain ⟨rfl,rfl,he⟩ := runs_ret.mp h
    exact absurd (Prod.mk.inj he).1.symm (replySharedBuffer_error hrep)
  | ok info =>
    simp only [hrep,runs_look,Bool.false_eq_true,if_false] at h
    split at h
    · rw [runs_bind] at h
      obtain ⟨_,ctx₁,log₁,log₂,_,h,rfl⟩ := h
      obtain ⟨rfl,rfl,he⟩ := runs_ret.mp h
      cases (Prod.mk.inj he).1
    · next hchecks =>
      split at h
      · rw [runs_bind] at h
        obtain ⟨_,ctx₁,log₁,log₂,_,h,rfl⟩ := h
        obtain ⟨rfl,rfl,he⟩ := runs_ret.mp h
        cases (Prod.mk.inj he).1
      · have hdata : armRangeToBoardPtr ctx.board.boardAddr ctx.board.boardSize info.armAddr
            info.length ≠ 0 := fun h0 => hchecks (Or.inr (Or.inr (Or.inl ⟨trivial,h0⟩)))
        obtain ⟨o,ho,-⟩ := armRangeToBoardPtr_ne_zero hdata
        obtain ⟨-,-,he⟩ := runs_ret.mp h
        obtain ⟨-,rfl⟩ := Prod.mk.inj he
        exact ⟨info.armAddr,o,ho⟩

/-- Whatever the firmware replies, a buffer that `zz9k_alloc_shared` hands out has a valid handle,
is as long as asked for, and where it is mapped no longer than the windows of the board. -/
theorem allocShared_grants {length alignment flags : UInt32} {buffer b : SharedBuffer}
    (hmapped : flags &&& allocCardOnly = 0)
    (h : Runs ctx (allocShared length alignment flags buffer) log ctx' (.ok,b)) :
    b.handle ≠ invalidHandle ∧ length ≤ b.length ∧ b.length.toNat ≤ 0x101f0001 := by
  unfold allocShared at h
  split at h
  · obtain ⟨-,-,he⟩ := runs_ret.mp h
    cases (Prod.mk.inj he).1
  · next hlen =>
    rw [runs_look] at h
    have hcard : decide (flags &&& allocCardOnly ≠ 0) = false := by simp [hmapped]
    simp only [requestAllocShared,if_neg hlen,runs_bind,hcard] at h
    obtain ⟨r,ctx₁,log₁,log₂,hn,h,rfl⟩ := h
    cases r with
    | error s =>
      obtain ⟨rfl,rfl,he⟩ := runs_ret.mp h
      exact absurd (Prod.mk.inj he).1.symm ((negotiateHostWindow_runs hn).2.2.1 _ rfl)
    | ok negotiated =>
      simp only [runs_call] at h
      obtain ⟨x,ctx₂,rest,-,-,-,rfl,h⟩ := h
      split at h
      · next hs =>
        obtain ⟨rfl,rfl,he⟩ := runs_ret.mp h
        exact absurd (Prod.mk.inj he).1.symm hs
      · obtain ⟨hu,-,-⟩ := (allocSharedReply_runs h).1 rfl
        obtain ⟨armAddr,o,ho⟩ := allocSharedReply_shown h
        refine ⟨hu.handle,hu.length,?_⟩
        rcases (armRangeToBoardOffset_shows ho).2 with ⟨hio,hend⟩ | ⟨-,hend⟩
        · have hstart : 0x3fe40000 ≤ armAddr.toNat := hio.start
          omega
        · omega

/-- `zz9k_alloc_shared` hands out a usable buffer or none, and then gives back what it was
allocated. A zero length is refused before anything is sent or touched; a block counts as
allocated when `zz9k_call` comes back OK with a complete reply naming it. -/
theorem allocShared_atomic {length alignment flags : UInt32} {buffer b : SharedBuffer}
    {status : Status} (h : Runs ctx (allocShared length alignment flags buffer) log ctx' (status,b)) :
    (status = .ok → b.Usable ctx.board ctx'.apertureLayout length (flags &&& allocCardOnly = 0)
      (flags &&& allocHostWindow ≠ 0 ∧ ctx.board.zorroVersion = 2 ∧
        ctx.capabilityBits &&& capApertureLayout ≠ 0)) ∧
    (status ≠ .ok → length ≠ 0 → b = {}) ∧
    (status ≠ .ok → ∀ x ∈ log, x.request.opcode = opAllocShared → x.status = .ok →
      Allocates x.reply → frees log = [requestInit opFreeShared [x.reply.payload.be32 0]]) ∧
    (length = 0 → status = .badRequest ∧ b = buffer ∧ log = []) := by
  unfold allocShared at h
  by_cases hlen : length = 0
  · rw [if_pos hlen] at h
    obtain ⟨rfl,rfl,he⟩ := runs_ret.mp h
    obtain ⟨rfl,rfl⟩ := Prod.mk.inj he
    exact ⟨by simp,fun _ hne => absurd hlen hne,by simp,fun _ => ⟨rfl,rfl,rfl⟩⟩
  rw [if_neg hlen,runs_look] at h
  dsimp only at h
  generalize hcard : decide (flags &&& allocCardOnly ≠ 0) = cardOnly at h
  generalize hkept : (if cardOnly = true ∨ ctx.board.zorroVersion ≠ 2 then
    flags &&& ~~~allocHostWindow else flags) = kept at h
  simp only [requestAllocShared,if_neg hlen,runs_bind] at h
  obtain ⟨r,ctx₁,log₁,log₂,hn,h,rfl⟩ := h
  obtain ⟨hboard,hq,herr,hok⟩ := negotiateHostWindow_runs hn
  have notAlloc : ∀ x ∈ log₁, x.request.opcode ≠ opAllocShared := by
    intro x hx he
    rcases hq x hx with h | h <;> exact absurd (he.symm.trans h) (by decide)
  cases r with
  | error s =>
    obtain ⟨rfl,rfl,he⟩ := runs_ret.mp h
    obtain ⟨rfl,rfl⟩ := Prod.mk.inj he
    refine ⟨fun hs => absurd hs (herr _ rfl),fun _ _ => rfl,fun _ x hx ho => ?_,
      fun h0 => absurd h0 hlen⟩
    exact absurd ho (notAlloc x (by simpa using hx))
  | ok negotiated =>
    simp only [runs_call] at h
    obtain ⟨x,ctx₂,rest,hreq,hgen,hknown,rfl,h⟩ := h
    by_cases hs : x.status ≠ .ok
    · rw [if_pos hs] at h
      obtain ⟨rfl,rfl,he⟩ := runs_ret.mp h
      obtain ⟨rfl,rfl⟩ := Prod.mk.inj he
      refine ⟨fun h => absurd h hs,fun _ _ => rfl,fun _ y hy ho hys => ?_,
        fun h0 => absurd h0 hlen⟩
      rcases List.mem_append.mp hy with hy | hy
      · exact absurd ho (notAlloc y hy)
      · rw [List.mem_singleton.mp hy] at hys
        exact absurd hys hs
    rw [if_neg hs] at h
    obtain ⟨hgood,hbad⟩ := allocSharedReply_runs h
    refine ⟨fun hst => ?_,fun hst _ => (hbad hst).1,fun hst y hy ho hys hall => ?_,
      fun h0 => absurd h0 hlen⟩
    · obtain ⟨hu,rfl,_⟩ := hgood hst
      have hb : ctx'.board = ctx.board := (congrArg (·.1) hknown).trans hboard
      refine ⟨hu.handle,hu.length,fun hmap => ?_⟩
      have hno : cardOnly = false := by simp [← hcard,hmap]
      obtain ⟨o,hdata,hfits,hwin⟩ := hu.data hno
      refine ⟨o,hb ▸ hdata,hb ▸ hfits,fun hneg => hwin ((hok _ rfl).mpr ?_)⟩
      have hflags : kept = flags := by simp [← hkept,hno,hneg.2.1]
      exact ⟨hflags ▸ hneg.1,hneg.2.2⟩
    · have hx : x.request.opcode = opAllocShared := hreq ▸ rfl
      obtain rfl : y = x := by
        rcases List.mem_append.mp hy with hy | hy
        · exact absurd ho (notAlloc y hy)
        rcases List.mem_cons.mp hy with rfl | hy
        · rfl
        · exact absurd (ho.symm.trans (allocSharedReply_opcode h y hy)) (by decide)
      have hfree : frees [y] = [] := by simp [frees,hx,show opAllocShared ≠ opFreeShared by decide]
      rw [← List.singleton_append,frees_append,frees_append,hq.frees,hfree]
      exact (hbad hst).2.1 hall

end

private def allocAnswer (length : UInt32) (reply : MailboxEntry) : Exchange :=
  ⟨requestInit opAllocShared [length,0,0],.ok,reply,true⟩

private theorem allocAnswer_genuine {length : UInt32} {reply : MailboxEntry}
    (hs : reply.status = 0) (ho : reply.opcode = opAllocShared) :
    (allocAnswer length reply).Genuine := by
  have h := Exchange.Genuine.answered (requestInit opAllocShared [length,0,0]) reply ho
  rwa [Status.ofWord_eq_ok.mpr hs] at h

/-- A zero length leaves what the buffer held. A reply that announces more than 48 bytes is
malformed, and one that comes in while draining after Ctrl-C is dropped: in both cases the block
it names is not given back. -/
theorem allocShared_not_atomic :
    (∃ b, CallProg.Runs {} (allocShared 0 0 0 {handle := 7}) [] {} (.badRequest,b) ∧ b ≠ {}) ∧
    (∃ x, CallProg.Runs {} (allocShared 16 0 0 {}) [x] {} (.internalError,{}) ∧
      x.request.opcode = opAllocShared ∧ x.reply.status = statusOk ∧
      x.reply.opcode = opAllocShared ∧ 16 ≤ x.reply.payloadLen.toNat ∧
      x.reply.payload.be32 0 ≠ invalidHandle ∧ frees [x] = []) ∧
    ∃ x, CallProg.Runs {} (allocShared 16 0 0 {}) [x] {} (.cancelled,{}) ∧
      x.request.opcode = opAllocShared ∧ x.recognised = true ∧ Allocates x.reply ∧
      frees [x] = [] := by
  refine ⟨⟨{handle := 7},?_,by decide⟩,
    ⟨allocAnswer 16 {opcode := opAllocShared,payloadLen := 49},?_,by decide⟩,
    ⟨⟨requestInit opAllocShared [16,0,0],.cancelled,{opcode := opAllocShared,payloadLen := 48},
      true⟩,?_,rfl,rfl,⟨⟨rfl,rfl,by decide,by decide⟩,by decide⟩,by decide⟩⟩
  · rw [allocShared,if_pos rfl]
    exact .ret _ _
  · rw [allocShared,if_neg (by decide)]
    exact .look (.call (allocAnswer_genuine rfl rfl) rfl (.ret _ _))
  · rw [allocShared,if_neg (by decide)]
    exact .look (.call (.interrupted (requestInit opAllocShared [16,0,0])
      {opcode := opAllocShared,payloadLen := 48} rfl) rfl (.ret _ _))

private def zorro3 : Context :=
  {board := {boardAddr := 0x40000000,boardSize := 0x10000000,zorroVersion := 3}}

private def mappedBlock : MailboxEntry where
  opcode := opAllocShared
  payloadLen := 48
  payload := Payload.ofWords [5,0x00200000,64,0]

/-- A block that lies on a Zorro III board -/
theorem allocShared_atomic_mapped : ∃ b : SharedBuffer,
    b.handle = 5 ∧ b.Usable zorro3.board zorro3.apertureLayout 16 True False := by
  have hrun : CallProg.Runs zorro3 (allocShared 16 0 0 {})
      [allocAnswer 16 mappedBlock] zorro3 (.ok,{handle := 5,data := 0x40010000,length := 64}) := by
    rw [allocShared,if_neg (by decide)]
    exact .look (.call (allocAnswer_genuine rfl rfl) rfl (.look (.ret _ _)))
  have h := (allocShared_atomic hrun).1 rfl
  exact ⟨_,rfl,h.handle,h.length,fun _ => by
    obtain ⟨o,hdata,hfits,_⟩ := h.data (by decide)
    exact ⟨o,hdata,hfits,False.elim⟩⟩

end ZZ9K.Host
