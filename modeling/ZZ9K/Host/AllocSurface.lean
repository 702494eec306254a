import ZZ9K.Host.Replies

namespace ZZ9K.Host

open ZZ9K.Abi

def opMapFramebufferSurface : UInt16 := 0x0202

/-- `zz9k_request_alloc_surface_ex` -/
def requestAllocSurfaceEx (width height format flags pitch : UInt32) :
    Except Status MailboxEntry :=
  if width = 0 ∨ height = 0 then .error .badRequest
  else .ok (requestInit opAllocSurface [width,height,format,flags,pitch])

/-- `zz9k_request_free_surface` -/
def requestFreeSurface (handle : UInt32) : Except Status MailboxEntry :=
  if handle = invalidHandle ∨ handle = surfaceHandleFramebuffer then .error .badRequest
  else .ok (requestInit opFreeSurface [handle])

/-- `zz9k_request_map_framebuffer_surface` -/
def requestMapFramebufferSurface : MailboxEntry := requestInit opMapFramebufferSurface

/-- `zz9k_surface_from_reply` -/
def surfaceFromReply (board : Board) (reply : MailboxEntry) (expectedOpcode : UInt16) :
    Status × Surface :=
  match replySurface reply expectedOpcode with
  | .error status => (status,{})
  | .ok surface =>
      let isFramebuffer := surface.handle = surfaceHandleFramebuffer
      let isArmLocal := surface.flags &&& surfaceFlagArmLocal ≠ 0
      let surface := {surface with
        data := armRangeToBoardPtr board.boardAddr board.boardSize surface.armAddr surface.length}
      if surface.incomplete ∨ (¬isFramebuffer ∧ ¬isArmLocal ∧ surface.data = 0) then
        (.internalError,{})
      else (.ok,surface)

/-- `zz9k_alloc_surface_ex`, on what `surface` held before -/
def allocSurfaceEx (width height format flags pitch : UInt32) (surface : Surface) :
    CallProg (Status × Surface) :=
  if width = 0 ∨ height = 0 then .ret (.badRequest,surface)
  else match requestAllocSurfaceEx width height format flags pitch with
    | .error status => .ret (status,{})
    | .ok request =>
        .call request defaultTimeoutTicks fun status reply =>
        if status ≠ .ok then .ret (status,{})
        else .look fun ctx => .ret (surfaceFromReply ctx.board reply opAllocSurface)

/-- `zz9k_alloc_surface` -/
def allocSurface (width height format flags : UInt32) (surface : Surface) :
    CallProg (Status × Surface) :=
  allocSurfaceEx width height format flags 0 surface

/-- `zz9k_free_surface` -/
def freeSurface (handle : UInt32) : CallProg Status :=
  match requestFreeSurface handle with
  | .error status => .ret status
  | .ok request => .call request defaultTimeoutTicks fun status _ => .ret status

/-- `zz9k_map_framebuffer_surface` -/
def mapFramebufferSurface : CallProg (Status × Surface) :=
  .call requestMapFramebufferSurface defaultTimeoutTicks fun status reply =>
  if status ≠ .ok then .ret (status,{})
  else .look fun ctx => .ret (surfaceFromReply ctx.board reply opMapFramebufferSurface)

theorem Surface.incomplete_eq_false {s : Surface} : s.incomplete = false ↔
    s.handle ≠ invalidHandle ∧ s.width ≠ 0 ∧ s.height ≠ 0 ∧ s.pitch ≠ 0 ∧ s.length ≠ 0 := by
  simp [incomplete]

/-- A surface is decoded from a complete reply. -/
theorem replySurface_ok {reply : MailboxEntry} {opcode : UInt16} {s : Surface} :
    replySurface reply opcode = .ok s ↔ Requires reply opcode 32 ∧ SurfaceReplyComplete reply ∧
      s =
        { handle := reply.payload.be32 0,armAddr := reply.payload.be32 4
          width := reply.payload.be32 8,height := reply.payload.be32 12
          pitch := reply.payload.be32 16,format := reply.payload.be32 20
          flags := reply.payload.be32 24,length := reply.payload.be32 28 } := by
  unfold replySurface
  cases hr : replyRequire reply opcode 32 with
  | error status =>
    exact ⟨(by simp),fun h => absurd h.1 (replyRequire_error hr).2⟩
  | ok _ =>
    have hreq := replyRequire_eq_ok.mp hr
    dsimp only
    split_ifs with hinc
    · refine ⟨(by simp),fun h => ?_⟩
      exact absurd hinc (Bool.eq_false_iff.mp (Surface.incomplete_eq_false.mpr h.2.1))
    · rw [Bool.not_eq_true,Surface.incomplete_eq_false] at hinc
      rw [Except.ok.injEq]
      exact ⟨fun h => ⟨hreq,hinc,h.symm⟩,fun h => h.2.2.symm⟩

theorem replySurface_error {reply : MailboxEntry} {opcode : UInt16} {status : Status}
    (h : replySurface reply opcode = .error status) : status ≠ .ok := by
  unfold replySurface at h
  split at h
  · obtain rfl := Except.error.inj h
    exact (replyRequire_error ‹_›).1
  · dsimp only at h
    split at h
    · obtain rfl := Except.error.inj h
      simp
    · cases h

theorem surfaceFromReply_ok {board : Board} {reply : MailboxEntry} {opcode : UInt16} :
    (surfaceFromReply board reply opcode).1 = .ok ↔ Requires reply opcode 32 ∧
      SurfaceReplyComplete reply ∧ SurfaceReplyMapped board reply := by
  unfold surfaceFromReply
  cases hr : replySurface reply opcode with
  | error status =>
    refine iff_of_false (replySurface_error hr) fun h => ?_
    rw [replySurface_ok.mpr ⟨h.1,h.2.1,rfl⟩] at hr
    cases hr
  | ok surface =>
    obtain ⟨hreq,hc,rfl⟩ := replySurface_ok.mp hr
    dsimp only
    by_cases hm : SurfaceReplyMapped board reply
    · rw [if_neg]
      · exact iff_of_true rfl ⟨hreq,hc,hm⟩
      · rintro (h | ⟨hf,hl,hd⟩)
        · exact absurd h (Bool.eq_false_iff.mp (Surface.incomplete_eq_false.mpr hc))
        · rcases hm with hm | hm | hm
          · exact hf hm
          · exact hl hm
          · exact hm hd
    · rw [if_pos]
      · exact iff_of_false (by simp) fun h => hm h.2.2
      · rw [SurfaceReplyMapped,not_or,not_or,not_not,not_not] at hm
        exact Or.inr ⟨hm.1,not_not.mpr hm.2.1,hm.2.2⟩

section

open CallProg

variable {ctx ctx' : Context} {log : List Exchange}

/-- Nothing is sent but the one request, and nothing after its reply. -/
theorem allocSurfaceEx_runs {width height format flags pitch : UInt32} {surface s : Surface}
    {status : Status}
    (h : Runs ctx (allocSurfaceEx width height format flags pitch surface) log ctx' (status,s)) :
    log = [] ∨ ∃ x, log = [x] ∧ x.request.opcode = opAllocSurface ∧
      (status = .ok ↔ x.status = .ok ∧ Requires x.reply opAllocSurface 32 ∧
        SurfaceReplyComplete x.reply ∧ SurfaceReplyMapped ctx.board x.reply) := by
  unfold allocSurfaceEx at h
  by_cases hz : width = 0 ∨ height = 0
  · rw [if_pos hz] at h
    exact Or.inl (runs_ret.mp h).1
  right
  simp only [if_neg hz,requestAllocSurfaceEx,runs_call] at h
  obtain ⟨x,ctx₁,rest,hreq,_,hknown,rfl,h⟩ := h
  have hop : x.request.opcode = opAllocSurface := hreq ▸ rfl
  have hboard : ctx₁.board = ctx.board := congrArg (·.1) hknown
  by_cases hs : x.status ≠ .ok
  · rw [if_pos hs] at h
    obtain ⟨rfl,_,he⟩ := runs_ret.mp h
    obtain ⟨rfl,_⟩ := Prod.mk.inj he
    exact ⟨x,rfl,hop,iff_of_false hs fun h => hs h.1⟩
  · rw [if_neg hs,runs_look] at h
    obtain ⟨rfl,_,he⟩ := runs_ret.mp h
    have hst : status = (surfaceFromReply ctx.board x.reply opAllocSurface).1 := by
      rw [← hboard,← he]
    refine ⟨x,rfl,hop,?_⟩
    rw [hst,surfaceFromReply_ok]
    exact ⟨fun h => ⟨not_not.mp hs,h⟩,fun h => h.2⟩

/-- `zz9k_call` hands the reply on, no more is announced than an entry holds, and the surface is
complete and reachable. -/
structure SurfaceAccepted (board : Board) (x : Exchange) : Prop where
  status : x.status = .ok
  payload : x.reply.payloadLen.toNat ≤ 48
  complete : SurfaceReplyComplete x.reply
  mapped : SurfaceReplyMapped board x.reply

end

private def surfaceAnswer (words : List UInt32) : Exchange where
  request := requestInit opAllocSurface [64,64,2,1,0]
  status := .ok
  reply := {opcode := opAllocSurface,payloadLen := 48,payload := Payload.ofWords words}
  recognised := true

private theorem surfaceAnswer_genuine (words : List UInt32) : (surfaceAnswer words).Genuine :=
  .answered (requestInit opAllocSurface [64,64,2,1,0]) (surfaceAnswer words).reply rfl

private def zorro3Board : Context :=
  {board := {boardAddr := 0x40000000,boardSize := 0x10000000,zorroVersion := 3}}

end ZZ9K.Host
