import ZZ9K.Host.Aperture

namespace ZZ9K.Host

open ZZ9K.Abi

def opAllocSurface : UInt16 := 0x0200
def opFreeSurface : UInt16 := 0x0201

def surfaceHandleFramebuffer : UInt32 := 0x80000000
def surfaceFlagArmLocal : UInt32 := 0x10

def allocHostWindow : UInt32 := 1
def allocCardOnly : UInt32 := 2

/-- `zz9k_reply_caps`, as far as the host layer uses it: the capability bits. -/
def replyCaps (reply : MailboxEntry) : Except Status UInt32 :=
  match replyRequire reply opQueryCaps 32 with
  | .error status => .error status
  | .ok _ =>
      let p := reply.payload
      if p.be32 0 ≠ abiMagic ∨ p.be16 4 ≠ abiVersionMajor then .error .unsupported
      else .ok (p.be32 8)

/-- `zz9k_reply_aperture_layout` -/
def replyApertureLayout (reply : MailboxEntry) : Except Status ApertureLayout :=
  match replyRequire reply opQueryApertureLayout 48 with
  | .error status => .error status
  | .ok _ =>
      let p := reply.payload
      .ok {
        profile := p.be32 0
        apertureSize := p.be32 4
        framebufferBase := p.be32 8
        framebufferSize := p.be32 12
        pipBase := p.be32 16
        pipSize := p.be32 20
        templateBase := p.be32 24
        templateSize := p.be32 28
        hostBase := p.be32 32
        hostSize := p.be32 36
        audioBase := p.be32 40
        audioSize := p.be32 44 }

/-- `ZZ9KSharedBufferInfo` -/
structure SharedBufferInfo where
  handle : UInt32
  armAddr : UInt32
  length : UInt32
  flags : UInt32

/-- `zz9k_reply_shared_buffer` -/
def replySharedBuffer (reply : MailboxEntry) : Except Status SharedBufferInfo :=
  match replyRequire reply opAllocShared 16 with
  | .error status => .error status
  | .ok _ =>
      let p := reply.payload
      if p.be32 0 = invalidHandle ∨ p.be32 8 = 0 then .error .internalError
      else .ok ⟨p.be32 0,p.be32 4,p.be32 8,p.be32 12⟩

/-- A shared buffer is decoded from a complete reply that names a handle and a length. -/
theorem replySharedBuffer_eq_ok {reply : MailboxEntry} {info : SharedBufferInfo} :
    replySharedBuffer reply = .ok info ↔ Requires reply opAllocShared 16 ∧
      reply.payload.be32 0 ≠ invalidHandle ∧ reply.payload.be32 8 ≠ 0 ∧
      info = ⟨reply.payload.be32 0,reply.payload.be32 4,reply.payload.be32 8,
        reply.payload.be32 12⟩ := by
  unfold replySharedBuffer
  cases hr : replyRequire reply opAllocShared 16 with
  | error status =>
    exact ⟨nofun,fun h => absurd h.1 (replyRequire_error hr).2⟩
  | ok _ =>
    have hreq := replyRequire_eq_ok.mp hr
    dsimp only
    split_ifs with hp
    · refine ⟨nofun,fun h => ?_⟩
      rcases hp with hp | hp
      · exact absurd hp h.2.1
      · exact absurd hp h.2.2.1
    · rw [not_or] at hp
      rw [Except.ok.injEq]
      exact ⟨fun h => ⟨hreq,hp.1,hp.2,h.symm⟩,fun h => h.2.2.2.symm⟩

theorem replySharedBuffer_error {reply : MailboxEntry} {status : Status}
    (h : replySharedBuffer reply = .error status) : status ≠ .ok := by
  unfold replySharedBuffer at h
  split at h
  · obtain rfl := Except.error.inj h
    exact (replyRequire_error ‹_›).1
  · dsimp only at h
    split_ifs at h
    obtain rfl := Except.error.inj h
    simp

/-- `ZZ9KSurface`; a zero `data` is the null pointer. -/
structure Surface where
  handle : UInt32 := 0
  armAddr : UInt32 := 0
  data : UInt32 := 0
  width : UInt32 := 0
  height : UInt32 := 0
  pitch : UInt32 := 0
  format : UInt32 := 0
  flags : UInt32 := 0
  length : UInt32 := 0
  deriving DecidableEq, Repr

/-- The test both the decoder and the mapping make -/
def Surface.incomplete (s : Surface) : Bool :=
  s.handle = invalidHandle ∨ s.width = 0 ∨ s.height = 0 ∨ s.pitch = 0 ∨ s.length = 0

/-- `zz9k_reply_surface` -/
def replySurface (reply : MailboxEntry) (opcode : UInt16) : Except Status Surface :=
  match replyRequire reply opcode 32 with
  | .error status => .error status
  | .ok _ =>
      let p := reply.payload
      let surface : Surface :=
        {handle := p.be32 0,armAddr := p.be32 4,width := p.be32 8,height := p.be32 12,
          pitch := p.be32 16,format := p.be32 20,flags := p.be32 24,length := p.be32 28}
      if surface.incomplete then .error .internalError else .ok surface

/-- `ZZ9KCryptoResult` -/
structure CryptoResult where
  bytesWritten : UInt32 := 0
  algorithm : UInt32 := 0
  flags : UInt32 := 0
  deriving DecidableEq, Repr

/-- `zz9k_reply_crypto_result` -/
def replyCryptoResult (reply : MailboxEntry) (opcode : UInt16) : Except Status CryptoResult :=
  match replyRequire reply opcode 48 with
  | .error status => .error status
  | .ok _ =>
      let p := reply.payload
      if p.be32 0 = 0 then .error .internalError else .ok ⟨p.be32 0,p.be32 4,p.be32 8⟩

theorem replyCryptoResult_bytes {reply : MailboxEntry} {opcode : UInt16} {result : CryptoResult}
    (h : replyCryptoResult reply opcode = .ok result) : result.bytesWritten ≠ 0 := by
  unfold replyCryptoResult at h
  split at h
  · cases h
  · dsimp only at h
    split_ifs at h with h0
    obtain rfl := Except.ok.inj h
    exact h0

/-- The surface words of a reply are those of a surface with an area, a pitch and a length. -/
def SurfaceReplyComplete (reply : MailboxEntry) : Prop :=
  reply.payload.be32 0 ≠ invalidHandle ∧ reply.payload.be32 8 ≠ 0 ∧ reply.payload.be32 12 ≠ 0 ∧
    reply.payload.be32 16 ≠ 0 ∧ reply.payload.be32 28 ≠ 0

/-- The CPU reaches the surface, or need not. -/
def SurfaceReplyMapped (board : Board) (reply : MailboxEntry) : Prop :=
  reply.payload.be32 0 = surfaceHandleFramebuffer ∨
    reply.payload.be32 24 &&& surfaceFlagArmLocal ≠ 0 ∨
    armRangeToBoardPtr board.boardAddr board.boardSize (reply.payload.be32 4)
      (reply.payload.be32 28) ≠ 0

/-- The reply hands out a surface that has to be used or freed. -/
structure AllocatesSurface (reply : MailboxEntry) : Prop where
  status : reply.status = statusOk
  opcode : reply.opcode = opAllocSurface
  payload : 32 ≤ reply.payloadLen.toNat
  handle : reply.payload.be32 0 ≠ invalidHandle
  own : reply.payload.be32 0 ≠ surfaceHandleFramebuffer

/-- Every surface the log says was allocated was also freed in it. -/
def SurfacesFreed (log : List Exchange) : Prop :=
  ∀ x ∈ log, x.recognised = true → AllocatesSurface x.reply →
    ∃ y ∈ log, y.request = requestInit opFreeSurface [x.reply.payload.be32 0]

/-- `ZZ9KSharedBuffer`; a zero `data` is the null pointer. -/
structure SharedBuffer where
  handle : UInt32 := 0
  data : UInt32 := 0
  length : UInt32 := 0
  deriving DecidableEq, Repr

/-- `zz9k_free_shared` -/
def freeShared (handle : UInt32) : CallProg Status :=
  match requestFreeShared handle with
  | .error status => .ret status
  | .ok request => .call request defaultTimeoutTicks fun status _ => .ret status

/-- The last test of `zz9k_alloc_shared`: the buffer lies in the host window of the layout. -/
def inHostWindow (ctx : Context) (info : SharedBufferInfo) : Bool :=
  match armRangeToBoardOffset ctx.board.boardSize info.armAddr info.length with
  | none => false
  | some offset =>
      let layout := ctx.apertureLayout
      if offset < layout.hostBase then false
      else if layout.hostSize ≤ offset-layout.hostBase then false
      else if layout.hostSize-(offset-layout.hostBase) < info.length then false
      else true

/-- `zz9k_alloc_shared` from the reply on -/
def allocSharedReply (length : UInt32) (cardOnly negotiated : Bool) (reply : MailboxEntry) :
    CallProg (Status × SharedBuffer) :=
  match replySharedBuffer reply with
  | .error status =>
      (match replyRequire reply opAllocShared 16 with
        | .error _ => .ret .ok
        | .ok _ =>
            if reply.payload.be32 0 ≠ invalidHandle then freeShared (reply.payload.be32 0)
            else .ret .ok) >>= fun _ => .ret (status,{})
  | .ok info => .look fun ctx =>
      let data := if cardOnly then 0
        else armRangeToBoardPtr ctx.board.boardAddr ctx.board.boardSize info.armAddr info.length
      if info.handle = invalidHandle ∨ info.length < length ∨ (cardOnly = false ∧ data = 0) ∨
          (negotiated ∧ info.flags &&& allocHostWindow = 0) then
        (if info.handle ≠ invalidHandle then freeShared info.handle else .ret .ok) >>= fun _ =>
        .ret (.internalError,{})
      else if negotiated ∧ inHostWindow ctx info = false then
        freeShared info.handle >>= fun _ => .ret (.internalError,{})
      else .ret (.ok,{handle := info.handle,data,length := info.length})

/-- The reply hands out a block that has to be used or given back. -/
def Allocates (reply : MailboxEntry) : Prop :=
  Requires reply opAllocShared 16 ∧ reply.payload.be32 0 ≠ invalidHandle

end ZZ9K.Host
