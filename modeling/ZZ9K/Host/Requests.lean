import ZZ9K.Host.Context

namespace ZZ9K.Host

open ZZ9K.Abi

def opQueryCaps : UInt16 := 0x0001
def opQueryApertureLayout : UInt16 := 0x0005
def opAllocShared : UInt16 := 0x0100
def opFreeShared : UInt16 := 0x0101
def opMemCopy : UInt16 := 0x0103

def invalidHandle : UInt32 := 0xffffffff
def abiMagic : UInt32 := 0x5a5a394b
def abiVersionMajor : UInt16 := 2

/-- `ZZ9K_DEFAULT_TIMEOUT_TICKS` -/
def defaultTimeoutTicks : UInt32 := 250

/-- `zz9k_request_init`, with the payload words in place; payloads are as long as their wire
structures, which are 48 bytes or none. -/
def requestInit (opcode : UInt16) (words : List UInt32 := []) : MailboxEntry :=
  { opcode,flags := entryInlinePayload
    payloadLen := if words.isEmpty then 0 else 48
    payload := Payload.ofWords words }

/-- `zz9k_request_query_caps` -/
def requestQueryCaps : MailboxEntry := requestInit opQueryCaps

/-- `zz9k_request_query_aperture_layout` -/
def requestQueryApertureLayout : MailboxEntry := requestInit opQueryApertureLayout

/-- `zz9k_request_alloc_shared` -/
def requestAllocShared (length alignment flags : UInt32) : Except Status MailboxEntry :=
  if length = 0 then .error .badRequest
  else .ok (requestInit opAllocShared [length,alignment,flags])

/-- `zz9k_request_free_shared` -/
def requestFreeShared (handle : UInt32) : Except Status MailboxEntry :=
  if handle = invalidHandle then .error .badRequest
  else .ok (requestInit opFreeShared [handle])

/-- `zz9k_request_mem_copy` -/
def requestMemCopy (dstHandle dstOffset srcHandle srcOffset length : UInt32) :
    Except Status MailboxEntry :=
  if dstHandle = invalidHandle ∨ srcHandle = invalidHandle then .error .badRequest
  else .ok (requestInit opMemCopy [dstHandle,dstOffset,srcHandle,srcOffset,length])

/-- `zz9k_reply_require` -/
def replyRequire (reply : MailboxEntry) (opcode : UInt16) (minPayloadLen : Nat) :
    Except Status Unit :=
  if reply.status ≠ statusOk then .error (.ofWord reply.status)
  else if reply.opcode ≠ opcode ∨ 48 < reply.payloadLen.toNat ∨
      reply.payloadLen.toNat < minPayloadLen then .error .internalError
  else .ok ()

/-- What `zz9k_reply_require` lets pass -/
structure Requires (reply : MailboxEntry) (opcode : UInt16) (minPayloadLen : Nat) : Prop where
  status : reply.status = statusOk
  opcode : reply.opcode = opcode
  payloadMin : minPayloadLen ≤ reply.payloadLen.toNat
  payloadMax : reply.payloadLen.toNat ≤ 48

theorem replyRequire_eq_ok {reply : MailboxEntry} {opcode : UInt16} {n : Nat} :
    replyRequire reply opcode n = .ok () ↔ Requires reply opcode n := by
  unfold replyRequire
  split_ifs with hs hp
  · exact ⟨nofun,fun h => absurd h.status hs⟩
  · refine ⟨nofun,fun h => ?_⟩
    have h1 := h.payloadMin
    have h2 := h.payloadMax
    rcases hp with hp | hp | hp
    · exact absurd h.opcode hp
    · omega
    · omega
  · rw [not_or,not_or,not_not] at hp
    exact ⟨fun _ => ⟨not_not.mp hs,hp.1,by omega,by omega⟩,fun _ => rfl⟩

/-- A reply that is not let through never comes back as OK. -/
theorem replyRequire_error {reply : MailboxEntry} {opcode : UInt16} {n : Nat} {status : Status}
    (h : replyRequire reply opcode n = .error status) :
    status ≠ .ok ∧ ¬Requires reply opcode n := by
  constructor
  · unfold replyRequire at h
    split_ifs at h with hs hp
    · obtain rfl := Except.error.inj h
      exact fun h => hs (Status.ofWord_eq_ok.mp h)
    · obtain rfl := Except.error.inj h
      simp
  · intro hr
    rw [replyRequire_eq_ok.mpr hr] at h
    cases h

end ZZ9K.Host
