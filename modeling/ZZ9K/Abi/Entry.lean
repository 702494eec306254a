import ZZ9K.Abi.BigEndian
import Mathlib.Data.List.OfFn
import Mathlib.Data.Fintype.Pi

namespace ZZ9K.Abi

/-- `enum ZZ9KStatus`. `other` holds the integers the enumeration does not name: a reply or a
waiter may still deliver one. -/
inductive Status
  | ok
  | queued
  | busy
  | unsupported
  | badRequest
  | badHandle
  | noMemory
  | timeout
  | cancelled
  | ioError
  | notFound
  | internalError
  | other (value : Int)
  deriving DecidableEq, Repr

/-- The value of a status word. -/
def Status.ofNat : Nat → Status
  | 0 => ok
  | 1 => queued
  | 2 => busy
  | 3 => unsupported
  | 4 => badRequest
  | 5 => badHandle
  | 6 => noMemory
  | 7 => timeout
  | 8 => cancelled
  | 9 => ioError
  | 10 => notFound
  | n => if n = 0xffff then internalError else other n

/-- The status word of an entry, read as a status. -/
def Status.ofWord (w : UInt16) : Status := Status.ofNat w.toNat

theorem Status.ofNat_eq_ok (n : Nat) : Status.ofNat n = .ok ↔ n = 0 := by
  unfold Status.ofNat
  split <;> first | decide | skip
  rename_i h0 _ _ _ _ _ _ _ _ _ _
  constructor
  · intro h
    split_ifs at h
  · exact fun h => absurd h h0

theorem Status.ofWord_eq_ok {w : UInt16} : Status.ofWord w = .ok ↔ w = 0 := by
  rw [Status.ofWord,Status.ofNat_eq_ok]
  exact UInt16.toNat_inj (b := 0)

def statusOk : UInt16 := 0
def statusQueued : UInt16 := 1
def statusCancelled : UInt16 := 8

/-- `ZZ9K_ENTRY_INLINE_PAYLOAD` -/
def entryInlinePayload : UInt16 := 1

abbrev Payload := Fin 48 → UInt8

/-- `ZZ9KMailboxEntry`; a `ZZ9KRequest` is one such entry. -/
@[ext] structure MailboxEntry where
  requestId : UInt32 := 0
  opcode : UInt16 := 0
  status : UInt16 := 0
  flags : UInt16 := 0
  payloadLen : UInt16 := 0
  userCookie : UInt32 := 0
  payload : Payload := fun _ => 0
  deriving DecidableEq

/-- `ZZ9KMailboxWireEntry` -/
structure MailboxWireEntry where
  requestId : Be32
  opcode : Be16
  status : Be16
  flags : Be16
  payloadLen : Be16
  userCookie : Be32
  payload : Payload

/-- `zz9k_copy_payload_to_wire`: bytes past `length` keep what the slot held. -/
def copyPayloadToWire (dst src : Payload) (length : Nat) : Payload :=
  fun i => if i < length then src i else dst i

/-- `zz9k_entry_to_wire` -/
def entryToWire (wire : MailboxWireEntry) (entry : MailboxEntry) : MailboxWireEntry :=
  let payloadLen := if 48 < entry.payloadLen.toNat then 48 else entry.payloadLen.toNat
  { requestId := putBe32 entry.requestId
    opcode := putBe16 entry.opcode
    status := putBe16 entry.status
    flags := putBe16 entry.flags
    payloadLen := putBe16 entry.payloadLen
    userCookie := putBe32 entry.userCookie
    payload := copyPayloadToWire wire.payload entry.payload payloadLen }

/-- `zz9k_entry_from_wire` -/
def entryFromWire (wire : MailboxWireEntry) : MailboxEntry :=
  { requestId := getBe32 wire.requestId
    opcode := getBe16 wire.opcode
    status := getBe16 wire.status
    flags := getBe16 wire.flags
    payloadLen := getBe16 wire.payloadLen
    userCookie := getBe32 wire.userCookie
    payload := wire.payload }

/-- What an entry says: its header and as many payload bytes as it announces. -/
@[ext] structure Message where
  requestId : UInt32
  opcode : UInt16
  status : UInt16
  flags : UInt16
  payloadLen : UInt16
  userCookie : UInt32
  data : List UInt8
  deriving DecidableEq

def MailboxEntry.message (e : MailboxEntry) : Message :=
  ⟨e.requestId,e.opcode,e.status,e.flags,e.payloadLen,e.userCookie,
    (List.ofFn e.payload).take e.payloadLen.toNat⟩

/-- The big-endian word at byte `i` of a payload. -/
def Payload.be32 (p : Payload) (i : Nat) (hi : i+3 < 48 := by decide) : UInt32 :=
  getBe32 ⟨p ⟨i,by omega⟩,p ⟨i+1,by omega⟩,p ⟨i+2,by omega⟩,p ⟨i+3,hi⟩⟩

/-- The big-endian half word at byte `i` of a payload. -/
def Payload.be16 (p : Payload) (i : Nat) (hi : i+1 < 48 := by decide) : UInt16 :=
  getBe16 ⟨p ⟨i,by omega⟩,p ⟨i+1,hi⟩⟩

/-- The payload that starts with these words, big endian, and is zero after them. -/
def Payload.ofWords (ws : List UInt32) : Payload := fun i =>
  match ws[i.val/4]? with
  | none => 0
  | some w =>
    let b := putBe32 w
    match i.val%4 with
    | 0 => b.b0
    | 1 => b.b1
    | 2 => b.b2
    | _ => b.b3

theorem copyPayloadToWire_take (dst src : Payload) (m n : Nat) (h : min n 48 ≤ m) :
    (List.ofFn (copyPayloadToWire dst src m)).take n = (List.ofFn src).take n := by
  apply List.ext_getElem
  · simp
  · intro i hi _
    have hb : i < n ∧ i < 48 := by simpa using hi
    have hm : i < m := by omega
    simp only [List.getElem_take,List.getElem_ofFn,copyPayloadToWire,hm,if_true]

/-- What the other side decodes from a slot is what was written into it. -/
theorem message_entryToWire (wire : MailboxWireEntry) (e : MailboxEntry) :
    (entryFromWire (entryToWire wire e)).message = e.message := by
  simp only [MailboxEntry.message,entryFromWire,entryToWire,getBe32_putBe32,getBe16_putBe16]
  rw [copyPayloadToWire_take]
  split_ifs <;> omega

end ZZ9K.Abi
