import ZZ9K.Framework.Resumption
import ZZ9K.Framework.Fifo
import ZZ9K.Math.Window
import ZZ9K.Host.Context

namespace ZZ9K.Host

open ZZ9K.Abi ZZ9K.Framework ZZ9K.Math

/-- The shared memory: the four index words of `ZZ9KMailboxDescriptor` and the slots of both
rings. -/
structure Mailbox where
  requestHead : Be32 := putBe32 0
  requestTail : Be32 := putBe32 0
  completionHead : Be32 := putBe32 0
  completionTail : Be32 := putBe32 0
  requestRing : Nat → MailboxWireEntry
  completionRing : Nat → MailboxWireEntry

/-- What one call of `zz9k_enqueue_request_locked` hands back. -/
structure Enqueued where
  status : Status
  requestId : UInt32 := 0
  ctx : Context

/-- What one call of `zz9k_consume_next_completion_locked` hands back. -/
structure Consumed where
  status : Status
  reply : MailboxEntry

/-- A finished host operation, with how many entries were queued when it looked and how many
stores it made. -/
inductive Outcome
  | enqueue (request : MailboxEntry) (result : Enqueued) (seen stores : Nat)
  | consume (result : Consumed) (seen : Nat)

/-- The mailbox together with its history. Only `mailbox` is memory; the rest records what the
two sides did and is read by no program. -/
structure Link where
  mailbox : Mailbox
  enqueued : List Message := []
  fetched : List Message := []
  posted : List MailboxEntry := []
  returned : List MailboxEntry := []
  seen : Nat := 0
  stores : Nat := 0
  outcomes : List Outcome := []

/-- The messages in the request ring of `n` slots, oldest first. -/
def Mailbox.requests (n : UInt32) (m : Mailbox) : List Message :=
  window (fun i => (entryFromWire (m.requestRing i)).message) n.toNat
    (getBe32 m.requestHead).toNat (getBe32 m.requestTail).toNat

/-- The entries in the completion ring of `n` slots, oldest first. -/
def Mailbox.completions (n : UInt32) (m : Mailbox) : List MailboxEntry :=
  window (fun i => entryFromWire (m.completionRing i)) n.toNat
    (getBe32 m.completionHead).toNat (getBe32 m.completionTail).toNat

/-- `zz9k_enqueue_request_locked`, one memory access at a time -/
def enqueueRequestLocked (ctx : Context) (request : MailboxEntry) : Res Link Enqueued :=
  if 48 < request.payloadLen.toNat then .ret {status := .badRequest,ctx}
  else
    .step (fun s => {s with
        seen := (s.mailbox.requests ctx.requestRingEntries).length
        stores := 0}) fun s =>
    let head := getBe32 s.mailbox.requestHead
    Res.load (fun s => getBe32 s.mailbox.requestTail) >>= fun tail =>
    if ctx.requestRingEntries ≤ head ∨ ctx.requestRingEntries ≤ tail then
      .ret {status := .badRequest,ctx}
    else
      let nextTail := nextRingIndex tail ctx.requestRingEntries
      if nextTail = head then .ret {status := .busy,ctx}
      else
        let assigned := if request.requestId = 0 then contextNextRequestId ctx
          else (request.requestId,ctx)
        let entry := {request with requestId := assigned.1,status := statusQueued}
        Res.store (fun s => {s with
          mailbox := {s.mailbox with
            requestRing := Function.update s.mailbox.requestRing tail.toNat
              (entryToWire (s.mailbox.requestRing tail.toNat) entry)}
          stores := s.stores+1}) >>= fun _ =>
        Res.store (fun s => {s with
          mailbox := {s.mailbox with requestTail := putBe32 nextTail}
          stores := s.stores+1
          enqueued := s.enqueued++[entry.message]}) >>= fun _ =>
        .ret {status := .queued,requestId := assigned.1,ctx := assigned.2}

/-- `zz9k_consume_next_completion_locked`, one memory access at a time; `reply` keeps what the
caller had there unless a completion is taken. -/
def consumeNextCompletionLocked (ctx : Context) (reply : MailboxEntry) : Res Link Consumed :=
  Res.load (fun s => getBe32 s.mailbox.completionHead) >>= fun head =>
  .step (fun s => {s with
      seen := (s.mailbox.completions ctx.completionRingEntries).length}) fun s =>
  let tail := getBe32 s.mailbox.completionTail
  if ctx.completionRingEntries ≤ head ∨ ctx.completionRingEntries ≤ tail then
    .ret ⟨.badRequest,reply⟩
  else if head = tail then .ret ⟨.busy,reply⟩
  else
    Res.load (fun s => entryFromWire (s.mailbox.completionRing head.toNat)) >>= fun reply =>
    let nextHead := nextRingIndex head ctx.completionRingEntries
    Res.store (fun s => {s with
      mailbox := {s.mailbox with completionHead := putBe32 nextHead}
      returned := s.returned++[reply]}) >>= fun _ =>
    .ret ⟨.ok,reply⟩

/-- Firmware taking a request: it reads the entry at `request_head`, then moves the head on by
one modulo `n`. -/
def firmwareTake (n : UInt32) : Res Link (Option Message) :=
  Res.load (fun s => getBe32 s.mailbox.requestHead) >>= fun head =>
  Res.load (fun s => getBe32 s.mailbox.requestTail) >>= fun tail =>
  if head = tail then .ret none
  else
    Res.load (fun s => (entryFromWire (s.mailbox.requestRing head.toNat)).message) >>= fun msg =>
    Res.store (fun s => {s with
      mailbox := {s.mailbox with requestHead := putBe32 ((head+1) % n)}
      fetched := s.fetched++[msg]}) >>= fun _ =>
    .ret (some msg)

/-- Firmware posting a completion: it writes the entry at `completion_tail`, then moves the
tail on by one modulo `n`, unless the ring is full. -/
def firmwarePost (n : UInt32) (wire : MailboxWireEntry) : Res Link Bool :=
  Res.load (fun s => getBe32 s.mailbox.completionHead) >>= fun head =>
  Res.load (fun s => getBe32 s.mailbox.completionTail) >>= fun tail =>
  if (tail+1) % n = head then .ret false
  else
    Res.store (fun s => {s with
      mailbox := {s.mailbox with
        completionRing := Function.update s.mailbox.completionRing tail.toNat wire}}) >>= fun _ =>
    Res.store (fun s => {s with
      mailbox := {s.mailbox with completionTail := putBe32 ((tail+1) % n)}
      posted := s.posted++[entryFromWire wire]}) >>= fun _ =>
    .ret true

end ZZ9K.Host
