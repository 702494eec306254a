import ZZ9K.Runtime.State

namespace ZZ9K.Runtime

open ZZ9K.Abi ZZ9K.Host ZZ9K.Framework

/-- How a reply is recognised: `ZZ9KCall` and the dispatcher look at the id alone, `zz9k_call` at
id, opcode and cookie. -/
def Key.accepts (k : Key) (requestId : UInt32) (opcode : UInt16) (userCookie : UInt32) : Prop :=
  requestId = k.requestId ∧
    (k.waiter = .hostCall → opcode = k.opcode ∧ userCookie = k.userCookie)

instance (k : Key) (requestId : UInt32) (opcode : UInt16) (userCookie : UInt32) :
    Decidable (k.accepts requestId opcode userCookie) := by
  unfold Key.accepts
  infer_instance

/-- A submission has entered the ring: an async object is linked next, a synchronous call waits
from now on. -/
def Client.begin (c : Client) (tag : Nat) (key : Key) : Client :=
  match key.waiter with
  | .async => {c with phase := .submitted tag key}
  | .libraryCall | .hostCall => {c with calls := (tag,key) :: c.calls}
  | .batch => c

section

variable {ι : Type} [DecidableEq ι]

/-- `zz9k_enqueue_request_locked` under the mailbox lock, with the context as `ctx` -/
def submitStep (i : ι) (waiter : Waiter) (ctx : Context) (request : MailboxEntry)
    (w : World ι) : Enqueued × World ι :=
  let r := (enqueueRequestLocked ctx request).run w.link
  let client := {w.clients i with ctx := r.1.ctx}
  if r.1.status = .queued then
    let key := ⟨waiter,r.1.requestId,request.opcode,request.userCookie⟩
    (r.1,{ w.setClient i (client.begin w.submitted.length key) with
      link := r.2
      submitted := w.submitted++[(i,key)] })
  else (r.1,{w.setClient i client with link := r.2})

/-- `zz9k_consume_next_completion_locked` under the mailbox lock -/
def takeStep (i : ι) (reply : MailboxEntry) (w : World ι) : Consumed × World ι :=
  let client := w.clients i
  let r := (consumeNextCompletionLocked client.ctx reply).run w.link
  if r.1.status = .ok then
    let serial := w.link.returned.length
    (r.1,{ w.setClient i {client with
        phase := .took serial r.1.reply
        log := client.log++[.took serial r.1.reply client.pendingTags]} with
      link := r.2 })
  else (r.1,{w with link := r.2})

section

variable (i : ι) (waiter : Waiter) (ctx : Context) (request : MailboxEntry) (w : World ι)

theorem submitStep_fst : (submitStep i waiter ctx request w).1 =
    ((enqueueRequestLocked ctx request).run w.link).1 := by
  unfold submitStep
  dsimp only
  split_ifs <;> rfl

theorem submitStep_refused
    (h : ((enqueueRequestLocked ctx request).run w.link).1.status ≠ .queued) :
    (submitStep i waiter ctx request w).2 =
      { w.setClient i {w.clients i with
          ctx := ((enqueueRequestLocked ctx request).run w.link).1.ctx} with
        link := ((enqueueRequestLocked ctx request).run w.link).2 } := by
  simp only [submitStep,if_neg h]

/-- The key a submission is recognised by -/
def submittedKey : Key :=
  ⟨waiter,((enqueueRequestLocked ctx request).run w.link).1.requestId,request.opcode,
    request.userCookie⟩

theorem submitStep_queued
    (h : ((enqueueRequestLocked ctx request).run w.link).1.status = .queued) :
    (submitStep i waiter ctx request w).2 =
      { w.setClient i (Client.begin {w.clients i with
          ctx := ((enqueueRequestLocked ctx request).run w.link).1.ctx} w.submitted.length
          (submittedKey waiter ctx request w)) with
        link := ((enqueueRequestLocked ctx request).run w.link).2
        submitted := w.submitted++[(i,submittedKey waiter ctx request w)] } := by
  simp only [submitStep,if_pos h]
  rfl

variable (reply : MailboxEntry)

theorem takeStep_fst : (takeStep i reply w).1 =
    ((consumeNextCompletionLocked (w.clients i).ctx reply).run w.link).1 := by
  unfold takeStep
  dsimp only
  split_ifs <;> rfl

theorem takeStep_none
    (h : ((consumeNextCompletionLocked (w.clients i).ctx reply).run w.link).1.status ≠ .ok) :
    (takeStep i reply w).2 =
      {w with link := ((consumeNextCompletionLocked (w.clients i).ctx reply).run w.link).2} := by
  simp only [takeStep,if_neg h]

theorem takeStep_ok
    (h : ((consumeNextCompletionLocked (w.clients i).ctx reply).run w.link).1.status = .ok) :
    (takeStep i reply w).2 =
      { w.setClient i {w.clients i with
          phase := .took w.link.returned.length (takeStep i reply w).1.reply
          log := (w.clients i).log++[.took w.link.returned.length (takeStep i reply w).1.reply
            (w.clients i).pendingTags]} with
        link := ((consumeNextCompletionLocked (w.clients i).ctx reply).run w.link).2 } := by
  rw [takeStep_fst]
  simp only [takeStep,if_pos h]

theorem takeStep_client
    (h : ((consumeNextCompletionLocked (w.clients i).ctx reply).run w.link).1.status = .ok) :
    (takeStep i reply w).2.clients i = {w.clients i with
      phase := .took w.link.returned.length (takeStep i reply w).1.reply
      log := (w.clients i).log++[.took w.link.returned.length (takeStep i reply w).1.reply
        (w.clients i).pendingTags]} := by
  have hworld := congrArg (fun t => t.clients i) (takeStep_ok i w reply h)
  exact hworld.trans (World.setClient_self ..)

end

/-- `zz9k_submit` -/
def submit (i : ι) (waiter : Waiter) (request : MailboxEntry) : Res (World ι) Enqueued :=
  Res.load (fun w => (w.inputs.semaphore,(w.clients i).ctx)) >>= fun (semaphore,ctx) =>
  if semaphore then
    Res.atomic fun w => submitStep i waiter (w.clients i).ctx request w
  else .ret {status := .noMemory,ctx}

/-- `zz9k_poll` -/
def poll (i : ι) (reply : MailboxEntry) : Res (World ι) Consumed :=
  Res.load (fun w => w.inputs.semaphore) >>= fun semaphore =>
  if semaphore then Res.atomic (takeStep i reply) else .ret ⟨.noMemory,reply⟩

/-- The completion in hand is nobody's. -/
def discardStep (i : ι) (w : World ι) : World ι :=
  w.setClient i {w.clients i with phase := .idle}

/-- The completion in hand is returned by the innermost call. -/
def answerStep (i : ι) (w : World ι) : World ι :=
  let c := w.clients i
  match c.phase,c.calls with
  | .took serial reply,(tag,_) :: calls => w.setClient i {c with
      phase := .idle
      calls
      log := c.log++[.answered tag serial reply]}
  | _,_ => w

theorem answerStep_eq {i : ι} {w : World ι} {serial : Nat} {reply : MailboxEntry}
    {f : Nat × Key} {calls : List (Nat × Key)} (hp : (w.clients i).phase = .took serial reply)
    (hc : (w.clients i).calls = f :: calls) :
    answerStep i w = w.setClient i {w.clients i with
      phase := .idle
      calls
      log := (w.clients i).log++[.answered f.1 serial reply]} := by
  simp only [answerStep,hp,hc]

/-- The innermost call returns without a reply. -/
def giveUpStep (i : ι) (w : World ι) : World ι :=
  w.setClient i {w.clients i with calls := (w.clients i).calls.tail}

def contextStep (i : ι) (f : Context → Context) (w : World ι) : World ι :=
  w.setClient i {w.clients i with ctx := f (w.clients i).ctx}

end

end ZZ9K.Runtime
