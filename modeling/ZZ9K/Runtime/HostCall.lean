import ZZ9K.Runtime.Transport

namespace ZZ9K.Runtime

open ZZ9K.Abi ZZ9K.Host ZZ9K.Framework

/-- The build: `amiga` is `ZZ9K_HOST_AMIGA`; `rounds` bounds how often the unbounded wait for an
interrupt goes round before the model gives the call up as timed out. -/
structure Platform where
  amiga : Bool
  rounds : Nat

/-- What `zz9k_call` leaves behind: the request with its id and cookie, and the reply. -/
structure CallResult where
  status : Status
  request : MailboxEntry
  reply : MailboxEntry

/-- `ZZ9K_OFFLOAD_ITER_BACKSTOP` -/
def offloadIterBackstop : Nat := 1000000

/-- The request as `zz9k_call` enqueues it, and the context after numbering it -/
def callRequest (ctx : Context) (request : MailboxEntry) : MailboxEntry × Context :=
  let named := if request.requestId = 0 then contextNextRequestId ctx
    else (request.requestId,ctx)
  ({request with requestId := named.1,userCookie := named.1 ^^^ ctx.syncCookieMask},named.2)

section

variable {ι : Type} [DecidableEq ι]

def callSubmitStep (i : ι) (request : MailboxEntry) (w : World ι) :
    (Enqueued × MailboxEntry) × World ι :=
  let named := callRequest (w.clients i).ctx request
  let r := submitStep i .hostCall named.2 named.1 w
  ((r.1,named.1),r.2)

/-- `zz9k_armed_wait_timeout_ms` -/
def armedWaitTimeoutMs (i : ι) : Res (World ι) UInt32 :=
  Res.atomic fun w =>
    let ctx := (w.clients i).ctx
    if ctx.offloadTimeoutMs ≠ 0 then (ctx.offloadTimeoutMs,w)
    else if ctx.syncWaitTimeoutMs = 0 then
      (w.inputs.syncWaitTimeoutMs,
        contextStep i (fun ctx => {ctx with syncWaitTimeoutMs := w.inputs.syncWaitTimeoutMs}) w)
    else (ctx.syncWaitTimeoutMs,w)

/-- The innermost call returns `status` without a reply. -/
def giveUp (i : ι) (status : Status) (reply : MailboxEntry) :
    Res (World ι) (Status × MailboxEntry) :=
  Res.store (giveUpStep i) >>= fun _ => .ret (status,reply)

def nowMs : Res (World ι) UInt32 := Res.load fun w => w.inputs.nowMs

/-- The bounded drain after Ctrl-C, while the request is still in flight -/
def drain (i : ι) (key : Key) (start : UInt32) : Nat → MailboxEntry →
    Res (World ι) (Status × MailboxEntry)
  | 0,reply =>
      Res.store (contextStep i fun ctx => {ctx with lateIrqExpected := true}) >>= fun _ =>
      giveUp i .cancelled reply
  | polls+1,reply =>
      let again := fun reply =>
        nowMs >>= fun now =>
        if 2000 ≤ now-start then
          Res.store (contextStep i fun ctx => {ctx with lateIrqExpected := true}) >>= fun _ =>
          giveUp i .cancelled reply
        else drain i key start polls reply
      Res.atomic (takeStep i reply) >>= fun r =>
      if r.status = .ok then
        if key.accepts r.reply.requestId r.reply.opcode r.reply.userCookie then
          Res.store (answerStep i) >>= fun _ =>
          Res.store (contextStep i fun ctx => {ctx with lateIrqExpected := false}) >>= fun _ =>
          .ret (.cancelled,r.reply)
        else Res.store (discardStep i) >>= fun _ => again r.reply
      else if r.status = .busy then again r.reply
      else giveUp i .cancelled r.reply

/-- `zz9k_await_completion_locked` -/
def awaitCompletionLocked (pf : Platform) (i : ι) (key : Key) (hardTimeoutMs start : UInt32) :
    Nat → MailboxEntry → Res (World ι) (Status × MailboxEntry)
  | 0,reply => giveUp i .timeout reply
  | rounds+1,reply =>
      Res.atomic (takeStep i reply) >>= fun r =>
      if r.status = .ok then
        if key.accepts r.reply.requestId r.reply.opcode r.reply.userCookie then
          Res.store (answerStep i) >>= fun _ => .ret (.ofWord r.reply.status,r.reply)
        else
          Res.store (discardStep i) >>= fun _ =>
          awaitCompletionLocked pf i key hardTimeoutMs start rounds r.reply
      else if r.status ≠ .busy then giveUp i r.status r.reply
      else
        Res.load (fun w => w.inputs.interrupted) >>= fun interrupted =>
        if interrupted then
          if pf.amiga then nowMs >>= fun drainStart => drain i key drainStart 4000001 r.reply
          else giveUp i .cancelled r.reply
        else
          nowMs >>= fun now =>
          if hardTimeoutMs ≤ now-start then giveUp i .timeout r.reply
          else awaitCompletionLocked pf i key hardTimeoutMs start rounds r.reply

/-- The busy-poll loop of `zz9k_call`: `wallClock` is the start and the budget where a clock
bounds the wait, and the ticks count rounds where none does. Either bound is met before the
`fuel` of 2^32 rounds is used up. -/
def callLoop (i : ι) (key : Key) (wallClock : Option (UInt32 × UInt32)) (timeoutTicks : UInt32) :
    Nat → Nat → MailboxEntry → Res (World ι) (Status × MailboxEntry)
  | 0,_,reply => giveUp i .timeout reply
  | fuel+1,ticks,reply =>
      let again := fun reply =>
        match wallClock with
        | some (start,budget) =>
            nowMs >>= fun now =>
            if budget ≤ now-start ∨ offloadIterBackstop ≤ ticks then giveUp i .timeout reply
            else callLoop i key wallClock timeoutTicks fuel (ticks+1) reply
        | none =>
            if timeoutTicks.toNat ≤ ticks+1 then giveUp i .timeout reply
            else callLoop i key wallClock timeoutTicks fuel (ticks+1) reply
      Res.atomic (takeStep i reply) >>= fun r =>
      if r.status = .ok then
        if key.accepts r.reply.requestId r.reply.opcode r.reply.userCookie then
          Res.store (answerStep i) >>= fun _ => .ret (.ofWord r.reply.status,r.reply)
        else Res.store (discardStep i) >>= fun _ => again r.reply
      else if r.status ≠ .busy then giveUp i r.status r.reply
      else again r.reply

/-- `zz9k_call` -/
def hostCall (pf : Platform) (i : ι) (request : MailboxEntry) (timeoutTicks : UInt32)
    (reply : MailboxEntry) : Res (World ι) CallResult :=
  Res.load (fun w => w.inputs.semaphore) >>= fun semaphore =>
  if semaphore then
    Res.atomic (callSubmitStep i request) >>= fun (r,request) =>
    if r.status ≠ .queued then .ret ⟨r.status,request,reply⟩
    else
      let key := ⟨.hostCall,r.requestId,request.opcode,request.userCookie⟩
      Res.load (fun w => ((w.clients i).ctx,w.inputs)) >>= fun (ctx,inputs) =>
      (if ctx.irqArmed then
        armedWaitTimeoutMs i >>= fun hardTimeoutMs =>
        nowMs >>= fun start =>
        awaitCompletionLocked pf i key hardTimeoutMs start pf.rounds reply
      else
        let wallClock := if ctx.offloadTimeoutMs ≠ 0 ∧ inputs.clock then
          some (inputs.nowMs,ctx.offloadTimeoutMs) else none
        if wallClock = none ∧ timeoutTicks = 0 then giveUp i .timeout reply
        else callLoop i key wallClock timeoutTicks (2^32) 0 reply) >>= fun (status,reply) =>
      .ret ⟨status,request,reply⟩
  else .ret ⟨.noMemory,request,reply⟩

end

end ZZ9K.Runtime
