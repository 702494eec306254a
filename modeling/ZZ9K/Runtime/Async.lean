import ZZ9K.Host.CallProg
import ZZ9K.Runtime.HostCall

namespace ZZ9K.Runtime

open ZZ9K.Abi ZZ9K.Host ZZ9K.Framework

/-- `zz9k_find_pending`: the request with this id, after the one that links to it -/
def findPending (c : Client) (requestId : UInt32) : Option (Option AsyncPtr × AsyncPtr) :=
  search c.next (fun p => (c.asyncs p).requestId == requestId) (2^32) none c.library.pendingHead

/-- `*previous_next = async->next; async->next = 0` -/
def Client.unlink (c : Client) (prev : Option AsyncPtr) (p : AsyncPtr) : Client :=
  let following := (c.asyncs p).next
  let c := match prev with
    | none => {c with library := {c.library with pendingHead := following}}
    | some q => c.setAsync q {c.asyncs q with next := following}
  c.setAsync p {c.asyncs p with next := none}

section

variable (c : Client) (prev : Option AsyncPtr) (p : AsyncPtr)

@[simp] theorem unlink_ctx : (c.unlink prev p).ctx = c.ctx := by
  cases prev <;> rfl

@[simp] theorem unlink_tagOf : (c.unlink prev p).tagOf = c.tagOf := by
  cases prev <;> rfl

@[simp] theorem unlink_calls : (c.unlink prev p).calls = c.calls := by
  cases prev <;> rfl

@[simp] theorem unlink_phase : (c.unlink prev p).phase = c.phase := by
  cases prev <;> rfl

@[simp] theorem unlink_log : (c.unlink prev p).log = c.log := by
  cases prev <;> rfl

end

section

variable (c : Client) (prev : Option AsyncPtr) (p : AsyncPtr)

theorem setAsync_next (a : AsyncRequest) :
    (c.setAsync p a).next = Function.update c.next p a.next := by
  funext q
  by_cases hq : q = p
  · subst hq
    simp [Client.next,Client.setAsync]
  · simp [Client.next,Client.setAsync,hq]

theorem unlink_next : (c.unlink prev p).next = unlinkNext c.next prev p := by
  cases prev <;> simp only [Client.unlink,setAsync_next] <;> rfl

theorem unlink_pendingHead : (c.unlink prev p).library.pendingHead =
    unlinkHead c.next c.library.pendingHead prev p := by
  cases prev <;> rfl

theorem unlink_self : (c.unlink prev p).asyncs p = {c.asyncs p with next := none} := by
  cases prev with
  | none => simp [Client.unlink,Client.setAsync]
  | some q =>
    by_cases hq : p = q
    · subst hq
      simp [Client.unlink,Client.setAsync]
    · simp [Client.unlink,Client.setAsync,hq]

theorem unlink_others {q : AsyncPtr} (hq : q ≠ p) :
    ∃ next, (c.unlink prev p).asyncs q = {c.asyncs q with next} := by
  cases prev with
  | none => exact ⟨(c.asyncs q).next,by simp [Client.unlink,Client.setAsync,hq]⟩
  | some r =>
    by_cases hr : q = r
    · subst hr
      exact ⟨(c.asyncs p).next,by simp [Client.unlink,Client.setAsync,hq]⟩
    · exact ⟨(c.asyncs q).next,by simp [Client.unlink,Client.setAsync,hq,hr]⟩

end

/-- A request leaves the list with the fields `f` gives it; its callback, if it has one, is due
at once. -/
def Client.leave (c : Client) (prev : Option AsyncPtr) (p : AsyncPtr)
    (f : AsyncRequest → AsyncRequest) (cause : Cause) : Client :=
  let c := c.unlink prev p
  let after := f (c.asyncs p)
  let c := (c.setAsync p after).record (.left (c.tagOf p) p after cause)
  match after.callback with
  | none => c
  | some callback => c.record (.called (c.tagOf p) callback)

section

variable (c : Client) (prev : Option AsyncPtr) (p : AsyncPtr) (f : AsyncRequest → AsyncRequest)
  (cause : Cause)

@[simp] theorem leave_ctx : (c.leave prev p f cause).ctx = c.ctx := by
  unfold Client.leave
  dsimp only
  split <;> simp [Client.record,Client.setAsync]

@[simp] theorem leave_tagOf : (c.leave prev p f cause).tagOf = c.tagOf := by
  unfold Client.leave
  dsimp only
  split <;> simp [Client.record,Client.setAsync]

@[simp] theorem leave_calls : (c.leave prev p f cause).calls = c.calls := by
  unfold Client.leave
  dsimp only
  split <;> simp [Client.record,Client.setAsync]

@[simp] theorem leave_phase : (c.leave prev p f cause).phase = c.phase := by
  unfold Client.leave
  dsimp only
  split <;> simp [Client.record,Client.setAsync]

/-- What the log says when `p` leaves with these fields -/
def leftEvents (tag : Nat) (p : AsyncPtr) (after : AsyncRequest) (cause : Cause) : List Event :=
  .left tag p after cause ::
    match after.callback with
    | none => []
    | some callback => [.called tag callback]

theorem leave_log : (c.leave prev p f cause).log =
    c.log++leftEvents (c.tagOf p) p (f {c.asyncs p with next := none}) cause := by
  unfold Client.leave leftEvents
  simp only [unlink_self]
  cases hcb : (f {c.asyncs p with next := none}).callback <;>
    simp [Client.record,Client.setAsync]

theorem leave_asyncs : (c.leave prev p f cause).asyncs =
    Function.update (c.unlink prev p).asyncs p (f {c.asyncs p with next := none}) := by
  unfold Client.leave
  simp only [unlink_self]
  split <;> rfl

theorem leave_pendingHead : (c.leave prev p f cause).library.pendingHead =
    unlinkHead c.next c.library.pendingHead prev p := by
  rw [← unlink_pendingHead]
  unfold Client.leave
  dsimp only
  split <;> rfl

theorem leave_next (hf : ∀ a, (f a).next = a.next) :
    (c.leave prev p f cause).next = unlinkNext c.next prev p := by
  rw [← unlink_next]
  funext q
  by_cases hq : q = p
  · subst hq
    simp [Client.next,leave_asyncs,hf,unlink_self]
  · simp [Client.next,leave_asyncs,hq]

end

/-- The loop of `zz9k_cancel_pending`: no callback is invoked. -/
def cancelPendingLoop : Nat → Option AsyncPtr → Client → Client
  | 0,_,c => c
  | _+1,none,c => c
  | fuel+1,some p,c =>
      let after := {c.asyncs p with
        next := none,queued := false,completed := true,status := .cancelled}
      cancelPendingLoop fuel (c.asyncs p).next
        ((c.setAsync p after).record (.left (c.tagOf p) p after .closed))

/-- `zz9k_cancel_pending` -/
def cancelPending (c : Client) : Client :=
  cancelPendingLoop (2^32) c.library.pendingHead
    {c with library := {c.library with pendingHead := none}}

theorem cancelPendingLoop_ctx (fuel : Nat) (p : Option AsyncPtr) (c : Client) :
    (cancelPendingLoop fuel p c).ctx = c.ctx := by
  induction fuel generalizing p c with
  | zero => rfl
  | succ fuel ih =>
    cases p with
    | none => rfl
    | some p => exact ih _ _

/-- A callback that is due, with its arguments -/
structure Due where
  callback : CallbackId
  async : AsyncPtr
  userData : UInt32

/-- The user functions the library calls: `ZZ9KAsyncCallback` and `ZZ9KEventWaiter`. -/
structure Hooks (ι : Type) where
  callback : Due → Res (World ι) Unit
  waiter : CallbackId → UInt32 → Res (World ι) Status

section

variable {ι : Type} [DecidableEq ι]

def libraryStep (i : ι) (f : Library → Library) (w : World ι) : World ι :=
  w.setClient i {w.clients i with library := f (w.clients i).library}

/-- The object as `zz9k_dispatch_reply` completes it -/
def replied (reply : MailboxEntry) (a : AsyncRequest) : AsyncRequest :=
  {a with reply,status := .ofWord reply.status,queued := false,completed := true}

/-- The object as `ZZ9KCancelAsync` completes it -/
def cancelled (a : AsyncRequest) : AsyncRequest :=
  {a with
    queued := false
    completed := true
    status := .cancelled
    reply := {requestId := a.requestId,opcode := a.request.opcode,status := statusCancelled}}

/-- The part of `zz9k_dispatch_reply` before the callback -/
def dispatchStep (i : ι) (reply : MailboxEntry) (w : World ι) : Option Due × World ι :=
  let c := w.clients i
  match findPending c reply.requestId with
  | none => (none,discardStep i w)
  | some (prev,p) =>
      let serial := match c.phase with
        | .took serial _ => serial
        | _ => 0
      ((c.asyncs p).callback.map fun callback => ⟨callback,p,(c.asyncs p).userData⟩,
        w.setClient i {c.leave prev p (replied reply) (.reply serial) with phase := .idle})

/-- The part of `ZZ9KCancelAsync` before the callback -/
def cancelStep (i : ι) (async : AsyncPtr) (w : World ι) : (Status × Option Due) × World ι :=
  let c := w.clients i
  let a := c.asyncs async
  if c.library.attached = false ∨ a.queued = false then ((.badRequest,none),w)
  else match findPending c a.requestId with
    | none => ((.notFound,none),w)
    | some (prev,p) =>
        if p ≠ async then ((.notFound,none),w)
        else
          ((.ok,a.callback.map fun callback => ⟨callback,async,a.userData⟩),
            w.setClient i (c.leave prev async cancelled .cancelled))

/-- `ZZ9KClose` -/
def closeStep (i : ι) (w : World ι) : World ι :=
  w.setClient i {cancelPending (w.clients i) with library := {}}

/-- The object as `ZZ9KCallAsync` prepares it before submitting. -/
def prepared (request : MailboxEntry) (callback : Option CallbackId) (userData : UInt32) :
    AsyncRequest := {request,callback,userData,status := .queued}

def setAsyncStep (i : ι) (p : AsyncPtr) (a : AsyncRequest) (w : World ι) : World ι :=
  w.setClient i ((w.clients i).setAsync p a)

/-- The object as it enters a list that starts at `head`. -/
def linked (a : AsyncRequest) (requestId : UInt32) (head : Option AsyncPtr) : AsyncRequest :=
  {a with requestId,request := {a.request with requestId},queued := true,next := head}

/-- A submitted object enters the list at its head. -/
def insertStep (i : ι) (p : AsyncPtr) (requestId : UInt32) (w : World ι) : World ι :=
  let c := w.clients i
  let a := c.asyncs p
  let tag := match c.phase with
    | .submitted tag _ => tag
    | _ => 0
  let c := c.setAsync p (linked a requestId c.library.pendingHead)
  w.setClient i ({c with
    library := {c.library with pendingHead := some p}
    tagOf := Function.update c.tagOf p tag
    phase := .idle}.record (.accepted tag p a.callback))

/-- `ZZ9KCallAsync` -/
def callAsync (i : ι) (async : AsyncPtr) (request : MailboxEntry)
    (callback : Option CallbackId) (userData : UInt32) : Res (World ι) Status :=
  Res.load (fun w => ((w.clients i).library.attached,((w.clients i).asyncs async).queued)) >>=
    fun (attached,queued) =>
  if attached = false then .ret .badRequest
  else if queued then .ret .busy
  else
    Res.store (setAsyncStep i async (prepared request callback userData)) >>= fun _ =>
    submit i .async request >>= fun r =>
    if r.status ≠ .queued then
      Res.store (setAsyncStep i async {}) >>= fun _ => .ret r.status
    else Res.store (insertStep i async r.requestId) >>= fun _ => .ret .queued

/-- The loop of `ZZ9KCallAsyncBatch`, with how many objects it queued -/
def callAsyncBatchLoop (i : ι) (asyncs : Nat → AsyncPtr) (requests : Nat → MailboxEntry)
    (callback : Option CallbackId) (userData : UInt32) : Nat → Nat → Res (World ι) (Status × Nat)
  | 0,done => .ret (.queued,done)
  | n+1,done =>
      callAsync i (asyncs done) (requests done) callback userData >>= fun status =>
      if status ≠ .queued then .ret (if done ≠ 0 then .queued else status,done)
      else callAsyncBatchLoop i asyncs requests callback userData n (done+1)

/-- `ZZ9KCallAsyncBatch` -/
def callAsyncBatch (i : ι) (asyncs : Nat → AsyncPtr) (requests : Nat → MailboxEntry)
    (count : UInt32) (callback : Option CallbackId) (userData : UInt32) :
    Res (World ι) (Status × Nat) :=
  Res.load (fun w => (w.clients i).library.attached) >>= fun attached =>
  if attached = false ∨ count = 0 then .ret (.badRequest,0)
  else callAsyncBatchLoop i asyncs requests callback userData count.toNat 0

variable (h : Hooks ι)

def runDue : Option Due → Res (World ι) Unit
  | none => .ret ()
  | some due => h.callback due

/-- `zz9k_dispatch_reply` -/
def dispatchReply (i : ι) (reply : MailboxEntry) : Res (World ι) Status :=
  Res.atomic (dispatchStep i reply) >>= fun due => runDue h due >>= fun _ => .ret .ok

/-- `ZZ9KCancelAsync` -/
def cancelAsync (i : ι) (async : AsyncPtr) : Res (World ι) Status :=
  Res.atomic (cancelStep i async) >>= fun (status,due) => runDue h due >>= fun _ => .ret status

/-- `zz9k_poll` on the context of the library, which a callback may have taken away -/
def libraryPoll (i : ι) (reply : MailboxEntry) : Res (World ι) Consumed :=
  Res.load (fun w => (w.clients i).library.attached) >>= fun attached =>
  if attached then poll i reply else .ret ⟨.badRequest,reply⟩

/-- The loop of `ZZ9KPoll`, with how many completions it took -/
def pollLoop (i : ι) : Nat → Nat → Res (World ι) (Status × Nat)
  | 0,done => .ret (.ok,done)
  | n+1,done =>
      libraryPoll i {} >>= fun r =>
      if r.status = .busy then .ret (.ok,done)
      else if r.status ≠ .ok then .ret (r.status,done)
      else dispatchReply h i r.reply >>= fun _ => pollLoop i n (done+1)

/-- `ZZ9KPoll` -/
def libPoll (i : ι) (maxCompletions : UInt32) : Res (World ι) (Status × Nat) :=
  Res.load (fun w => (w.clients i).library.attached) >>= fun attached =>
  if attached then pollLoop h i maxCompletions.toNat 0 else .ret (.badRequest,0)

/-- The loop of `ZZ9KCall` -/
def libCallLoop (i : ι) (key : Key) : Nat → MailboxEntry → Res (World ι) (Status × MailboxEntry)
  | 0,reply => giveUp i .timeout reply
  | ticks+1,reply =>
      libraryPoll i reply >>= fun r =>
      if r.status = .busy then libCallLoop i key ticks r.reply
      else if r.status ≠ .ok then giveUp i r.status r.reply
      else if r.reply.requestId = key.requestId then
        Res.store (answerStep i) >>= fun _ => .ret (.ofWord r.reply.status,r.reply)
      else dispatchReply h i r.reply >>= fun _ => libCallLoop i key ticks r.reply

/-- `ZZ9KCall` -/
def libCall (i : ι) (request : MailboxEntry) (timeoutTicks : UInt32) (reply : MailboxEntry) :
    Res (World ι) (Status × MailboxEntry) :=
  Res.load (fun w => (w.clients i).library.attached) >>= fun attached =>
  if attached = false then .ret (.badRequest,reply)
  else
    submit i .libraryCall request >>= fun r =>
    if r.status ≠ .queued then .ret (r.status,reply)
    else libCallLoop h i ⟨.libraryCall,r.requestId,request.opcode,request.userCookie⟩
      timeoutTicks.toNat reply

/-- `zz9k_wait_for_transport_event` -/
def waitForTransportEvent (i : ι) : Res (World ι) Status :=
  Res.load (fun w => (w.clients i).library) >>= fun library =>
  match library.eventWaiter with
  | none => .ret .ok
  | some waiter => h.waiter waiter library.eventUserData

/-- What `ZZ9KWaitAsync` and `ZZ9KWaitAsyncBatch` report: how many polls they ran and, for a
batch, how many of its objects were completed when they last looked. -/
structure Waited where
  status : Status
  polls : Nat := 0
  completed : Nat := 0

/-- The polling loop of `ZZ9KWaitAsync` and `ZZ9KWaitAsyncBatch`: after every poll `check` counts
the completed objects and decides whether to stop. -/
def waitLoop (i : ι) (check : Client → Option Status × Nat) : Nat → Waited → Res (World ι) Waited
  | 0,out => .ret {out with status := .timeout}
  | n+1,out =>
      libPoll h i 1 >>= fun (status,completed) =>
      if status ≠ .ok then .ret {out with status}
      else
        Res.load (fun w => check (w.clients i)) >>= fun (stop,done) =>
        let out := {out with polls := out.polls+1,completed := done}
        match stop with
        | some status => .ret {out with status}
        | none =>
            if completed = 0 ∧ n ≠ 0 then
              waitForTransportEvent h i >>= fun status =>
              if status ≠ .ok then .ret {out with status} else waitLoop i check n out
            else waitLoop i check n out

/-- The tests of `ZZ9KWaitAsync` on its object -/
def asyncWaited (async : AsyncPtr) (c : Client) : Option Status × Nat :=
  let a := c.asyncs async
  (if a.completed then some a.status else if a.queued then none else some .badRequest,0)

/-- `ZZ9KWaitAsync` -/
def waitAsync (i : ι) (async : AsyncPtr) (timeoutPolls : UInt32) : Res (World ι) Waited :=
  Res.load (fun w => w.clients i) >>= fun c =>
  if c.library.attached = false then .ret {status := .badRequest}
  else match (asyncWaited async c).1 with
    | some status => .ret {status}
    | none => waitLoop h i (asyncWaited async) timeoutPolls.toNat {status := .timeout}

/-- `zz9k_count_batch_completed` -/
def countBatchCompleted (c : Client) (asyncs : Nat → AsyncPtr) (count : Nat) : Nat :=
  (List.range count).countP fun k => (c.asyncs (asyncs k)).completed

/-- `zz9k_batch_waitable` -/
def batchWaitable (c : Client) (asyncs : Nat → AsyncPtr) (count : Nat) : Bool :=
  (List.range count).all fun k =>
    (c.asyncs (asyncs k)).completed || (c.asyncs (asyncs k)).queued

/-- The tests of `ZZ9KWaitAsyncBatch` on its objects -/
def batchWaited (asyncs : Nat → AsyncPtr) (count : Nat) (c : Client) : Option Status × Nat :=
  let done := countBatchCompleted c asyncs count
  (if done = count then some .ok
    else if batchWaitable c asyncs count then none else some .badRequest,done)

/-- `ZZ9KWaitAsyncBatch` -/
def waitAsyncBatch (i : ι) (asyncs : Nat → AsyncPtr) (count timeoutPolls : UInt32) :
    Res (World ι) Waited :=
  Res.load (fun w => w.clients i) >>= fun c =>
  if c.library.attached = false ∨ count = 0 then .ret {status := .badRequest}
  else if batchWaitable c asyncs count.toNat = false then .ret {status := .badRequest}
  else match batchWaited asyncs count.toNat c with
    | (some status,completed) => .ret {status,completed}
    | (none,completed) => waitLoop h i (batchWaited asyncs count.toNat) timeoutPolls.toNat
        {status := .timeout,completed}

end

end ZZ9K.Runtime
