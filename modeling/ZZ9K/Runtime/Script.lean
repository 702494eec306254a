import ZZ9K.Runtime.Async

namespace ZZ9K.Runtime

open ZZ9K.Abi ZZ9K.Host ZZ9K.Framework

/-- The operations of the library and of `zz9k_call` below it. `typed` is any entry point that
goes through `zz9k_call`; `look` reads an object. -/
inductive Op
  | callAsync (async : AsyncPtr) (request : MailboxEntry) (callback : Option CallbackId)
      (userData : UInt32)
  | callAsyncBatch (asyncs : Nat → AsyncPtr) (requests : Nat → MailboxEntry) (count : UInt32)
      (callback : Option CallbackId) (userData : UInt32)
  | cancelAsync (async : AsyncPtr)
  | waitAsync (async : AsyncPtr) (timeoutPolls : UInt32)
  | waitAsyncBatch (asyncs : Nat → AsyncPtr) (count timeoutPolls : UInt32)
  | poll (maxCompletions : UInt32)
  | call (request : MailboxEntry) (timeoutTicks : UInt32)
  | hostCall (request : MailboxEntry) (timeoutTicks : UInt32)
  | typed (p : CallProg Status)
  | close
  | attachContext (takeOwnership : Bool)
  | setEventWaiter (waiter : Option CallbackId) (userData : UInt32)
  | look (async : AsyncPtr)

/-- What an operation tells its caller -/
structure Result where
  status : Status
  reply : MailboxEntry := {}
  request : MailboxEntry := {}
  count : Nat := 0
  polls : Nat := 0
  async : AsyncRequest := {}

/-- A user function: it performs operations, each chosen from what the earlier ones told it, and
returns a status. -/
inductive Script
  | done (status : Status)
  | op (o : Op) (k : Result → Script)

/-- The user functions behind the callback and event waiter pointers -/
structure Scripts where
  callback : Due → Script
  waiter : CallbackId → UInt32 → Script

section

variable {ι : Type} [DecidableEq ι]

/-- A typed entry point, run on the context of client `i` -/
def runCallProg (pf : Platform) (i : ι) {α : Type} : CallProg α → Res (World ι) α
  | .ret a => .ret a
  | .call request ticks k =>
      hostCall pf i request ticks {} >>= fun r => runCallProg pf i (k r.status r.reply)
  | .look k => Res.load (fun w => (w.clients i).ctx) >>= fun ctx => runCallProg pf i (k ctx)
  | .remember capabilityBits apertureLayout apertureLayoutValid k =>
      Res.store (contextStep i fun ctx =>
        {ctx with capabilityBits,apertureLayout,apertureLayoutValid}) >>= fun _ =>
      runCallProg pf i k

def runOp (pf : Platform) (h : Hooks ι) (i : ι) : Op → Res (World ι) Result
  | .callAsync async request callback userData =>
      callAsync i async request callback userData >>= fun status => .ret {status}
  | .callAsyncBatch asyncs requests count callback userData =>
      callAsyncBatch i asyncs requests count callback userData >>= fun (status,count) =>
      .ret {status,count}
  | .cancelAsync async => cancelAsync h i async >>= fun status => .ret {status}
  | .waitAsync async timeoutPolls =>
      waitAsync h i async timeoutPolls >>= fun r => .ret {status := r.status,polls := r.polls}
  | .waitAsyncBatch asyncs count timeoutPolls =>
      waitAsyncBatch h i asyncs count timeoutPolls >>= fun r =>
      .ret {status := r.status,count := r.completed,polls := r.polls}
  | .poll maxCompletions => libPoll h i maxCompletions >>= fun (status,count) =>
      .ret {status,count}
  | .call request timeoutTicks => libCall h i request timeoutTicks {} >>= fun (status,reply) =>
      .ret {status,reply}
  | .hostCall request timeoutTicks => hostCall pf i request timeoutTicks {} >>= fun r =>
      .ret {status := r.status,reply := r.reply,request := r.request}
  | .typed p =>
      Res.load (fun w => (w.clients i).library.attached) >>= fun attached =>
      if attached then runCallProg pf i p >>= fun status => .ret {status}
      else .ret {status := .badRequest}
  | .close => Res.store (closeStep i) >>= fun _ => .ret {status := .ok}
  | .attachContext takeOwnership =>
      Res.store (closeStep i) >>= fun _ =>
      Res.store (libraryStep i fun l => {l with attached := true,ownsContext := takeOwnership}) >>=
        fun _ => .ret {status := .ok}
  | .setEventWaiter waiter userData =>
      Res.store (libraryStep i fun l => {l with eventWaiter := waiter,eventUserData := userData})
        >>= fun _ => .ret {status := .ok}
  | .look async =>
      Res.load (fun w => (w.clients i).asyncs async) >>= fun a => .ret {status := .ok,async := a}

def runScript (pf : Platform) (h : Hooks ι) (i : ι) : Script → Res (World ι) Status
  | .done status => .ret status
  | .op o k => runOp pf h i o >>= fun r => runScript pf h i (k r)

/-- The user functions, where callbacks may nest `depth` deep: deeper ones return at once. -/
def hooks (pf : Platform) (scripts : Scripts) (i : ι) : Nat → Hooks ι
  | 0 => ⟨fun _ => .ret (),fun _ _ => .ret .ok⟩
  | depth+1 =>
      ⟨fun due => runScript pf (hooks pf scripts i depth) i (scripts.callback due) >>= fun _ =>
        .ret (),
       fun waiter userData =>
        runScript pf (hooks pf scripts i depth) i (scripts.waiter waiter userData)⟩

/-- One operation as a client performs it -/
def operation (pf : Platform) (scripts : Scripts) (depth : Nat) (i : ι) (o : Op) :
    Res (World ι) Unit :=
  runOp pf (hooks pf scripts i depth) i o >>= fun _ => .ret ()

end

/-- Clients perform the operations that `allowed` admits, with any user functions, while the
surroundings move as `env` says. -/
def clientSystem (ι : Type) [DecidableEq ι] (allowed : Op → Prop)
    (env : World ι → World ι → Prop) : System ι (World ι) where
  ops i p := ∃ pf scripts depth o, allowed o ∧ p = operation pf scripts depth i o
  env := env
  halts _ := False

/-- The request object of the runs on fixed inputs -/
def onlyAsync : AsyncPtr := 7

end ZZ9K.Runtime
