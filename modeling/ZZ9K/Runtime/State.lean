import ZZ9K.Framework.IntrusiveList
import ZZ9K.Host.Mailbox

namespace ZZ9K.Runtime

open ZZ9K.Abi ZZ9K.Host ZZ9K.Framework

/-- An address of the 32-bit machine; the null pointer is `none`. -/
abbrev AsyncPtr := Fin (2^32)

/-- Which user function a callback or event waiter pointer stands for. -/
abbrev CallbackId := Nat

/-- `ZZ9KAsyncRequest`; the default is the object zeroed by `memset`. -/
structure AsyncRequest where
  request : MailboxEntry := {}
  reply : MailboxEntry := {}
  requestId : UInt32 := 0
  status : Status := .ok
  completed : Bool := false
  queued : Bool := false
  callback : Option CallbackId := none
  userData : UInt32 := 0
  next : Option AsyncPtr := none

/-- `ZZ9KLibrary`; `attached` says whether its `ctx` is set. -/
structure Library where
  attached : Bool := false
  ownsContext : Bool := false
  pendingHead : Option AsyncPtr := none
  eventWaiter : Option CallbackId := none
  eventUserData : UInt32 := 0

/-- Who waits for the completion of a submission. -/
inductive Waiter
  | async
  | libraryCall
  | hostCall
  | batch
  deriving DecidableEq

/-- What a submission is recognised by. -/
structure Key where
  waiter : Waiter
  requestId : UInt32
  opcode : UInt16
  userCookie : UInt32
  deriving DecidableEq

/-- How an async request left the pending list: through a completion, the `serial`-th that was
taken from the ring, through `ZZ9KCancelAsync`, or through `ZZ9KClose`. -/
inductive Cause
  | reply (serial : Nat)
  | cancelled
  | closed
  deriving DecidableEq

/-- What happened to submissions, in order. A submission is named by its place among all
submissions to the mailbox; `pending` are those on the pending list at that moment, and
`after` is the object as it was left. -/
inductive Event
  | accepted (tag : Nat) (async : AsyncPtr) (callback : Option CallbackId)
  | took (serial : Nat) (reply : MailboxEntry) (pending : List Nat)
  | left (tag : Nat) (async : AsyncPtr) (after : AsyncRequest) (cause : Cause)
  | called (tag : Nat) (callback : CallbackId)
  | answered (tag : Nat) (serial : Nat) (reply : MailboxEntry)

/-- Where a client stands between two steps of one operation. -/
inductive Phase
  | idle
  | submitted (tag : Nat) (key : Key)
  | took (serial : Nat) (reply : MailboxEntry)

/-- One context and the library attached to it. `tagOf`, `calls` (the synchronous calls in
progress, innermost first), `phase` and `log` are history and are read by no program. -/
structure Client where
  ctx : Context
  library : Library := {}
  asyncs : AsyncPtr → AsyncRequest := fun _ => {}
  tagOf : AsyncPtr → Nat := fun _ => 0
  calls : List (Nat × Key) := []
  phase : Phase := .idle
  log : List Event := []

/-- What programs learn from outside: whether the mailbox semaphore exists, whether a clock can
be read and what it says, whether the last wait was ended by Ctrl-C, and the timeout in the
environment. -/
structure Inputs where
  semaphore : Bool := true
  clock : Bool := false
  nowMs : UInt32 := 0
  interrupted : Bool := false
  syncWaitTimeoutMs : UInt32 := 5000

/-- Any number of clients on one mailbox. `submitted` lists all submissions, `tags` says which
one each posted completion answers. -/
structure World (ι : Type) where
  link : Link
  clients : ι → Client
  inputs : Inputs := {}
  submitted : List (ι × Key) := []
  tags : List Nat := []

namespace Client

def next (c : Client) (p : AsyncPtr) : Option AsyncPtr := (c.asyncs p).next

/-- The pending list, as far as addresses go -/
def pending (c : Client) : List AsyncPtr := walk c.next (2^32) c.library.pendingHead

def pendingTags (c : Client) : List Nat := c.pending.map c.tagOf

def setAsync (c : Client) (p : AsyncPtr) (a : AsyncRequest) : Client :=
  {c with asyncs := Function.update c.asyncs p a}

def record (c : Client) (e : Event) : Client := {c with log := c.log++[e]}

end Client

namespace World

variable {ι : Type} [DecidableEq ι]

def setClient (w : World ι) (i : ι) (c : Client) : World ι :=
  {w with clients := Function.update w.clients i c}

@[simp] theorem setClient_self (w : World ι) (i : ι) (c : Client) :
    (w.setClient i c).clients i = c := Function.update_self _ _ _

theorem setClient_of_ne (w : World ι) {i j : ι} (c : Client) (h : j ≠ i) :
    (w.setClient i c).clients j = w.clients j := Function.update_of_ne h _ _

@[simp] theorem setClient_link (w : World ι) (i : ι) (c : Client) :
    (w.setClient i c).link = w.link := rfl

@[simp] theorem setClient_inputs (w : World ι) (i : ι) (c : Client) :
    (w.setClient i c).inputs = w.inputs := rfl

@[simp] theorem setClient_submitted (w : World ι) (i : ι) (c : Client) :
    (w.setClient i c).submitted = w.submitted := rfl

@[simp] theorem setClient_tags (w : World ι) (i : ι) (c : Client) :
    (w.setClient i c).tags = w.tags := rfl

end World

end ZZ9K.Runtime
