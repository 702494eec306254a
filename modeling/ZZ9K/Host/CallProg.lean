import ZZ9K.Host.Context

namespace ZZ9K.Host

open ZZ9K.Abi

/-- A typed entry point of the host library, by what it does to the outside: it goes through
`zz9k_call`, reads its context, and replaces what the context remembers of the board. -/
inductive CallProg (α : Type) : Type
  | ret (a : α)
  | call (request : MailboxEntry) (timeoutTicks : UInt32)
      (k : Status → MailboxEntry → CallProg α)
  | look (k : Context → CallProg α)
  | remember (capabilityBits : UInt32) (layout : ApertureLayout) (valid : Bool) (k : CallProg α)

namespace CallProg

variable {α β : Type}

def bind : CallProg α → (α → CallProg β) → CallProg β
  | ret a,f => f a
  | call request ticks k,f => call request ticks fun status reply => (k status reply).bind f
  | look k,f => look fun ctx => (k ctx).bind f
  | remember bits layout valid k,f => remember bits layout valid (k.bind f)

instance : Monad CallProg where
  pure := ret
  bind := bind

@[simp] theorem pure_eq (a : α) : (pure a : CallProg α) = ret a := rfl

@[simp] theorem ret_bind (a : α) (f : α → CallProg β) : (ret a >>= f) = f a := rfl

@[simp] theorem call_bind (request : MailboxEntry) (ticks : UInt32)
    (k : Status → MailboxEntry → CallProg α) (f : α → CallProg β) :
    (call request ticks k >>= f) = call request ticks fun status reply => k status reply >>= f :=
  rfl

@[simp] theorem look_bind (k : Context → CallProg α) (f : α → CallProg β) :
    (look k >>= f) = look fun ctx => k ctx >>= f := rfl

@[simp] theorem remember_bind (bits : UInt32) (layout : ApertureLayout) (valid : Bool)
    (k : CallProg α) (f : α → CallProg β) :
    (remember bits layout valid k >>= f) = remember bits layout valid (k >>= f) := rfl

end CallProg

/-- What a typed entry point can know of its context -/
def Context.known (ctx : Context) : Board × UInt32 × ApertureLayout × Bool :=
  (ctx.board,ctx.capabilityBits,ctx.apertureLayout,ctx.apertureLayoutValid)

/-- One request given to `zz9k_call` and what came back; `recognised` says whether `reply` is the
completion it took for the request's own. -/
structure Exchange where
  request : MailboxEntry
  status : Status
  reply : MailboxEntry
  recognised : Bool
  deriving DecidableEq

/-- The ways `zz9k_call` can come back: with a completion under its opcode and that completion's
status, with such a completion met only while draining after Ctrl-C, or without one. -/
inductive Exchange.Genuine : Exchange → Prop
  | answered (request reply : MailboxEntry) (h : reply.opcode = request.opcode) :
      Genuine ⟨request,.ofWord reply.status,reply,true⟩
  | interrupted (request reply : MailboxEntry) (h : reply.opcode = request.opcode) :
      Genuine ⟨request,.cancelled,reply,true⟩
  | failed (request reply : MailboxEntry) (status : Status) (h : status ≠ .ok) :
      Genuine ⟨request,status,reply,false⟩

/-- An entry point finishes with `a` after these exchanges, whatever firmware answers. -/
inductive CallProg.Runs {α : Type} : Context → CallProg α → List Exchange → Context → α → Prop
  | ret (ctx : Context) (a : α) : Runs ctx (.ret a) [] ctx a
  | call {ctx ctx' ctx'' : Context} {x : Exchange} {ticks : UInt32}
      {k : Status → MailboxEntry → CallProg α} {log : List Exchange} {a : α} (hx : x.Genuine)
      (hc : ctx'.known = ctx.known) (h : Runs ctx' (k x.status x.reply) log ctx'' a) :
      Runs ctx (.call x.request ticks k) (x :: log) ctx'' a
  | look {ctx ctx' : Context} {k : Context → CallProg α} {log : List Exchange} {a : α}
      (h : Runs ctx (k ctx) log ctx' a) : Runs ctx (.look k) log ctx' a
  | remember {ctx ctx' : Context} {capabilityBits : UInt32} {apertureLayout : ApertureLayout}
      {apertureLayoutValid : Bool} {k : CallProg α} {log : List Exchange} {a : α}
      (h : Runs {ctx with capabilityBits,apertureLayout,apertureLayoutValid} k log ctx' a) :
      Runs ctx (.remember capabilityBits apertureLayout apertureLayoutValid k) log ctx' a

namespace CallProg

variable {α β : Type} {ctx ctx' : Context} {log : List Exchange}

theorem runs_ret {a b : α} : Runs ctx (.ret a) log ctx' b ↔ log = [] ∧ ctx' = ctx ∧ b = a := by
  constructor
  · rintro ⟨⟩
    exact ⟨rfl,rfl,rfl⟩
  · rintro ⟨rfl,rfl,rfl⟩
    exact .ret _ _

theorem runs_look {k : Context → CallProg α} {a : α} :
    Runs ctx (.look k) log ctx' a ↔ Runs ctx (k ctx) log ctx' a := by
  constructor
  · rintro ⟨⟩
    assumption
  · exact .look

theorem runs_remember {bits : UInt32} {layout : ApertureLayout} {valid : Bool} {k : CallProg α}
    {a : α} : Runs ctx (.remember bits layout valid k) log ctx' a ↔
      Runs {ctx with
        capabilityBits := bits,apertureLayout := layout,apertureLayoutValid := valid}
        k log ctx' a := by
  constructor
  · rintro ⟨⟩
    assumption
  · exact .remember

theorem runs_call {request : MailboxEntry} {ticks : UInt32}
    {k : Status → MailboxEntry → CallProg α} {a : α} :
    Runs ctx (.call request ticks k) log ctx' a ↔ ∃ x ctx₁ rest, x.request = request ∧ x.Genuine ∧
      ctx₁.known = ctx.known ∧ log = x :: rest ∧ Runs ctx₁ (k x.status x.reply) rest ctx' a := by
  constructor
  · rintro ⟨⟩
    exact ⟨_,_,_,rfl,‹_›,‹_›,rfl,‹_›⟩
  · rintro ⟨x,ctx₁,rest,rfl,hx,hc,rfl,h⟩
    exact .call hx hc h

/-- A program in sequence runs in sequence. -/
theorem runs_bind {p : CallProg α} {f : α → CallProg β} {b : β} :
    Runs ctx (p >>= f) log ctx' b ↔ ∃ a ctx₁ log₁ log₂, Runs ctx p log₁ ctx₁ a ∧
      Runs ctx₁ (f a) log₂ ctx' b ∧ log = log₁++log₂ := by
  induction p generalizing ctx log with
  | ret a =>
    simp only [ret_bind,runs_ret]
    constructor
    · exact fun h => ⟨a,ctx,[],log,⟨rfl,rfl,rfl⟩,h,rfl⟩
    · rintro ⟨_,_,_,_,⟨rfl,rfl,rfl⟩,h,rfl⟩
      exact h
  | call request ticks k ih =>
    simp only [call_bind,runs_call,ih]
    constructor
    · rintro ⟨x,ctx₁,rest,hr,hx,hc,rfl,a,ctx₂,log₁,log₂,hp,hf,rfl⟩
      exact ⟨a,ctx₂,x :: log₁,log₂,⟨x,ctx₁,log₁,hr,hx,hc,rfl,hp⟩,hf,rfl⟩
    · rintro ⟨a,ctx₂,_,log₂,⟨x,ctx₁,log₁,hr,hx,hc,rfl,hp⟩,hf,rfl⟩
      exact ⟨x,ctx₁,log₁++log₂,hr,hx,hc,rfl,a,ctx₂,log₁,log₂,hp,hf,rfl⟩
  | look k ih => simp only [look_bind,runs_look,ih]
  | remember bits layout valid k ih => simp only [remember_bind,runs_remember,ih]

end CallProg

end ZZ9K.Host
