import ZZ9K.Runtime.Script

namespace ZZ9K.Runtime

open ZZ9K.Abi ZZ9K.Host ZZ9K.Framework

/-- No `zz9k_call` is the innermost call: the library may act. -/
def Unlocked (calls : List (Nat × Key)) : Prop :=
  ∀ f ∈ calls.head?, f.2.waiter ≠ .hostCall

/-- Between operations, or inside a callback -/
structure Client.Open (c : Client) : Prop where
  phase : c.phase = .idle
  unlocked : Unlocked c.calls

/-- The sizes of the rings and the mask that are set when a context is opened -/
def Context.fixed (ctx : Context) : UInt32 × UInt32 × UInt32 :=
  (ctx.requestRingEntries,ctx.completionRingEntries,ctx.syncCookieMask)

variable {ι : Type} [DecidableEq ι]

/-- Everything a client can do to the world in one step, whatever program it runs. -/
inductive Act (i : ι) (s : World ι) : World ι → Prop
  | skip : Act i s s
  | context (f : Context → Context) (hf : ∀ ctx, Context.fixed (f ctx) = Context.fixed ctx) :
      Act i s (contextStep i f s)
  | library (f : Library → Library) (hf : ∀ l, (f l).pendingHead = l.pendingHead) :
      Act i s (libraryStep i f s)
  | setAsync (p : AsyncPtr) (a : AsyncRequest) (ho : (s.clients i).Open)
      (hp : ((s.clients i).asyncs p).queued = false) (ha : a.queued = false)
      (hc : a.completed = false) : Act i s (setAsyncStep i p a s)
  | submit (waiter : Waiter) (request : MailboxEntry) (ho : (s.clients i).Open)
      (hw : waiter = .async ∨ waiter = .libraryCall) :
      Act i s (submitStep i waiter (s.clients i).ctx request s).2
  | callSubmit (request : MailboxEntry) (ho : (s.clients i).Open) :
      Act i s (callSubmitStep i request s).2
  | insert (p : AsyncPtr) (tag : Nat) (key : Key) (hp : (s.clients i).phase = .submitted tag key)
      (hc : Unlocked (s.clients i).calls) (hk : key.waiter = .async)
      (hq : ((s.clients i).asyncs p).queued = false)
      (hd : ((s.clients i).asyncs p).completed = false) : Act i s (insertStep i p key.requestId s)
  | take (reply : MailboxEntry) (hp : (s.clients i).phase = .idle) :
      Act i s (takeStep i reply s).2
  | dispatch (serial : Nat) (reply : MailboxEntry) (hp : (s.clients i).phase = .took serial reply)
      (hc : Unlocked (s.clients i).calls) : Act i s (dispatchStep i reply s).2
  | discard (serial : Nat) (reply : MailboxEntry) (f : Nat × Key) (calls : List (Nat × Key))
      (hp : (s.clients i).phase = .took serial reply) (hc : (s.clients i).calls = f :: calls)
      (hk : f.2.waiter = .hostCall) : Act i s (discardStep i s)
  | answer (serial : Nat) (reply : MailboxEntry) (f : Nat × Key) (calls : List (Nat × Key))
      (hp : (s.clients i).phase = .took serial reply) (hc : (s.clients i).calls = f :: calls)
      (hr : f.2.accepts reply.requestId reply.opcode reply.userCookie) : Act i s (answerStep i s)
  | giveUp (f : Nat × Key) (calls : List (Nat × Key)) (hp : (s.clients i).phase = .idle)
      (hc : (s.clients i).calls = f :: calls) : Act i s (giveUpStep i s)
  | cancel (async : AsyncPtr) (ho : (s.clients i).Open) : Act i s (cancelStep i async s).2
  | close (ho : (s.clients i).Open) : Act i s (closeStep i s)

/-- Clients touch their own memory only. -/
theorem submitStep_others {i j : ι} (hj : j ≠ i) (waiter : Waiter) (ctx : Context)
    (request : MailboxEntry) (s : World ι) :
    (submitStep i waiter ctx request s).2.clients j = s.clients j := by
  unfold submitStep
  dsimp only
  split_ifs <;> exact World.setClient_of_ne _ _ hj

theorem Act.others {i j : ι} {s t : World ι} (h : Act i s t) (hj : j ≠ i) :
    t.clients j = s.clients j := by
  cases h with
  | skip => rfl
  | submit waiter request _ _ => exact submitStep_others hj _ _ _ _
  | callSubmit request _ => exact submitStep_others hj _ _ _ _
  | take reply _ =>
    unfold takeStep
    dsimp only
    split_ifs
    · exact World.setClient_of_ne _ _ hj
    · rfl
  | dispatch serial reply _ _ =>
    unfold dispatchStep
    dsimp only
    split
    · exact World.setClient_of_ne _ _ hj
    · exact World.setClient_of_ne _ _ hj
  | answer serial reply f calls hp hc _ =>
    rw [answerStep_eq hp hc]
    exact World.setClient_of_ne _ _ hj
  | cancel async _ =>
    unfold cancelStep
    dsimp only
    split_ifs
    · rfl
    · split
      · rfl
      · split_ifs
        · rfl
        · exact World.setClient_of_ne _ _ hj
  | _ => exact World.setClient_of_ne _ _ hj

/-- What a step of a client does to what is shared -/
inductive Shares (i : ι) (s t : World ι) : Prop
  | apart (hl : t.link = s.link) (hs : t.submitted = s.submitted) (hg : t.tags = s.tags)
  | submits (waiter : Waiter) (ctx : Context) (request : MailboxEntry)
      (hc : Context.fixed ctx = Context.fixed (s.clients i).ctx)
      (ht : t = (submitStep i waiter ctx request s).2)
  | takes (reply : MailboxEntry) (ht : t = (takeStep i reply s).2)

theorem callRequest_fixed (ctx : Context) (request : MailboxEntry) :
    Context.fixed (callRequest ctx request).2 = Context.fixed ctx := by
  unfold callRequest
  dsimp only
  split_ifs <;> rfl

theorem enqueueRequestLocked_fixed (ctx : Context) (request : MailboxEntry) (l : Link) :
    Context.fixed ((enqueueRequestLocked ctx request).run l).1.ctx = Context.fixed ctx := by
  unfold enqueueRequestLocked
  by_cases hlen : 48 < request.payloadLen.toNat
  · rw [if_pos hlen]
    rfl
  rw [if_neg hlen]
  simp only [Res.load_bind,Res.store_bind,Res.run_step]
  split_ifs <;> rfl

theorem submitStep_fixed {i : ι} {waiter : Waiter} {ctx : Context} {request : MailboxEntry}
    {s : World ι} (hc : Context.fixed ctx = Context.fixed (s.clients i).ctx) (j : ι) :
    Context.fixed ((submitStep i waiter ctx request s).2.clients j).ctx =
      Context.fixed (s.clients j).ctx := by
  by_cases hj : j = i
  · subst hj
    have hf := (enqueueRequestLocked_fixed ctx request s.link).trans hc
    by_cases hq : ((enqueueRequestLocked ctx request).run s.link).1.status = .queued
    · rw [submitStep_queued _ _ _ _ _ hq]
      simp only [World.setClient_self]
      unfold Client.begin
      split <;> exact hf
    · rw [submitStep_refused _ _ _ _ _ hq]
      simpa using hf
  · rw [submitStep_others hj]

namespace Act

variable {i : ι} {s t : World ι}

theorem shares (h : Act i s t) : Shares i s t := by
  cases h with
  | submit waiter request _ _ => exact .submits waiter _ request rfl rfl
  | callSubmit request _ => exact .submits .hostCall _ _ (callRequest_fixed _ request) rfl
  | take reply _ => exact .takes reply rfl
  | dispatch serial reply _ _ =>
    unfold dispatchStep
    dsimp only
    split
    · exact .apart rfl rfl rfl
    · exact .apart rfl rfl rfl
  | answer serial reply f calls hp hc _ =>
    rw [answerStep_eq hp hc]
    exact .apart rfl rfl rfl
  | cancel async _ =>
    unfold cancelStep
    dsimp only
    split_ifs
    · exact .apart rfl rfl rfl
    · split
      · exact .apart rfl rfl rfl
      · split_ifs
        · exact .apart rfl rfl rfl
        · exact .apart rfl rfl rfl
  | _ => exact .apart rfl rfl rfl

/-- Nobody ever changes the sizes of the rings or the mask. -/
theorem fixed (h : Act i s t) (j : ι) :
    Context.fixed (t.clients j).ctx = Context.fixed (s.clients j).ctx := by
  by_cases hj : j = i
  swap
  · rw [h.others hj]
  subst hj
  cases h with
  | skip => rfl
  | context f hf => simpa [contextStep] using hf _
  | submit waiter request _ _ => exact submitStep_fixed rfl _
  | callSubmit request _ => exact submitStep_fixed (callRequest_fixed _ _) _
  | take reply _ =>
    unfold takeStep
    dsimp only
    split_ifs <;> simp
  | dispatch serial reply _ _ =>
    unfold dispatchStep
    dsimp only
    split <;> simp [discardStep]
  | answer serial reply f calls hp hc _ =>
    rw [answerStep_eq hp hc]
    simp
  | cancel async _ =>
    unfold cancelStep
    dsimp only
    split_ifs
    · rfl
    · split
      · rfl
      · split_ifs <;> simp
  | close _ => simp [closeStep,cancelPending,cancelPendingLoop_ctx]
  | insert p tag key _ _ _ _ _ => simp [insertStep,Client.record,Client.setAsync]
  | setAsync p a _ _ _ _ => simp [setAsyncStep,Client.setAsync]
  | library f _ => simp [libraryStep]
  | discard => simp [discardStep]
  | giveUp => simp [giveUpStep]

/-- Submissions are only ever added. -/
theorem submitted_prefix (h : Act i s t) : s.submitted <+: t.submitted := by
  cases h.shares with
  | apart _ hs _ => rw [hs]
  | submits waiter ctx request _ ht =>
    subst ht
    unfold submitStep
    dsimp only
    split_ifs
    · exact List.prefix_append _ _
    · exact List.prefix_refl _
  | takes reply ht =>
    subst ht
    unfold takeStep
    dsimp only
    split_ifs <;> exact List.prefix_refl _

theorem tags (h : Act i s t) : t.tags = s.tags := by
  cases h.shares with
  | apart _ _ hg => exact hg
  | submits waiter ctx request _ ht =>
    subst ht
    unfold submitStep
    dsimp only
    split_ifs <;> rfl
  | takes reply ht =>
    subst ht
    unfold takeStep
    dsimp only
    split_ifs <;> rfl

end Act

/-- Idle, with nobody waiting -/
def Resting (c : Client) : Prop := c.phase = .idle ∧ c.calls = []

/-- Clients that only ever act, under a condition on the steps considered -/
def actDiscipline (ι : Type) [DecidableEq ι] (C : World ι → World ι → Prop) :
    Discipline ι (World ι) where
  inv _ := True
  rest i w := Resting (w.clients i)
  guar := Act
  cond := C

section

variable {α β : Type} {allowed : Op → Prop} {env : World ι → World ι → Prop}
  {C : World ι → World ι → Prop}

/-- A program of client `i` takes its memory from `P` to `Q` by actions alone. -/
abbrev Acts (allowed : Op → Prop) (env C : World ι → World ι → Prop) (i : ι)
    (p : Res (World ι) α) (P : Client → Prop) (Q : α → Client → Prop) : Prop :=
  Sat (clientSystem ι allowed env) (actDiscipline ι C) i p (fun w => P (w.clients i))
    fun a w => Q a (w.clients i)

variable (henv : ∀ s t, env s t → t.clients = s.clients) {i : ι}
include henv

theorem client_stable (i : ι) (P : Client → Prop) :
    Stable (clientSystem ι allowed env) (actDiscipline ι C) i fun w => P (w.clients i) := by
  rintro s t _ _ _ (he | ⟨j,hj,ha⟩) hP
  · rw [henv s t he]
    exact hP
  · rw [ha.others (Ne.symm hj)]
    exact hP

theorem acts_atomic {f : World ι → α × World ι} {P : Client → Prop} {Q : α → Client → Prop}
    (h : ∀ s, P (s.clients i) → Act i s (f s).2 ∧ Q (f s).1 ((f s).2.clients i)) :
    Acts allowed env C i (Res.atomic f) P Q :=
  Sat.atomic (fun s _ hP _ => ⟨trivial,h s hP⟩) fun a => client_stable henv i (Q a)

theorem acts_store {f : World ι → World ι} {P Q : Client → Prop}
    (h : ∀ s, P (s.clients i) → Act i s (f s) ∧ Q ((f s).clients i)) :
    Acts allowed env C i (Res.store f) P fun _ => Q :=
  acts_atomic henv (f := fun s => ((),f s)) h

theorem acts_load {f : World ι → α} {P : Client → Prop} {Q : α → Client → Prop}
    (h : ∀ s, P (s.clients i) → Q (f s) (s.clients i)) :
    Acts allowed env C i (Res.load f) P Q :=
  acts_atomic henv (f := fun s => (f s,s)) fun s hP => ⟨.skip,h s hP⟩

theorem acts_read (f : World ι → α) {P : Client → Prop} :
    Acts allowed env C i (Res.load f) P fun _ => P := acts_load henv fun _ h => h

omit henv

theorem acts_ret {a : α} {P : Client → Prop} {Q : α → Client → Prop} (h : ∀ c, P c → Q a c) :
    Acts allowed env C i (.ret a) P Q := fun _ _ hP => h _ hP

end

end ZZ9K.Runtime
