import ZZ9K.Runtime.Machine

namespace ZZ9K.Runtime

open ZZ9K.Abi ZZ9K.Host ZZ9K.Framework

/-- Where a client stands, and who waits -/
structure At (phase : Phase) (calls : List (Nat × Key)) (c : Client) : Prop where
  phase : c.phase = phase
  calls : c.calls = calls

/-- A completion is in hand. -/
def Holding (reply : MailboxEntry) (calls : List (Nat × Key)) (c : Client) : Prop :=
  ∃ serial, At (.took serial reply) calls c

/-- A call with this key has been submitted and waits. -/
def Waiting (key : Key) (calls : List (Nat × Key)) (c : Client) : Prop :=
  ∃ tag, At .idle ((tag,key) :: calls) c

/-- What taking a completion leaves behind -/
def Taken (calls : List (Nat × Key)) (r : Consumed) (c : Client) : Prop :=
  if r.status = .ok then Holding r.reply calls c else At .idle calls c

/-- Idle, with `R` known of the objects -/
structure IdleWith (R : (AsyncPtr → AsyncRequest) → Prop) (calls : List (Nat × Key))
    (c : Client) : Prop where
  idle : At .idle calls c
  asyncs : R c.asyncs

theorem At.context {phase : Phase} {calls : List (Nat × Key)} {c : Client}
    (h : At phase calls c) (ctx : Context) : At phase calls {c with ctx} := ⟨h.phase,h.calls⟩

theorem Waiting.context {key : Key} {calls : List (Nat × Key)} {c : Client}
    (h : Waiting key calls c) (ctx : Context) : Waiting key calls {c with ctx} := by
  obtain ⟨tag,h⟩ := h
  exact ⟨tag,h.context ctx⟩

section

variable {ι : Type} [DecidableEq ι] {allowed : Op → Prop} {env C : World ι → World ι → Prop}
  (henv : ∀ s t, env s t → t.clients = s.clients) {i : ι} {calls : List (Nat × Key)}
include henv

/-- What a submission leaves behind -/
def Submitted (R : (AsyncPtr → AsyncRequest) → Prop) (waiter : Waiter) (request : MailboxEntry)
    (calls : List (Nat × Key)) (r : Enqueued) (c : Client) : Prop :=
  R c.asyncs ∧
    if r.status = .queued then
      let key := ⟨waiter,r.requestId,request.opcode,request.userCookie⟩
      if waiter = .async then ∃ tag, At (.submitted tag key) calls c else Waiting key calls c
    else At .idle calls c

theorem submit_acts (R : (AsyncPtr → AsyncRequest) → Prop) {waiter : Waiter}
    (hw : waiter = .async ∨ waiter = .libraryCall) (request : MailboxEntry)
    (hu : Unlocked calls) :
    Acts allowed env C i (submit i waiter request) (IdleWith R calls)
      (Submitted R waiter request calls) := by
  refine (acts_read henv fun w => (w.inputs.semaphore,(w.clients i).ctx)).bind
    fun (semaphore,ctx) => ?_
  refine Sat.ite (fun _ => ?_) fun _ => ?_
  · refine acts_atomic henv fun s ⟨h,hm⟩ =>
      ⟨.submit waiter request ⟨h.phase,h.calls ▸ hu⟩ hw,?_⟩
    rw [submitStep_fst]
    unfold Submitted
    by_cases hq : ((enqueueRequestLocked (s.clients i).ctx request).run s.link).1.status = .queued
    · rw [if_pos hq,submitStep_queued _ _ _ _ _ hq]
      rcases hw with rfl | rfl
      · refine ⟨by simpa [Client.begin,submittedKey] using hm,s.submitted.length,?_⟩
        constructor <;> simp [Client.begin,submittedKey,h.calls]
      · refine ⟨by simpa [Client.begin,submittedKey] using hm,s.submitted.length,?_⟩
        constructor <;> simp [Client.begin,submittedKey,h.calls,h.phase]
    · rw [if_neg hq,submitStep_refused _ _ _ _ _ hq]
      refine ⟨by simpa using hm,?_⟩
      constructor <;> simp [h.calls,h.phase]
  · exact acts_ret fun c ⟨h,hm⟩ => ⟨hm,h⟩

theorem takeStep_acts (calls : List (Nat × Key)) (reply : MailboxEntry) :
    Acts allowed env C i (Res.atomic (takeStep i reply)) (At .idle calls) (Taken calls) := by
  refine acts_atomic henv fun s h => ⟨.take reply h.phase,?_⟩
  unfold Taken
  by_cases hok : ((consumeNextCompletionLocked (s.clients i).ctx reply).run s.link).1.status = .ok
  · rw [takeStep_fst,if_pos hok,takeStep_ok _ _ _ hok,takeStep_fst]
    refine ⟨s.link.returned.length,?_⟩
    constructor <;> simp [h.calls]
  · rw [takeStep_fst,if_neg hok,takeStep_none _ _ _ hok]
    exact h

theorem giveUp_acts (key : Key) (status : Status) (reply : MailboxEntry) :
    Acts allowed env C i (giveUp i status reply) (Waiting key calls) fun _ => At .idle calls := by
  refine (acts_store henv (Q := At .idle calls) fun s ⟨tag,h⟩ =>
    ⟨.giveUp _ _ h.phase h.calls,?_⟩).bind fun _ => acts_ret fun _ h => h
  constructor <;> simp [giveUpStep,h.calls,h.phase]

theorem context_acts {P : Client → Prop} {f : Context → Context}
    (hf : ∀ ctx, Context.fixed (f ctx) = Context.fixed ctx)
    (hP : ∀ c, P c → ∀ ctx, P {c with ctx}) :
    Acts allowed env C i (Res.store (contextStep i f)) P fun _ => P := by
  refine acts_store henv fun s h => ⟨.context f hf,?_⟩
  simpa [contextStep] using hP _ h _

/-- Taking a completion for a call that waits: it answers the call, or it is put aside and the
wait goes on. -/
theorem takeFor_acts {key : Key} (hk : key.waiter = .hostCall) {α : Type} (reply : MailboxEntry)
    {done foreign other : Consumed → Res (World ι) α} {Q : α → Client → Prop}
    (hdone : ∀ r, Acts allowed env C i (done r) (At .idle calls) Q)
    (hforeign : ∀ r, Acts allowed env C i (foreign r) (Waiting key calls) Q)
    (hother : ∀ r, Acts allowed env C i (other r) (Waiting key calls) Q) :
    Acts allowed env C i
      (Res.atomic (takeStep i reply) >>= fun r =>
        if r.status = .ok then
          if key.accepts r.reply.requestId r.reply.opcode r.reply.userCookie then
            Res.store (answerStep i) >>= fun _ => done r
          else Res.store (discardStep i) >>= fun _ => foreign r
        else other r) (Waiting key calls) Q := by
  refine Sat.exists fun tag => ?_
  refine (takeStep_acts henv ((tag,key) :: calls) reply).bind fun r => ?_
  refine Sat.ite (fun hok => ?_) fun hok => ?_
  · simp only [Taken,if_pos hok]
    refine Sat.exists fun serial => Sat.ite (fun hr => ?_) fun _ => ?_
    · refine (acts_store henv (Q := At .idle calls) fun s h =>
        ⟨.answer serial r.reply _ _ h.phase h.calls hr,?_⟩).bind fun _ => hdone r
      rw [answerStep_eq h.phase h.calls]
      constructor <;> simp
    · refine (acts_store henv (Q := Waiting key calls) fun s h =>
        ⟨.discard serial r.reply _ _ h.phase h.calls hk,tag,?_⟩).bind fun _ => hforeign r
      constructor <;> simp [discardStep,h.calls]
  · simp only [Taken,if_neg hok]
    exact (hother r).pre fun s _ h => ⟨tag,h⟩

theorem nowMs_acts {P : Client → Prop} :
    Acts allowed env C i nowMs P fun _ => P := acts_read henv _

theorem drain_acts {key : Key} (hk : key.waiter = .hostCall) (start : UInt32) (polls : Nat)
    (reply : MailboxEntry) :
    Acts allowed env C i (drain i key start polls reply) (Waiting key calls)
      fun _ => At .idle calls := by
  have hexpired : ∀ reply, Acts allowed env C i
      (Res.store (contextStep i fun ctx => {ctx with lateIrqExpected := true}) >>= fun _ =>
        giveUp i .cancelled reply) (Waiting key calls) fun _ => At .idle calls := by
    intro reply
    exact Sat.bind (context_acts henv (fun _ => rfl) fun _ h ctx => h.context ctx) fun _ =>
      giveUp_acts henv key _ _
  induction polls generalizing reply with
  | zero => exact hexpired reply
  | succ polls ih =>
    have hagain : ∀ reply, Acts allowed env C i (nowMs >>= fun now =>
        if 2000 ≤ now-start then
          Res.store (contextStep i fun ctx => {ctx with lateIrqExpected := true}) >>= fun _ =>
          giveUp i .cancelled reply
        else drain i key start polls reply) (Waiting key calls) fun _ => At .idle calls :=
      fun reply => (nowMs_acts henv).bind fun now =>
        Sat.ite (fun _ => hexpired reply) fun _ => ih reply
    refine takeFor_acts henv hk reply (fun r => ?_) (fun r => hagain r.reply) fun r =>
      Sat.ite (fun _ => hagain r.reply) fun _ => giveUp_acts henv key _ _
    exact Sat.bind (context_acts henv (fun _ => rfl) fun _ h ctx => h.context ctx) fun _ =>
      acts_ret fun _ h => h

theorem awaitCompletionLocked_acts (pf : Platform) {key : Key} (hk : key.waiter = .hostCall)
    (hardTimeoutMs start : UInt32) (rounds : Nat) (reply : MailboxEntry) :
    Acts allowed env C i (awaitCompletionLocked pf i key hardTimeoutMs start rounds reply)
      (Waiting key calls) fun _ => At .idle calls := by
  induction rounds generalizing reply with
  | zero => exact giveUp_acts henv key _ _
  | succ rounds ih =>
    refine takeFor_acts henv hk reply (fun r => acts_ret fun _ h => h) (fun r => ih r.reply)
      fun r => Sat.ite (fun _ => giveUp_acts henv key _ _) fun _ => ?_
    refine (acts_read henv _).bind fun interrupted => ?_
    refine Sat.ite (fun _ => ?_) fun _ => ?_
    · exact Sat.ite (fun _ => (nowMs_acts henv).bind fun now => drain_acts henv hk _ _ _)
        fun _ => giveUp_acts henv key _ _
    · exact (nowMs_acts henv).bind fun now =>
        Sat.ite (fun _ => giveUp_acts henv key _ _) fun _ => ih r.reply

/-- After a look that found nothing, the call has run out of time or looks again. -/
theorem callAgain_acts {key : Key} (wallClock : Option (UInt32 × UInt32)) (timeoutTicks : UInt32)
    (ticks : Nat) (reply : MailboxEntry) {look : Res (World ι) (Status × MailboxEntry)}
    (hlook : Acts allowed env C i look (Waiting key calls) fun _ => At .idle calls) :
    Acts allowed env C i (match wallClock with
      | some (start,budget) =>
          nowMs >>= fun now =>
          if budget ≤ now-start ∨ offloadIterBackstop ≤ ticks then giveUp i .timeout reply else look
      | none => if timeoutTicks.toNat ≤ ticks+1 then giveUp i .timeout reply else look)
      (Waiting key calls) fun _ => At .idle calls := by
  cases wallClock with
  | none => exact Sat.ite (fun _ => giveUp_acts henv key _ _) fun _ => hlook
  | some bounds =>
    refine (nowMs_acts henv).bind fun now => ?_
    exact Sat.ite (fun _ => giveUp_acts henv key _ _) fun _ => hlook

theorem callLoop_acts {key : Key} (hk : key.waiter = .hostCall)
    (wallClock : Option (UInt32 × UInt32)) (timeoutTicks : UInt32) (fuel ticks : Nat)
    (reply : MailboxEntry) :
    Acts allowed env C i (callLoop i key wallClock timeoutTicks fuel ticks reply)
      (Waiting key calls) fun _ => At .idle calls := by
  induction fuel generalizing ticks reply with
  | zero => exact giveUp_acts henv key _ _
  | succ fuel ih =>
    have hagain := fun reply => callAgain_acts henv wallClock timeoutTicks ticks reply
      (ih (ticks+1) reply)
    exact takeFor_acts henv hk reply (fun r => acts_ret fun _ h => h) (fun r => hagain r.reply)
      fun r => Sat.ite (fun _ => giveUp_acts henv key _ _) fun _ => hagain r.reply

theorem armedWaitTimeoutMs_acts {key : Key} :
    Acts allowed env C i (armedWaitTimeoutMs i) (Waiting key calls) fun _ => Waiting key calls := by
  refine acts_atomic henv fun s h => ?_
  dsimp only
  split_ifs
  · exact ⟨.skip,h⟩
  · exact ⟨.context (fun ctx => {ctx with syncWaitTimeoutMs := s.inputs.syncWaitTimeoutMs})
      fun _ => rfl,by simpa [contextStep] using h.context _⟩
  · exact ⟨.skip,h⟩

theorem hostCall_acts (pf : Platform) (request : MailboxEntry) (timeoutTicks : UInt32)
    (reply : MailboxEntry) (hu : Unlocked calls) :
    Acts allowed env C i (hostCall pf i request timeoutTicks reply) (At .idle calls)
      fun _ => At .idle calls := by
  refine (acts_read henv _).bind fun semaphore => ?_
  refine Sat.ite (fun _ => ?_) fun _ => acts_ret fun _ h => h
  have hsubmit : Acts allowed env C i (Res.atomic (callSubmitStep i request)) (At .idle calls)
      fun r c => if r.1.status = .queued then
        Waiting ⟨.hostCall,r.1.requestId,r.2.opcode,r.2.userCookie⟩ calls c
      else At .idle calls c := by
    refine acts_atomic henv fun s h => ⟨.callSubmit request ⟨h.phase,h.calls ▸ hu⟩,?_⟩
    simp only [callSubmitStep,submitStep_fst]
    split_ifs with hq
    · rw [submitStep_queued _ _ _ _ _ hq]
      refine ⟨s.submitted.length,?_⟩
      constructor <;> simp [Client.begin,submittedKey,h.calls,h.phase]
    · rw [submitStep_refused _ _ _ _ _ hq]
      constructor <;> simp [h.calls,h.phase]
  refine hsubmit.bind fun (r,request) => Sat.ite (fun hq => ?_) fun hq => ?_
  · simp only [if_neg hq]
    exact acts_ret fun _ h => h
  rw [not_not] at hq
  simp only [if_pos hq]
  refine (acts_read henv _).bind fun (ctx,inputs) => ?_
  refine Sat.bind (Q := fun _ w => At .idle calls (w.clients i))
    (Sat.ite (fun _ => ?_) fun _ => Sat.ite (fun _ => giveUp_acts henv _ _ _) fun _ =>
      callLoop_acts henv rfl _ _ _ _ _) fun (status,reply) => ?_
  · exact (armedWaitTimeoutMs_acts henv).bind fun hard => (nowMs_acts henv).bind fun start =>
      awaitCompletionLocked_acts henv pf rfl _ _ _ _
  · exact acts_ret fun _ h => h

theorem runCallProg_acts (pf : Platform) {α : Type} (p : CallProg α) (hu : Unlocked calls) :
    Acts allowed env C i (runCallProg pf i p) (At .idle calls) fun _ => At .idle calls := by
  induction p with
  | ret a => exact acts_ret fun _ h => h
  | call request ticks k ih =>
    exact (hostCall_acts henv pf request ticks {} hu).bind fun r => ih r.status r.reply
  | look k ih => exact (acts_read henv _).bind fun ctx => ih ctx
  | remember bits layout valid k ih =>
    exact Sat.bind (context_acts henv (fun _ => rfl) fun _ h ctx => h.context ctx) fun _ => ih

/-- User functions only act, and leave the calls in progress as they found them. -/
structure HooksAct (allowed : Op → Prop) (env C : World ι → World ι → Prop) (i : ι)
    (h : Hooks ι) : Prop where
  callback : ∀ calls, Unlocked calls → ∀ due,
    Acts allowed env C i (h.callback due) (At .idle calls) fun _ => At .idle calls
  waiter : ∀ calls, Unlocked calls → ∀ waiter userData,
    Acts allowed env C i (h.waiter waiter userData) (At .idle calls) fun _ => At .idle calls

theorem callAsync_acts (async : AsyncPtr) (request : MailboxEntry)
    (callback : Option CallbackId) (userData : UInt32) (hu : Unlocked calls) :
    Acts allowed env C i (callAsync i async request callback userData) (At .idle calls)
      fun _ => At .idle calls := by
  let R : (AsyncPtr → AsyncRequest) → Prop := fun m =>
    (m async).queued = false ∧ (m async).completed = false
  have hload : Acts allowed env C i (Res.load fun w =>
      ((w.clients i).library.attached,((w.clients i).asyncs async).queued)) (At .idle calls)
      fun r => IdleWith (fun m => (m async).queued = r.2) calls :=
    acts_load henv fun s h => ⟨h,rfl⟩
  refine hload.bind fun (attached,queued) => ?_
  refine Sat.ite (fun _ => acts_ret fun _ h => h.idle) fun _ => ?_
  refine Sat.ite (fun _ => acts_ret fun _ h => h.idle) fun hq => ?_
  have hprepare : Acts allowed env C i
      (Res.store (setAsyncStep i async (prepared request callback userData)))
      (IdleWith (fun m => (m async).queued = queued) calls) fun _ => IdleWith R calls := by
    refine acts_store henv fun s ⟨h,hs⟩ =>
      ⟨.setAsync async _ ⟨h.phase,h.calls ▸ hu⟩ (hs.trans (by simpa using hq)) rfl rfl,⟨?_,?_⟩,?_⟩
    · simpa [setAsyncStep,Client.setAsync] using h.phase
    · simpa [setAsyncStep,Client.setAsync] using h.calls
    · simp [R,setAsyncStep,Client.setAsync,prepared]
  refine hprepare.bind fun _ => ?_
  refine (submit_acts henv R (Or.inl rfl) request hu).bind fun r => ?_
  refine Sat.ite (fun hs => ?_) fun hs => ?_
  · refine (acts_store henv (Q := At .idle calls) fun s h => ?_).bind fun _ => acts_ret fun _ h => h
    obtain ⟨hR,h⟩ := h
    rw [if_neg hs] at h
    refine ⟨.setAsync async {} ⟨h.phase,h.calls ▸ hu⟩ hR.1 rfl rfl,?_⟩
    constructor <;> simp [setAsyncStep,Client.setAsync,h.phase,h.calls]
  · refine (acts_store henv (Q := At .idle calls) fun s h => ?_).bind fun _ => acts_ret fun _ h => h
    obtain ⟨hR,h⟩ := h
    rw [not_not] at hs
    rw [if_pos hs] at h
    obtain ⟨tag,h⟩ := h
    refine ⟨.insert async tag _ h.phase (h.calls ▸ hu) rfl hR.1 hR.2,?_⟩
    constructor <;> simp [insertStep,Client.setAsync,Client.record,h.calls]

theorem callAsyncBatch_acts (asyncs : Nat → AsyncPtr) (requests : Nat → MailboxEntry)
    (count : UInt32) (callback : Option CallbackId) (userData : UInt32) (hu : Unlocked calls) :
    Acts allowed env C i (callAsyncBatch i asyncs requests count callback userData)
      (At .idle calls) fun _ => At .idle calls := by
  have hloop : ∀ n done, Acts allowed env C i
      (callAsyncBatchLoop i asyncs requests callback userData n done) (At .idle calls)
      fun _ => At .idle calls := by
    intro n
    induction n with
    | zero => exact fun done => acts_ret fun _ h => h
    | succ n ih =>
      intro done
      refine (callAsync_acts henv _ _ _ _ hu).bind fun status => ?_
      exact Sat.ite (fun _ => acts_ret fun _ h => h) fun _ => ih _
  refine (acts_read henv _).bind fun attached => ?_
  exact Sat.ite (fun _ => acts_ret fun _ h => h) fun _ => hloop _ _

theorem libraryPoll_acts (calls : List (Nat × Key)) (reply : MailboxEntry) :
    Acts allowed env C i (libraryPoll i reply) (At .idle calls) (Taken calls) := by
  refine (acts_read henv _).bind fun attached => Sat.ite (fun _ => ?_) fun _ => ?_
  · refine (acts_read henv _).bind fun semaphore => Sat.ite (fun _ => takeStep_acts henv _ _) fun _ =>
      acts_ret fun c h => ?_
    exact h
  · exact acts_ret fun c h => h

variable {h : Hooks ι} (hh : HooksAct allowed env C i h)
include hh

omit henv in
theorem runDue_acts (due : Option Due) (hu : Unlocked calls) :
    Acts allowed env C i (runDue h due) (At .idle calls) fun _ => At .idle calls := by
  cases due with
  | none => exact acts_ret fun _ h => h
  | some due => exact hh.callback calls hu due

theorem dispatchReply_acts (reply : MailboxEntry) (hu : Unlocked calls) :
    Acts allowed env C i (dispatchReply h i reply) (Holding reply calls)
      fun _ => At .idle calls := by
  refine (acts_atomic henv (Q := fun _ => At .idle calls) fun s h => ?_).bind fun due =>
    (runDue_acts hh due hu).bind fun _ => acts_ret fun _ h => h
  obtain ⟨serial,h⟩ := h
  refine ⟨.dispatch serial reply h.phase (h.calls ▸ hu),?_⟩
  unfold dispatchStep
  dsimp only
  split
  · constructor <;> simp [discardStep,h.calls]
  · constructor <;> simp [h.calls]

theorem cancelAsync_acts (async : AsyncPtr) (hu : Unlocked calls) :
    Acts allowed env C i (cancelAsync h i async) (At .idle calls) fun _ => At .idle calls := by
  refine (acts_atomic henv (Q := fun _ => At .idle calls) fun s h => ?_).bind fun (status,due) =>
    (runDue_acts hh due hu).bind fun _ => acts_ret fun _ h => h
  refine ⟨.cancel async ⟨h.phase,h.calls ▸ hu⟩,?_⟩
  unfold cancelStep
  dsimp only
  split_ifs
  · exact h
  · split
    · exact h
    · split_ifs
      · exact h
      · constructor <;> simp [h.phase,h.calls]

theorem libPoll_acts (maxCompletions : UInt32) (hu : Unlocked calls) :
    Acts allowed env C i (libPoll h i maxCompletions) (At .idle calls)
      fun _ => At .idle calls := by
  have hloop : ∀ n done, Acts allowed env C i (pollLoop h i n done) (At .idle calls)
      fun _ => At .idle calls := by
    intro n
    induction n with
    | zero => exact fun done => acts_ret fun _ h => h
    | succ n ih =>
      intro done
      refine (libraryPoll_acts henv _ _).bind fun r => ?_
      by_cases hok : r.status = .ok
      · simp only [Taken,hok,reduceCtorEq,if_false,ne_eq,not_true]
        exact (dispatchReply_acts henv hh _ hu).bind fun _ => ih _
      · simp only [Taken,if_neg hok]
        refine Sat.ite (fun _ => acts_ret fun _ h => h) fun _ => ?_
        rw [if_pos hok]
        exact acts_ret fun _ h => h
  refine (acts_read henv _).bind fun attached => ?_
  exact Sat.ite (fun _ => hloop _ _) fun _ => acts_ret fun _ h => h

theorem libCallLoop_acts {key : Key} (hk : key.waiter = .libraryCall) (ticks : Nat)
    (reply : MailboxEntry) :
    Acts allowed env C i (libCallLoop h i key ticks reply) (Waiting key calls)
      fun _ => At .idle calls := by
  induction ticks generalizing reply with
  | zero => exact giveUp_acts henv key _ _
  | succ ticks ih =>
    refine Sat.exists fun tag => ?_
    have hu : Unlocked ((tag,key) :: calls) := by simp [Unlocked,hk]
    refine (libraryPoll_acts henv ((tag,key) :: calls) reply).bind fun r => ?_
    by_cases hok : r.status = .ok
    · simp only [Taken,hok,reduceCtorEq,if_false,ne_eq,not_true,if_true]
      refine Sat.ite (fun hr => Sat.exists fun serial => ?_) fun _ => ?_
      · have ha : key.accepts r.reply.requestId r.reply.opcode r.reply.userCookie :=
          ⟨hr,by simp [hk]⟩
        refine (acts_store henv (Q := At .idle calls) fun s h =>
          ⟨.answer serial r.reply _ _ h.phase h.calls ha,?_⟩).bind fun _ => acts_ret fun _ h => h
        rw [answerStep_eq h.phase h.calls]
        constructor <;> simp
      · refine (dispatchReply_acts henv hh _ hu).bind fun _ => ?_
        exact (ih r.reply).pre fun s _ h => ⟨tag,h⟩
    · simp only [Taken,if_neg hok]
      refine Sat.ite (fun _ => ?_) fun _ => ?_
      · exact (ih r.reply).pre fun s _ h => ⟨tag,h⟩
      · rw [if_pos hok]
        exact (giveUp_acts henv key _ _).pre fun s _ h => ⟨tag,h⟩

theorem libCall_acts (request : MailboxEntry) (timeoutTicks : UInt32) (reply : MailboxEntry)
    (hu : Unlocked calls) :
    Acts allowed env C i (libCall h i request timeoutTicks reply) (At .idle calls)
      fun _ => At .idle calls := by
  refine (acts_read henv _).bind fun attached => ?_
  refine Sat.ite (fun _ => acts_ret fun _ h => h) fun _ => ?_
  have hsubmit : Acts allowed env C i (submit i .libraryCall request) (At .idle calls)
      (Submitted (fun _ => True) .libraryCall request calls) :=
    (submit_acts henv (fun _ => True) (Or.inr rfl) request hu).pre fun s _ h => ⟨h,trivial⟩
  refine hsubmit.bind fun r => Sat.ite (fun hs => acts_ret fun c h => ?_) fun hs => ?_
  · simpa only [if_neg hs] using h.2
  · rw [not_not] at hs
    refine (libCallLoop_acts henv hh rfl _ _).pre fun s _ h => ?_
    have hw := h.2
    rw [if_pos hs] at hw
    exact hw

theorem waitForTransportEvent_acts (hu : Unlocked calls) :
    Acts allowed env C i (waitForTransportEvent h i) (At .idle calls) fun _ => At .idle calls := by
  refine (acts_read henv fun w => (w.clients i).library).bind fun library => ?_
  cases library.eventWaiter with
  | none => exact acts_ret fun _ h => h
  | some waiter => exact hh.waiter calls hu _ _

theorem waitLoop_acts (check : Client → Option Status × Nat) (hu : Unlocked calls) (n : Nat)
    (out : Waited) :
    Acts allowed env C i (waitLoop h i check n out) (At .idle calls) fun _ => At .idle calls := by
  induction n generalizing out with
  | zero => exact acts_ret fun _ h => h
  | succ n ih =>
    refine (libPoll_acts henv hh 1 hu).bind fun (status,completed) => ?_
    refine Sat.ite (fun _ => acts_ret fun _ h => h) fun _ => ?_
    refine (acts_read henv fun w => check (w.clients i)).bind fun (stop,done) => ?_
    cases stop with
    | some status => exact acts_ret fun _ h => h
    | none =>
      refine Sat.ite (fun _ => ?_) fun _ => ih _
      refine (waitForTransportEvent_acts henv hh hu).bind fun status => ?_
      exact Sat.ite (fun _ => acts_ret fun _ h => h) fun _ => ih _

theorem waitAsync_acts (async : AsyncPtr) (timeoutPolls : UInt32) (hu : Unlocked calls) :
    Acts allowed env C i (waitAsync h i async timeoutPolls) (At .idle calls)
      fun _ => At .idle calls := by
  refine (acts_read henv fun w => w.clients i).bind fun c => ?_
  refine Sat.ite (fun _ => acts_ret fun _ h => h) fun _ => ?_
  cases (asyncWaited async c).1 with
  | some status => exact acts_ret fun _ h => h
  | none => exact waitLoop_acts henv hh _ hu _ _

theorem waitAsyncBatch_acts (asyncs : Nat → AsyncPtr) (count timeoutPolls : UInt32)
    (hu : Unlocked calls) :
    Acts allowed env C i (waitAsyncBatch h i asyncs count timeoutPolls) (At .idle calls)
      fun _ => At .idle calls := by
  refine (acts_read henv fun w => w.clients i).bind fun c => ?_
  refine Sat.ite (fun _ => acts_ret fun _ h => h) fun _ => ?_
  refine Sat.ite (fun _ => acts_ret fun _ h => h) fun _ => ?_
  obtain ⟨stop,completed⟩ := batchWaited asyncs count.toNat c
  cases stop with
  | some status => exact acts_ret fun _ h => h
  | none => exact waitLoop_acts henv hh _ hu _ _

omit hh in
theorem closeStep_acts (hu : Unlocked calls) :
    Acts allowed env C i (Res.store (closeStep i)) (At .idle calls) fun _ => At .idle calls := by
  have hloop : ∀ n p c, At .idle calls c → At .idle calls (cancelPendingLoop n p c) := by
    intro n
    induction n with
    | zero => exact fun _ _ h => h
    | succ n ih =>
      intro p c h
      cases p with
      | none => exact h
      | some p => exact ih _ _ ⟨h.phase,h.calls⟩
  refine acts_store henv fun s h => ⟨.close ⟨h.phase,h.calls ▸ hu⟩,?_⟩
  have hc := hloop (2^32) (s.clients i).library.pendingHead
    {s.clients i with library := {(s.clients i).library with pendingHead := none}}
    ⟨h.phase,h.calls⟩
  constructor
  · simpa [closeStep,cancelPending] using hc.phase
  · simpa [closeStep,cancelPending] using hc.calls

omit hh in
theorem libraryStep_acts (f : Library → Library) (hf : ∀ l, (f l).pendingHead = l.pendingHead) :
    Acts allowed env C i (Res.store (libraryStep i f)) (At .idle calls) fun _ => At .idle calls := by
  refine acts_store henv fun s h => ⟨.library f hf,?_⟩
  constructor <;> simp [libraryStep,h.phase,h.calls]

theorem runOp_acts (pf : Platform) (o : Op) (hu : Unlocked calls) :
    Acts allowed env C i (runOp pf h i o) (At .idle calls) fun _ => At .idle calls := by
  cases o with
  | callAsync async request callback userData =>
    exact (callAsync_acts henv _ _ _ _ hu).bind fun _ => acts_ret fun _ h => h
  | callAsyncBatch asyncs requests count callback userData =>
    exact (callAsyncBatch_acts henv _ _ _ _ _ hu).bind fun _ => acts_ret fun _ h => h
  | cancelAsync async => exact (cancelAsync_acts henv hh _ hu).bind fun _ => acts_ret fun _ h => h
  | waitAsync async timeoutPolls =>
    exact (waitAsync_acts henv hh _ _ hu).bind fun _ => acts_ret fun _ h => h
  | waitAsyncBatch asyncs count timeoutPolls =>
    exact (waitAsyncBatch_acts henv hh _ _ _ hu).bind fun _ => acts_ret fun _ h => h
  | poll maxCompletions => exact (libPoll_acts henv hh _ hu).bind fun _ => acts_ret fun _ h => h
  | call request timeoutTicks =>
    exact (libCall_acts henv hh _ _ _ hu).bind fun _ => acts_ret fun _ h => h
  | hostCall request timeoutTicks =>
    exact (hostCall_acts henv pf _ _ _ hu).bind fun _ => acts_ret fun _ h => h
  | typed p =>
    refine (acts_read henv _).bind fun attached => ?_
    refine Sat.ite (fun _ => ?_) fun _ => acts_ret fun _ h => h
    exact (runCallProg_acts henv pf p hu).bind fun _ => acts_ret fun _ h => h
  | close => exact (closeStep_acts henv hu).bind fun _ => acts_ret fun _ h => h
  | attachContext takeOwnership =>
    refine (closeStep_acts henv hu).bind fun _ => ?_
    exact Sat.bind (libraryStep_acts henv _ fun _ => rfl) fun _ => acts_ret fun _ h => h
  | setEventWaiter waiter userData =>
    exact Sat.bind (libraryStep_acts henv _ fun _ => rfl) fun _ => acts_ret fun _ h => h
  | look async => exact (acts_read henv _).bind fun _ => acts_ret fun _ h => h

theorem runScript_acts (pf : Platform) (x : Script) (hu : Unlocked calls) :
    Acts allowed env C i (runScript pf h i x) (At .idle calls) fun _ => At .idle calls := by
  induction x with
  | done status => exact acts_ret fun _ h => h
  | op o k ih => exact (runOp_acts henv hh pf o hu).bind fun r => ih r

omit hh

theorem hooks_act (pf : Platform) (scripts : Scripts) (depth : Nat) :
    HooksAct allowed env C i (hooks pf scripts i depth) := by
  induction depth with
  | zero => exact ⟨fun _ _ _ => acts_ret fun _ h => h,fun _ _ _ _ => acts_ret fun _ h => h⟩
  | succ depth ih =>
    refine ⟨fun calls hu due => ?_,fun calls hu waiter userData => runScript_acts henv ih pf _ hu⟩
    exact (runScript_acts henv ih pf _ hu).bind fun _ => acts_ret fun _ h => h

/-- Whatever the clients run, they only act. -/
theorem clientSystem_sound : Sound (clientSystem ι allowed env) (actDiscipline ι C) where
  ops i p hp := by
    obtain ⟨pf,scripts,depth,o,_,rfl⟩ := hp
    have hop : Acts allowed env C i (runOp pf (hooks pf scripts i depth) i o) (At .idle [])
        fun _ => At .idle [] :=
      runOp_acts henv (hooks_act henv pf scripts depth) pf o (by simp [Unlocked])
    have hret : ∀ r : Result, Acts allowed env C i (.ret ()) (At .idle []) fun _ => At .idle [] :=
      fun r => acts_ret fun _ h => h
    exact (hop.bind hret).conseq (fun s _ h => ⟨h.1,h.2⟩) fun _ s _ h => ⟨h.phase,h.calls⟩
  rest i := client_stable henv i Resting
  halts _ _ h := h.elim
  env _ _ _ _ _ := trivial

end

end ZZ9K.Runtime
