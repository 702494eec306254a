import ZZ9K.Runtime.Routing

namespace ZZ9K.Runtime

open ZZ9K.Abi ZZ9K.Host ZZ9K.Framework ZZ9K.Math

/-- The mailbox as firmware sets it up; the slots hold whatever they held. -/
def idleLink (requestRing completionRing : Nat → MailboxWireEntry) : Link :=
  {mailbox := {requestRing,completionRing}}

/-- What `zz9k_open` reads from the descriptor of rings with `n` and `m` slots. -/
structure Opened {ι : Type} (n m : UInt32) (ctxs : ι → Context) : Prop where
  requestRing : 2 ≤ n
  completionRing : 2 ≤ m
  requestEntries : ∀ i, (ctxs i).requestRingEntries = n
  completionEntries : ∀ i, (ctxs i).completionRingEntries = m

section

variable {ι : Type} {n m : UInt32} {ctxs : ι → Context}
  {requestRing completionRing : Nat → MailboxWireEntry}

theorem idleLink_consistent (hn : 2 ≤ n) (hm : 2 ≤ m) :
    (idleLink requestRing completionRing).Consistent n m := by
  have hn0 : (0 : UInt32) < n := UInt32.lt_of_lt_of_le (by decide) hn
  have hm0 : (0 : UInt32) < m := UInt32.lt_of_lt_of_le (by decide) hm
  have hidx : (idleLink requestRing completionRing).mailbox.Indices n m := by
    constructor <;> simpa [idleLink]
  refine ⟨hidx,?_,?_⟩
  · rw [(Mailbox.requests_nil hidx).mpr rfl]
    rfl
  · rw [(Mailbox.completions_nil hidx).mpr rfl]
    rfl

theorem startWorld_accounts (h : Opened n m ctxs) :
    Accounts n m (startWorld (idleLink requestRing completionRing) ctxs) := by
  have hlink : (idleLink requestRing completionRing).Consistent n m :=
    idleLink_consistent h.requestRing h.completionRing
  refine ⟨⟨hlink,h.requestEntries,h.completionEntries,rfl,List.nodup_nil,?_,rfl,?_⟩,
    startWorld_bookkept _ _,?_,?_,?_,?_,?_⟩ <;> simp [startWorld]

theorem startWorld_routing (R : Waiter → Prop) (h : Opened n m ctxs) :
    Routing R n m (startWorld (idleLink requestRing completionRing) ctxs) := by
  refine ⟨startWorld_accounts h,fun i tag other _ ho _ => ?_,?_,?_⟩
  · exact absurd ho.1 (by simp [startWorld])
  · simp [startWorld]
  · simp [startWorld]

variable [DecidableEq ι] {allowed : Op → Prop} {C : World ι → World ι → Prop}
  {c : Config ι (World ι)}

/-- Runs whose steps keep replies apart keep everything routed. -/
theorem reach_routing (R : Waiter → Prop) (h : Opened n m ctxs)
    (hC : ∀ i s t, Accounts n m s → Act i s t → C s t → Unmistakable R s t)
    (hc : Reach (clientSystem ι allowed (FirmwareStep n m)) C
      ⟨fun _ => .ret (),startWorld (idleLink requestRing completionRing) ctxs⟩ c) :
    Routing R n m c.state := by
  have hS : Sound (clientSystem ι allowed (FirmwareStep n m)) (actDiscipline ι C) :=
    clientSystem_sound fun _ _ h => h.clients
  refine reach_invariant hS ?_ ?_ (verified_idle hS (fun _ => rfl) trivial fun _ => ⟨rfl,rfl⟩)
    (startWorld_routing R h) hc
  · intro i s t _ ha hs hr
    exact Routing.act hr ha (hC i s t hr.accounts ha hs)
  · intro s t _ hs _ hr
    exact Routing.firmware hr hs

/-- Replies reach only the request that caused them, for any number of clients, as long as no
request is submitted that could be mistaken for one still under way. -/
theorem replies_routed (h : Opened n m ctxs)
    (hc : Reach (clientSystem ι allowed (FirmwareStep n m)) (Unmistakable fun _ => True)
      ⟨fun _ => .ret (),startWorld (idleLink requestRing completionRing) ctxs⟩ c) (i : ι) :
    (∀ tag p after serial, .left tag p after (.reply serial) ∈ (c.state.clients i).log →
      c.state.Answers serial tag after.reply) ∧
    ∀ tag serial reply, .answered tag serial reply ∈ (c.state.clients i).log →
      c.state.Answers serial tag reply := by
  have hr := reach_routing (fun _ => True) h (fun _ _ _ _ _ hu => hu) hc
  refine ⟨fun tag p after serial he => hr.routed i _ he trivial,fun tag serial reply he => ?_⟩
  obtain ⟨j,key,_,hx⟩ := hr.routed i _ he
  exact hx trivial

end

/-- The operations that submit and collect, without cancelling or closing. -/
def Op.plain : Op → Prop
  | .callAsync _ _ _ _ | .poll _ | .call _ _ | .hostCall _ _ => True
  | _ => False

/-- The completion firmware posts for a request, on top of zeroed memory. -/
def completionFor (requestId : UInt32) (opcode : UInt16) (userCookie : UInt32) :
    MailboxWireEntry :=
  entryToWire ⟨putBe32 0,putBe16 0,putBe16 0,putBe16 0,putBe16 0,putBe32 0,fun _ => 0⟩
    {requestId,opcode,userCookie}

def Event.isAnswer (tag serial : Nat) : Event → Bool
  | .answered tag' serial' _ => tag' == tag && serial' == serial
  | _ => false

def Event.isLeft (tag : Nat) (p : AsyncPtr) (serial : Nat) : Event → Bool
  | .left tag' p' _ cause => tag' == tag && p' == p && decide (cause = .reply serial)
  | _ => false

theorem Event.exists_answer (tag serial : Nat) (log : List Event)
    (h : log.any (Event.isAnswer tag serial) = true) :
    ∃ reply, Event.answered tag serial reply ∈ log := by
  obtain ⟨e,he,hx⟩ := List.any_eq_true.mp h
  cases e with
  | answered tag' serial' reply =>
    simp only [Event.isAnswer,Bool.and_eq_true,beq_iff_eq] at hx
    obtain ⟨rfl,rfl⟩ := hx
    exact ⟨reply,he⟩
  | _ => exact absurd hx (by simp [Event.isAnswer])

private def noScripts : Scripts := ⟨fun _ => .done .ok,fun _ _ => .done .ok⟩

/-- Zeroed rings -/
def zeroLink : Link := idleLink (fun _ => completionFor 0 0 0) fun _ => completionFor 0 0 0

private def twoContexts (i : Bool) : Context :=
  {requestRingEntries := 4,completionRingEntries := 4,syncCookieMask := if i then 1 else 2}

private def firstSubmitted : World Bool :=
  ((operation ⟨false,0⟩ noScripts 1 false (.callAsync onlyAsync {} none 0)).run
    (startWorld zeroLink twoContexts)).2

private def firstFetched : World Bool :=
  {firstSubmitted with link := ((firmwareTake 4).run firstSubmitted.link).2}

private def firstPosted : World Bool :=
  { firstFetched with
    link := ((firmwarePost 4 (completionFor 1 0 0)).run firstFetched.link).2
    tags := [0] }

private def secondAnswered : World Bool :=
  ((operation ⟨false,0⟩ noScripts 1 true (.call {} 1)).run firstPosted).2

/-- Two contexts both begin to number at 1: the `ZZ9KCall` of one returns with the completion of
the other's async request. -/
theorem replies_misrouted : ¬∀ (n m : UInt32) (ctxs : Bool → Context)
    (requestRing completionRing : Nat → MailboxWireEntry) (c : Config Bool (World Bool)),
    Opened n m ctxs → (ctxs false).syncCookieMask ≠ (ctxs true).syncCookieMask →
    (∀ i, (ctxs i).nextRequestId = 1) →
    Reach (clientSystem Bool Op.plain (FirmwareStep n m)) (fun _ _ => True)
      ⟨fun _ => .ret (),startWorld (idleLink requestRing completionRing) ctxs⟩ c →
    c.state.submitted.length < 2^32 → ∀ i tag serial reply,
      .answered tag serial reply ∈ (c.state.clients i).log → c.state.Answers serial tag reply := by
  intro h
  have h1 : Reach (clientSystem Bool Op.plain (FirmwareStep 4 4)) (fun _ _ => True)
      ⟨fun _ => .ret (),startWorld zeroLink twoContexts⟩ ⟨fun _ => .ret (),firstSubmitted⟩ :=
    reach_solo false rfl ⟨⟨false,0⟩,noScripts,1,.callAsync 7 {} none 0,trivial,rfl⟩
  have h2 : Step (clientSystem Bool Op.plain (FirmwareStep 4 4))
      ⟨fun _ => .ret (),firstSubmitted⟩ ⟨fun _ => .ret (),firstFetched⟩ :=
    .env _ _ .take
  have h3 : Step (clientSystem Bool Op.plain (FirmwareStep 4 4))
      ⟨fun _ => .ret (),firstFetched⟩ ⟨fun _ => .ret (),firstPosted⟩ :=
    .env _ _ (.post (completionFor 1 0 0) 0 ⟨1,0,1,0,0,0,[]⟩ (by decide +kernel)
      (by decide +kernel) (by decide +kernel) (by decide +kernel))
  have h4 : Reach (clientSystem Bool Op.plain (FirmwareStep 4 4)) (fun _ _ => True)
      ⟨fun _ => .ret (),firstPosted⟩ ⟨fun _ => .ret (),secondAnswered⟩ :=
    reach_solo true rfl ⟨⟨false,0⟩,noScripts,1,.call {} 1,trivial,rfl⟩
  obtain ⟨reply,hm⟩ := Event.exists_answer 1 0 (secondAnswered.clients true).log
    (by decide +kernel)
  have hx := h 4 4 twoContexts _ _ ⟨fun _ => .ret (),secondAnswered⟩
    ⟨by decide,by decide,fun _ => rfl,fun _ => rfl⟩ (by decide) (fun _ => rfl)
    (((h1.tail ⟨h2,trivial⟩).tail ⟨h3,trivial⟩).trans h4) (by decide +kernel) true 1 0 reply hm
  exact absurd hx.1 (by decide +kernel)

/-- Nothing is submitted beside what has been submitted before. -/
def Alone {ι : Type} (s t : World ι) : Prop :=
  s.submitted.isEmpty = true ∨ t.submitted.length ≤ s.submitted.length

instance {ι : Type} (s t : World ι) : Decidable (Alone s t) :=
  inferInstanceAs (Decidable (_ ∨ _))

theorem Alone.unmistakable {ι : Type} {R : Waiter → Prop} {s t : World ι} (h : Alone s t) :
    Unmistakable R s t := by
  intro i key hs
  rcases h with h | h
  · rw [List.isEmpty_iff] at h
    simp [h]
  · simp [hs] at h

private def firstDelivered : World Bool :=
  ((operation ⟨false,0⟩ noScripts 1 false (.poll 1)).run firstPosted).2

theorem Event.exists_left (tag serial : Nat) (p : AsyncPtr) (log : List Event)
    (h : log.any (Event.isLeft tag p serial) = true) :
    ∃ after, Event.left tag p after (.reply serial) ∈ log := by
  obtain ⟨e,he,hx⟩ := List.any_eq_true.mp h
  cases e with
  | left tag' p' after cause =>
    simp only [Event.isLeft,Bool.and_eq_true,beq_iff_eq,decide_eq_true_eq] at hx
    obtain ⟨⟨rfl,rfl⟩,rfl⟩ := hx
    exact ⟨after,he⟩
  | _ => exact absurd hx (by simp [Event.isLeft])

/-- An async request that is completed by polling -/
theorem replies_routed_polled : ∃ after,
    Event.left 0 7 after (.reply 0) ∈ (firstDelivered.clients false).log ∧
      firstDelivered.Answers 0 0 after.reply := by
  have hsame : ∀ s : World Bool, Unmistakable (fun _ => True) s s := fun s =>
    Alone.unmistakable (Or.inr le_rfl)
  have h1 : Reach (clientSystem Bool Op.plain (FirmwareStep 4 4)) (Unmistakable fun _ => True)
      ⟨fun _ => .ret (),startWorld zeroLink twoContexts⟩ ⟨fun _ => .ret (),firstSubmitted⟩ :=
    reach_along false 100 rfl ⟨⟨false,0⟩,noScripts,1,.callAsync 7 {} none 0,trivial,rfl⟩ (hsame _)
      (Res.Along.mono (fun _ _ => Alone.unmistakable) (by decide +kernel)) (by decide +kernel)
  have h2 : Step (clientSystem Bool Op.plain (FirmwareStep 4 4))
      ⟨fun _ => .ret (),firstSubmitted⟩ ⟨fun _ => .ret (),firstFetched⟩ :=
    .env _ _ .take
  have h3 : Step (clientSystem Bool Op.plain (FirmwareStep 4 4))
      ⟨fun _ => .ret (),firstFetched⟩ ⟨fun _ => .ret (),firstPosted⟩ :=
    .env _ _ (.post (completionFor 1 0 0) 0 ⟨1,0,1,0,0,0,[]⟩ (by decide +kernel)
      (by decide +kernel) (by decide +kernel) (by decide +kernel))
  have h4 : Reach (clientSystem Bool Op.plain (FirmwareStep 4 4)) (Unmistakable fun _ => True)
      ⟨fun _ => .ret (),firstPosted⟩ ⟨fun _ => .ret (),firstDelivered⟩ :=
    reach_along false 100 rfl ⟨⟨false,0⟩,noScripts,1,.poll 1,trivial,rfl⟩ (hsame _)
      (Res.Along.mono (fun _ _ => Alone.unmistakable) (by decide +kernel)) (by decide +kernel)
  have hr := (h1.tail ⟨h2,Alone.unmistakable (by decide +kernel)⟩).tail
    ⟨h3,Alone.unmistakable (by decide +kernel)⟩
  obtain ⟨after,hm⟩ := Event.exists_left 0 0 7 (firstDelivered.clients false).log (by decide +kernel)
  have hopened : Opened 4 4 twoContexts := ⟨by decide,by decide,fun _ => rfl,fun _ => rfl⟩
  have hx := replies_routed hopened (hr.trans h4) false
  exact ⟨after,hm,hx.1 0 7 after 0 hm⟩

/-- A `zz9k_call` submits no request whose id, opcode and cookie an earlier request has that was
given up and whose completion is still to come. -/
def NotStale {ι : Type} (s t : World ι) : Prop :=
  ∀ i key, t.submitted = s.submitted++[(i,key)] → key.waiter = .hostCall →
    ∀ tag j key', s.Outstanding tag → s.submitted[tag]? = some (j,key') →
      ¬key.accepts key'.requestId key'.opcode key'.userCookie

/-- A single client submits nothing while its `zz9k_call` is in progress, so that only what is
still under way can be mistaken. -/
theorem NotStale.unmistakable {n m : UInt32} {i : Unit} {s t : World Unit}
    (h : NotStale s t) (hacc : Accounts n m s) (ha : Act i s t) :
    Unmistakable (· = .hostCall) s t := by
  intro j key hs
  refine ⟨h j key hs,fun tag j' key' hw hk hR => ?_⟩
  have ho : (s.clients i).Open := by
    cases hacc.moves ha with
    | submitted _ ho => exact ho
    | called _ ho => exact ho
    | _ => simp_all
  rcases hw with ⟨key'',hc⟩ | ⟨key'',hp⟩ | ⟨p,hq,rfl⟩
  · have hk'' := hacc.calls j' _ hc
    obtain rfl := (Prod.mk.inj (Option.some.inj (hk.symm.trans hk''))).2
    exact absurd hR (hacc.open_calls ho _ hc)
  · exact Phase.noConfusion (ho.phase.symm.trans hp)
  · obtain ⟨key'',hk'',hw,_⟩ := hacc.pending j' p hq
    obtain rfl := (Prod.mk.inj (Option.some.inj (hk.symm.trans hk''))).2
    exact Waiter.noConfusion (hw.symm.trans hR)

/-- `zz9k_call` never accepts a stale completion, as long as no call passes the id, opcode and
cookie of a request whose completion is still to come. -/
theorem hostCall_fresh {n m : UInt32} {ctx : Context}
    {requestRing completionRing : Nat → MailboxWireEntry} {allowed : Op → Prop}
    {c : Config Unit (World Unit)} (h : Opened n m fun _ : Unit => ctx)
    (hc : Reach (clientSystem Unit allowed (FirmwareStep n m)) NotStale
      ⟨fun _ => .ret (),startWorld (idleLink requestRing completionRing) fun _ => ctx⟩ c) :
    ∀ tag serial reply, .answered tag serial reply ∈ (c.state.clients ()).log →
      ∃ key, c.state.submitted[tag]? = some ((),key) ∧
        (key.waiter = .hostCall → c.state.Answers serial tag reply) := by
  have hr := reach_routing (· = .hostCall) h (fun _ _ _ hacc ha hs => hs.unmistakable hacc ha) hc
  intro tag serial reply he
  obtain ⟨_,key,hk,hx⟩ := hr.routed () _ he
  exact ⟨key,hk,hx⟩

private def oneContext : Context := {requestRingEntries := 4,completionRingEntries := 4}

private def timedOut : World Unit :=
  ((operation ⟨false,0⟩ noScripts 1 () (.hostCall {} 1)).run
    (startWorld zeroLink fun _ => oneContext)).2

private def timedOutFetched : World Unit :=
  {timedOut with link := ((firmwareTake 4).run timedOut.link).2}

private def timedOutPosted : World Unit :=
  { timedOutFetched with
    link := ((firmwarePost 4 (completionFor 1 0 0x5aa55aa4)).run timedOutFetched.link).2
    tags := [0] }

private def calledAgain : World Unit :=
  ((operation ⟨false,0⟩ noScripts 1 () (.hostCall {requestId := 1,userCookie := 0x5aa55aa4} 1)).run
    timedOutPosted).2

/-- A request passed again after its call returned TIMEOUT keeps its id, and with it its cookie:
the completion of the first attempt answers the second. -/
theorem hostCall_stale : ¬∀ (n m : UInt32) (ctx : Context)
    (requestRing completionRing : Nat → MailboxWireEntry) (c : Config Unit (World Unit)),
    Opened n m (fun _ : Unit => ctx) → ctx.nextRequestId = 1 →
    Reach (clientSystem Unit (fun o => ∃ request ticks, o = .hostCall request ticks)
      (FirmwareStep n m)) (fun _ _ => True)
      ⟨fun _ => .ret (),startWorld (idleLink requestRing completionRing) fun _ => ctx⟩ c →
    c.state.submitted.length < 2^32 → ∀ tag serial reply,
      .answered tag serial reply ∈ (c.state.clients ()).log →
        c.state.Answers serial tag reply := by
  intro h
  let S := clientSystem Unit (fun o => ∃ request ticks, o = .hostCall request ticks)
    (FirmwareStep 4 4)
  have h1 : Reach S (fun _ _ => True)
      ⟨fun _ => .ret (),startWorld zeroLink fun _ => oneContext⟩ ⟨fun _ => .ret (),timedOut⟩ :=
    reach_solo () rfl ⟨⟨false,0⟩,noScripts,1,_,⟨_,_,rfl⟩,rfl⟩
  have h2 : Step S ⟨fun _ => .ret (),timedOut⟩ ⟨fun _ => .ret (),timedOutFetched⟩ :=
    .env _ _ .take
  have h3 : Step S ⟨fun _ => .ret (),timedOutFetched⟩ ⟨fun _ => .ret (),timedOutPosted⟩ :=
    .env _ _ (.post (completionFor 1 0 0x5aa55aa4) 0 ⟨1,0,1,0,0,0x5aa55aa4,[]⟩
      (by decide +kernel) (by decide +kernel) (by decide +kernel) (by decide +kernel))
  have h4 : Reach S (fun _ _ => True)
      ⟨fun _ => .ret (),timedOutPosted⟩ ⟨fun _ => .ret (),calledAgain⟩ :=
    reach_solo () rfl ⟨⟨false,0⟩,noScripts,1,_,⟨_,_,rfl⟩,rfl⟩
  obtain ⟨reply,hm⟩ := Event.exists_answer 1 0 (calledAgain.clients ()).log (by decide +kernel)
  have hx := h 4 4 oneContext _ _ ⟨fun _ => .ret (),calledAgain⟩
    ⟨by decide,by decide,fun _ => rfl,fun _ => rfl⟩ rfl
    (((h1.tail ⟨h2,trivial⟩).tail ⟨h3,trivial⟩).trans h4) (by decide +kernel) 1 0 reply hm
  exact absurd hx.1 (by decide +kernel)

private def call : Res (World Unit) Unit :=
  operation ⟨false,0⟩ noScripts 1 () (.hostCall {} 1)

private def inFlight : Config Unit (World Unit) :=
  Config.set ⟨fun _ => call,startWorld zeroLink fun _ => oneContext⟩ ()
    (call.advance 2 (startWorld zeroLink fun _ => oneContext)).1
    (call.advance 2 (startWorld zeroLink fun _ => oneContext)).2

private def inFlightFetched : Config Unit (World Unit) :=
  ⟨inFlight.prog,{inFlight.state with link := ((firmwareTake 4).run inFlight.state.link).2}⟩

private def inFlightPosted : Config Unit (World Unit) :=
  ⟨inFlight.prog,{ inFlightFetched.state with
    link := ((firmwarePost 4 (completionFor 1 0 0x5aa55aa4)).run inFlightFetched.state.link).2
    tags := [0] }⟩

private def inTime : Config Unit (World Unit) :=
  inFlightPosted.set () (.ret ()) ((inFlightPosted.prog ()).run inFlightPosted.state).2

/-- A call whose completion arrives while it waits -/
theorem hostCall_fresh_inTime : ∃ reply,
    Event.answered 0 0 reply ∈ (inTime.state.clients ()).log ∧
      ∃ key, inTime.state.submitted[0]? = some ((),key) ∧
        (key.waiter = .hostCall → inTime.state.Answers 0 0 reply) := by
  let S := clientSystem Unit (fun _ => True) (FirmwareStep 4 4)
  have halone : ∀ s t : World Unit, Alone s t → NotStale s t := by
    intro s t h i key hs _ tag j key' ho hk
    rcases h with h | h
    · rw [List.isEmpty_iff] at h
      simp [h] at hk
    · simp [hs] at h
  have h1 : Reach S NotStale ⟨fun _ => .ret (),startWorld zeroLink fun _ => oneContext⟩
      ⟨fun _ => call,startWorld zeroLink fun _ => oneContext⟩ := by
    refine .single ⟨?_,halone _ _ (by decide +kernel)⟩
    have hs := Step.start (S := S) ⟨fun _ => .ret (),startWorld zeroLink fun _ => oneContext⟩ ()
      call rfl ⟨⟨false,0⟩,noScripts,1,.hostCall {} 1,trivial,rfl⟩
    have hset : Function.update (fun _ : Unit => Res.ret ()) () call = fun _ => call := by
      funext u
      simp
    rwa [Config.set,hset] at hs
  have h2 : Reach S NotStale ⟨fun _ => call,startWorld zeroLink fun _ => oneContext⟩ inFlight :=
    reach_advance () 2 (Res.Along.mono halone (by decide +kernel))
  have h3 : Step S inFlight inFlightFetched := .env _ _ .take
  have h4 : Step S inFlightFetched inFlightPosted :=
    .env _ _ (.post (completionFor 1 0 0x5aa55aa4) 0 ⟨1,0,1,0,0,0x5aa55aa4,[]⟩
      (by decide +kernel) (by decide +kernel) (by decide +kernel) (by decide +kernel))
  have h5 : Reach S NotStale inFlightPosted inTime :=
    reach_finish () 100 (Res.Along.mono halone (by decide +kernel)) (by decide +kernel)
  have hr := ((h1.trans h2).tail ⟨h3,halone _ _ (by decide +kernel)⟩).tail
    ⟨h4,halone _ _ (by decide +kernel)⟩
  obtain ⟨reply,hm⟩ := Event.exists_answer 0 0 (inTime.state.clients ()).log (by decide +kernel)
  have hopened : Opened 4 4 fun _ : Unit => oneContext :=
    ⟨by decide,by decide,fun _ => rfl,fun _ => rfl⟩
  exact ⟨reply,hm,hostCall_fresh hopened (hr.trans h5) 0 0 reply hm⟩

end ZZ9K.Runtime
