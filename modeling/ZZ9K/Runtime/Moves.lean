import ZZ9K.Runtime.Bookkeeping

namespace ZZ9K.Runtime

open ZZ9K.Abi ZZ9K.Host ZZ9K.Framework

/-- No object has become pending, and those that still are have not changed. -/
def Fewer (c c' : Client) : Prop :=
  ∀ p, (c'.asyncs p).queued = true → (c.asyncs p).queued = true ∧
    (c'.asyncs p).requestId = (c.asyncs p).requestId ∧ c'.tagOf p = c.tagOf p

theorem Fewer.refl (c : Client) : Fewer c c := fun _ h => ⟨h,rfl,rfl⟩

theorem Fewer.trans {a b c : Client} (h : Fewer a b) (h' : Fewer b c) : Fewer a c := by
  intro p hp
  obtain ⟨hb,hr,ht⟩ := h' p hp
  obtain ⟨ha,hr',ht'⟩ := h p hb
  exact ⟨ha,hr.trans hr',ht.trans ht'⟩

theorem Fewer.of_eq {c c' : Client} (ha : c'.asyncs = c.asyncs) (ht : c'.tagOf = c.tagOf) :
    Fewer c c' := by
  intro p hp
  rw [ha] at hp
  exact ⟨hp,by rw [ha],by rw [ht]⟩

/-- The client is where it was, except that requests may have been taken off its list, for
another reason than a reply and not in the middle of an operation. -/
structure Quiet (c c' : Client) : Prop where
  phase : c'.phase = c.phase
  calls : c'.calls = c.calls
  fewer : Fewer c c'
  held : c.phase ≠ .idle → c'.asyncs = c.asyncs ∧ c'.tagOf = c.tagOf ∧
    c'.library.pendingHead = c.library.pendingHead ∧ c'.log = c.log
  log : ∃ es, c'.log = c.log++es ∧ ∀ e ∈ es,
    (∃ tag p after cause, e = .left tag p after cause ∧ ∀ serial, cause ≠ .reply serial) ∨
      ∃ tag callback, e = .called tag callback

/-- What a client's step does to who waits and to the log: the actions, seen from outside. -/
inductive Moves {ι : Type} [DecidableEq ι] (i : ι) (s t : World ι) : Prop
  | quiet (hs : t.submitted = s.submitted) (hq : Quiet (s.clients i) (t.clients i))
  | submitted (key : Key) (ho : (s.clients i).Open) (hk : key.waiter = .async)
      (hs : t.submitted = s.submitted++[(i,key)])
      (hp : (t.clients i).phase = .submitted s.submitted.length key)
      (hc : (t.clients i).calls = (s.clients i).calls)
      (hf : Fewer (s.clients i) (t.clients i)) (hl : (t.clients i).log = (s.clients i).log)
  | called (key : Key) (ho : (s.clients i).Open) (hk : key.waiter ≠ .async)
      (hs : t.submitted = s.submitted++[(i,key)])
      (hp : (t.clients i).phase = .idle)
      (hc : (t.clients i).calls = (s.submitted.length,key) :: (s.clients i).calls)
      (hf : Fewer (s.clients i) (t.clients i)) (hl : (t.clients i).log = (s.clients i).log)
  | inserted (p : AsyncPtr) (tag : Nat) (key : Key) (hs : t.submitted = s.submitted)
      (hp : (s.clients i).phase = .submitted tag key) (hk : key.waiter = .async)
      (hu : Unlocked (s.clients i).calls)
      (hp' : (t.clients i).phase = .idle) (hc : (t.clients i).calls = (s.clients i).calls)
      (hq : ((t.clients i).asyncs p).requestId = key.requestId ∧ (t.clients i).tagOf p = tag)
      (hf : ∀ q, q ≠ p → ((t.clients i).asyncs q).queued = true →
        ((s.clients i).asyncs q).queued = true ∧
        ((t.clients i).asyncs q).requestId = ((s.clients i).asyncs q).requestId ∧
        (t.clients i).tagOf q = (s.clients i).tagOf q)
      (hl : ∃ callback, (t.clients i).log = (s.clients i).log++[.accepted tag p callback])
  | took (reply : MailboxEntry) (hs : t.submitted = s.submitted)
      (hp : (s.clients i).phase = .idle)
      (ht : t = (takeStep i reply s).2)
      (hok : ((consumeNextCompletionLocked (s.clients i).ctx reply).run s.link).1.status = .ok)
  | delivered (serial : Nat) (reply : MailboxEntry) (l₁ : List AsyncPtr) (p : AsyncPtr)
      (l₂ : List AsyncPtr) (hs : t.submitted = s.submitted)
      (hp : (s.clients i).phase = .took serial reply) (hu : Unlocked (s.clients i).calls)
      (hc : Chain (s.clients i).next (s.clients i).library.pendingHead (l₁++p :: l₂))
      (hid : ((s.clients i).asyncs p).requestId = reply.requestId)
      (hfirst : ∀ q ∈ l₁, ((s.clients i).asyncs q).requestId ≠ reply.requestId)
      (ht : t.clients i = {(s.clients i).leave l₁.getLast? p (replied reply) (.reply serial) with
        phase := .idle})
  | dropped (serial : Nat) (reply : MailboxEntry) (hs : t.submitted = s.submitted)
      (hp : (s.clients i).phase = .took serial reply)
      (hn : (∃ f ∈ (s.clients i).calls.head?, f.2.waiter = .hostCall) ∨
        ∀ p, ((s.clients i).asyncs p).queued = true →
          ((s.clients i).asyncs p).requestId ≠ reply.requestId)
      (ht : t.clients i = {s.clients i with phase := .idle})
  | answered (serial : Nat) (reply : MailboxEntry) (f : Nat × Key) (calls : List (Nat × Key))
      (hs : t.submitted = s.submitted) (hp : (s.clients i).phase = .took serial reply)
      (hc : (s.clients i).calls = f :: calls)
      (hr : f.2.accepts reply.requestId reply.opcode reply.userCookie)
      (ht : t.clients i = {s.clients i with
        phase := .idle
        calls
        log := (s.clients i).log++[.answered f.1 serial reply]})
  | gaveUp (f : Nat × Key) (calls : List (Nat × Key)) (hs : t.submitted = s.submitted)
      (hp : (s.clients i).phase = .idle) (hc : (s.clients i).calls = f :: calls)
      (ht : t.clients i = {s.clients i with calls})

/-- Calls are begun and ended at the top. -/
theorem Moves.calls_cases {ι : Type} [DecidableEq ι] {i : ι} {s t : World ι}
    (h : Moves i s t) : (t.clients i).calls = (s.clients i).calls ∨
      (∃ f, (s.clients i).Open ∧ (t.clients i).calls = f :: (s.clients i).calls) ∨
        ∃ f, (s.clients i).calls = f :: (t.clients i).calls := by
  cases h with
  | quiet _ hq => exact Or.inl hq.calls
  | submitted key _ _ _ _ hc => exact Or.inl hc
  | called key ho _ _ _ hc => exact Or.inr (Or.inl ⟨_,ho,hc⟩)
  | inserted p tag key _ _ _ _ _ hc => exact Or.inl hc
  | took reply _ _ ht hok =>
    rw [ht,takeStep_ok _ _ _ hok]
    exact Or.inl (by simp)
  | delivered serial reply l₁ p l₂ _ _ _ _ _ _ ht => exact Or.inl (by simp [ht])
  | dropped serial reply _ _ _ ht => exact Or.inl (by rw [ht])
  | answered serial reply f calls _ _ hc _ ht => exact Or.inr (Or.inr ⟨f,by rw [ht]; exact hc⟩)
  | gaveUp f calls _ _ hc ht => exact Or.inr (Or.inr ⟨f,by rw [ht]; exact hc⟩)

theorem leave_fewer (c : Client) (prev : Option AsyncPtr) (p : AsyncPtr)
    {f : AsyncRequest → AsyncRequest} (cause : Cause) (hf : ∀ a, (f a).queued = false) :
    Fewer c (c.leave prev p f cause) := by
  intro q hq
  by_cases hqp : q = p
  · subst hqp
    simp [leave_asyncs,hf] at hq
  · obtain ⟨next,hu⟩ := unlink_others c prev p hqp
    simp only [leave_asyncs,Function.update_of_ne hqp,hu] at hq ⊢
    exact ⟨hq,trivial,by simp⟩

/-- Closing only takes requests off. -/
theorem cancelPendingLoop_quiet (fuel : Nat) (p : Option AsyncPtr) (c : Client)
    (hidle : c.phase = .idle) : Quiet c (cancelPendingLoop fuel p c) := by
  have hrefl : ∀ c, Quiet c c :=
    fun c => ⟨rfl,rfl,.refl c,fun _ => ⟨rfl,rfl,rfl,rfl⟩,[],by simp,by simp⟩
  induction fuel generalizing p c with
  | zero => exact hrefl c
  | succ fuel ih =>
    cases p with
    | none => exact hrefl c
    | some p =>
      rw [cancelPendingLoop]
      dsimp only
      generalize ha : {c.asyncs p with
        next := none,queued := false,completed := true,status := .cancelled} = after
      obtain ⟨hp,hc,hf,_,es,hl,he⟩ := ih (c.asyncs p).next
        ((c.setAsync p after).record (.left (c.tagOf p) p after .closed)) hidle
      refine ⟨hp,hc,Fewer.trans ?_ hf,fun h => absurd hidle h,
        .left (c.tagOf p) p after .closed :: es,?_,?_⟩
      · intro q hq
        by_cases hqp : q = p
        · subst hqp
          subst ha
          simp [Client.record,Client.setAsync] at hq
        · simpa [Client.record,Client.setAsync,hqp] using hq
      · rw [hl]
        simp [Client.record,Client.setAsync]
      · intro e hm
        rcases List.mem_cons.mp hm with rfl | hm
        · exact Or.inl ⟨_,_,_,_,rfl,fun serial h => Cause.noConfusion h⟩
        · exact he e hm

section

variable {ι : Type} [DecidableEq ι] {i : ι} {s t : World ι}

theorem submitStep_moves {waiter : Waiter} {ctx : Context} {request : MailboxEntry}
    (hw : waiter ≠ .batch) (ho : (s.clients i).Open) :
    Moves i s (submitStep i waiter ctx request s).2 := by
  by_cases hq : ((enqueueRequestLocked ctx request).run s.link).1.status = .queued
  · rw [submitStep_queued _ _ _ _ _ hq]
    cases waiter with
    | async =>
      exact .submitted (submittedKey .async ctx request s) ho rfl rfl
        (by simp [Client.begin,submittedKey]) (by simp [Client.begin,submittedKey])
        (.of_eq (by simp [Client.begin,submittedKey]) (by simp [Client.begin,submittedKey]))
        (by simp [Client.begin,submittedKey])
    | batch => exact absurd rfl hw
    | libraryCall =>
      exact .called (submittedKey .libraryCall ctx request s) ho (by simp [submittedKey]) rfl
        (by simp [Client.begin,submittedKey,ho.phase]) (by simp [Client.begin,submittedKey])
        (.of_eq (by simp [Client.begin,submittedKey]) (by simp [Client.begin,submittedKey]))
        (by simp [Client.begin,submittedKey])
    | hostCall =>
      exact .called (submittedKey .hostCall ctx request s) ho (by simp [submittedKey]) rfl
        (by simp [Client.begin,submittedKey,ho.phase]) (by simp [Client.begin,submittedKey])
        (.of_eq (by simp [Client.begin,submittedKey]) (by simp [Client.begin,submittedKey]))
        (by simp [Client.begin,submittedKey])
  · rw [submitStep_refused _ _ _ _ _ hq]
    refine .quiet rfl ⟨?_,?_,.of_eq ?_ ?_,fun h => absurd ho.phase h,[],?_,by simp⟩ <;> simp

/-- Every action is one of these moves, as long as the pending list is in order. -/
theorem Act.moves {n : Nat} (hb : Bookkept n (s.clients i)) (h : Act i s t) : Moves i s t := by
  have hsame : Moves i s s :=
    .quiet rfl ⟨rfl,rfl,.refl _,fun _ => ⟨rfl,rfl,rfl,rfl⟩,[],by simp,by simp⟩
  have quiet : ∀ c : Client, c.phase = (s.clients i).phase → c.calls = (s.clients i).calls →
      c.log = (s.clients i).log → c.asyncs = (s.clients i).asyncs → c.tagOf = (s.clients i).tagOf →
      c.library.pendingHead = (s.clients i).library.pendingHead →
      Moves i s (s.setClient i c) := by
    intro c hp hc hl ha ht hh
    refine .quiet rfl ?_
    rw [World.setClient_self]
    exact ⟨hp,hc,.of_eq ha ht,fun _ => ⟨ha,ht,hh,hl⟩,[],by simp [hl],by simp⟩
  cases h with
  | skip => exact hsame
  | context f hf => exact quiet _ rfl rfl rfl rfl rfl rfl
  | library f hf => exact quiet _ rfl rfl rfl rfl rfl (hf _)
  | setAsync p a ho hp ha hc =>
    refine .quiet rfl ?_
    simp only [setAsyncStep,World.setClient_self]
    refine ⟨rfl,rfl,fun q hq => ?_,fun h => absurd ho.phase h,[],by simp [Client.setAsync],by simp⟩
    by_cases hqp : q = p
    · subst hqp
      simp [Client.setAsync,ha] at hq
    · simpa [Client.setAsync,hqp] using hq
  | submit waiter request ho hw =>
    refine submitStep_moves ?_ ho
    rcases hw with rfl | rfl <;> simp
  | callSubmit request ho => exact submitStep_moves (by simp) ho
  | insert p tag key hp hc hk hq hd =>
    refine .inserted p tag key rfl hp hk hc ?_ ?_ ⟨?_,?_⟩ (fun q hqp hqq => ?_)
      ⟨((s.clients i).asyncs p).callback,?_⟩
    · simp [insertStep,Client.record]
    · simp [insertStep,Client.record,Client.setAsync]
    · simp [insertStep,Client.record,Client.setAsync,linked]
    · simp [insertStep,Client.record,hp]
    · simp [insertStep,Client.record,Client.setAsync,hqp] at hqq ⊢
      exact hqq
    · simp [insertStep,Client.record,Client.setAsync,hp]
  | take reply hp =>
    by_cases hok :
        ((consumeNextCompletionLocked (s.clients i).ctx reply).run s.link).1.status = .ok
    · refine .took reply ?_ hp rfl hok
      rw [takeStep_ok _ _ _ hok]
      rfl
    · rw [takeStep_none _ _ _ hok]
      exact .quiet rfl ⟨rfl,rfl,.refl _,fun _ => ⟨rfl,rfl,rfl,rfl⟩,[],by simp,by simp⟩
  | dispatch serial reply hp hc =>
    obtain ⟨l,hl,hb⟩ := hb
    unfold dispatchStep
    rcases findPending_cases hl reply.requestId with ⟨hn,hnone⟩ | ⟨l₁,p,l₂,rfl,hid,hfirst,hs⟩
    · simp only [hn]
      refine .dropped serial reply rfl hp (Or.inr fun p hq => hnone p ((hb.queued p).mpr hq)) ?_
      simp [discardStep]
    · simp only [hs,hp]
      exact .delivered serial reply l₁ p l₂ rfl hp hc hl hid hfirst (by simp)
  | discard serial reply f calls hp hc hk =>
    exact .dropped serial reply rfl hp (Or.inl ⟨f,by simp [hc],hk⟩) (by simp [discardStep])
  | answer serial reply f calls hp hc hr =>
    rw [answerStep_eq hp hc]
    exact .answered serial reply f calls rfl hp hc hr (by simp)
  | giveUp f calls hp hc => exact .gaveUp f calls rfl hp hc (by simp [giveUpStep,hc])
  | cancel async ho =>
    unfold cancelStep
    dsimp only
    split_ifs
    · exact hsame
    · split
      · exact hsame
      · split_ifs
        · exact hsame
        · refine .quiet rfl ?_
          rw [World.setClient_self]
          refine ⟨by simp,by simp,leave_fewer _ _ _ _ fun _ => rfl,fun h => absurd ho.phase h,_,
            leave_log ..,?_⟩
          intro e he
          unfold leftEvents at he
          split at he <;> simp only [List.mem_cons,List.not_mem_nil,or_false] at he
          · exact Or.inl ⟨_,_,_,_,he,fun serial h => Cause.noConfusion h⟩
          · rcases he with rfl | rfl
            · exact Or.inl ⟨_,_,_,_,rfl,fun serial h => Cause.noConfusion h⟩
            · exact Or.inr ⟨_,_,rfl⟩
  | close ho =>
    refine .quiet rfl ?_
    have hq := cancelPendingLoop_quiet (2^32) (s.clients i).library.pendingHead
      {s.clients i with library := {(s.clients i).library with pendingHead := none}} ho.phase
    simp only [closeStep,World.setClient_self,cancelPending]
    exact ⟨hq.phase,hq.calls,hq.fewer,fun h => absurd ho.phase h,hq.log⟩

end

end ZZ9K.Runtime
