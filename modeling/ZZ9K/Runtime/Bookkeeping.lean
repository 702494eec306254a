import ZZ9K.Runtime.Programs

namespace ZZ9K.Runtime

open ZZ9K.Abi ZZ9K.Host ZZ9K.Framework

/-- The async submission an event is about -/
def Event.about : Event → Option Nat
  | .accepted tag _ _ => some tag
  | .left tag _ _ _ => some tag
  | .called tag _ => some tag
  | .took _ _ _ => none
  | .answered _ _ _ => none

/-- What happened to one submission -/
def history (tag : Nat) (log : List Event) : List Event :=
  log.filter fun e => e.about = some tag

/-- All that can happen to an async submission: it is accepted, leaves the list once, and its
callback, if it has one, is invoked right then, but not when the library is closed. -/
inductive Lifecycle (tag : Nat) : List Event → Prop
  | unused : Lifecycle tag []
  | pending (p : AsyncPtr) (callback : Option CallbackId) :
      Lifecycle tag [.accepted tag p callback]
  | silent (p : AsyncPtr) (after : AsyncRequest) (cause : Cause) :
      Lifecycle tag [.accepted tag p none,.left tag p after cause]
  | called (p : AsyncPtr) (callback : CallbackId) (after : AsyncRequest) (cause : Cause)
      (hc : cause ≠ .closed) :
      Lifecycle tag [.accepted tag p (some callback),.left tag p after cause,.called tag callback]
  | closed (p : AsyncPtr) (callback : CallbackId) (after : AsyncRequest) :
      Lifecycle tag [.accepted tag p (some callback),.left tag p after .closed]

theorem history_append (tag : Nat) (log es : List Event) :
    history tag (log++es) = history tag log++history tag es := List.filter_append _ _

theorem history_other {tag : Nat} {es : List Event} (h : ∀ e ∈ es, e.about ≠ some tag) :
    history tag es = [] := by
  rw [history,List.filter_eq_nil_iff]
  exact fun e he => by simpa using h e he

theorem history_all {tag : Nat} {es : List Event} (h : ∀ e ∈ es, e.about = some tag) :
    history tag es = es := by
  rw [history,List.filter_eq_self]
  exact fun e he => by simpa using h e he

/-- The requests in `l` are the pending ones, and the log accounts for every submission; `n`
submissions have been made so far. -/
structure Books (l : List AsyncPtr) (n : Nat) (c : Client) : Prop where
  nodup : l.Nodup
  queued : ∀ p, p ∈ l ↔ (c.asyncs p).queued = true
  exclusive : ∀ p, (c.asyncs p).queued = true → (c.asyncs p).completed = false
  lifecycle : ∀ tag, Lifecycle tag (history tag c.log)
  accepted : ∀ tag p callback, history tag c.log = [.accepted tag p callback] ↔
    p ∈ l ∧ c.tagOf p = tag ∧ (c.asyncs p).callback = callback
  fresh : ∀ tag, n ≤ tag → history tag c.log = []
  submitted : ∀ tag key, c.phase = .submitted tag key → tag < n ∧ history tag c.log = []

/-- The pending list in memory is well formed and its books are in order. -/
def Bookkept (n : Nat) (c : Client) : Prop :=
  ∃ l, Chain c.next c.library.pendingHead l ∧ Books l n c

namespace Books

variable {l : List AsyncPtr} {n : Nat} {c : Client}

theorem pending_history (h : Books l n c) {p : AsyncPtr} (hp : p ∈ l) :
    history (c.tagOf p) c.log = [.accepted (c.tagOf p) p (c.asyncs p).callback] :=
  (h.accepted _ _ _).mpr ⟨hp,rfl,rfl⟩

theorem tagOf_inj (h : Books l n c) {p q : AsyncPtr} (hp : p ∈ l) (hq : q ∈ l)
    (ht : c.tagOf p = c.tagOf q) : p = q := by
  have he := h.pending_history hp
  rw [ht,h.pending_history hq] at he
  simp only [List.cons.injEq,Event.accepted.injEq] at he
  exact he.1.2.1.symm

theorem mono (h : Books l n c) {n' : Nat} (hn : n ≤ n') : Books l n' c :=
  { h with
    fresh := fun tag ht => h.fresh tag (hn.trans ht)
    submitted := fun tag key hp => ⟨(h.submitted tag key hp).1.trans_le hn,
      (h.submitted tag key hp).2⟩ }

/-- Nothing the books are about has changed. -/
theorem congr (h : Books l n c) {c' : Client} (ha : c'.asyncs = c.asyncs)
    (ht : c'.tagOf = c.tagOf) (hl : ∀ tag, history tag c'.log = history tag c.log)
    (hp : ∀ tag key, c'.phase = .submitted tag key → c.phase = .submitted tag key) :
    Books l n c' := by
  refine ⟨h.nodup,?_,?_,?_,?_,?_,?_⟩
  · rw [ha]
    exact h.queued
  · rw [ha]
    exact h.exclusive
  · exact fun tag => hl tag ▸ h.lifecycle tag
  · rw [ha,ht]
    exact fun tag p callback => hl tag ▸ h.accepted tag p callback
  · exact fun tag hn => (hl tag).trans (h.fresh tag hn)
  · exact fun tag key hk => ⟨(h.submitted tag key (hp tag key hk)).1,
      (hl tag).trans (h.submitted tag key (hp tag key hk)).2⟩

/-- An object that is not pending is overwritten. -/
theorem setAsync (h : Books l n c) {p : AsyncPtr} {a : AsyncRequest}
    (hp : (c.asyncs p).queued = false) (ha : a.queued = false) : Books l n (c.setAsync p a) := by
  have hpl : p ∉ l := fun hl => by simp [(h.queued p).mp hl] at hp
  refine ⟨h.nodup,fun q => ?_,fun q hq => ?_,h.lifecycle,fun tag q callback => ?_,h.fresh,
    h.submitted⟩
  · by_cases he : q = p
    · subst he
      simp [Client.setAsync,ha,hpl]
    · simpa [Client.setAsync,he] using h.queued q
  · by_cases he : q = p
    · subst he
      simp [Client.setAsync,ha] at hq
    · simp only [Client.setAsync,Function.update_of_ne he] at hq ⊢
      exact h.exclusive q hq
  · rw [show (c.setAsync p a).log = c.log from rfl,h.accepted]
    refine and_congr_right fun hq => ?_
    have he : q ≠ p := fun he => hpl (he ▸ hq)
    simp [Client.setAsync,he]

/-- A submitted object becomes pending. -/
theorem insert (h : Books l n c) {p : AsyncPtr} {tag : Nat} {key : Key} {a : AsyncRequest}
    {c' : Client} (hp : c.phase = .submitted tag key) (hq : (c.asyncs p).queued = false)
    (ha : a.queued = true ∧ a.completed = false) (hasyncs : c'.asyncs = Function.update c.asyncs p a)
    (htag : c'.tagOf = Function.update c.tagOf p tag) (hphase : c'.phase = .idle)
    (hlog : c'.log = c.log++[.accepted tag p a.callback]) : Books (p :: l) n c' := by
  have hpl : p ∉ l := fun hl => by simp [(h.queued p).mp hl] at hq
  obtain ⟨htn,hempty⟩ := h.submitted tag key hp
  have hself : history tag c'.log = [.accepted tag p a.callback] := by
    rw [hlog,history_append,hempty,history_all (by simp [Event.about])]
    rfl
  have hother : ∀ tag', tag' ≠ tag → history tag' c'.log = history tag' c.log := by
    intro tag' ht
    have he : history tag' [.accepted tag p a.callback] = [] :=
      history_other (by simpa [Event.about] using Ne.symm ht)
    rw [hlog,history_append,he,List.append_nil]
  refine ⟨List.nodup_cons.mpr ⟨hpl,h.nodup⟩,fun q => ?_,fun q hq' => ?_,fun tag' => ?_,
    fun tag' q callback => ?_,fun tag' ht => ?_,fun tag' key' hk => ?_⟩
  · by_cases he : q = p
    · simp [he,hasyncs,ha.1]
    · simpa [he,hasyncs] using h.queued q
  · by_cases he : q = p
    · simp [he,hasyncs,ha.2]
    · simp only [hasyncs,Function.update_of_ne he] at hq' ⊢
      exact h.exclusive q hq'
  · by_cases ht : tag' = tag
    · rw [ht,hself]
      exact .pending p _
    · rw [hother tag' ht]
      exact h.lifecycle tag'
  · by_cases he : q = p
    · subst he
      by_cases ht : tag' = tag
      · subst ht
        rw [hself]
        simp [htag,hasyncs]
      · rw [hother tag' ht,h.accepted]
        simp [hpl,htag,hasyncs,Ne.symm ht]
    · by_cases ht : tag' = tag
      · subst ht
        rw [hself]
        have hq : ¬(q ∈ l ∧ c.tagOf q = tag') := by
          rintro ⟨hql,hqt⟩
          have hh := h.pending_history hql
          rw [hqt,hempty] at hh
          exact absurd hh (by simp)
        simp only [htag,hasyncs,Function.update_of_ne he,List.mem_cons,he,false_or]
        constructor
        · intro hh
          simp only [List.cons.injEq,Event.accepted.injEq] at hh
          exact absurd hh.1.2.1.symm he
        · exact fun hh => absurd ⟨hh.1,hh.2.1⟩ hq
      · rw [hother tag' ht,h.accepted]
        simp [htag,hasyncs,he]
  · rw [hother tag' (by omega)]
    exact h.fresh tag' ht
  · rw [hphase] at hk
    exact Phase.noConfusion hk

/-- A pending object stops being pending, and the events `es` say so. -/
theorem remove (h : Books l n c) {p : AsyncPtr} (hp : p ∈ l) {l' : List AsyncPtr}
    (hl' : l'.Nodup) (hmem : ∀ q, q ∈ l' ↔ q ∈ l ∧ q ≠ p) {c' : Client} (es : List Event)
    (hasyncs : ∀ q, q ≠ p → (c'.asyncs q).queued = (c.asyncs q).queued ∧
      (c'.asyncs q).completed = (c.asyncs q).completed ∧
      (c'.asyncs q).callback = (c.asyncs q).callback)
    (hqueued : (c'.asyncs p).queued = false) (htag : c'.tagOf = c.tagOf)
    (hphase : ∀ tag key, c'.phase ≠ .submitted tag key) (hlog : c'.log = c.log++es)
    (hes : es ≠ []) (habout : ∀ e ∈ es, e.about = some (c.tagOf p))
    (hlife : Lifecycle (c.tagOf p) (.accepted (c.tagOf p) p (c.asyncs p).callback :: es)) :
    Books l' n c' := by
  have hself : history (c.tagOf p) c'.log =
      .accepted (c.tagOf p) p (c.asyncs p).callback :: es := by
    rw [hlog,history_append,h.pending_history hp,history_all habout]
    rfl
  have hother : ∀ tag, tag ≠ c.tagOf p → history tag c'.log = history tag c.log := by
    intro tag ht
    have he : history tag es = [] :=
      history_other fun e he hc => ht (Option.some.inj (hc.symm.trans (habout e he)))
    rw [hlog,history_append,he,List.append_nil]
  refine ⟨hl',fun q => ?_,fun q hq => ?_,fun tag => ?_,fun tag q callback => ?_,fun tag ht => ?_,
    fun tag key hk => absurd hk (hphase tag key)⟩
  · rw [hmem]
    by_cases he : q = p
    · simp [he,hqueued]
    · rw [(hasyncs q he).1,← h.queued q]
      simp [he]
  · have he : q ≠ p := fun he => by simp [he,hqueued] at hq
    rw [(hasyncs q he).1] at hq
    rw [(hasyncs q he).2.1]
    exact h.exclusive q hq
  · by_cases ht : tag = c.tagOf p
    · rw [ht,hself]
      exact hlife
    · rw [hother tag ht]
      exact h.lifecycle tag
  · rw [hmem,htag]
    by_cases ht : tag = c.tagOf p
    · subst ht
      rw [hself]
      constructor
      · intro hh
        exact absurd (List.cons.inj hh).2 hes
      · rintro ⟨⟨hq,he⟩,hqt,_⟩
        exact absurd (h.tagOf_inj hq hp hqt) he
    · rw [hother tag ht,h.accepted]
      constructor
      · rintro ⟨hq,hqt,hcb⟩
        have he : q ≠ p := fun he => ht (he ▸ hqt.symm)
        exact ⟨⟨hq,he⟩,hqt,(hasyncs q he).2.2.trans hcb⟩
      · rintro ⟨⟨hq,he⟩,hqt,hcb⟩
        exact ⟨hq,hqt,(hasyncs q he).2.2.symm.trans hcb⟩
  · have hne : tag ≠ c.tagOf p := by
      rintro rfl
      have hh := h.fresh _ ht
      rw [h.pending_history hp] at hh
      exact absurd hh (by simp)
    rw [hother tag hne]
    exact h.fresh tag ht

end Books

/-- Searching the pending list finds the first request with the id, and its predecessor. -/
theorem findPending_cases {c : Client} {l : List AsyncPtr}
    (h : Chain c.next c.library.pendingHead l) (requestId : UInt32) :
    (findPending c requestId = none ∧ ∀ p ∈ l, (c.asyncs p).requestId ≠ requestId) ∨
      ∃ l₁ p l₂, l = l₁++p :: l₂ ∧ (c.asyncs p).requestId = requestId ∧
        (∀ q ∈ l₁, (c.asyncs q).requestId ≠ requestId) ∧
        findPending c requestId = some (l₁.getLast?,p) := by
  have hlen : l.length ≤ 2^32 := h.length_le.trans (Fintype.card_fin _).le
  rcases h.search_cases (fun p => (c.asyncs p).requestId == requestId) (2^32) hlen none with
    ⟨hs,hl⟩ | ⟨l₁,p,l₂,rfl,hp,hl,hs⟩
  · exact Or.inl ⟨hs,fun p hp => by simpa using hl p hp⟩
  · refine Or.inr ⟨l₁,p,l₂,rfl,by simpa using hp,fun q hq => by simpa using hl q hq,?_⟩
    rw [findPending,hs,Option.or_none]

/-- Leaving the list through a reply or a cancellation keeps the books. -/
theorem Bookkept.leave {c : Client} {n : Nat} {l₁ l₂ : List AsyncPtr} {p : AsyncPtr}
    {f : AsyncRequest → AsyncRequest} {cause : Cause} (phase : Phase)
    (hc : Chain c.next c.library.pendingHead (l₁++p :: l₂)) (hb : Books (l₁++p :: l₂) n c)
    (hnext : ∀ a, (f a).next = a.next) (hq : ∀ a, (f a).queued = false)
    (hcb : ∀ a, (f a).callback = a.callback) (hcause : cause ≠ .closed)
    (hphase : ∀ tag key, phase ≠ .submitted tag key) :
    Bookkept n {c.leave l₁.getLast? p f cause with phase} := by
  have hchain := hc.unlink
  have hd : p ∉ l₁++l₂ := by
    have := hb.nodup
    rw [List.nodup_append] at this
    simp only [List.nodup_cons,List.mem_append] at this ⊢
    rintro (hp | hp)
    · exact this.2.2 p hp p List.mem_cons_self rfl
    · exact this.2.1.1 hp
  refine ⟨l₁++l₂,?_,?_⟩
  · have hn : Client.next {c.leave l₁.getLast? p f cause with phase} =
        unlinkNext c.next l₁.getLast? p := leave_next c _ p f cause hnext
    rw [hn]
    simpa only [leave_pendingHead] using hchain
  refine hb.remove (p := p) (by simp) hchain.nodup (fun q => ?_)
    (leftEvents (c.tagOf p) p (f {c.asyncs p with next := none}) cause)
    (fun q hqp => ?_) ?_ (leave_tagOf ..) hphase
    (leave_log ..) (by simp [leftEvents]) ?_ ?_
  · constructor
    · exact fun h => ⟨by simp at h ⊢; tauto,fun he => hd (he ▸ h)⟩
    · rintro ⟨h,he⟩
      simp [he] at h
      simpa using h
  · obtain ⟨next,hu⟩ := unlink_others c l₁.getLast? p hqp
    simp [leave_asyncs,hqp,hu]
  · simp [leave_asyncs,hq]
  · intro e he
    unfold leftEvents at he
    split at he <;> simp only [List.mem_cons,List.not_mem_nil,or_false] at he
    · rw [he]
      rfl
    · rcases he with rfl | rfl <;> rfl
  · have hcb' := hcb {c.asyncs p with next := none}
    rw [← hcb']
    unfold leftEvents
    split
    case h_1 hn =>
      rw [hn]
      exact .silent p _ cause
    case h_2 callback hs =>
      rw [hs]
      exact .called p callback _ cause hcause

theorem Bookkept.congr {c c' : Client} {n : Nat} (h : Bookkept n c) (ha : c'.asyncs = c.asyncs)
    (hh : c'.library.pendingHead = c.library.pendingHead) (ht : c'.tagOf = c.tagOf)
    (hl : ∀ tag, history tag c'.log = history tag c.log)
    (hp : ∀ tag key, c'.phase = .submitted tag key → c.phase = .submitted tag key) :
    Bookkept n c' := by
  obtain ⟨l,hc,hb⟩ := h
  refine ⟨l,?_,hb.congr ha ht hl hp⟩
  have hn : c'.next = c.next := by
    funext p
    rw [Client.next,ha]
    rfl
  rw [hn,hh]
  exact hc

theorem Bookkept.mono {c : Client} {n n' : Nat} (h : Bookkept n c) (hn : n ≤ n') :
    Bookkept n' c := by
  obtain ⟨l,hc,hb⟩ := h
  exact ⟨l,hc,hb.mono hn⟩

/-- Closing the library takes the requests off one by one. -/
theorem cancelPendingLoop_books {n : Nat} (fuel : Nat) {c : Client} {p : Option AsyncPtr}
    {l : List AsyncPtr} (hc : Chain c.next p l) (hf : l.length ≤ fuel) (hb : Books l n c)
    (hphase : ∀ tag key, c.phase ≠ .submitted tag key) :
    Books [] n (cancelPendingLoop fuel p c) ∧
      (∀ tag key, (cancelPendingLoop fuel p c).phase ≠ .submitted tag key) ∧
      (cancelPendingLoop fuel p c).library = c.library := by
  induction l generalizing fuel c p with
  | nil =>
    cases hc
    cases fuel <;> exact ⟨hb,hphase,rfl⟩
  | cons a l ih =>
    cases hc with
    | cons _ _ hc =>
      cases fuel with
      | zero => simp at hf
      | succ fuel =>
        obtain ⟨hal,hl⟩ := List.nodup_cons.mp hb.nodup
        let after : AsyncRequest := {c.asyncs a with
          next := none,queued := false,completed := true,status := .cancelled}
        let c' := (c.setAsync a after).record (.left (c.tagOf a) a after .closed)
        have hchain : Chain c'.next (c.asyncs a).next l := by
          refine Chain.congr hc fun q hq => ?_
          have hqa : q ≠ a := fun he => hal (he ▸ hq)
          simp [c',Client.next,Client.record,Client.setAsync,hqa]
        have hbooks : Books l n c' := by
          refine hb.remove (p := a) List.mem_cons_self hl (fun q => ?_)
            [.left (c.tagOf a) a after .closed] (fun q hqa => ?_) ?_ rfl hphase rfl (by simp)
            (by simp [Event.about]) ?_
          · constructor
            · exact fun hq => ⟨List.mem_cons_of_mem a hq,fun he => hal (he ▸ hq)⟩
            · exact fun hq => (List.mem_cons.mp hq.1).resolve_left hq.2
          · simp [c',Client.record,Client.setAsync,hqa]
          · simp [c',Client.record,Client.setAsync,after]
          · cases (c.asyncs a).callback with
            | none => exact .silent a _ _
            | some callback => exact .closed a callback _
        exact ih fuel hchain (by simpa using hf) hbooks hphase

/-- Events about no async submission leave every history as it was. -/
theorem history_skip (tag : Nat) (log : List Event) {e : Event} (he : e.about = none) :
    history tag (log++[e]) = history tag log := by
  have hs : history tag [e] = [] := history_other (by simp [he])
  rw [history_append,hs,List.append_nil]

section

variable {ι : Type} [DecidableEq ι] {i : ι} {s : World ι}

theorem submitStep_bookkept {waiter : Waiter} {ctx : Context} {request : MailboxEntry}
    (hb : Bookkept s.submitted.length (s.clients i)) :
    Bookkept (submitStep i waiter ctx request s).2.submitted.length
      ((submitStep i waiter ctx request s).2.clients i) := by
  by_cases hq : ((enqueueRequestLocked ctx request).run s.link).1.status = .queued
  · rw [submitStep_queued _ _ _ _ _ hq]
    simp only [World.setClient_self,List.length_append,List.length_singleton]
    generalize submittedKey waiter ctx request s = key
    obtain ⟨l,hl,hb⟩ := hb
    have hfresh := hb.fresh s.submitted.length le_rfl
    have hb' := hb.mono (Nat.le_succ _)
    unfold Client.begin
    split
    · refine ⟨l,hl,?_⟩
      exact { hb' with
        submitted := fun tag key' hk => by
          obtain ⟨rfl,rfl⟩ := Phase.submitted.inj hk
          exact ⟨Nat.lt_succ_self _,hfresh⟩ }
    all_goals exact Bookkept.congr ⟨l,hl,hb'⟩ rfl rfl rfl (fun _ => rfl) fun _ _ h => h
  · rw [submitStep_refused _ _ _ _ _ hq]
    simp only [World.setClient_self]
    exact hb.congr rfl rfl rfl (fun _ => rfl) fun _ _ h => h

theorem takeStep_bookkept {reply : MailboxEntry}
    (hb : Bookkept s.submitted.length (s.clients i)) :
    Bookkept (takeStep i reply s).2.submitted.length ((takeStep i reply s).2.clients i) := by
  by_cases hok : ((consumeNextCompletionLocked (s.clients i).ctx reply).run s.link).1.status = .ok
  · rw [takeStep_ok _ _ _ hok]
    simp only [World.setClient_self]
    exact hb.congr rfl rfl rfl (fun tag => history_skip tag _ rfl) fun _ _ h => Phase.noConfusion h
  · rw [takeStep_none _ _ _ hok]
    exact hb

/-- What one action does to the books of its client -/
theorem Act.bookkept {t : World ι} (h : Act i s t)
    (hb : Bookkept s.submitted.length (s.clients i)) :
    Bookkept t.submitted.length (t.clients i) := by
  cases h with
  | skip => exact hb
  | context f _ =>
    simp only [contextStep,World.setClient_self,World.setClient_submitted]
    exact hb.congr rfl rfl rfl (fun _ => rfl) fun _ _ h => h
  | library f hf =>
    simp only [libraryStep,World.setClient_self,World.setClient_submitted]
    exact hb.congr rfl (hf _) rfl (fun _ => rfl) fun _ _ h => h
  | setAsync p a ho hp ha hc =>
    obtain ⟨l,hl,hb⟩ := hb
    have hpl : p ∉ l := fun hm => by simp [(hb.queued p).mp hm] at hp
    simp only [setAsyncStep,World.setClient_self,World.setClient_submitted]
    refine ⟨l,?_,hb.setAsync hp ha⟩
    rw [setAsync_next]
    refine hl.congr fun q hq => Function.update_of_ne ?_ _ _
    rintro rfl
    exact hpl hq
  | submit waiter request ho hw => exact submitStep_bookkept hb
  | callSubmit request ho => exact submitStep_bookkept hb
  | insert p tag key hp hc hk hq hd =>
    obtain ⟨l,hl,hb⟩ := hb
    have hpl : p ∉ l := fun hm => by simp [(hb.queued p).mp hm] at hq
    simp only [insertStep,World.setClient_self,World.setClient_submitted,hp]
    refine ⟨p :: l,?_,hb.insert (a := linked ((s.clients i).asyncs p) key.requestId
      (s.clients i).library.pendingHead) hp hq ⟨rfl,hd⟩ rfl rfl rfl rfl⟩
    have hn := hl.push hpl
    convert hn using 1
    · exact setAsync_next _ _ _
    · rfl
  | take reply hp => exact takeStep_bookkept hb
  | dispatch serial reply hp hc =>
    obtain ⟨l,hl,hb⟩ := hb
    unfold dispatchStep
    rcases findPending_cases hl reply.requestId with ⟨hn,_⟩ | ⟨l₁,p,l₂,rfl,_,_,hs⟩
    · simp only [hn,discardStep,World.setClient_self,World.setClient_submitted]
      exact Bookkept.congr ⟨l,hl,hb⟩ rfl rfl rfl (fun _ => rfl) fun _ _ h => Phase.noConfusion h
    · simp only [hs,World.setClient_self,World.setClient_submitted]
      exact Bookkept.leave .idle hl hb (fun _ => rfl) (fun _ => rfl) (fun _ => rfl) (by simp)
        fun _ _ h => Phase.noConfusion h
  | discard serial reply f calls hp hc hk =>
    simp only [discardStep,World.setClient_self,World.setClient_submitted]
    exact hb.congr rfl rfl rfl (fun _ => rfl) fun _ _ h => Phase.noConfusion h
  | answer serial reply f calls hp hc hr =>
    rw [answerStep_eq hp hc]
    simp only [World.setClient_self,World.setClient_submitted]
    exact hb.congr rfl rfl rfl (fun tag => history_skip tag _ rfl) fun _ _ h => Phase.noConfusion h
  | giveUp f calls hp hc =>
    simp only [giveUpStep,World.setClient_self,World.setClient_submitted]
    exact hb.congr rfl rfl rfl (fun _ => rfl) fun _ _ h => h
  | cancel async ho =>
    obtain ⟨l,hl,hb⟩ := hb
    unfold cancelStep
    dsimp only
    split_ifs
    · exact ⟨l,hl,hb⟩
    rcases findPending_cases hl ((s.clients i).asyncs async).requestId with
      ⟨hn,_⟩ | ⟨l₁,p,l₂,rfl,_,_,hs⟩
    · simp only [hn]
      exact ⟨l,hl,hb⟩
    · simp only [hs]
      split_ifs with hp
      · exact ⟨_,hl,hb⟩
      · rw [not_not] at hp
        subst hp
        simp only [World.setClient_self,World.setClient_submitted]
        have hleft := Bookkept.leave (f := cancelled) (s.clients i).phase hl hb (fun _ => rfl)
          (fun _ => rfl) (fun _ => rfl) (Cause.noConfusion : Cause.cancelled ≠ .closed)
          (by simp [ho.phase])
        exact hleft.congr rfl rfl rfl (fun _ => rfl) fun _ _ h => by simpa using h
  | close ho =>
    obtain ⟨l,hl,hb⟩ := hb
    have hlen : l.length ≤ 2^32 := hl.length_le.trans (Fintype.card_fin _).le
    let c : Client := {s.clients i with
      library := {(s.clients i).library with pendingHead := none}}
    have hc : Books l s.submitted.length c := hb.congr rfl rfl (fun _ => rfl) fun _ _ h => h
    obtain ⟨hbooks,hphase,_⟩ := cancelPendingLoop_books (2^32) (c := c)
      (p := (s.clients i).library.pendingHead) hl hlen hc (by simp [c,ho.phase])
    simp only [closeStep,World.setClient_self,World.setClient_submitted]
    exact ⟨[],.nil,hbooks.congr rfl rfl (fun _ => rfl) fun _ _ h => absurd h (hphase _ _)⟩

end

/-- Clients just attached: zeroed objects, nothing pending, nothing done. -/
def startWorld {ι : Type} (link : Link) (ctxs : ι → Context) : World ι where
  link
  clients i := {ctx := ctxs i,library := {attached := true}}

/-- The mailbox and the outside world do as they like. -/
def anyMailbox {ι : Type} (s t : World ι) : Prop :=
  t.clients = s.clients ∧ t.submitted = s.submitted

theorem startWorld_bookkept {ι : Type} (link : Link) (ctxs : ι → Context) (i : ι) :
    Bookkept 0 ((startWorld link ctxs).clients i) := by
  refine ⟨[],.nil,List.nodup_nil,?_,?_,?_,?_,?_,?_⟩
  · simp [startWorld]
  · simp [startWorld]
  · exact fun tag => .unused
  · simp [startWorld,history]
  · simp [startWorld,history]
  · simp [startWorld]

private def resubmit : Scripts where
  callback due := .op (.callAsync due.async {} none 0) fun r => .done r.status
  waiter _ _ := .done .ok

private def blankLink : Link := {mailbox := {
  requestRing := fun _ => entryToWire
    ⟨putBe32 0,putBe16 0,putBe16 0,putBe16 0,putBe16 0,putBe32 0,fun _ => 0⟩ {}
  completionRing := fun _ => entryToWire
    ⟨putBe32 0,putBe16 0,putBe16 0,putBe16 0,putBe16 0,putBe32 0,fun _ => 0⟩ {} }}

private def onePending : World Unit :=
  ((operation ⟨false,0⟩ resubmit 1 () (.callAsync onlyAsync {} (some 0) 0)).run
    (startWorld blankLink fun _ => {requestRingEntries := 4})).2

private def resubmitted : World Unit :=
  ((operation ⟨false,0⟩ resubmit 1 () (.cancelAsync onlyAsync)).run onePending).2

end ZZ9K.Runtime
