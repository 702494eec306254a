import ZZ9K.Host.AllocShared
import ZZ9K.Runtime.Replies

namespace ZZ9K.Runtime

open ZZ9K.Abi ZZ9K.Host ZZ9K.Framework

/-- The first thing that happened next is that the request was completed with this reply. -/
def Completed (tag serial : Nat) (reply : MailboxEntry) (later : List Event) : Prop :=
  ∃ p after rest, later = .left tag p after (.reply serial) :: rest ∧
    after.completed = true ∧ after.queued = false ∧ after.reply = reply ∧
    after.status = .ofWord reply.status

theorem Completed.append {tag serial : Nat} {reply : MailboxEntry} {later : List Event}
    (h : Completed tag serial reply later) (es : List Event) :
    Completed tag serial reply (later++es) := by
  obtain ⟨p,after,rest,rfl,hafter⟩ := h
  exact ⟨p,after,rest++es,rfl,hafter⟩

/-- An event that is not among the new ones was logged before. -/
theorem logged_before {log new es fs : List Event} {e : Event} (hnew : e ∉ new)
    (h : log++new = es++e :: fs) : ∃ fs', log = es++e :: fs' ∧ fs = fs'++new := by
  rcases List.append_eq_append_iff.mp h with ⟨as,_,hr⟩ | ⟨cs,hl,hr⟩
  · rw [hr] at hnew
    simp at hnew
  · cases cs with
    | nil =>
      rw [List.nil_append] at hr
      rw [← hr] at hnew
      simp at hnew
    | cons c cs =>
      obtain ⟨rfl,rfl⟩ := List.cons.inj hr
      exact ⟨cs,hl,rfl⟩

theorem pending_chain {c : Client} {l : List AsyncPtr}
    (h : Chain c.next c.library.pendingHead l) : c.pending = l :=
  h.walk_eq _ (h.length_le.trans (Fintype.card_fin _).le)

section

variable {ι : Type}

/-- If the completion answers a request pending at this client then it would get there: no
`zz9k_call` is in progress, no `ZZ9KCall` with the same id, and the request is the first on the
list with its id. -/
def World.Deliverable (w : World ι) (i : ι) (serial : Nat) : Prop :=
  let c := w.clients i
  ∀ p ∈ c.pending, w.tags[serial]? = some (c.tagOf p) →
    (∀ f ∈ c.calls.head?, f.2.waiter ≠ .hostCall ∧ f.2.requestId ≠ (c.asyncs p).requestId) ∧
    c.pending.find? (fun q => (c.asyncs q).requestId == (c.asyncs p).requestId) = some p

/-- A completion is only taken where it can be delivered. -/
def Lossless (s t : World ι) : Prop :=
  ∀ i serial reply pending, (t.clients i).log = (s.clients i).log++[.took serial reply pending] →
    s.Deliverable i serial

/-- Every completion that was taken when its request was pending is in hand or has completed
that request. -/
structure Delivery (n m : UInt32) (w : World ι) : Prop where
  accounts : Accounts n m w
  serials : ∀ i serial reply pending, .took serial reply pending ∈ (w.clients i).log →
    serial < w.link.returned.length
  hand : ∀ i serial reply, (w.clients i).phase = .took serial reply → w.Deliverable i serial
  delivered : ∀ i es serial reply pending later,
    (w.clients i).log = es++.took serial reply pending :: later →
    ∀ tag ∈ pending, w.tags[serial]? = some tag →
      (later = [] ∧ (w.clients i).phase = .took serial reply ∧
        tag ∈ (w.clients i).pendingTags) ∨ Completed tag serial reply later

namespace Accounts

variable {n m : UInt32} {s : World ι}

/-- The completion in hand carries the id of the request it answers. -/
theorem hand_id (h : Accounts n m s) {i : ι} {serial : Nat} {reply : MailboxEntry}
    (hp : (s.clients i).phase = .took serial reply) {p : AsyncPtr}
    (hq : ((s.clients i).asyncs p).queued = true)
    (ht : s.tags[serial]? = some ((s.clients i).tagOf p)) :
    ((s.clients i).asyncs p).requestId = reply.requestId := by
  obtain ⟨tag,j,key,htag,hkey,hident⟩ := h.hand_tag hp
  obtain rfl : (s.clients i).tagOf p = tag := Option.some.inj (ht.symm.trans htag)
  obtain ⟨key',hkey',_,hid⟩ := h.pending i p hq
  have hk : key' = key := (Prod.mk.inj (Option.some.inj (hkey'.symm.trans hkey))).2
  have hr : reply.requestId = key.requestId := congrArg Prod.fst hident
  rw [hr,← hid,hk]

theorem pending_queued (h : Accounts n m s) {i : ι} {p : AsyncPtr}
    (hp : p ∈ (s.clients i).pending) : ((s.clients i).asyncs p).queued = true := by
  obtain ⟨l,hl,hb⟩ := h.books i
  rw [pending_chain hl] at hp
  exact (hb.queued p).mp hp

end Accounts

namespace Delivery

variable {n m : UInt32} {s t : World ι}

theorem firmware (h : Delivery n m s) (hs : FirmwareStep n m s t) : Delivery n m t := by
  have hc := hs.clients
  have hreturned := (h.accounts.honest.firmware_link hs).2
  have hle := h.accounts.honest.returned_le
  -- what firmware adds answers nothing that was taken before
  have htags : ∀ serial tag, serial < s.link.returned.length → t.tags[serial]? = some tag →
      s.tags[serial]? = some tag := by
    intro serial tag hlt ht
    obtain ⟨es,he⟩ := hs.tags
    rw [← he,List.getElem?_append_left (hlt.trans_le hle)] at ht
    exact ht
  have hserials : ∀ i serial reply pending, .took serial reply pending ∈ (t.clients i).log →
      serial < s.link.returned.length := by
    rw [hc]
    exact h.serials
  constructor
  · exact h.accounts.firmware hs
  · rw [hreturned]
    exact hserials
  · intro i serial reply hp p hpending ht
    rw [hc] at hp
    have hlt := (h.accounts.hand i serial reply hp).1
    have hs := htags serial _ hlt ht
    rw [hc] at hpending hs ⊢
    exact h.hand i serial reply hp p hpending hs
  · intro i es serial reply pending later hl tag hm ht
    have hlt := hserials i serial reply pending (by rw [hl]; simp)
    rw [hc] at hl ⊢
    exact h.delivered i es serial reply pending later hl tag hm (htags serial tag hlt ht)

variable [DecidableEq ι] {i : ι}

omit [DecidableEq ι] in
/-- The log grows by events that take nothing; a completion in hand stays there or completes
its request. -/
theorem grow (h : Delivery n m s) (htags : t.tags = s.tags) {new : List Event}
    (hlog : (t.clients i).log = (s.clients i).log++new)
    (hnew : ∀ serial reply pending, .took serial reply pending ∉ new)
    (hhand : ∀ serial reply, (s.clients i).phase = .took serial reply →
      ∀ tag ∈ (s.clients i).pendingTags, s.tags[serial]? = some tag →
        (new = [] ∧ (t.clients i).phase = .took serial reply ∧
          tag ∈ (t.clients i).pendingTags) ∨ Completed tag serial reply new) :
    ∀ es serial reply pending later,
      (t.clients i).log = es++.took serial reply pending :: later →
      ∀ tag ∈ pending, t.tags[serial]? = some tag →
        (later = [] ∧ (t.clients i).phase = .took serial reply ∧
          tag ∈ (t.clients i).pendingTags) ∨ Completed tag serial reply later := by
  intro es serial reply pending later hl tag hm ht
  rw [hlog] at hl
  rw [htags] at ht
  obtain ⟨before,hbefore,rfl⟩ := logged_before (hnew serial reply pending) hl
  rcases h.delivered i es serial reply pending before hbefore tag hm ht with ⟨rfl,hp,hpend⟩ | hdone
  · exact hhand serial reply hp tag hpend ht
  · exact Or.inr (hdone.append new)

omit [DecidableEq ι] in
/-- Dispatching the completion in hand completes the request it answers. -/
theorem dispatched (h : Delivery n m s) {serial : Nat} {reply : MailboxEntry}
    {l₁ l₂ : List AsyncPtr} {p : AsyncPtr}
    (hp : (s.clients i).phase = .took serial reply)
    (hc : Chain (s.clients i).next (s.clients i).library.pendingHead (l₁++p :: l₂))
    (hid : ((s.clients i).asyncs p).requestId = reply.requestId)
    (hfirst : ∀ q ∈ l₁, ((s.clients i).asyncs q).requestId ≠ reply.requestId) {tag : Nat}
    (hm : tag ∈ (s.clients i).pendingTags) (ht : s.tags[serial]? = some tag) :
    (s.clients i).tagOf p = tag := by
  obtain ⟨q,hq,rfl⟩ := List.mem_map.mp hm
  have hqid := h.accounts.hand_id hp (h.accounts.pending_queued hq) ht
  have hfind := (h.hand i serial reply hp q hq ht).2
  have hl₁ : l₁.find? (fun r => ((s.clients i).asyncs r).requestId == reply.requestId) = none := by
    rw [List.find?_eq_none]
    intro r hr
    simpa using hfirst r hr
  rw [pending_chain hc,hqid,List.find?_append,hl₁,Option.none_or,List.find?_cons_of_pos (by simpa)]
    at hfind
  rw [Option.some.inj hfind]

/-- What the client logs in a step keeps its completions delivered. -/
theorem act_delivered (h : Delivery n m s) (ha : Act i s t) : ∀ es serial reply pending later,
    (t.clients i).log = es++.took serial reply pending :: later →
    ∀ tag ∈ pending, t.tags[serial]? = some tag →
      (later = [] ∧ (t.clients i).phase = .took serial reply ∧
        tag ∈ (t.clients i).pendingTags) ∨ Completed tag serial reply later := by
  have htags := ha.tags
  have hempty : ∀ {phase : Phase}, (s.clients i).phase = phase →
      (∀ serial reply, phase ≠ .took serial reply) → ∀ {R : Nat → MailboxEntry → Prop},
      ∀ serial reply, (s.clients i).phase = .took serial reply → R serial reply := by
    intro phase hp hno R serial reply hp'
    exact absurd (hp.symm.trans hp') (hno serial reply)
  cases h.accounts.moves ha with
  | quiet hs hq =>
    obtain ⟨es,hl,hes⟩ := hq.log
    apply h.grow htags hl
    · intro serial reply pending hm
      rcases hes _ hm with ⟨_,_,_,_,he,_⟩ | ⟨_,_,he⟩ <;> cases he
    · intro serial reply hp tag hm ht
      obtain ⟨hasyncs,htagOf,hhead,hlog⟩ := hq.held (by simp [hp])
      have hnil : es = [] := by simpa [hl] using hlog
      have hpend : (t.clients i).pendingTags = (s.clients i).pendingTags := by
        have hnext : (t.clients i).next = (s.clients i).next := by
          funext q
          rw [Client.next,Client.next,hasyncs]
        rw [Client.pendingTags,Client.pendingTags,Client.pending,Client.pending,htagOf,hhead,hnext]
      exact Or.inl ⟨hnil,hq.phase.trans hp,hpend ▸ hm⟩
  | submitted key ho hk hs hp hc hf hl =>
    exact h.grow htags (by rw [hl,List.append_nil]) (by simp) (hempty ho.phase (by simp))
  | called key ho hk hs hp hc hf hl =>
    exact h.grow htags (by rw [hl,List.append_nil]) (by simp) (hempty ho.phase (by simp))
  | inserted p tag key hs hp hk hu hp' hc hq hf hl =>
    obtain ⟨callback,hl⟩ := hl
    exact h.grow htags hl (by simp) (hempty hp (by simp))
  | took reply' hs hp ht hok =>
    have hclient := ht ▸ takeStep_client i s reply' hok
    have hpend : (t.clients i).pendingTags = (s.clients i).pendingTags := by
      rw [hclient]
      rfl
    intro es serial reply pending later hl tag hm htag
    rw [htags] at htag
    rcases List.eq_nil_or_concat later with rfl | ⟨later,e,rfl⟩
    · rw [hclient] at hl
      obtain ⟨_,he⟩ := List.append_inj' hl rfl
      obtain ⟨rfl,rfl,rfl⟩ := Event.took.inj (List.cons.inj he).1
      refine Or.inl ⟨rfl,by rw [hclient],?_⟩
      rw [hpend]
      exact hm
    · rw [hclient,List.concat_eq_append,← List.cons_append,← List.append_assoc] at hl
      obtain ⟨hl,he⟩ := List.append_inj' hl rfl
      rcases h.delivered i es serial reply pending later hl tag hm htag with ⟨_,hp',_⟩ | hdone
      · exact absurd (hp.symm.trans hp') (by simp)
      · rw [List.concat_eq_append]
        exact Or.inr (hdone.append [e])
  | delivered serial reply l₁ p l₂ hs hp hu hc hid hfirst ht =>
    have hl : (t.clients i).log = (s.clients i).log++leftEvents ((s.clients i).tagOf p) p
        (replied reply {(s.clients i).asyncs p with next := none}) (.reply serial) := by
      rw [ht]
      exact leave_log ..
    apply h.grow htags hl
    · intro serial' reply' pending' hm
      unfold leftEvents at hm
      split at hm <;> simp at hm
    · intro serial' reply' hp' tag hm htag
      obtain ⟨rfl,rfl⟩ := Phase.took.inj (hp.symm.trans hp')
      obtain rfl := h.dispatched hp hc hid hfirst hm htag
      exact Or.inr ⟨p,_,_,rfl,rfl,rfl,rfl,rfl⟩
  | dropped serial reply hs hp hn ht =>
    have hl : (t.clients i).log = (s.clients i).log++[] := by
      rw [ht,List.append_nil]
    apply h.grow htags hl (by simp)
    intro serial' reply' hp' tag hm htag
    obtain ⟨rfl,rfl⟩ := Phase.took.inj (hp.symm.trans hp')
    obtain ⟨q,hq,rfl⟩ := List.mem_map.mp hm
    have hqueued := h.accounts.pending_queued hq
    rcases hn with ⟨f,hf,hcall⟩ | hnone
    · exact absurd hcall ((h.hand i serial reply hp q hq htag).1 f hf).1
    · exact absurd (h.accounts.hand_id hp hqueued htag) (hnone q hqueued)
  | answered serial reply f calls hs hp hc hr ht =>
    have hl : (t.clients i).log = (s.clients i).log++[.answered f.1 serial reply] := by rw [ht]
    apply h.grow htags hl (by simp)
    intro serial' reply' hp' tag hm htag
    obtain ⟨rfl,rfl⟩ := Phase.took.inj (hp.symm.trans hp')
    obtain ⟨q,hq,rfl⟩ := List.mem_map.mp hm
    have hid := h.accounts.hand_id hp (h.accounts.pending_queued hq) htag
    have hne := ((h.hand i serial reply hp q hq htag).1 f (by simp [hc])).2
    exact absurd (hr.1.symm.trans hid.symm) hne
  | gaveUp f calls hs hp hc ht =>
    exact h.grow htags (by rw [ht,List.append_nil]) (by simp) (hempty hp (by simp))

/-- A completion in hand can be delivered: it was taken where it could be. -/
theorem act_hand (h : Delivery n m s) (ha : Act i s t) (hs : Lossless s t) {serial : Nat}
    {reply : MailboxEntry} (hp : (t.clients i).phase = .took serial reply) :
    t.Deliverable i serial := by
  have htags := ha.tags
  cases h.accounts.moves ha with
  | quiet _ hq =>
    have hp' : (s.clients i).phase = .took serial reply := hq.phase.symm.trans hp
    obtain ⟨hasyncs,htagOf,hhead,_⟩ := hq.held (by rw [hp']; nofun)
    have hpend : (t.clients i).pending = (s.clients i).pending := by
      have hnext : (t.clients i).next = (s.clients i).next := by
        funext q
        rw [Client.next,Client.next,hasyncs]
      rw [Client.pending,Client.pending,hhead,hnext]
    have hd := h.hand i serial reply hp'
    unfold World.Deliverable at hd ⊢
    dsimp only at hd ⊢
    rw [hpend,hasyncs,htagOf,hq.calls,htags]
    exact hd
  | took reply' _ _ ht hok =>
    have hclient := ht ▸ takeStep_client i s reply' hok
    have hd := hs i serial reply (s.clients i).pendingTags (by
      rw [hclient] at hp
      obtain ⟨rfl,rfl⟩ := Phase.took.inj hp
      rw [hclient])
    unfold World.Deliverable at hd ⊢
    rw [htags,hclient]
    exact hd
  | submitted key _ _ _ hp' => cases hp'.symm.trans hp
  | called key _ _ _ hp' => cases hp'.symm.trans hp
  | inserted p tag key _ _ _ _ hp' => cases hp'.symm.trans hp
  | delivered serial reply l₁ p l₂ _ _ _ _ _ _ ht => simp [ht] at hp
  | dropped serial reply _ _ _ ht => simp [ht] at hp
  | answered serial reply f calls _ _ _ _ ht => simp [ht] at hp
  | gaveUp f calls _ hp' _ ht => simp [ht,hp'] at hp

/-- Serials in the log are those of completions that were taken. -/
theorem act_serials (h : Delivery n m s) (ha : Act i s t) {serial : Nat} {reply : MailboxEntry}
    {pending : List Nat} (hm : .took serial reply pending ∈ (t.clients i).log) :
    serial < t.link.returned.length := by
  have hret := (h.accounts.honest.act_returned ha).length_le
  have hold : .took serial reply pending ∈ (s.clients i).log → serial < t.link.returned.length :=
    fun hm => (h.serials i serial reply pending hm).trans_le hret
  cases h.accounts.moves ha with
  | quiet _ hq =>
    obtain ⟨es,hl,hes⟩ := hq.log
    rw [hl] at hm
    rcases List.mem_append.mp hm with hm | hm
    · exact hold hm
    · rcases hes _ hm with ⟨_,_,_,_,he,_⟩ | ⟨_,_,he⟩ <;> cases he
  | submitted key _ _ _ _ _ _ hl => exact hold (hl ▸ hm)
  | called key _ _ _ _ _ _ hl => exact hold (hl ▸ hm)
  | inserted p tag key _ _ _ _ _ _ _ _ hl =>
    obtain ⟨callback,hl⟩ := hl
    exact hold (by simpa [hl] using hm)
  | took reply' _ _ ht hok =>
    have hreturned := (h.accounts.honest.taken hok).2.1
    have hclient := ht ▸ takeStep_client i s reply' hok
    rw [hclient] at hm
    rcases List.mem_append.mp hm with hm | hm
    · exact hold hm
    · obtain ⟨rfl,_,_⟩ := Event.took.inj (List.mem_singleton.mp hm)
      rw [ht,hreturned]
      simp
  | delivered serial' reply' l₁ p l₂ _ _ _ _ _ _ ht =>
    simp only [ht,leave_log] at hm
    rcases List.mem_append.mp hm with hm | hm
    · exact hold hm
    · unfold leftEvents at hm
      split at hm <;> simp at hm
  | dropped serial reply _ _ _ ht => exact hold (by rwa [ht] at hm)
  | answered serial reply f calls _ _ _ _ ht => exact hold (by simpa [ht] using hm)
  | gaveUp f calls _ _ _ ht => exact hold (by rwa [ht] at hm)

theorem act (h : Delivery n m s) (ha : Act i s t) (hs : Lossless s t) : Delivery n m t := by
  have hret := (h.accounts.honest.act_returned ha).length_le
  have htags := ha.tags
  refine ⟨h.accounts.act ha,fun j => ?_,fun j => ?_,fun j => ?_⟩
  all_goals by_cases hj : j = i
  · subst hj
    exact fun _ _ _ hm => h.act_serials ha hm
  · rw [ha.others hj]
    exact fun serial reply pending hm => (h.serials j serial reply pending hm).trans_le hret
  · subst hj
    exact fun _ _ hp => h.act_hand ha hs hp
  · have hd := h.hand j
    unfold World.Deliverable at hd ⊢
    rw [ha.others hj,htags]
    exact hd
  · subst hj
    exact h.act_delivered ha
  · rw [ha.others hj,htags]
    exact h.delivered j

end Delivery

theorem startWorld_delivery {n m : UInt32} {ctxs : ι → Context}
    {requestRing completionRing : Nat → MailboxWireEntry} (h : Opened n m ctxs) :
    Delivery n m (startWorld (idleLink requestRing completionRing) ctxs) := by
  refine ⟨startWorld_accounts h,?_,?_,?_⟩ <;> simp [startWorld]

/-- Whenever a client takes the completion of a request pending at it, that request is completed
with it before the operation goes on. -/
def Delivers (c : Config ι (World ι)) (i : ι) : Prop :=
  ∀ es serial reply pending later,
    (c.state.clients i).log = es++.took serial reply pending :: later →
    ∀ tag ∈ pending, c.state.tags[serial]? = some tag →
      (later = [] ∧ (c.state.clients i).phase = .took serial reply ∧ c.prog i ≠ .ret ()) ∨
        Completed tag serial reply later

/-- No completion of a pending request is lost, as long as completions are only taken where they
can be delivered. -/
theorem completions_delivered [DecidableEq ι] {n m : UInt32} {ctxs : ι → Context}
    {requestRing completionRing : Nat → MailboxWireEntry} {allowed : Op → Prop}
    {c : Config ι (World ι)} (h : Opened n m ctxs)
    (hc : Reach (clientSystem ι allowed (FirmwareStep n m)) Lossless
      ⟨fun _ => .ret (),startWorld (idleLink requestRing completionRing) ctxs⟩ c) (i : ι) :
    Delivers c i := by
  have hS : Sound (clientSystem ι allowed (FirmwareStep n m)) (actDiscipline ι Lossless) :=
    clientSystem_sound fun _ _ h => h.clients
  have hstart := verified_idle hS (c := ⟨fun _ => .ret (),
    startWorld (idleLink requestRing completionRing) ctxs⟩) (fun _ => rfl) trivial
    fun _ => ⟨rfl,rfl⟩
  have hd : Delivery n m c.state := by
    apply reach_invariant hS ?_ ?_ hstart (startWorld_delivery h) hc
    · intro j s t _ ha hs hd
      exact hd.act ha hs
    · intro s t _ hs _ hd
      exact hd.firmware hs
  have hrest := verified_reach hS hstart hc
  intro es serial reply pending later hl tag hm ht
  apply (hd.delivered i es serial reply pending later hl tag hm ht).imp_left
  rintro ⟨hnil,hp,_⟩
  refine ⟨hnil,hp,fun hret => ?_⟩
  have hidle := (hrest.rest hret).1
  cases hidle.symm.trans hp

end

/-- The operations of a library that stays attached -/
def Op.onLibrary : Op → Prop
  | .callAsync _ _ _ _ | .poll _ | .waitAsync _ _ | .cancelAsync _ | .call _ _ | .typed _ => True
  | _ => False

def Event.isTook (serial tag : Nat) : Event → Bool
  | .took serial' _ pending => serial' == serial && pending.contains tag
  | _ => false

theorem Event.took_last (serial tag : Nat) (log : List Event)
    (h : log.getLast?.any (Event.isTook serial tag) = true) :
    ∃ es reply pending, log = es++[.took serial reply pending] ∧ tag ∈ pending := by
  obtain ⟨e,he,hx⟩ := (Option.any_eq_true _ _).mp h
  cases e with
  | took serial' reply pending =>
    simp only [Event.isTook,Bool.and_eq_true,beq_iff_eq,List.contains_iff_mem] at hx
    obtain ⟨rfl,hm⟩ := hx
    obtain ⟨es,hl⟩ := List.getLast?_eq_some_iff.mp he
    exact ⟨es,reply,pending,hl,hm⟩
  | _ => exact absurd hx (by simp [Event.isTook])

private def idleScripts : Scripts := ⟨fun _ => .done .ok,fun _ _ => .done .ok⟩

private def soleContext : Context := {requestRingEntries := 4,completionRingEntries := 4}

private def asyncSubmitted : World Unit :=
  ((operation ⟨false,0⟩ idleScripts 1 () (.callAsync onlyAsync {} none 0)).run
    (startWorld zeroLink fun _ => soleContext)).2

private def asyncFetched : World Unit :=
  {asyncSubmitted with link := ((firmwareTake 4).run asyncSubmitted.link).2}

private def asyncPosted : World Unit :=
  { asyncFetched with
    link := ((firmwarePost 4 (completionFor 1 0 0)).run asyncFetched.link).2
    tags := [0] }

private def capsQueried : World Unit :=
  ((operation ⟨false,0⟩ idleScripts 1 () (.typed queryCaps)).run asyncPosted).2

/-- `zz9k_call`, here below `ZZ9KQueryCaps`, discards the completion of a pending request. -/
theorem completion_discarded : ¬∀ (n m : UInt32) (ctx : Context)
    (requestRing completionRing : Nat → MailboxWireEntry) (c : Config Unit (World Unit)),
    Opened n m (fun _ : Unit => ctx) → ctx.nextRequestId = 1 →
    Reach (clientSystem Unit Op.onLibrary (FirmwareStep n m)) (fun _ _ => True)
      ⟨fun _ => .ret (),startWorld (idleLink requestRing completionRing) fun _ => ctx⟩ c →
    Delivers c () := by
  intro h
  let S := clientSystem Unit Op.onLibrary (FirmwareStep 4 4)
  have h1 : Reach S (fun _ _ => True) ⟨fun _ => .ret (),startWorld zeroLink fun _ => soleContext⟩
      ⟨fun _ => .ret (),asyncSubmitted⟩ :=
    reach_solo () rfl ⟨⟨false,0⟩,idleScripts,1,.callAsync 7 {} none 0,trivial,rfl⟩
  have h2 : Step S ⟨fun _ => .ret (),asyncSubmitted⟩ ⟨fun _ => .ret (),asyncFetched⟩ :=
    .env _ _ .take
  have h3 : Step S ⟨fun _ => .ret (),asyncFetched⟩ ⟨fun _ => .ret (),asyncPosted⟩ :=
    .env _ _ (.post (completionFor 1 0 0) 0 ⟨1,0,1,0,0,0,[]⟩ (by decide +kernel)
      (by decide +kernel) (by decide +kernel) (by decide +kernel))
  have h4 : Reach S (fun _ _ => True) ⟨fun _ => .ret (),asyncPosted⟩
      ⟨fun _ => .ret (),capsQueried⟩ :=
    reach_solo () rfl ⟨⟨false,0⟩,idleScripts,1,.typed queryCaps,trivial,rfl⟩
  have hreach := ((h1.tail ⟨h2,trivial⟩).tail ⟨h3,trivial⟩).trans h4
  have hopened : Opened 4 4 fun _ : Unit => soleContext :=
    ⟨by decide,by decide,fun _ => rfl,fun _ => rfl⟩
  have hdelivers := h 4 4 soleContext _ _ _ hopened rfl hreach
  obtain ⟨es,reply,pending,hl,hm⟩ :=
    Event.took_last 0 0 (capsQueried.clients ()).log (by decide +kernel)
  rcases hdelivers es 0 reply pending [] hl 0 hm (by decide +kernel) with ⟨_,_,hrun⟩ | hdone
  · exact hrun rfl
  · obtain ⟨p,after,rest,he,_⟩ := hdone
    cases he

/-- No call is in progress and at most one request is pending. -/
def Uncontended (s _t : World Unit) : Prop :=
  (s.clients ()).calls.isEmpty = true ∧ (s.clients ()).pending.length ≤ 1

instance (s t : World Unit) : Decidable (Uncontended s t) := inferInstanceAs (Decidable (_ ∧ _))

theorem Uncontended.lossless (s t : World Unit) (h : Uncontended s t) : Lossless s t := by
  intro i serial reply pending _ p hp _
  have hcalls := List.isEmpty_iff.mp h.1
  have hpending : (s.clients i).pending = [p] := by
    obtain ⟨q,hq⟩ := List.length_eq_one_iff.mp (Nat.le_antisymm h.2 (List.length_pos_of_mem hp))
    rw [hq] at hp ⊢
    rw [List.mem_singleton.mp hp]
  constructor
  · intro f hf
    rw [hcalls] at hf
    cases hf
  · rw [hpending]
    simp

private def asyncDelivered : World Unit :=
  ((operation ⟨false,0⟩ idleScripts 1 () (.poll 1)).run asyncPosted).2

/-- An async request is completed by the poll that takes its completion. -/
theorem completions_delivered_polled :
    Delivers ⟨fun _ => .ret (),asyncDelivered⟩ () ∧
      ((asyncDelivered.clients ()).asyncs 7).completed = true := by
  let S := clientSystem Unit Op.onLibrary (FirmwareStep 4 4)
  have h1 : Reach S Lossless ⟨fun _ => .ret (),startWorld zeroLink fun _ => soleContext⟩
      ⟨fun _ => .ret (),asyncSubmitted⟩ :=
    reach_along () 100 rfl ⟨⟨false,0⟩,idleScripts,1,.callAsync 7 {} none 0,trivial,rfl⟩
      (Uncontended.lossless _ _ (by decide +kernel))
      (Res.Along.mono Uncontended.lossless (by decide +kernel)) (by decide +kernel)
  have h2 : Step S ⟨fun _ => .ret (),asyncSubmitted⟩ ⟨fun _ => .ret (),asyncFetched⟩ :=
    .env _ _ .take
  have h3 : Step S ⟨fun _ => .ret (),asyncFetched⟩ ⟨fun _ => .ret (),asyncPosted⟩ :=
    .env _ _ (.post (completionFor 1 0 0) 0 ⟨1,0,1,0,0,0,[]⟩ (by decide +kernel)
      (by decide +kernel) (by decide +kernel) (by decide +kernel))
  have h4 : Reach S Lossless ⟨fun _ => .ret (),asyncPosted⟩ ⟨fun _ => .ret (),asyncDelivered⟩ :=
    reach_along () 100 rfl ⟨⟨false,0⟩,idleScripts,1,.poll 1,trivial,rfl⟩
      (Uncontended.lossless _ _ (by decide +kernel))
      (Res.Along.mono Uncontended.lossless (by decide +kernel)) (by decide +kernel)
  have hreach := ((h1.tail ⟨h2,Uncontended.lossless _ _ (by decide +kernel)⟩).tail
    ⟨h3,Uncontended.lossless _ _ (by decide +kernel)⟩).trans h4
  have hopened : Opened 4 4 fun _ : Unit => soleContext :=
    ⟨by decide,by decide,fun _ => rfl,fun _ => rfl⟩
  exact ⟨completions_delivered hopened hreach (),by decide +kernel⟩

end ZZ9K.Runtime
