import ZZ9K.Host.Consistent
import ZZ9K.Runtime.Programs

namespace ZZ9K.Runtime

open ZZ9K.Abi ZZ9K.Host ZZ9K.Framework

/-- What firmware copies from a request into its completion: id, opcode and cookie. -/
abbrev Ident := UInt32 × UInt16 × UInt32

def Key.ident (k : Key) : Ident := (k.requestId,k.opcode,k.userCookie)

def messageIdent (msg : Message) : Ident := (msg.requestId,msg.opcode,msg.userCookie)

def entryIdent (e : MailboxEntry) : Ident := (e.requestId,e.opcode,e.userCookie)

section

variable {ι : Type}

/-- Firmware that fetches requests in order and answers each fetched one once, at any later
time, with its id, opcode and cookie and whatever else it likes. The clock, Ctrl-C and the
environment change as they please. -/
inductive FirmwareStep (n m : UInt32) (s : World ι) : World ι → Prop
  | take : FirmwareStep n m s {s with link := ((firmwareTake n).run s.link).2}
  | post (wire : MailboxWireEntry) (tag : Nat) (msg : Message)
      (hmsg : s.link.fetched[tag]? = some msg) (hnew : tag ∉ s.tags)
      (hecho : entryIdent (entryFromWire wire) = messageIdent msg)
      (hroom : ((firmwarePost m wire).run s.link).1 = true) :
      FirmwareStep n m s
        {s with link := ((firmwarePost m wire).run s.link).2,tags := s.tags++[tag]}
  | outside (inputs : Inputs) : FirmwareStep n m s {s with inputs}

theorem FirmwareStep.clients {n m : UInt32} {s t : World ι} (h : FirmwareStep n m s t) :
    t.clients = s.clients := by
  cases h <;> rfl

theorem FirmwareStep.submitted {n m : UInt32} {s t : World ι} (h : FirmwareStep n m s t) :
    t.submitted = s.submitted := by
  cases h <;> rfl

theorem FirmwareStep.tags {n m : UInt32} {s t : World ι} (h : FirmwareStep n m s t) :
    s.tags <+: t.tags := by
  cases h with
  | take => exact List.prefix_refl _
  | post => exact List.prefix_append _ _
  | outside => exact List.prefix_refl _

/-- The submission was made, and its completion has not been taken from the ring yet. -/
def World.Outstanding (w : World ι) (tag : Nat) : Prop :=
  tag < w.submitted.length ∧ tag ∉ w.tags.take w.link.returned.length

/-- What honest firmware and consistent memory amount to -/
structure Honest (n m : UInt32) (w : World ι) : Prop where
  link : w.link.Consistent n m
  requestRing : ∀ i, (w.clients i).ctx.requestRingEntries = n
  completionRing : ∀ i, (w.clients i).ctx.completionRingEntries = m
  tags : w.tags.length = w.link.posted.length
  nodup : w.tags.Nodup
  fetched : ∀ tag ∈ w.tags, tag < w.link.fetched.length
  keys : w.submitted.map (fun x => x.2.ident) = w.link.enqueued.map messageIdent
  echo : ∀ (serial tag : Nat), w.tags[serial]? = some tag → ∃ msg e,
    w.link.enqueued[tag]? = some msg ∧ w.link.posted[serial]? = some e ∧
      entryIdent e = messageIdent msg

namespace Honest

variable {n m : UInt32} {s t : World ι}

theorem submitted_length (h : Honest n m s) : s.submitted.length = s.link.enqueued.length := by
  have := congrArg List.length h.keys
  simpa using this

theorem fetched_prefix (h : Honest n m s) : s.link.fetched <+: s.link.enqueued :=
  ⟨_,h.link.requests.symm⟩

theorem returned_prefix (h : Honest n m s) : s.link.returned <+: s.link.posted :=
  ⟨_,h.link.completions.symm⟩

/-- A completion carries the identity of the submission it answers. -/
theorem ident (h : Honest n m s) {serial tag : Nat} {e : MailboxEntry}
    (ht : s.tags[serial]? = some tag) (he : s.link.posted[serial]? = some e) :
    ∃ i key, s.submitted[tag]? = some (i,key) ∧ entryIdent e = key.ident := by
  obtain ⟨msg,e',hmsg,he',hecho⟩ := h.echo serial tag ht
  obtain rfl : e = e' := Option.some.inj (he.symm.trans he')
  have hk := congrArg (·[tag]?) h.keys
  simp only [List.getElem?_map,hmsg,Option.map_some] at hk
  cases hs : s.submitted[tag]? with
  | none => simp [hs] at hk
  | some x =>
    rw [hs] at hk
    exact ⟨x.1,x.2,rfl,hecho.trans (Option.some.inj hk).symm⟩

/-- Firmware only adds completions. -/
theorem firmware_link (h : Honest n m s) (hs : FirmwareStep n m s t) :
    s.link.posted <+: t.link.posted ∧ t.link.returned = s.link.returned := by
  cases hs with
  | take =>
    have hr := take_ran h.link
    exact ⟨hr.posted ▸ List.prefix_refl _,hr.returned⟩
  | post wire tag msg _ _ _ hroom =>
    have hr := post_ran h.link wire
    exact ⟨hr.posted hroom ▸ List.prefix_append _ _,hr.returned⟩
  | outside inputs => exact ⟨List.prefix_refl _,rfl⟩

theorem returned_le (h : Honest n m s) : s.link.returned.length ≤ s.tags.length :=
  h.tags ▸ h.returned_prefix.length_le

/-- What is outstanding does not depend on completions that nobody has taken. -/
theorem firmware_outstanding (h : Honest n m s) (hs : FirmwareStep n m s t) (tag : Nat) :
    t.Outstanding tag ↔ s.Outstanding tag := by
  obtain ⟨es,he⟩ := hs.tags
  rw [World.Outstanding,World.Outstanding,hs.submitted,(h.firmware_link hs).2,← he,
    List.take_append_of_le_length h.returned_le]

/-- Firmware stays honest. -/
theorem firmware (h : Honest n m s) (hs : FirmwareStep n m s t) : Honest n m t := by
  cases hs with
  | take =>
    have hr := take_ran h.link
    refine ⟨hr.consistent,h.requestRing,h.completionRing,?_,h.nodup,?_,?_,?_⟩
    · simpa [hr.posted] using h.tags
    · exact fun tag ht => (h.fetched tag ht).trans_le hr.fetched.length_le
    · simpa [hr.enqueued] using h.keys
    · simpa [hr.enqueued,hr.posted] using h.echo
  | outside inputs =>
    exact ⟨h.link,h.requestRing,h.completionRing,h.tags,h.nodup,h.fetched,h.keys,h.echo⟩
  | post wire tag msg hmsg hnew hecho hroom =>
    have hr := post_ran h.link wire
    have hposted := hr.posted hroom
    have hlt : tag < s.link.fetched.length := (List.getElem?_eq_some_iff.mp hmsg).1
    have henq : s.link.enqueued[tag]? = some msg := by
      rw [h.link.requests,List.getElem?_append_left hlt,hmsg]
    refine ⟨hr.consistent,h.requestRing,h.completionRing,?_,?_,?_,?_,?_⟩
    · simp [hposted,h.tags]
    · rw [← List.concat_eq_append]
      exact h.nodup.concat hnew
    · intro tag' ht
      rw [hr.fetched]
      rcases List.mem_append.mp ht with ht | ht
      · exact h.fetched tag' ht
      · rw [List.mem_singleton.mp ht]
        exact hlt
    · simpa [hr.enqueued] using h.keys
    · intro serial tag' ht
      simp only [hr.enqueued,hposted]
      by_cases hser : serial < s.tags.length
      · rw [List.getElem?_append_left hser] at ht
        rw [List.getElem?_append_left (h.tags ▸ hser)]
        exact h.echo serial tag' ht
      · rw [List.getElem?_append_right (Nat.le_of_not_lt hser)] at ht
        obtain ⟨h0,hx⟩ := List.getElem?_eq_some_iff.mp ht
        simp only [List.length_singleton,Nat.lt_one_iff] at h0
        have hx' : tag = tag' := by simpa [h0] using hx
        subst hx'
        refine ⟨msg,_,henq,?_,hecho⟩
        have hle : s.link.posted.length ≤ serial := h.tags ▸ Nat.le_of_not_lt hser
        have h0' : serial-s.link.posted.length = 0 := h.tags ▸ h0
        rw [List.getElem?_append_right hle,h0']
        rfl

variable [DecidableEq ι] {i : ι}

theorem submits (h : Honest n m s) {waiter : Waiter} {ctx : Context} {request : MailboxEntry}
    (hc : Context.fixed ctx = Context.fixed (s.clients i).ctx) :
    Honest n m (submitStep i waiter ctx request s).2 := by
  have hring : ctx.requestRingEntries = n := (congrArg (·.1) hc).trans (h.requestRing i)
  have hr := enqueue_ran h.link hring request
  have hreq : ∀ j, ((submitStep i waiter ctx request s).2.clients j).ctx.requestRingEntries = n :=
    fun j => (congrArg (·.1) (submitStep_fixed hc j)).trans (h.requestRing j)
  have hcomp : ∀ j,
      ((submitStep i waiter ctx request s).2.clients j).ctx.completionRingEntries = m :=
    fun j => (congrArg (·.2.1) (submitStep_fixed hc j)).trans (h.completionRing j)
  by_cases hq : ((enqueueRequestLocked ctx request).run s.link).1.status = .queued
  · have henq := hr.queued hq
    rw [submitStep_queued _ _ _ _ _ hq] at hreq hcomp ⊢
    refine ⟨hr.consistent,hreq,hcomp,by simpa [hr.posted] using h.tags,h.nodup,
      by simpa [hr.fetched] using h.fetched,?_,?_⟩
    · simp only [henq,List.map_append,h.keys]
      rfl
    · intro serial tag ht
      obtain ⟨msg,e,hmsg,he,hecho⟩ := h.echo serial tag ht
      refine ⟨msg,e,?_,by simpa [hr.posted] using he,hecho⟩
      simp only [henq]
      rw [List.getElem?_append_left (List.getElem?_eq_some_iff.mp hmsg).1,hmsg]
  · have henq := hr.refused hq
    rw [submitStep_refused _ _ _ _ _ hq] at hreq hcomp ⊢
    exact ⟨hr.consistent,hreq,hcomp,by simpa [hr.posted] using h.tags,h.nodup,
      by simpa [hr.fetched] using h.fetched,by simpa [henq] using h.keys,
      by simpa [henq,hr.posted] using h.echo⟩

theorem takes (h : Honest n m s) (reply : MailboxEntry) : Honest n m (takeStep i reply s).2 := by
  have hr := consume_ran h.link (h.completionRing i) reply
  have htags : s.tags.length =
      ((consumeNextCompletionLocked (s.clients i).ctx reply).run s.link).2.posted.length := by
    rw [hr.posted,h.tags]
  have hclients : ∀ j, ((takeStep i reply s).2.clients j).ctx = (s.clients j).ctx := by
    intro j
    by_cases hj : j = i
    · subst hj
      unfold takeStep
      dsimp only
      split_ifs <;> simp
    · unfold takeStep
      dsimp only
      split_ifs
      · exact congrArg Client.ctx (World.setClient_of_ne _ _ hj)
      · rfl
  have hreq : ∀ j, ((takeStep i reply s).2.clients j).ctx.requestRingEntries = n :=
    fun j => (congrArg Context.requestRingEntries (hclients j)).trans (h.requestRing j)
  have hcomp : ∀ j, ((takeStep i reply s).2.clients j).ctx.completionRingEntries = m :=
    fun j => (congrArg Context.completionRingEntries (hclients j)).trans (h.completionRing j)
  by_cases hok : ((consumeNextCompletionLocked (s.clients i).ctx reply).run s.link).1.status = .ok
  · rw [takeStep_ok _ _ _ hok] at hreq hcomp ⊢
    exact ⟨hr.consistent,hreq,hcomp,htags,h.nodup,by simpa [hr.fetched] using h.fetched,
      by simpa [hr.enqueued] using h.keys,by simpa [hr.enqueued,hr.posted] using h.echo⟩
  · rw [takeStep_none _ _ _ hok] at hreq hcomp ⊢
    exact ⟨hr.consistent,hreq,hcomp,htags,h.nodup,by simpa [hr.fetched] using h.fetched,
      by simpa [hr.enqueued] using h.keys,by simpa [hr.enqueued,hr.posted] using h.echo⟩

/-- Clients never touch what firmware has posted. -/
theorem act_posted (h : Honest n m s) (ha : Act i s t) : t.link.posted = s.link.posted := by
  cases ha.shares with
  | apart hl _ _ => rw [hl]
  | submits waiter ctx request hc ht =>
    subst ht
    have hr := enqueue_ran h.link ((congrArg (·.1) hc).trans (h.requestRing i)) request
    rw [← hr.posted]
    unfold submitStep
    dsimp only
    split_ifs <;> rfl
  | takes reply ht =>
    subst ht
    have hr := consume_ran h.link (h.completionRing i) reply
    rw [← hr.posted]
    unfold takeStep
    dsimp only
    split_ifs <;> rfl

/-- Completions are only ever taken. -/
theorem act_returned (h : Honest n m s) (ha : Act i s t) :
    s.link.returned <+: t.link.returned := by
  cases ha.shares with
  | apart hl _ _ => rw [hl]
  | submits waiter ctx request hc ht =>
    subst ht
    have hr := enqueue_ran h.link ((congrArg (·.1) hc).trans (h.requestRing i)) request
    rw [← hr.returned]
    unfold submitStep
    dsimp only
    split_ifs <;> exact List.prefix_refl _
  | takes reply ht =>
    subst ht
    have hr := consume_ran h.link (h.completionRing i) reply
    by_cases hok :
        ((consumeNextCompletionLocked (s.clients i).ctx reply).run s.link).1.status = .ok
    · rw [takeStep_ok _ _ _ hok]
      exact hr.taken hok ▸ List.prefix_append _ _
    · rw [takeStep_none _ _ _ hok]
      exact (hr.refused hok).symm ▸ List.prefix_refl _

/-- The completion that is taken is the next one posted, and answers a submission whose
completion was still to come. -/
theorem taken (h : Honest n m s) {reply : MailboxEntry}
    (hok : ((consumeNextCompletionLocked (s.clients i).ctx reply).run s.link).1.status = .ok) :
    s.link.posted[s.link.returned.length]? = some (takeStep i reply s).1.reply ∧
      (takeStep i reply s).2.link.returned = s.link.returned++[(takeStep i reply s).1.reply] ∧
      ∃ tag, s.tags[s.link.returned.length]? = some tag ∧ s.Outstanding tag := by
  have hr := consume_ran h.link (h.completionRing i) reply
  have hret := hr.taken hok
  have hposted : s.link.posted[s.link.returned.length]? =
      some ((consumeNextCompletionLocked (s.clients i).ctx reply).run s.link).1.reply := by
    have hp := hr.consistent.completions
    rw [hr.posted,hret] at hp
    rw [hp,List.append_assoc,List.getElem?_append_right le_rfl,Nat.sub_self]
    rfl
  have hlt : s.link.returned.length < s.tags.length :=
    h.tags ▸ (List.getElem?_eq_some_iff.mp hposted).1
  refine ⟨by rw [takeStep_fst]; exact hposted,?_,s.tags[s.link.returned.length],
    List.getElem?_eq_getElem hlt,?_,?_⟩
  · rw [takeStep_fst,takeStep_ok _ _ _ hok]
    exact hret
  · rw [h.submitted_length]
    exact (h.fetched _ (List.getElem_mem hlt)).trans_le h.fetched_prefix.length_le
  · intro hm
    obtain ⟨j,hj,he⟩ := List.mem_take_iff_getElem.mp hm
    have hjl : j < s.link.returned.length := (Nat.lt_min.mp hj).1
    exact absurd ((h.nodup.getElem_inj_iff).mp he) (Nat.ne_of_lt hjl)

/-- Whatever a client does keeps memory and history consistent. -/
theorem act (h : Honest n m s) (ha : Act i s t) : Honest n m t := by
  cases ha.shares with
  | apart hl hs hg =>
    refine ⟨hl ▸ h.link,fun j => ?_,fun j => ?_,by rw [hl,hg]; exact h.tags,hg ▸ h.nodup,
      by rw [hl,hg]; exact h.fetched,by rw [hl,hs]; exact h.keys,by rw [hl,hg]; exact h.echo⟩
    · exact (congrArg (·.1) (ha.fixed j)).trans (h.requestRing j)
    · exact (congrArg (·.2.1) (ha.fixed j)).trans (h.completionRing j)
  | submits waiter ctx request hc ht =>
    subst ht
    exact h.submits hc
  | takes reply ht =>
    subst ht
    exact h.takes reply

end Honest

end

end ZZ9K.Runtime
