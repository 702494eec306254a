import ZZ9K.Runtime.Accounts

namespace ZZ9K.Runtime

open ZZ9K.Abi ZZ9K.Host ZZ9K.Framework

section

variable {ι : Type}

/-- Whoever waits for `tag`, in one of the ways `R`, would take the completion of `other` for
its own. -/
def World.Accepts (R : Waiter → Prop) (w : World ι) (tag other : Nat) : Prop :=
  ∃ i key j key', w.submitted[tag]? = some (i,key) ∧ w.submitted[other]? = some (j,key') ∧
    R key.waiter ∧ key.accepts key'.requestId key'.opcode key'.userCookie

/-- The step submits nothing that would take the completion of a submission still outstanding,
or whose completion somebody still waiting would take, where waiting is in one of the ways `R`. -/
def Unmistakable (R : Waiter → Prop) (s t : World ι) : Prop :=
  ∀ i key, t.submitted = s.submitted++[(i,key)] →
    (R key.waiter → ∀ tag j key', s.Outstanding tag → s.submitted[tag]? = some (j,key') →
      ¬key.accepts key'.requestId key'.opcode key'.userCookie) ∧
    ∀ tag j key', (s.clients j).Awaits tag → s.submitted[tag]? = some (j,key') →
      R key'.waiter → ¬key'.accepts key.requestId key.opcode key.userCookie

/-- The reply is the completion posted for the submission. -/
def World.Answers (w : World ι) (serial tag : Nat) (reply : MailboxEntry) : Prop :=
  w.tags[serial]? = some tag ∧ w.link.posted[serial]? = some reply

/-- A reply that was delivered, to somebody waiting in one of the ways `R`, is the completion
posted for the submission it was delivered to. -/
def World.Routed (R : Waiter → Prop) (w : World ι) : Event → Prop
  | .left tag _ after (.reply serial) => R .async → w.Answers serial tag after.reply
  | .answered tag serial reply => ∃ j key, w.submitted[tag]? = some (j,key) ∧
      (R key.waiter → w.Answers serial tag reply)
  | _ => True

/-- Nobody who waits can mistake a completion, whether it is still to come or already in hand. -/
structure Routing (R : Waiter → Prop) (n m : UInt32) (w : World ι) : Prop where
  accounts : Accounts n m w
  apart : ∀ i tag other, (w.clients i).Awaits tag → w.Outstanding other →
    w.Accepts R tag other → tag = other
  inHand : ∀ i serial reply other, (w.clients i).phase = .took serial reply →
    w.tags[serial]? = some other → ∀ tag, (w.clients i).Awaits tag →
      w.Accepts R tag other → tag = other
  routed : ∀ i, ∀ e ∈ (w.clients i).log, w.Routed R e

theorem World.Answers.mono {s t : World ι} (htags : s.tags <+: t.tags)
    (hposted : s.link.posted <+: t.link.posted) {serial tag : Nat} {reply : MailboxEntry}
    (h : s.Answers serial tag reply) : t.Answers serial tag reply :=
  ⟨get_of_extended htags h.1,get_of_extended hposted h.2⟩

theorem World.Routed.mono {R : Waiter → Prop} {s t : World ι} (htags : s.tags <+: t.tags)
    (hposted : s.link.posted <+: t.link.posted) (hsub : s.submitted <+: t.submitted) {e : Event}
    (h : s.Routed R e) : t.Routed R e := by
  cases e with
  | left tag p after cause =>
    cases cause with
    | reply serial => exact fun hR => (h hR).mono htags hposted
    | cancelled => trivial
    | closed => trivial
  | answered tag serial reply =>
    obtain ⟨j,key,hk,hx⟩ := h
    exact ⟨j,key,get_of_extended hsub hk,fun hR => (hx hR).mono htags hposted⟩
  | accepted => trivial
  | took => trivial
  | called => trivial

/-- Later submissions do not change who accepts what. -/
theorem World.Accepts.back {R : Waiter → Prop} {s t : World ι}
    (hpre : s.submitted <+: t.submitted) {tag other : Nat} (ht : tag < s.submitted.length)
    (ho : other < s.submitted.length) (h : t.Accepts R tag other) : s.Accepts R tag other := by
  obtain ⟨es,he⟩ := hpre
  obtain ⟨i,key,j,key',hk,hk',ha⟩ := h
  rw [← he,List.getElem?_append_left ht] at hk
  rw [← he,List.getElem?_append_left ho] at hk'
  exact ⟨i,key,j,key',hk,hk',ha⟩

namespace Accounts

variable {n m : UInt32} {s t : World ι}

/-- Those who wait wait for something that was submitted. -/
theorem awaits_submitted (h : Accounts n m s) {i : ι} {tag : Nat}
    (ha : (s.clients i).Awaits tag) : ∃ key, s.submitted[tag]? = some (i,key) := by
  rcases ha with ⟨key,hk⟩ | ⟨key,hp⟩ | ⟨p,hq,rfl⟩
  · exact ⟨key,h.calls i _ hk⟩
  · exact ⟨key,(h.phase i _ _ hp).1⟩
  · obtain ⟨key,hk,_⟩ := h.pending i p hq
    exact ⟨key,hk⟩

theorem awaits_lt (h : Accounts n m s) {i : ι} {tag : Nat} (ha : (s.clients i).Awaits tag) :
    tag < s.submitted.length := by
  obtain ⟨key,hk⟩ := h.awaits_submitted ha
  exact (List.getElem?_eq_some_iff.mp hk).1

end Accounts

variable [DecidableEq ι] {i : ι} {s t : World ι}

theorem Fewer.awaits {c c' : Client} (hf : Fewer c c') (hp : c'.phase = c.phase ∨ c'.phase = .idle ∨
    ∃ serial reply, c'.phase = .took serial reply) (hc : ∀ f ∈ c'.calls, f ∈ c.calls) {tag : Nat}
    (h : c'.Awaits tag) : c.Awaits tag := by
  rcases h with ⟨key,hk⟩ | ⟨key,hk⟩ | ⟨p,hq,rfl⟩
  · exact Or.inl ⟨key,hc _ hk⟩
  · rcases hp with hp | hp | ⟨serial,reply,hp⟩
    · exact Or.inr (Or.inl ⟨key,hp ▸ hk⟩)
    · exact Phase.noConfusion (hp.symm.trans hk)
    · exact Phase.noConfusion (hp.symm.trans hk)
  · obtain ⟨hqs,_,ht⟩ := hf p hq
    exact Or.inr (Or.inr ⟨p,hqs,ht.symm⟩)

/-- Nobody starts to wait except by submitting. -/
theorem Moves.awaits (h : Moves i s t) {tag : Nat} (ha : (t.clients i).Awaits tag) :
    (s.clients i).Awaits tag ∨
      ((∃ key, t.submitted = s.submitted++[(i,key)]) ∧ tag = s.submitted.length ∧
        ∀ serial reply, (t.clients i).phase ≠ .took serial reply) := by
  cases h with
  | quiet hs hq => exact Or.inl (hq.fewer.awaits (Or.inl hq.phase) (by simp [hq.calls]) ha)
  | submitted key ho hk hs hp hc hf hl =>
    rcases ha with ⟨key',hk'⟩ | ⟨key',hk'⟩ | ⟨p,hq,rfl⟩
    · exact Or.inl (Or.inl ⟨key',hc ▸ hk'⟩)
    · obtain ⟨rfl,_⟩ := Phase.submitted.inj (hp.symm.trans hk')
      exact Or.inr ⟨⟨key,hs⟩,rfl,by simp [hp]⟩
    · obtain ⟨hqs,_,ht⟩ := hf p hq
      exact Or.inl (Or.inr (Or.inr ⟨p,hqs,ht.symm⟩))
  | called key ho hk hs hp hc hf hl =>
    rcases ha with ⟨key',hk'⟩ | ⟨key',hk'⟩ | ⟨p,hq,rfl⟩
    · rw [hc] at hk'
      rcases List.mem_cons.mp hk' with he | hk'
      · exact Or.inr ⟨⟨key,hs⟩,congrArg Prod.fst he,by simp [hp]⟩
      · exact Or.inl (Or.inl ⟨key',hk'⟩)
    · exact Phase.noConfusion (hp.symm.trans hk')
    · obtain ⟨hqs,_,ht⟩ := hf p hq
      exact Or.inl (Or.inr (Or.inr ⟨p,hqs,ht.symm⟩))
  | inserted p tag' key hs hp hk hu hp' hc hq hf hl =>
    rcases ha with ⟨key',hk'⟩ | ⟨key',hk'⟩ | ⟨q,hqq,rfl⟩
    · exact Or.inl (Or.inl ⟨key',hc ▸ hk'⟩)
    · exact Phase.noConfusion (hp'.symm.trans hk')
    · by_cases hqp : q = p
      · subst hqp
        exact Or.inl (Or.inr (Or.inl ⟨key,hq.2.symm ▸ hp⟩))
      · obtain ⟨hqs,_,ht⟩ := hf q hqp hqq
        exact Or.inl (Or.inr (Or.inr ⟨q,hqs,ht.symm⟩))
  | took reply hs hp ht hok =>
    have hc := ht ▸ takeStep_client i s reply hok
    exact Or.inl ((Fewer.of_eq (by rw [hc]) (by rw [hc])).awaits
      (Or.inr (Or.inr ⟨_,_,by rw [hc]⟩)) (by simp [hc]) ha)
  | delivered serial reply l₁ p l₂ hs hp hu hc hid hfirst ht =>
    have hf : Fewer (s.clients i) (t.clients i) := by
      rw [ht]
      exact leave_fewer _ _ _ _ fun _ => rfl
    exact Or.inl (hf.awaits (Or.inr (Or.inl (by rw [ht]))) (by simp [ht]) ha)
  | dropped serial reply hs hp hn ht =>
    exact Or.inl ((Fewer.of_eq (by rw [ht]) (by rw [ht])).awaits (Or.inr (Or.inl (by rw [ht])))
      (by simp [ht]) ha)
  | answered serial reply f calls hs hp hc hr ht =>
    exact Or.inl ((Fewer.of_eq (by rw [ht]) (by rw [ht])).awaits (Or.inr (Or.inl (by rw [ht])))
      (fun f' hf' => by rw [ht] at hf'; exact hc ▸ List.mem_cons_of_mem f hf') ha)
  | gaveUp f calls hs hp hc ht =>
    exact Or.inl ((Fewer.of_eq (by rw [ht]) (by rw [ht])).awaits (Or.inl (by rw [ht]))
      (fun f' hf' => by rw [ht] at hf'; exact hc ▸ List.mem_cons_of_mem f hf') ha)

theorem Moves.submitted_cases (h : Moves i s t) :
    t.submitted = s.submitted ∨ ∃ key, t.submitted = s.submitted++[(i,key)] := by
  cases h with
  | submitted key _ _ hs => exact Or.inr ⟨key,hs⟩
  | called key _ _ hs => exact Or.inr ⟨key,hs⟩
  | _ => exact Or.inl ‹_›

/-- Only a submission makes something outstanding. -/
theorem Accounts.outstanding {n m : UInt32} (h : Accounts n m s) (ha : Act i s t) {tag : Nat}
    (ho : t.Outstanding tag) : s.Outstanding tag ∨
      ((∃ key, t.submitted = s.submitted++[(i,key)]) ∧ tag = s.submitted.length) := by
  have hnot : tag ∉ s.tags.take s.link.returned.length := by
    intro hm
    refine ho.2 ?_
    rw [ha.tags]
    exact List.take_subset_take_left _ (h.honest.act_returned ha).length_le hm
  by_cases hlt : tag < s.submitted.length
  · exact Or.inl ⟨hlt,hnot⟩
  · rcases (h.moves ha).submitted_cases with hs | ⟨key,hs⟩
    · exact absurd (hs ▸ ho.1) hlt
    · have := ho.1
      rw [hs,List.length_append,List.length_singleton] at this
      exact Or.inr ⟨⟨key,hs⟩,by omega⟩

namespace Routing

variable {R : Waiter → Prop} {n m : UInt32}

omit [DecidableEq ι] in
theorem firmware (h : Routing R n m s) (hs : FirmwareStep n m s t) : Routing R n m t := by
  have hc := hs.clients
  have hhonest := h.accounts.honest
  have hacc : ∀ tag other, t.Accepts R tag other → s.Accepts R tag other := by
    intro tag other
    rw [World.Accepts,World.Accepts,hs.submitted]
    exact id
  refine ⟨h.accounts.firmware hs,?_,?_,?_⟩
  · rw [hc]
    exact fun i tag other ha ho hx => h.apart i tag other ha
      ((hhonest.firmware_outstanding hs other).mp ho) (hacc _ _ hx)
  · rw [hc]
    intro i serial reply other hp ho tag ha hx
    refine h.inHand i serial reply other hp ?_ tag ha (hacc _ _ hx)
    have hlt : serial < s.tags.length :=
      (h.accounts.hand i serial reply hp).1.trans_le hhonest.returned_le
    obtain ⟨es,he⟩ := hs.tags
    rw [← he,List.getElem?_append_left hlt] at ho
    exact ho
  · rw [hc]
    exact fun i e he => (h.routed i e he).mono hs.tags (hhonest.firmware_link hs).1
      (hs.submitted ▸ List.prefix_refl _)

omit [DecidableEq ι] in
/-- A completion in hand that somebody waiting accepts is the one posted for him. -/
theorem accepted (h : Routing R n m s) {serial : Nat} {reply : MailboxEntry} {tag : Nat} {key : Key}
    (hp : (s.clients i).phase = .took serial reply) (ha : (s.clients i).Awaits tag)
    (hk : s.submitted[tag]? = some (i,key))
    (hR : R key.waiter) (hx : key.accepts reply.requestId reply.opcode reply.userCookie) :
    s.Answers serial tag reply := by
  obtain ⟨other,j,key',htag,hkey,hident⟩ := h.accounts.hand_tag hp
  obtain ⟨h1,h2,h3⟩ : reply.requestId = key'.requestId ∧ reply.opcode = key'.opcode ∧
      reply.userCookie = key'.userCookie := by
    simpa [entryIdent,Key.ident] using hident
  rw [h1,h2,h3] at hx
  obtain rfl := h.inHand i serial reply other hp htag tag ha ⟨i,key,j,key',hk,hkey,hR,hx⟩
  exact ⟨htag,(h.accounts.hand i serial reply hp).2⟩

/-- What the client logs in a step is routed. -/
theorem act_routed (h : Routing R n m s) (ha : Act i s t) :
    ∀ e ∈ (t.clients i).log, s.Routed R e := by
  have hold := h.routed i
  cases h.accounts.moves ha with
  | quiet hs hq =>
    obtain ⟨es,hl,hes⟩ := hq.log
    rw [hl]
    intro e he
    rcases List.mem_append.mp he with he | he
    · exact hold e he
    · rcases hes e he with ⟨tag,p,after,cause,rfl,hc⟩ | ⟨tag,callback,rfl⟩
      · cases cause with
        | reply serial => exact absurd rfl (hc serial)
        | cancelled => trivial
        | closed => trivial
      · trivial
  | submitted key ho hk hs hp hc hf hl => rwa [hl]
  | called key ho hk hs hp hc hf hl => rwa [hl]
  | inserted p tag key hs hp hk hu hp' hc hq hf hl =>
    obtain ⟨callback,hl⟩ := hl
    rw [hl]
    intro e he
    rcases List.mem_append.mp he with he | he
    · exact hold e he
    · rw [List.mem_singleton.mp he]
      trivial
  | took reply hs hp ht hok =>
    have hc := ht ▸ takeStep_client i s reply hok
    rw [hc]
    intro e he
    rcases List.mem_append.mp he with he | he
    · exact hold e he
    · rw [List.mem_singleton.mp he]
      trivial
  | delivered serial reply l₁ p l₂ hs hp hu hc hid hfirst ht =>
    obtain ⟨l,hl,hb⟩ := h.accounts.books i
    have hq : ((s.clients i).asyncs p).queued = true := by
      rw [← hb.queued p,← hc.unique hl]
      simp
    obtain ⟨key,hk,hw,hkid⟩ := h.accounts.pending i p hq
    have hx : key.accepts reply.requestId reply.opcode reply.userCookie :=
      ⟨hid.symm.trans hkid.symm,by simp [hw]⟩
    have hr : R .async → s.Answers serial ((s.clients i).tagOf p) reply := fun hR =>
      h.accepted hp (Or.inr (Or.inr ⟨p,hq,rfl⟩)) hk (hw ▸ hR) hx
    rw [ht]
    simp only [leave_log]
    intro e he
    rcases List.mem_append.mp he with he | he
    · exact hold e he
    · unfold leftEvents at he
      split at he <;> simp only [List.mem_cons,List.not_mem_nil,or_false] at he
      · rw [he]
        exact hr
      · rcases he with rfl | rfl
        · exact hr
        · trivial
  | dropped serial reply hs hp hn ht =>
    rw [ht]
    exact hold
  | answered serial reply f calls hs hp hc hr ht =>
    have hf : f ∈ (s.clients i).calls := hc ▸ List.mem_cons_self
    have hx : s.Routed R (.answered f.1 serial reply) := ⟨i,f.2,h.accounts.calls i f hf,fun hR =>
      h.accepted hp (Or.inl ⟨f.2,hf⟩) (h.accounts.calls i f hf) hR hr⟩
    rw [ht]
    intro e he
    rcases List.mem_append.mp he with he | he
    · exact hold e he
    · rw [List.mem_singleton.mp he]
      exact hx
  | gaveUp f calls hs hp hc ht =>
    rw [ht]
    exact hold

theorem act (h : Routing R n m s) (ha : Act i s t) (hu : Unmistakable R s t) : Routing R n m t := by
  have hacc := h.accounts
  have hacc' := hacc.act ha
  have hpre := ha.submitted_prefix
  have htags := ha.tags
  have hposted := hacc.honest.act_posted ha
  have hmoves := hacc.moves ha
  have hawaits : ∀ j tag, (t.clients j).Awaits tag → (s.clients j).Awaits tag ∨
      ((∃ key, t.submitted = s.submitted++[(i,key)]) ∧ tag = s.submitted.length) := by
    intro j tag hw
    by_cases hj : j = i
    · subst hj
      exact (hmoves.awaits hw).imp_right fun h => ⟨h.1,h.2.1⟩
    · exact Or.inl (ha.others hj ▸ hw)
  refine ⟨hacc',?_,?_,?_⟩
  · -- one of the two is new at most, and the condition keeps the new one apart
    intro j tag other hw ho hx
    rcases hawaits j tag hw with hw | ⟨⟨key,hs⟩,rfl⟩ <;>
      rcases hacc.outstanding ha ho with ho | ⟨⟨key',hs'⟩,rfl⟩
    · exact h.apart j tag other hw ho (hx.back hpre (hacc.awaits_lt hw) ho.1)
    · obtain ⟨i₁,k₁,i₂,k₂,hk₁,hk₂,hR,hx⟩ := hx
      rw [hs'] at hk₁ hk₂
      rw [List.getElem?_append_left (hacc.awaits_lt hw)] at hk₁
      simp only [List.getElem?_concat_length,Option.some.injEq,Prod.mk.injEq] at hk₂
      obtain ⟨rfl,rfl⟩ := hk₂
      exact absurd hx ((hu _ _ hs').2 tag i₁ k₁ (by
        obtain ⟨k,hk⟩ := hacc.awaits_submitted hw
        obtain ⟨rfl,_⟩ := Prod.mk.inj (Option.some.inj (hk.symm.trans hk₁))
        exact hw) hk₁ hR)
    · obtain ⟨i₁,k₁,i₂,k₂,hk₁,hk₂,hR,hx⟩ := hx
      rw [hs] at hk₁ hk₂
      rw [List.getElem?_append_left ho.1] at hk₂
      simp only [List.getElem?_concat_length,Option.some.injEq,Prod.mk.injEq] at hk₁
      obtain ⟨rfl,rfl⟩ := hk₁
      exact absurd hx ((hu _ _ hs).1 hR other i₂ k₂ ho hk₂)
    · rfl
  · intro j serial reply other hp ho tag hw hx
    rw [htags] at ho
    -- a completion is taken into an empty hand, from among those outstanding
    have hold : ∀ (_ : (s.clients j).phase = .took serial reply),
        (s.clients j).Awaits tag → tag = other := by
      intro hp' hw'
      obtain ⟨other',j',key',htag,hkey,_⟩ := hacc.hand_tag hp'
      obtain rfl := Option.some.inj (ho.symm.trans htag)
      exact h.inHand j serial reply other hp' ho tag hw'
        (hx.back hpre (hacc.awaits_lt hw') (List.getElem?_eq_some_iff.mp hkey).1)
    by_cases hj : j = i
    swap
    · rw [ha.others hj] at hp hw
      exact hold hp hw
    subst hj
    have hw' : (s.clients j).Awaits tag := by
      rcases hmoves.awaits hw with hw | ⟨_,_,hno⟩
      · exact hw
      · exact absurd hp (hno serial reply)
    cases hmoves with
    | quiet hs hq => exact hold (hq.phase ▸ hp) hw'
    | took reply' hs hpi ht hok =>
      obtain ⟨_,_,tag',htag',hout⟩ := hacc.honest.taken hok
      have hc := ht ▸ takeStep_client j s reply' hok
      rw [hc] at hp
      obtain ⟨rfl,_⟩ := Phase.took.inj hp
      obtain rfl := Option.some.inj (ho.symm.trans htag')
      exact h.apart j tag other hw' hout (hx.back hpre (hacc.awaits_lt hw') hout.1)
    | submitted key ho hk hs hp' hc hf hl => exact Phase.noConfusion (hp'.symm.trans hp)
    | called key ho hk hs hp' hc hf hl => exact Phase.noConfusion (hp'.symm.trans hp)
    | inserted p tag key hs hps hk hu hp' hc hq hf hl =>
      exact Phase.noConfusion (hp'.symm.trans hp)
    | delivered serial reply l₁ p l₂ hs hps hu hc hid hfirst ht => simp [ht] at hp
    | dropped serial reply hs hps hn ht => simp [ht] at hp
    | answered serial reply f calls hs hps hc hr ht => simp [ht] at hp
    | gaveUp f calls hs hps hc ht => simp [ht,hps] at hp
  · have hmono : ∀ e, s.Routed R e → t.Routed R e := fun e he =>
      he.mono (htags ▸ List.prefix_refl _) (hposted ▸ List.prefix_refl _) hpre
    intro j e he
    by_cases hj : j = i
    · subst hj
      exact hmono e (h.act_routed ha e he)
    · rw [ha.others hj] at he
      exact hmono e (h.routed j e he)

end Routing

end

end ZZ9K.Runtime
