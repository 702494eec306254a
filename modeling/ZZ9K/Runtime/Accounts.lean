import ZZ9K.Runtime.Firmware
import ZZ9K.Runtime.Moves

namespace ZZ9K.Runtime

open ZZ9K.Abi ZZ9K.Host ZZ9K.Framework

/-- The client still waits for this submission. -/
def Client.Awaits (c : Client) (tag : Nat) : Prop :=
  (∃ key, (tag,key) ∈ c.calls) ∨ (∃ key, c.phase = .submitted tag key) ∨
    ∃ p, (c.asyncs p).queued = true ∧ c.tagOf p = tag

theorem get_of_extended {α : Type} {l l' : List α} (h : l <+: l') {k : Nat} {x : α}
    (hk : l[k]? = some x) : l'[k]? = some x := by
  obtain ⟨es,rfl⟩ := h
  rw [List.getElem?_append_left (List.getElem?_eq_some_iff.mp hk).1,hk]

section

variable {ι : Type}

/-- Every waiting submission is on record under its key, and what is in hand was posted. -/
structure Accounts (n m : UInt32) (w : World ι) : Prop where
  honest : Honest n m w
  books : ∀ i, Bookkept w.submitted.length (w.clients i)
  calls : ∀ i, ∀ f ∈ (w.clients i).calls, w.submitted[f.1]? = some (i,f.2)
  innermost : ∀ i, ∀ f ∈ (w.clients i).calls.tail, f.2.waiter ≠ .hostCall
  phase : ∀ i tag key, (w.clients i).phase = .submitted tag key →
    w.submitted[tag]? = some (i,key) ∧ key.waiter = .async
  pending : ∀ i p, ((w.clients i).asyncs p).queued = true → ∃ key,
    w.submitted[(w.clients i).tagOf p]? = some (i,key) ∧ key.waiter = .async ∧
      key.requestId = ((w.clients i).asyncs p).requestId
  hand : ∀ i serial reply, (w.clients i).phase = .took serial reply →
    serial < w.link.returned.length ∧ w.link.posted[serial]? = some reply

namespace Accounts

variable {n m : UInt32} {s t : World ι}

theorem firmware (h : Accounts n m s) (hs : FirmwareStep n m s t) : Accounts n m t := by
  have hc := hs.clients
  have hh := h.honest.firmware hs
  have hsub := hs.submitted
  have hlink := h.honest.firmware_link hs
  refine ⟨hh,?_,?_,?_,?_,?_,?_⟩
  · rw [hc,hsub]
    exact h.books
  · rw [hc,hsub]
    exact h.calls
  · rw [hc]
    exact h.innermost
  · rw [hc,hsub]
    exact h.phase
  · rw [hc,hsub]
    exact h.pending
  · rw [hc,hlink.2]
    exact fun i serial reply hp => ⟨(h.hand i serial reply hp).1,
      get_of_extended hlink.1 (h.hand i serial reply hp).2⟩

/-- The submission a completion in hand answers -/
theorem hand_tag (h : Accounts n m s) {i : ι} {serial : Nat} {reply : MailboxEntry}
    (hp : (s.clients i).phase = .took serial reply) : ∃ tag j key, s.tags[serial]? = some tag ∧
      s.submitted[tag]? = some (j,key) ∧ entryIdent reply = key.ident := by
  obtain ⟨_,hposted⟩ := h.hand i serial reply hp
  have hlt : serial < s.tags.length :=
    h.honest.tags ▸ (List.getElem?_eq_some_iff.mp hposted).1
  have htag : s.tags[serial]? = some s.tags[serial] := List.getElem?_eq_getElem hlt
  obtain ⟨j,key,hkey,hident⟩ := h.honest.ident htag hposted
  exact ⟨_,j,key,htag,hkey,hident⟩

variable [DecidableEq ι] {i : ι}

theorem moves (h : Accounts n m s) (ha : Act i s t) : Moves i s t := ha.moves (h.books i)

omit [DecidableEq ι] in
/-- Where the library may act, no `zz9k_call` is in progress. -/
theorem open_calls (h : Accounts n m s) (ho : (s.clients i).Open) :
    ∀ f ∈ (s.clients i).calls, f.2.waiter ≠ .hostCall := by
  intro f hf
  cases hc : (s.clients i).calls with
  | nil => simp [hc] at hf
  | cons g calls =>
    rw [hc] at hf
    rcases List.mem_cons.mp hf with rfl | hf
    · exact ho.unlocked f (by simp [hc])
    · exact h.innermost i f (by simpa [hc] using hf)

theorem act (h : Accounts n m s) (ha : Act i s t) : Accounts n m t := by
  have hpre := ha.submitted_prefix
  have hposted := h.honest.act_posted ha
  have hret := (h.honest.act_returned ha).length_le
  -- what is known of a client that did not move stays known
  have hcalls : ∀ j, (t.clients j).calls = (s.clients j).calls →
      ∀ f ∈ (t.clients j).calls, t.submitted[f.1]? = some (j,f.2) := by
    intro j hj f hf
    exact get_of_extended hpre (h.calls j f (hj ▸ hf))
  have hpending : ∀ j, Fewer (s.clients j) (t.clients j) →
      ∀ p, ((t.clients j).asyncs p).queued = true → ∃ key,
        t.submitted[(t.clients j).tagOf p]? = some (j,key) ∧ key.waiter = .async ∧
          key.requestId = ((t.clients j).asyncs p).requestId := by
    intro j hf p hp
    obtain ⟨hq,hr,ht⟩ := hf p hp
    obtain ⟨key,hkey,hw,hid⟩ := h.pending j p hq
    exact ⟨key,by rw [ht]; exact get_of_extended hpre hkey,hw,hid.trans hr.symm⟩
  have hphase : ∀ j, (t.clients j).phase = (s.clients j).phase →
      (∀ tag key, (t.clients j).phase = .submitted tag key →
        t.submitted[tag]? = some (j,key) ∧ key.waiter = .async) ∧
      ∀ serial reply, (t.clients j).phase = .took serial reply →
        serial < t.link.returned.length ∧ t.link.posted[serial]? = some reply := by
    intro j hj
    rw [hj,hposted]
    refine ⟨fun tag key hp => ⟨get_of_extended hpre (h.phase j tag key hp).1,
      (h.phase j tag key hp).2⟩,fun serial reply hp => ?_⟩
    exact ⟨(h.hand j serial reply hp).1.trans_le hret,(h.hand j serial reply hp).2⟩
  have hidle : ∀ j, (t.clients j).phase = .idle →
      (∀ tag key, (t.clients j).phase = .submitted tag key →
        t.submitted[tag]? = some (j,key) ∧ key.waiter = .async) ∧
      ∀ serial reply, (t.clients j).phase = .took serial reply →
        serial < t.link.returned.length ∧ t.link.posted[serial]? = some reply := by
    intro j hj
    rw [hj]
    exact ⟨fun _ _ hp => Phase.noConfusion hp,fun _ _ hp => Phase.noConfusion hp⟩
  have hbooks : ∀ j, Bookkept t.submitted.length (t.clients j) := by
    intro j
    by_cases hj : j = i
    · subst hj
      exact ha.bookkept (h.books j)
    · rw [ha.others hj]
      exact (h.books j).mono hpre.length_le
  have hinner : ∀ j, ∀ f ∈ (t.clients j).calls.tail, f.2.waiter ≠ .hostCall := by
    intro j f hf
    by_cases hj : j = i
    swap
    · exact h.innermost j f (ha.others hj ▸ hf)
    subst hj
    rcases (h.moves ha).calls_cases with hc | ⟨g,ho,hc⟩ | ⟨g,hc⟩
    · exact h.innermost j f (hc ▸ hf)
    · rw [hc] at hf
      exact h.open_calls ho f hf
    · refine h.innermost j f ?_
      rw [hc]
      exact List.mem_of_mem_tail hf
  have hall : (∀ f ∈ (t.clients i).calls, t.submitted[f.1]? = some (i,f.2)) ∧
      (∀ p, ((t.clients i).asyncs p).queued = true → ∃ key,
        t.submitted[(t.clients i).tagOf p]? = some (i,key) ∧ key.waiter = .async ∧
          key.requestId = ((t.clients i).asyncs p).requestId) ∧
      (∀ tag key, (t.clients i).phase = .submitted tag key →
        t.submitted[tag]? = some (i,key) ∧ key.waiter = .async) ∧
      ∀ serial reply, (t.clients i).phase = .took serial reply →
        serial < t.link.returned.length ∧ t.link.posted[serial]? = some reply := by
    cases h.moves ha with
    | quiet hs hq => exact ⟨hcalls i hq.calls,hpending i hq.fewer,hphase i hq.phase⟩
    | submitted key ho hk hs hp hc hf hl =>
      refine ⟨hcalls i hc,hpending i hf,fun tag key' hp' => ?_,fun _ _ hp' => ?_⟩
      · obtain ⟨rfl,rfl⟩ := Phase.submitted.inj (hp.symm.trans hp')
        exact ⟨by simp [hs],hk⟩
      · exact Phase.noConfusion (hp.symm.trans hp')
    | called key ho hk hs hp hc hf hl =>
      refine ⟨fun f hf' => ?_,hpending i hf,hidle i hp⟩
      rw [hc] at hf'
      rcases List.mem_cons.mp hf' with rfl | hf'
      · simp [hs]
      · exact get_of_extended hpre (h.calls i f hf')
    | inserted p tag key hs hp hk hu hp' hc hq hf hl =>
      refine ⟨hcalls i hc,fun q hqq => ?_,hidle i hp'⟩
      by_cases hqp : q = p
      · subst hqp
        exact ⟨key,by rw [hq.2,hs]; exact (h.phase i tag key hp).1,hk,hq.1.symm⟩
      · obtain ⟨hqs,hr,ht⟩ := hf q hqp hqq
        obtain ⟨key',hkey,hw,hid⟩ := h.pending i q hqs
        exact ⟨key',by rw [ht,hs]; exact hkey,hw,hid.trans hr.symm⟩
    | took reply hs hp ht hok =>
      obtain ⟨hpost,hreturned,_⟩ := h.honest.taken hok
      have hclient := takeStep_client i s reply hok
      rw [← ht] at hreturned hclient
      refine ⟨hcalls i (by rw [hclient]),hpending i (.of_eq (by rw [hclient]) (by rw [hclient])),
        fun _ _ hp' => ?_,fun serial reply' hp' => ?_⟩
      · rw [hclient] at hp'
        exact Phase.noConfusion hp'
      · rw [hclient] at hp'
        obtain ⟨rfl,rfl⟩ := Phase.took.inj hp'
        rw [hposted]
        exact ⟨by simp [hreturned],hpost⟩
    | delivered serial reply l₁ p l₂ hs hp hu hc hid hfirst ht =>
      refine ⟨hcalls i (by simp [ht]),hpending i ?_,hidle i (by rw [ht])⟩
      rw [ht]
      exact leave_fewer _ _ _ _ fun _ => rfl
    | dropped serial reply hs hp hn ht =>
      exact ⟨hcalls i (by rw [ht]),hpending i (.of_eq (by rw [ht]) (by rw [ht])),
        hidle i (by rw [ht])⟩
    | answered serial reply f calls hs hp hc hr ht =>
      refine ⟨fun f' hf' => ?_,hpending i (.of_eq (by rw [ht]) (by rw [ht])),hidle i (by rw [ht])⟩
      rw [ht] at hf'
      exact get_of_extended hpre (h.calls i f' (hc ▸ List.mem_cons_of_mem f hf'))
    | gaveUp f calls hs hp hc ht =>
      refine ⟨fun f' hf' => ?_,hpending i (.of_eq (by rw [ht]) (by rw [ht])),
        hidle i (by rw [ht]; exact hp)⟩
      rw [ht] at hf'
      exact get_of_extended hpre (h.calls i f' (hc ▸ List.mem_cons_of_mem f hf'))
  have hother : ∀ j, j ≠ i → t.clients j = s.clients j := fun j hj => ha.others hj
  refine ⟨h.honest.act ha,hbooks,fun j => ?_,hinner,fun j => ?_,fun j => ?_,fun j => ?_⟩
  all_goals by_cases hj : j = i
  · exact hj ▸ hall.1
  · exact hcalls j (by rw [hother j hj])
  · exact hj ▸ hall.2.2.1
  · exact (hphase j (by rw [hother j hj])).1
  · exact hj ▸ hall.2.1
  · exact hpending j (by rw [hother j hj]; exact .refl _)
  · exact hj ▸ hall.2.2.2
  · exact (hphase j (by rw [hother j hj])).2

end Accounts

end

end ZZ9K.Runtime
