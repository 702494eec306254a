import ZZ9K.Host.CryptoBatch

namespace ZZ9K.Host

open ZZ9K.Abi ZZ9K.Framework

/-- The accounts a batch shows are in order. -/
def BatchPoint.Sound (count : UInt32) : BatchPoint → Prop
  | .iteration maxInFlight submittedTotal completedTotal inFlight =>
      inFlight = submittedTotal-completedTotal ∧ completedTotal ≤ submittedTotal ∧
        submittedTotal ≤ count ∧ inFlight ≤ maxInFlight ∧ maxInFlight ≤ cryptoBatchMaxInFlight
  | .subtract a b => b ≤ a
  | .store index => index < count

def BatchCall.Sound (count : UInt32) : BatchCall → Prop
  | .point p => p.Sound count
  | _ => True

/-- The requests a log published, oldest first -/
def published (log : BatchLog) : List MailboxEntry :=
  log.filterMap fun
    | ⟨.publish entry,_⟩ => some entry
    | _ => none

/-- The completions a log consumed, oldest first -/
def consumed (log : BatchLog) : List MailboxEntry :=
  log.filterMap fun
    | ⟨.take,reply⟩ => some reply
    | _ => none

/-- The elements of `results` that are filled -/
def filled (results : List CryptoResult) : Nat := results.countP (·.bytesWritten ≠ 0)

/-- Everything shown so far was in order, and this was published and consumed. -/
structure Kept (count : UInt32) (sent replies : List MailboxEntry) (log : BatchLog) : Prop where
  sound : ∀ e ∈ log, e.1.Sound count
  published : published log = sent
  consumed : consumed log = replies

/-- The entry as it is put in the ring -/
def Stamped (request entry : MailboxEntry) : Prop :=
  ∃ requestId, entry = {request with requestId,status := statusQueued}

/-- The published request that was made from descriptor `index` -/
def RequestFor {Desc : Type} (kind : BatchKind Desc) (descs : UInt32 → Desc) (index : UInt32)
    (entry : MailboxEntry) : Prop :=
  ∃ request, kind.request (descs index) = .ok request ∧
    Stamped {request with userCookie := index} entry

/-- The element was decoded from a completion that carries its index. -/
def ResultFrom (opcode : UInt16) (replies : List MailboxEntry) (i : Nat) (result : CryptoResult) :
    Prop :=
  ∃ reply ∈ replies, reply.userCookie.toNat = i ∧ replyCryptoResult reply opcode = .ok result

/-- What holds of the local variables of a batch between any two steps -/
structure Accounts (count maxInFlight timeoutTicks : UInt32) (s : BatchState) : Prop where
  balance : s.inFlight.toNat+s.completedTotal.toNat = s.submittedTotal.toNat
  submitted : s.submittedTotal.toNat ≤ count.toNat
  window : s.inFlight.toNat ≤ maxInFlight.toNat
  waited : s.waitTicks = 0 ∨ s.waitTicks.toNat < timeoutTicks.toNat
  length : s.results.length = count.toNat
  filled : filled s.results = s.completedTotal.toNat

section

/-- Any board and any firmware: whatever may be read is read. -/
abbrev anyBoard : World BatchCall BatchCall.Answer := World.logged BatchCall BatchCall.Answer

abbrev batchWp {α : Type} (p : BatchProg α) (Q : α → BatchLog → Prop) (log : BatchLog) : Prop :=
  anyBoard.wp p Q log

variable {count : UInt32} {sent replies : List MailboxEntry} {log : BatchLog}

theorem Kept.next (h : Kept count sent replies log) {e : Answered BatchCall BatchCall.Answer}
    (he : e.1.Sound count) :
    Kept count (sent++Host.published [e]) (replies++Host.consumed [e]) (log++[e]) where
  sound := by
    intro f hf
    rcases List.mem_append.mp hf with hf | hf
    · exact h.sound f hf
    · rw [List.mem_singleton.mp hf]
      exact he
  published := by
    rw [Host.published,List.filterMap_append,← Host.published,h.published,Host.published]
  consumed := by
    rw [Host.consumed,List.filterMap_append,← Host.consumed,h.consumed,Host.consumed]

/-- A call that neither publishes nor takes anything -/
theorem Kept.same (h : Kept count sent replies log) {e : Answered BatchCall BatchCall.Answer}
    (he : e.1.Sound count) (hp : Host.published [e] = []) (hc : Host.consumed [e] = []) :
    Kept count sent replies (log++[e]) := by
  have := h.next he
  rwa [hp,hc,List.append_nil,List.append_nil] at this

theorem subtract_wp (h : Kept count sent replies log) {a b : UInt32} (hle : b ≤ a)
    {Q : UInt32 → BatchLog → Prop} (hQ : ∀ log, Kept count sent replies log → Q (a-b) log) :
    batchWp (subtract a b) Q log := by
  intro _ _
  exact hQ _ (h.same (e := ⟨.point (.subtract a b),()⟩) hle rfl rfl)

variable {ctx : Context} {Desc : Type} {kind : BatchKind Desc}

/-- `zz9k_submit` publishes the request exactly when it says QUEUED, and never says OK. -/
theorem submit_wp (request : MailboxEntry) (h : Kept count sent replies log) :
    batchWp (submit ctx request) (fun r log =>
      (r.1 = .queued → ∃ entry, Stamped request entry ∧ Kept count (sent++[entry]) replies log) ∧
      (r.1 ≠ .queued → r.1 ≠ .ok ∧ Kept count sent replies log)) log := by
  intro found _
  have hk := h.same (e := ⟨.semaphore,found⟩) trivial rfl rfl
  cases found with
  | false => exact ⟨nofun,fun _ => ⟨nofun,hk⟩⟩
  | true =>
  by_cases hp : 48 < request.payloadLen.toNat
  · rw [if_pos hp]
    exact ⟨nofun,fun _ => ⟨nofun,hk⟩⟩
  rw [if_neg hp]
  intro indices _
  have hk := hk.same (e := ⟨.requestIndices,indices⟩) trivial rfl rfl
  obtain ⟨head,tail⟩ := indices
  by_cases hi : ctx.requestRingEntries ≤ head ∨ ctx.requestRingEntries ≤ tail
  · simp only [if_pos hi]
    exact ⟨nofun,fun _ => ⟨nofun,hk⟩⟩
  by_cases hf : nextRingIndex tail ctx.requestRingEntries = head
  · simp only [if_neg hi,if_pos hf]
    exact ⟨nofun,fun _ => ⟨nofun,hk⟩⟩
  simp only [if_neg hi,if_neg hf]
  split_ifs
  · intro requestId _ _ _
    have hk := hk.same (e := ⟨.nextRequestId,requestId⟩) trivial rfl rfl
    refine ⟨fun _ => ⟨_,⟨requestId,rfl⟩,?_⟩,fun hne => absurd rfl hne⟩
    have := hk.next (e := ⟨.publish {request with requestId,status := statusQueued},()⟩) trivial
    rwa [show consumed [_] = [] from rfl,List.append_nil] at this
  · intro _ _
    refine ⟨fun _ => ⟨_,⟨request.requestId,rfl⟩,?_⟩,fun hne => absurd rfl hne⟩
    have := hk.next (e := ⟨.publish {request with
      requestId := request.requestId,status := statusQueued},()⟩) trivial
    rwa [show consumed [_] = [] from rfl,List.append_nil] at this

/-- `zz9k_poll` takes a completion exactly when it says OK. -/
theorem poll_wp (reply : MailboxEntry) (h : Kept count sent replies log) :
    batchWp (poll ctx reply) (fun r log =>
      (r.1 = .ok → Kept count sent (replies++[r.2]) log) ∧
      (r.1 ≠ .ok → Kept count sent replies log)) log := by
  intro found _
  have hk := h.same (e := ⟨.semaphore,found⟩) trivial rfl rfl
  cases found with
  | false => exact ⟨nofun,fun _ => hk⟩
  | true =>
  intro indices _
  have hk := hk.same (e := ⟨.completionIndices,indices⟩) trivial rfl rfl
  obtain ⟨head,tail⟩ := indices
  by_cases hi : ctx.completionRingEntries ≤ head ∨ ctx.completionRingEntries ≤ tail
  · simp only [if_pos hi]
    exact ⟨nofun,fun _ => hk⟩
  by_cases he : head = tail
  · simp only [if_neg hi,if_pos he]
    exact ⟨nofun,fun _ => hk⟩
  simp only [if_neg hi,if_neg he]
  intro taken _
  refine ⟨fun _ => ?_,fun hne => absurd rfl hne⟩
  have := hk.next (e := ⟨.take,taken⟩) trivial
  rwa [show Host.published [⟨.take,taken⟩] = [] from rfl,List.append_nil] at this

/-- What was submitted is a first part of the requests. -/
theorem submitBatchLoop_wp (requests : List MailboxEntry) {done : UInt32}
    (hroom : done.toNat+requests.length < 2^32) (h : Kept count sent replies log) :
    batchWp (submitBatchLoop ctx done requests) (fun r log => r.1 ≠ .ok ∧
      (r.1 ≠ .queued → r.2 = 0) ∧ ∃ entries,
      Kept count (sent++entries) replies log ∧ r.2.toNat = done.toNat+entries.length ∧
      List.Forall₂ Stamped (requests.take entries.length) entries) log := by
  induction requests generalizing done sent log with
  | nil => exact ⟨nofun,fun h => absurd rfl h,[],by rwa [List.append_nil],rfl,.nil⟩
  | cons request rest ih =>
    rw [List.length_cons] at hroom
    unfold submitBatchLoop
    rw [batchWp,World.wp_bind]
    refine World.wp_mono _ (submit_wp request h) fun r log hr => ?_
    obtain ⟨status,id⟩ := r
    obtain ⟨hqueued,hother⟩ := hr
    by_cases hs : status ≠ .queued
    · simp only [if_pos hs]
      obtain ⟨hne,hk⟩ := hother hs
      refine ⟨?_,fun h => ?_,[],by rwa [List.append_nil],rfl,.nil⟩
      · split_ifs
        · exact nofun
        · exact hne
      · by_contra h0
        exact h (if_pos h0)
    · simp only [if_neg hs]
      obtain ⟨entry,hst,hk⟩ := hqueued (not_not.mp hs)
      have hone : (done+1).toNat = done.toNat+1 := by
        rw [UInt32.toNat_add]
        exact Nat.mod_eq_of_lt (by simp; omega)
      refine World.wp_mono _ (ih (by rw [hone]; omega) hk) fun r log hr => ?_
      obtain ⟨hne,hnone,entries,hk,hlen,hall⟩ := hr
      refine ⟨hne,hnone,entry::entries,?_,?_,?_⟩
      · rwa [List.append_assoc,List.singleton_append] at hk
      · rw [hlen,hone,List.length_cons]
        omega
      · rw [List.length_cons,List.take_succ_cons]
        exact .cons hst hall

theorem submitBatch_wp {requests : List MailboxEntry} (hroom : requests.length < 2^32)
    (h : Kept count sent replies log) : batchWp (submitBatch ctx requests) (fun r log =>
      r.1 ≠ .ok ∧ (r.1 ≠ .queued → r.2 = 0) ∧ ∃ entries,
      Kept count (sent++entries) replies log ∧ r.2.toNat = entries.length ∧ List.Forall₂ Stamped (requests.take entries.length) entries)
      log := by
  unfold submitBatch
  split_ifs
  · exact ⟨nofun,fun _ => rfl,[],by rwa [List.append_nil],rfl,.nil⟩
  · refine World.wp_mono _ (submitBatchLoop_wp requests (by simpa using hroom) h) fun r log hr => ?_
    obtain ⟨hne,hnone,entries,hk,hlen,hall⟩ := hr
    exact ⟨hne,hnone,entries,hk,by simpa using hlen,hall⟩

theorem pollBatchLoop_wp (room : Nat) {taken : List MailboxEntry}
    (h : Kept count sent (replies++taken) log) :
    batchWp (pollBatchLoop ctx taken room) (fun r log => Kept count sent (replies++r.2) log ∧
      r.2.length ≤ taken.length+room ∧
      (r.1 = .busy → r.2 = []) ∧ (r.1 = .ok → 0 < taken.length+room → r.2 ≠ [])) log := by
  induction room generalizing taken log with
  | zero =>
    refine ⟨h,le_refl _,nofun,fun _ hpos => ?_⟩
    exact List.ne_nil_of_length_pos hpos
  | succ room ih =>
    unfold pollBatchLoop
    rw [batchWp,World.wp_bind]
    refine World.wp_mono _ (poll_wp {} h) fun r log hr => ?_
    obtain ⟨status,reply⟩ := r
    obtain ⟨htaken,hnone⟩ := hr
    by_cases hb : status = .busy
    · subst hb
      simp only [if_true]
      refine ⟨hnone nofun,Nat.le_add_right _ _,fun hbusy => ?_,fun hok _ => ?_⟩
      · by_contra hne
        simp [hne] at hbusy
      · rintro rfl
        simp at hok
    by_cases hs : status = .ok
    · subst hs
      simp only [if_neg hb,ne_eq,not_true,if_false]
      refine World.wp_mono _ (@ih _ (taken++[reply]) ?_) fun r log hr => ?_
      · rw [← List.append_assoc]
        exact htaken rfl
      · rw [List.length_append,List.length_singleton] at hr
        exact ⟨hr.1,by omega,hr.2.2.1,fun hok _ => hr.2.2.2 hok (by omega)⟩
    · simp only [if_neg hb,ne_eq,hs,not_false_iff,if_true]
      exact ⟨hnone hs,Nat.le_add_right _ _,fun h => absurd h hb,fun h => absurd h hs⟩

theorem pollBatch_wp {capacity : UInt32} (hpos : capacity ≠ 0) (h : Kept count sent replies log) :
    batchWp (pollBatch ctx capacity) (fun r log => Kept count sent (replies++r.2) log ∧
      r.2.length ≤ capacity.toNat ∧ (r.1 = .busy → r.2 = []) ∧ (r.1 = .ok → r.2 ≠ [])) log := by
  unfold pollBatch
  rw [if_neg hpos]
  refine World.wp_mono _ (pollBatchLoop_wp capacity.toNat (by rwa [List.append_nil]))
    fun r log hr => ?_
  rw [List.length_nil,Nat.zero_add] at hr
  refine ⟨hr.1,hr.2.1,hr.2.2.1,fun hok => hr.2.2.2 hok ?_⟩
  exact Nat.pos_of_ne_zero fun h0 => hpos (UInt32.toNat_inj.mp h0)

theorem replyCryptoResult_error {reply : MailboxEntry} {opcode : UInt16} {status : Status}
    (h : replyCryptoResult reply opcode = .error status) : status ≠ .ok := by
  unfold replyCryptoResult at h
  split at h
  · obtain rfl := Except.error.inj h
    exact (replyRequire_error ‹_›).1
  · dsimp only at h
    split_ifs at h
    obtain rfl := Except.error.inj h
    simp

theorem filled_set {results : List CryptoResult} {i : Nat} (hi : i < results.length)
    (h0 : (results.getD i {}).bytesWritten = 0) {result : CryptoResult}
    (hr : result.bytesWritten ≠ 0) : filled (results.set i result) = filled results+1 := by
  rw [List.getD_eq_getElem _ _ hi] at h0
  rw [filled,List.countP_set hi]
  simp [filled,h0,hr]

/-- Every stored reply fills an element that was empty, the one its cookie names. -/
theorem storeReplies_wp {taken : List MailboxEntry} (rest : List MailboxEntry)
    {results : List CryptoResult} (hlen : results.length = count.toNat)
    (hsub : ∀ reply ∈ rest, reply ∈ taken)
    (hfrom : ∀ i result, results[i]? = some result → result.bytesWritten ≠ 0 →
      ResultFrom kind.opcode taken i result)
    (h : Kept count sent replies log) :
    batchWp (storeReplies kind count rest results) (fun r log => Kept count sent replies log ∧
      (∀ results', r = .ok results' → results'.length = count.toNat ∧
        filled results' = filled results+rest.length ∧
        ∀ i result, results'[i]? = some result → result.bytesWritten ≠ 0 →
          ResultFrom kind.opcode taken i result) ∧
      ∀ status results', r = .error (status,results') → status ≠ .ok) log := by
  induction rest generalizing results log with
  | nil =>
    refine ⟨h,fun results' hr => ?_,nofun⟩
    obtain rfl := Except.ok.inj hr
    exact ⟨hlen,rfl,hfrom⟩
  | cons reply rest ih =>
    unfold storeReplies
    dsimp only
    split
    · refine ⟨h,nofun,fun status results' hr => ?_⟩
      obtain ⟨rfl,_⟩ := Prod.mk.inj (Except.error.inj hr)
      simp
    · rename_i hfree
      rw [not_or,UInt32.not_le,not_not] at hfree
      obtain ⟨hlt,h0⟩ := hfree
      intro _ _
      have hk := h.same (e := ⟨.point (.store reply.userCookie),()⟩) hlt rfl rfl
      cases hrep : replyCryptoResult reply kind.opcode with
      | error status =>
        refine ⟨hk,nofun,fun status' results' hr => ?_⟩
        obtain ⟨rfl,_⟩ := Prod.mk.inj (Except.error.inj hr)
        exact replyCryptoResult_error hrep
      | ok result =>
        have hi : reply.userCookie.toNat < results.length := by
          rw [hlen]
          exact UInt32.lt_iff_toNat_lt.mp hlt
        have hfill := filled_set hi h0 (replyCryptoResult_bytes hrep)
        refine World.wp_mono _ (ih (by rw [List.length_set,hlen])
          (fun reply hr => hsub reply (List.mem_cons_of_mem _ hr)) ?_ hk) fun r log hr => ?_
        · intro i result' hget hne
          rw [List.getElem?_set] at hget
          split_ifs at hget with hidx
          · obtain rfl := Option.some.inj hget
            exact ⟨reply,hsub reply List.mem_cons_self,hidx,hrep⟩
          · exact hfrom i result' hget hne
        · refine ⟨hr.1,fun results' he => ?_,hr.2.2⟩
          obtain ⟨hlen',hf,hfrom'⟩ := hr.2.1 results' he
          exact ⟨hlen',by rw [hf,hfill,List.length_cons]; omega,hfrom'⟩

/-- The requests are made from the next descriptors, in order. -/
theorem batchRequests_ok {descs : UInt32 → Desc} (n : Nat) {first : UInt32}
    {requests : List MailboxEntry} (h : batchRequests kind descs first n = .ok requests) :
    requests.length = n ∧ ∀ i entry, requests[i]? = some entry → ∃ request,
      kind.request (descs (first+UInt32.ofNat i)) = .ok request ∧
        entry = {request with userCookie := first+UInt32.ofNat i} := by
  induction n generalizing first requests with
  | zero =>
    obtain rfl := Except.ok.inj h
    exact ⟨rfl,nofun⟩
  | succ n ih =>
    unfold batchRequests at h
    split at h
    · cases h
    rename_i request hrequest
    split at h
    · cases h
    rename_i rest hrest
    obtain rfl := Except.ok.inj h
    obtain ⟨hlen,hmade⟩ := ih hrest
    refine ⟨by rw [List.length_cons,hlen],fun i entry hget => ?_⟩
    cases i with
    | zero =>
      obtain rfl := Option.some.inj hget
      rw [show first+UInt32.ofNat 0 = first by simp]
      exact ⟨request,hrequest,rfl⟩
    | succ i =>
      obtain ⟨request',hrequest',he⟩ := hmade i entry (by simpa using hget)
      have hidx : first+UInt32.ofNat (i+1) = first+1+UInt32.ofNat i := by
        rw [UInt32.ofNat_add,UInt32.add_comm (UInt32.ofNat i),UInt32.add_assoc]
        rfl
      rw [hidx]
      exact ⟨request',hrequest',he⟩

theorem batchRequests_error {descs : UInt32 → Desc} (n : Nat) {first : UInt32} {status : Status}
    (h : batchRequests kind descs first n = .error status) : status ≠ .ok := by
  induction n generalizing first status with
  | zero => cases h
  | succ n ih =>
    unfold batchRequests at h
    split at h
    · obtain rfl := Except.error.inj h
      exact kind.refused ‹_›
    · split at h
      · obtain rfl := Except.error.inj h
        exact ih ‹_›
      · cases h

variable {descs : UInt32 → Desc} {maxInFlight timeoutTicks : UInt32}

/-- What a log holds of a batch in this state: one request for each descriptor submitted so far,
in order, and one completion for each result. -/
structure Records (kind : BatchKind Desc) (descs : UInt32 → Desc) (count : UInt32) (s : BatchState)
    (log : BatchLog) : Prop where
  sound : ∀ e ∈ log, e.1.Sound count
  sent : (published log).length = s.submittedTotal.toNat
  made : ∀ i entry, (published log)[i]? = some entry → RequestFor kind descs (UInt32.ofNat i) entry
  taken : (consumed log).length = s.completedTotal.toNat
  results : ∀ i result, s.results[i]? = some result → result.bytesWritten ≠ 0 →
    ResultFrom kind.opcode (consumed log) i result

theorem Records.kept {s : BatchState} (h : Records kind descs count s log) :
    Kept count (published log) (consumed log) log := ⟨h.sound,rfl,rfl⟩

theorem Records.of_kept {s s' : BatchState} {log' : BatchLog} (h : Records kind descs count s log)
    (hk : Kept count (published log) (consumed log) log')
    (hs : s'.submittedTotal = s.submittedTotal) (hc : s'.completedTotal = s.completedTotal)
    (hr : s'.results = s.results) : Records kind descs count s' log' where
  sound := hk.sound
  sent := by rw [hk.published,hs,h.sent]
  made := by
    rw [hk.published]
    exact h.made
  taken := by rw [hk.consumed,hc,h.taken]
  results := by
    rw [hk.consumed,hr]
    exact h.results

/-- Publishing the next requests keeps the record. -/
theorem Records.publish {s : BatchState} (h : Records kind descs count s log)
    {requests entries : List MailboxEntry} {n : Nat} {log' : BatchLog}
    (hreq : batchRequests kind descs s.submittedTotal n = .ok requests)
    (hst : List.Forall₂ Stamped (requests.take entries.length) entries)
    (hk : Kept count (published log++entries) (consumed log) log') {now : UInt32}
    (hnow : now.toNat = entries.length) (hroom : s.submittedTotal.toNat+now.toNat < 2^32) :
    Records kind descs count {s with
      submittedTotal := s.submittedTotal+now,inFlight := s.inFlight+now,waitTicks := 0} log' where
  sound := hk.sound
  sent := by
    rw [hk.published,List.length_append,h.sent,UInt32.toNat_add,Nat.mod_eq_of_lt hroom,hnow]
  made := by
    rw [hk.published]
    intro i entry hget
    by_cases hi : i < (published log).length
    · rw [List.getElem?_append_left hi] at hget
      exact h.made i entry hget
    · rw [not_lt] at hi
      rw [List.getElem?_append_right hi] at hget
      obtain ⟨hj,rfl⟩ := List.getElem?_eq_some_iff.mp hget
      have hlt : i-(published log).length < (requests.take entries.length).length := by
        rwa [hst.length_eq]
      have hstamped := hst.get hlt hj
      rw [List.get_eq_getElem,List.get_eq_getElem] at hstamped
      obtain ⟨request,hrequest,he⟩ := (batchRequests_ok n hreq).2 (i-(published log).length)
        _ (List.getElem?_eq_some_iff.mpr ⟨(List.length_take_le' _ _).trans_lt' hlt,rfl⟩)
      have hidx : s.submittedTotal+UInt32.ofNat (i-(published log).length) = UInt32.ofNat i := by
        rw [h.sent]
        rw [h.sent] at hi
        conv_rhs => rw [← Nat.add_sub_cancel' hi,UInt32.ofNat_add,UInt32.ofNat_toNat]
      rw [hidx] at hrequest he
      refine ⟨request,hrequest,?_⟩
      rw [← he]
      rwa [List.getElem_take] at hstamped
  taken := by rw [hk.consumed,h.taken]
  results := by
    rw [hk.consumed]
    exact h.results

theorem Accounts.sound {s : BatchState} (ha : Accounts count maxInFlight timeoutTicks s)
    (hmax : maxInFlight ≤ cryptoBatchMaxInFlight) : (BatchPoint.iteration maxInFlight
      s.submittedTotal s.completedTotal s.inFlight).Sound count := by
  have hb := ha.balance
  have hle : s.completedTotal ≤ s.submittedTotal := UInt32.le_iff_toNat_le.mpr (by omega)
  refine ⟨?_,hle,UInt32.le_iff_toNat_le.mpr ha.submitted,UInt32.le_iff_toNat_le.mpr ha.window,hmax⟩
  apply UInt32.toNat_inj.mp
  rw [UInt32.toNat_sub_of_le _ _ hle]
  omega

/-- The submitting loop only adds requests, and waits anew when it does. -/
structure Submits (s s' : BatchState) : Prop where
  completed : s'.completedTotal = s.completedTotal
  results : s'.results = s.results
  submitted : s.submittedTotal.toNat ≤ s'.submittedTotal.toNat
  waited : s'.submittedTotal = s.submittedTotal → s'.waitTicks = s.waitTicks

theorem Submits.trans {s s' s'' : BatchState} (h : Submits s s') (h' : Submits s' s'') :
    Submits s s'' where
  completed := h'.completed.trans h.completed
  results := h'.results.trans h.results
  submitted := h.submitted.trans h'.submitted
  waited he := by
    have h1 : s'.submittedTotal = s.submittedTotal := by
      apply UInt32.toNat_inj.mp
      have := h.submitted
      have := h'.submitted
      rw [he] at this
      omega
    exact (h'.waited (he.trans h1.symm)).trans (h.waited h1)

/-- What the batch submits in one go fits both the descriptors left and the window. -/
theorem Accounts.submit {s : BatchState} (ha : Accounts count maxInFlight timeoutTicks s)
    (now : UInt32) (hleft : now.toNat ≤ count.toNat-s.submittedTotal.toNat)
    (hroom : now.toNat ≤ maxInFlight.toNat-s.inFlight.toNat) (h0 : now ≠ 0) :
    Accounts count maxInFlight timeoutTicks {s with
      submittedTotal := s.submittedTotal+now,inFlight := s.inFlight+now,waitTicks := 0} ∧
    Submits s {s with
      submittedTotal := s.submittedTotal+now,inFlight := s.inFlight+now,waitTicks := 0} ∧
    s.submittedTotal.toNat < (s.submittedTotal+now).toNat := by
  have hb := ha.balance
  have hs := ha.submitted
  have hw := ha.window
  have hc := count.toNat_lt
  have hm := maxInFlight.toNat_lt
  have hpos : 0 < now.toNat := Nat.pos_of_ne_zero fun h => h0 (UInt32.toNat_inj.mp h)
  have hsub : (s.submittedTotal+now).toNat = s.submittedTotal.toNat+now.toNat := by
    rw [UInt32.toNat_add]
    exact Nat.mod_eq_of_lt (by omega)
  have hfl : (s.inFlight+now).toNat = s.inFlight.toNat+now.toNat := by
    rw [UInt32.toNat_add]
    exact Nat.mod_eq_of_lt (by omega)
  refine ⟨⟨?_,?_,?_,Or.inl rfl,ha.length,ha.filled⟩,⟨rfl,rfl,?_,fun he => ?_⟩,?_⟩
  · dsimp only
    omega
  · dsimp only
    omega
  · dsimp only
    omega
  · dsimp only
    omega
  · have := congrArg UInt32.toNat he
    dsimp only at this
    omega
  · omega

/-- What the loops of a batch keep: the accounts, and the record of them in the log -/
structure Ready (kind : BatchKind Desc) (descs : UInt32 → Desc)
    (count maxInFlight timeoutTicks : UInt32) (s : BatchState) (log : BatchLog) : Prop where
  accounts : Accounts count maxInFlight timeoutTicks s
  records : Records kind descs count s log

theorem fillRound_wp {s : BatchState} (hmax : maxInFlight ≤ cryptoBatchMaxInFlight)
    (h : Ready kind descs count maxInFlight timeoutTicks s log) :
    batchWp (fillRound ctx kind descs count maxInFlight s) (fun r log =>
      (∀ e ∈ log, e.1.Sound count) ∧ (∀ status, r = .inl (.error status) → status ≠ .ok) ∧
      (∀ s', r = .inl (.ok s') → Ready kind descs count maxInFlight timeoutTicks s' log ∧
        Submits s s') ∧
      ∀ s', r = .inr s' → Ready kind descs count maxInFlight timeoutTicks s' log ∧
        Submits s s' ∧ s.submittedTotal.toNat < s'.submittedTotal.toNat) log := by
  obtain ⟨ha,hrec⟩ := h
  have stay : ∀ {log'}, Kept count (published log) (consumed log) log' → ∀ s',
      (Sum.inl (Except.ok s) : Except Status BatchState ⊕ BatchState) = .inl (.ok s') →
      Ready kind descs count maxInFlight timeoutTicks s' log' ∧ Submits s s' := by
    intro log' hk s' he
    obtain rfl := Except.ok.inj (Sum.inl.inj he)
    exact ⟨⟨ha,hrec.of_kept hk rfl rfl rfl⟩,rfl,rfl,le_refl _,fun _ => rfl⟩
  intro _ _
  have hk := hrec.kept.same (e := ⟨.point (.iteration maxInFlight s.submittedTotal s.completedTotal
    s.inFlight),()⟩) (ha.sound hmax) rfl rfl
  dsimp only
  by_cases hroom : s.submittedTotal < count ∧ s.inFlight < maxInFlight
  · rw [if_pos hroom]
    have hle : s.submittedTotal ≤ count := UInt32.le_of_lt hroom.1
    have hle' : s.inFlight ≤ maxInFlight := UInt32.le_of_lt hroom.2
    rw [World.wp_bind]
    refine subtract_wp hk hle fun log₁ hk => ?_
    rw [World.wp_bind]
    refine subtract_wp hk hle' fun log₂ hk => ?_
    generalize hcap : (if maxInFlight-s.inFlight < count-s.submittedTotal then
      maxInFlight-s.inFlight else count-s.submittedTotal) = capacity
    have hcapLeft : capacity.toNat ≤ count.toNat-s.submittedTotal.toNat ∧
        capacity.toNat ≤ maxInFlight.toNat-s.inFlight.toNat := by
      rw [← UInt32.toNat_sub_of_le _ _ hle,← UInt32.toNat_sub_of_le _ _ hle',← hcap]
      split_ifs with hlt
      · exact ⟨(UInt32.lt_iff_toNat_lt.mp hlt).le,le_refl _⟩
      · exact ⟨le_refl _,UInt32.le_iff_toNat_le.mp (UInt32.not_lt.mp hlt)⟩
    cases hreq : batchRequests kind descs s.submittedTotal capacity.toNat with
    | error status =>
      refine ⟨hk.sound,fun status' he => ?_,nofun,nofun⟩
      obtain rfl := Except.error.inj (Sum.inl.inj he)
      exact batchRequests_error _ hreq
    | ok requests =>
      have hlen := (batchRequests_ok _ hreq).1
      rw [World.wp_bind]
      refine World.wp_mono _ (submitBatch_wp (by rw [hlen]; exact capacity.toNat_lt) hk)
        fun r log₃ hr => ?_
      obtain ⟨status,now⟩ := r
      obtain ⟨hne,hzero,entries,hk,hnow,hst⟩ := hr
      have hfit : now.toNat ≤ capacity.toNat := by
        rw [hnow,← hst.length_eq,← hlen]
        exact List.length_take_le' _ _
      dsimp only at hne hnow ⊢
      by_cases hq : status = .queued ∧ now ≠ 0
      · rw [if_pos hq]
        obtain ⟨ha',hsub,hlt⟩ := ha.submit now (hfit.trans hcapLeft.1)
          (hfit.trans hcapLeft.2) hq.2
        have hroom : s.submittedTotal.toNat+now.toNat < 2^32 := by
          have := count.toNat_lt
          have := ha.submitted
          omega
        have hready : Ready kind descs count maxInFlight timeoutTicks _ log₃ :=
          ⟨ha',hrec.publish hreq hst hk hnow hroom⟩
        split_ifs
        · refine ⟨hk.sound,nofun,fun s' he => ?_,nofun⟩
          obtain rfl := Except.ok.inj (Sum.inl.inj he)
          exact ⟨hready,hsub⟩
        · refine ⟨hk.sound,nofun,nofun,fun s' he => ?_⟩
          obtain rfl := Sum.inr.inj he
          exact ⟨hready,hsub,hlt⟩
      · rw [if_neg hq]
        split_ifs with hb
        · have hnone : entries = [] := by
            have h0 : now = 0 := hzero (by rw [hb]; nofun)
            rw [h0] at hnow
            exact List.eq_nil_of_length_eq_zero hnow.symm
          rw [hnone,List.append_nil] at hk
          exact ⟨hk.sound,nofun,stay hk,nofun⟩
        · refine ⟨hk.sound,fun status' he => ?_,nofun,nofun⟩
          obtain rfl := Except.error.inj (Sum.inl.inj he)
          exact hne
  · rw [if_neg hroom]
    exact ⟨hk.sound,nofun,stay hk,nofun⟩

/-- The submitting loop comes to an end, as every further round submits something. -/
theorem fill_wp {s : BatchState} (hmax : maxInFlight ≤ cryptoBatchMaxInFlight)
    (h : Ready kind descs count maxInFlight timeoutTicks s log) (fuel : Nat) :
    batchWp (Ask.iterate (fillRound ctx kind descs count maxInFlight) fuel s) (fun r log =>
      (∀ e ∈ log, e.1.Sound count) ∧ (r = none → fuel ≤ count.toNat-s.submittedTotal.toNat) ∧
      (∀ status, r = some (.error status) → status ≠ .ok) ∧
      ∀ s', r = some (.ok s') → Ready kind descs count maxInFlight timeoutTicks s' log ∧
        Submits s s') log := by
  let I (s' : BatchState) (log : BatchLog) :=
    Ready kind descs count maxInFlight timeoutTicks s' log ∧ Submits s s'
  let Q (b : Except Status BatchState) (log : BatchLog) :=
    (∀ e ∈ log, e.1.Sound count) ∧ (∀ status, b = .error status → status ≠ .ok) ∧
      ∀ s', b = .ok s' → I s' log
  have hround : ∀ s' log, I s' log →
      batchWp (fillRound ctx kind descs count maxInFlight s')
        (anyBoard.round I Q (fun s' => count.toNat-s'.submittedTotal.toNat) s') log := by
    intro s' log hI
    refine World.wp_mono _ (fillRound_wp hmax hI.1) fun r log hr => ?_
    obtain ⟨hsound,herr,hdone,hgo⟩ := hr
    cases r with
    | inl b =>
      refine ⟨hsound,fun status hb => herr status (hb ▸ rfl),fun s'' hb => ?_⟩
      obtain ⟨hready,hs⟩ := hdone s'' (hb ▸ rfl)
      exact ⟨hready,hI.2.trans hs⟩
    | inr s'' =>
      obtain ⟨hready,hs,hlt⟩ := hgo s'' rfl
      have := hready.accounts.submitted
      refine ⟨⟨hready,hI.2.trans hs⟩,?_⟩
      dsimp only
      omega
  have hI : I s log := ⟨h,rfl,rfl,le_refl _,fun _ => rfl⟩
  refine World.wp_mono _ (World.wp_iterate _ hround fuel hI) fun r log hr => ?_
  cases r with
  | none =>
    obtain ⟨hfuel,_,hI'⟩ := hr
    exact ⟨hI'.1.records.sound,fun _ => hfuel,nofun,nofun⟩
  | some b =>
    refine ⟨hr.1,nofun,fun status hb => hr.2.1 status (Option.some.inj hb),fun s' hb => ?_⟩
    exact hr.2.2 s' (Option.some.inj hb)

/-- What is left of a batch: first what is neither submitted nor completed, then the waiting -/
def BatchState.left (count timeoutTicks : UInt32) (s : BatchState) : Nat :=
  (2*count.toNat-s.submittedTotal.toNat-s.completedTotal.toNat)*(timeoutTicks.toNat+1)+
    (timeoutTicks.toNat-s.waitTicks.toNat)

/-- Submitting or completing something outweighs any waiting. -/
theorem left_lt {s s' : BatchState} (ha : Accounts count maxInFlight timeoutTicks s')
    (hlt : s.submittedTotal.toNat+s.completedTotal.toNat <
      s'.submittedTotal.toNat+s'.completedTotal.toNat) :
    s'.left count timeoutTicks < s.left count timeoutTicks := by
  have hb := ha.balance
  have hs := ha.submitted
  unfold BatchState.left
  have hle : 2*count.toNat-s'.submittedTotal.toNat-s'.completedTotal.toNat+1 ≤
      2*count.toNat-s.submittedTotal.toNat-s.completedTotal.toNat := by omega
  have hmul := Nat.mul_le_mul_right (timeoutTicks.toNat+1) hle
  rw [Nat.add_mul,Nat.one_mul] at hmul
  omega

theorem Submits.left_le {s s' : BatchState} (h : Submits s s')
    (ha : Accounts count maxInFlight timeoutTicks s') :
    s'.left count timeoutTicks ≤ s.left count timeoutTicks := by
  by_cases he : s'.submittedTotal = s.submittedTotal
  · rw [BatchState.left,BatchState.left,he,h.completed,h.waited he]
  · have hne : s'.submittedTotal.toNat ≠ s.submittedTotal.toNat :=
      fun h => he (UInt32.toNat_inj.mp h)
    have := h.submitted
    refine (left_lt ha ?_).le
    rw [h.completed]
    omega

/-- How a round of the main loop may end once it has submitted: with an error, or ready for another
round and with less left to do -/
def RoundEnds (kind : BatchKind Desc) (descs : UInt32 → Desc)
    (count maxInFlight timeoutTicks : UInt32) (s : BatchState)
    (r : Option (Status × List CryptoResult) ⊕ BatchState) (log : BatchLog) : Prop :=
  match r with
  | .inl out => (∀ e ∈ log, e.1.Sound count) ∧
      ∃ status results, out = some (status,results) ∧ status ≠ .ok
  | .inr s' => Ready kind descs count maxInFlight timeoutTicks s' log ∧
      s'.left count timeoutTicks < s.left count timeoutTicks

theorem waitRound_wp {s : BatchState} {log' : BatchLog}
    (h : Ready kind descs count maxInFlight timeoutTicks s log)
    (hk : Kept count (published log) (consumed log) log') : batchWp (waitRound timeoutTicks s)
      (RoundEnds kind descs count maxInFlight timeoutTicks s) log' := by
  obtain ⟨ha,hrec⟩ := h
  intro _ _
  have hk := hk.same (e := ⟨.idle s.waitTicks,()⟩) trivial rfl rfl
  have ht := timeoutTicks.toNat_lt
  have hw : s.waitTicks.toNat < 2^32-1 := by
    rcases ha.waited with hw | hw
    · rw [hw]
      decide
    · omega
  have hone : (s.waitTicks+1).toNat = s.waitTicks.toNat+1 := by
    rw [UInt32.toNat_add]
    exact Nat.mod_eq_of_lt (by simp; omega)
  dsimp only
  split_ifs with hle
  · exact ⟨hk.sound,_,_,rfl,by simp⟩
  · rw [UInt32.not_le,UInt32.lt_iff_toNat_lt] at hle
    refine ⟨⟨⟨ha.balance,ha.submitted,ha.window,Or.inr hle,ha.length,ha.filled⟩,
      hrec.of_kept hk rfl rfl rfl⟩,?_⟩
    rw [BatchState.left,BatchState.left]
    dsimp only
    omega

theorem Accounts.complete {s : BatchState} (ha : Accounts count maxInFlight timeoutTicks s)
    {k : Nat} (hk : k ≤ s.inFlight.toNat) (hpos : 0 < k) {results : List CryptoResult}
    (hlen : results.length = count.toNat) (hf : Host.filled results = Host.filled s.results+k) :
    Accounts count maxInFlight timeoutTicks {s with
      completedTotal := s.completedTotal+UInt32.ofNat k,inFlight := s.inFlight-UInt32.ofNat k,
      waitTicks := 0,results} ∧
    (s.completedTotal+UInt32.ofNat k).toNat = s.completedTotal.toNat+k := by
  have hb := ha.balance
  have hs := ha.submitted
  have hw := ha.window
  have hc := count.toNat_lt
  have hfl := s.inFlight.toNat_lt
  have hof : (UInt32.ofNat k).toNat = k := UInt32.toNat_ofNat_of_lt' (by
    rw [UInt32.size]
    omega)
  have hadd : (s.completedTotal+UInt32.ofNat k).toNat = s.completedTotal.toNat+k := by
    rw [UInt32.toNat_add,hof]
    exact Nat.mod_eq_of_lt (by omega)
  have hsub : (s.inFlight-UInt32.ofNat k).toNat = s.inFlight.toNat-k := by
    rw [UInt32.toNat_sub_of_le _ _ (UInt32.le_iff_toNat_le.mpr (by rw [hof]; exact hk)),hof]
  refine ⟨⟨?_,hs,?_,Or.inl rfl,hlen,?_⟩,hadd⟩
  · rw [hadd,hsub]
    dsimp only
    omega
  · rw [hsub]
    omega
  · rw [hadd,hf,ha.filled]

theorem pollRound_wp {s : BatchState} (hpos : maxInFlight ≠ 0)
    (h : Ready kind descs count maxInFlight timeoutTicks s log) :
    batchWp (pollRound ctx kind count maxInFlight timeoutTicks s)
      (RoundEnds kind descs count maxInFlight timeoutTicks s) log := by
  have ha := h.accounts
  have hrec := h.records
  unfold pollRound
  by_cases h0 : s.inFlight = 0
  · rw [if_pos h0]
    exact waitRound_wp h hrec.kept
  rw [if_neg h0]
  dsimp only
  generalize hcap : (if maxInFlight < s.inFlight then maxInFlight else s.inFlight) = capacity
  have hcapacity : capacity ≠ 0 ∧ capacity.toNat ≤ s.inFlight.toNat := by
    rw [← hcap]
    split_ifs with hlt
    · exact ⟨hpos,(UInt32.lt_iff_toNat_lt.mp hlt).le⟩
    · exact ⟨h0,le_refl _⟩
  rw [batchWp,World.wp_bind]
  refine World.wp_mono _ (pollBatch_wp hcapacity.1 hrec.kept) fun r log₁ hr => ?_
  obtain ⟨status,replies⟩ := r
  obtain ⟨hk,hle,hnone,hsome⟩ := hr
  dsimp only at hk hle hnone hsome ⊢
  by_cases hb : status = .busy
  · rw [if_pos hb]
    rw [hnone hb,List.append_nil] at hk
    exact waitRound_wp h hk
  rw [if_neg hb]
  by_cases hs : status = .ok
  · rw [if_neg (not_not.mpr hs),World.wp_bind]
    refine World.wp_mono _ (storeReplies_wp replies ha.length
      (fun reply hr => List.mem_append_right (consumed log) hr) ?_ hk) fun r log₂ hr => ?_
    · intro i result hget hne
      obtain ⟨reply,hmem,hfrom⟩ := hrec.results i result hget hne
      exact ⟨reply,List.mem_append_left _ hmem,hfrom⟩
    obtain ⟨hk,hstored,herr⟩ := hr
    cases r with
    | error out => exact ⟨hk.sound,out.1,out.2,rfl,herr out.1 out.2 rfl⟩
    | ok results =>
      obtain ⟨hlen,hf,hfrom⟩ := hstored results rfl
      have hlt : replies.length ≤ s.inFlight.toNat := hle.trans hcapacity.2
      have hfl := s.inFlight.toNat_lt
      have hof : (UInt32.ofNat replies.length).toNat = replies.length :=
        UInt32.toNat_ofNat_of_lt' (by rw [UInt32.size]; omega)
      obtain ⟨ha',hadd⟩ := ha.complete hlt (List.length_pos_of_ne_nil (hsome hs)) hlen hf
      dsimp only
      rw [World.wp_bind]
      refine subtract_wp hk (UInt32.le_iff_toNat_le.mpr (by rw [hof]; exact hlt))
        fun log₃ hk => ?_
      refine ⟨⟨ha',⟨hk.sound,?_,?_,?_,?_⟩⟩,left_lt ha' ?_⟩
      · rw [hk.published]
        exact hrec.sent
      · rw [hk.published]
        exact hrec.made
      · rw [hk.consumed,List.length_append,hrec.taken,hadd]
      · rw [hk.consumed]
        exact hfrom
      · dsimp only
        have := List.length_pos_of_ne_nil (hsome hs)
        omega
  · rw [if_pos hs]
    exact ⟨hk.sound,status,s.results,rfl,hs⟩

/-- A batch that came back with OK: one request for each descriptor, one completion consumed for
each, and every result filled from the completion that carries its index -/
structure BatchDone (kind : BatchKind Desc) (descs : UInt32 → Desc) (count : UInt32)
    (results : List CryptoResult) (log : BatchLog) : Prop where
  sent : (published log).length = count.toNat
  made : ∀ i entry, (published log)[i]? = some entry → RequestFor kind descs (UInt32.ofNat i) entry
  consumed : (consumed log).length = count.toNat
  length : results.length = count.toNat
  written : ∀ result ∈ results, result.bytesWritten ≠ 0
  decoded : ∀ i result, results[i]? = some result →
    ResultFrom kind.opcode (Host.consumed log) i result

/-- The main loop ends with an error, with everything done, or because the submitting loop had too
little fuel. -/
def MainEnds (kind : BatchKind Desc) (descs : UInt32 → Desc) (count : UInt32) (fuel : Nat)
    (out : Option (Status × List CryptoResult)) (log : BatchLog) : Prop :=
  (∀ e ∈ log, e.1.Sound count) ∧ (out = none → fuel ≤ count.toNat) ∧
    ∀ results, out = some (.ok,results) → BatchDone kind descs count results log

theorem batchRound_wp {s : BatchState} (hmax : maxInFlight ≤ cryptoBatchMaxInFlight)
    (hpos : maxInFlight ≠ 0) {fuel : Nat}
    (h : Ready kind descs count maxInFlight timeoutTicks s log) :
    batchWp (batchRound ctx kind descs count maxInFlight timeoutTicks fuel s)
      (anyBoard.round (Ready kind descs count maxInFlight timeoutTicks)
        (MainEnds kind descs count fuel) (·.left count timeoutTicks) s) log := by
  obtain ⟨ha,hrec⟩ := h
  intro _ _
  have hk := hrec.kept.same (e := ⟨.point (.iteration maxInFlight s.submittedTotal s.completedTotal
    s.inFlight),()⟩) (ha.sound hmax) rfl rfl
  have hready : Ready kind descs count maxInFlight timeoutTicks s
      (log++[⟨.point (.iteration maxInFlight s.submittedTotal s.completedTotal s.inFlight),()⟩]) :=
    ⟨ha,hrec.of_kept hk rfl rfl rfl⟩
  dsimp only
  by_cases hlt : s.completedTotal < count
  · rw [if_pos hlt,World.wp_bind]
    refine World.wp_mono _ (fill_wp hmax hready fuel) fun r log₁ hr => ?_
    obtain ⟨hsound,hfuel,herr,hok⟩ := hr
    match r with
    | none => exact ⟨hsound,fun _ => (hfuel rfl).trans (Nat.sub_le _ _),nofun⟩
    | some (.error status) =>
      refine ⟨hsound,nofun,fun results he => ?_⟩
      obtain ⟨rfl,_⟩ := Prod.mk.inj (Option.some.inj he)
      exact absurd rfl (herr _ rfl)
    | some (.ok s') =>
      obtain ⟨hready',hs⟩ := hok s' rfl
      refine World.wp_mono _ (pollRound_wp hpos hready') fun r log₂ hr => ?_
      cases r with
      | inl out =>
        obtain ⟨hsound,status,results,rfl,hne⟩ := hr
        refine ⟨hsound,nofun,fun results' he => ?_⟩
        exact absurd (Prod.mk.inj (Option.some.inj he)).1 hne
      | inr s'' => exact ⟨hr.1,hr.2.trans_le (hs.left_le hready'.accounts)⟩
  · rw [if_neg hlt]
    have hb := ha.balance
    have hs := ha.submitted
    rw [UInt32.not_lt,UInt32.le_iff_toNat_le] at hlt
    have hall : s.completedTotal.toNat = count.toNat := by omega
    have hwritten : ∀ result ∈ s.results, result.bytesWritten ≠ 0 := by
      have hf := ha.filled
      rw [hall,← ha.length,filled,List.countP_eq_length] at hf
      intro result hr
      simpa using hf result hr
    refine ⟨hk.sound,nofun,fun results he => ?_⟩
    obtain ⟨_,rfl⟩ := Prod.mk.inj (Option.some.inj he)
    have hrec' := hready.records
    refine ⟨by rw [hrec'.sent]; omega,hrec'.made,by rw [hrec'.taken,hall],ha.length,hwritten,
      fun i result hget => hrec'.results i result hget (hwritten _ (List.mem_of_getElem? hget))⟩

/-- So many rounds are enough for either loop. -/
def batchFuel (count timeoutTicks : UInt32) : Nat :=
  2*count.toNat*(timeoutTicks.toNat+1)+timeoutTicks.toNat+1

/-- Everything a run of a batch brings about, whatever firmware does -/
theorem cryptoBatch_runs {fuel : Nat} {results : List CryptoResult}
    {out : Option (Status × List CryptoResult)}
    (hr : (cryptoBatch ctx kind descs count maxInFlight timeoutTicks fuel results).Runs log out) :
    (∀ e ∈ log, e.1.Sound count) ∧ (batchFuel count timeoutTicks ≤ fuel → out ≠ none) ∧
      ∀ results', out = some (.ok,results') → BatchDone kind descs count results' log := by
  unfold cryptoBatch at hr
  by_cases h0 : count = 0
  · rw [if_pos h0,Ask.runs_ret] at hr
    obtain ⟨rfl,rfl⟩ := hr
    exact ⟨nofun,fun _ => nofun,fun results' he => absurd (Option.some.inj he) (by simp)⟩
  rw [if_neg h0] at hr
  dsimp only at hr
  generalize hwin : (if maxInFlight = 0 ∨ cryptoBatchMaxInFlight < maxInFlight then
    cryptoBatchMaxInFlight else maxInFlight) = window at hr
  have hwindow : window ≤ cryptoBatchMaxInFlight ∧ window ≠ 0 := by
    rw [← hwin]
    split_ifs with hout
    · exact ⟨UInt32.le_refl _,by decide⟩
    · rw [not_or,UInt32.not_lt] at hout
      exact ⟨hout.2,hout.1⟩
  have hstart : Ready kind descs count window timeoutTicks
      {results := List.replicate count.toNat {}} [] := by
    refine ⟨⟨rfl,Nat.zero_le _,Nat.zero_le _,Or.inl rfl,List.length_replicate,?_⟩,
      ⟨nofun,rfl,nofun,rfl,fun i result hget hne => ?_⟩⟩
    · simp [filled,List.countP_replicate]
    · rw [List.eq_of_mem_replicate (List.mem_of_getElem? hget)] at hne
      exact absurd rfl hne
  rw [Ask.runs_bind] at hr
  obtain ⟨r,log₁,log₂,hr,hret,rfl⟩ := hr
  obtain ⟨rfl,rfl⟩ := Ask.runs_ret.mp hret
  rw [List.append_nil]
  have hloop := World.logged_sound (anyBoard.wp_iterate
    (I := Ready kind descs count window timeoutTicks) (fun s log hs =>
      batchRound_wp hwindow.1 hwindow.2 hs) fuel hstart) hr
  cases r with
  | none =>
    obtain ⟨hleft,_,hready⟩ := hloop
    refine ⟨hready.records.sound,fun hfuel => ?_,nofun⟩
    dsimp only [BatchState.left] at hleft
    simp only [UInt32.toNat_zero,Nat.sub_zero] at hleft
    rw [batchFuel] at hfuel
    omega
  | some out =>
    obtain ⟨hsound,hnone,hdone⟩ := hloop
    refine ⟨hsound,fun hfuel he => ?_,hdone⟩
    have hle := hnone he
    rw [batchFuel] at hfuel
    have : 2*count.toNat ≤ 2*count.toNat*(timeoutTicks.toNat+1) :=
      Nat.le_mul_of_pos_right _ (Nat.succ_pos _)
    omega

/-- The accounts of a batch are in order at every point of every run, whatever firmware does; with
enough fuel the batch comes back; and if it comes back with OK, it has consumed one completion for
each descriptor and filled every result. -/
theorem cryptoBatch_accounts (ctx : Context) (kind : BatchKind Desc) (descs : UInt32 → Desc)
    (count maxInFlight timeoutTicks : UInt32) (fuel : Nat) (results : List CryptoResult)
    (log : BatchLog) (out : Option (Status × List CryptoResult))
    (hr : (cryptoBatch ctx kind descs count maxInFlight timeoutTicks fuel results).Runs log out) :
    (∀ e ∈ log, e.1.Sound count) ∧ (batchFuel count timeoutTicks ≤ fuel → out ≠ none) ∧
      ∀ results', out = some (.ok,results') → (consumed log).length = count.toNat ∧
        results'.length = count.toNat ∧ ∀ result ∈ results', result.bytesWritten ≠ 0 := by
  obtain ⟨hsound,hfuel,hdone⟩ := cryptoBatch_runs hr
  refine ⟨hsound,hfuel,fun results' he => ?_⟩
  have hd := hdone results' he
  exact ⟨hd.consumed,hd.length,hd.written⟩

end

private def batchCtx : Context := {requestRingEntries := 4,completionRingEntries := 4}

private def hashDesc : CryptoHashDesc where
  srcHandle := 1
  srcOffset := 0
  srcLength := 64
  dstHandle := 2
  dstOffset := 0
  keyHandle := invalidHandle
  keyOffset := 0
  keyLength := 0
  algorithm := 1
  flags := 0

private def hashRequest : MailboxEntry :=
  { requestInit opCryptoHash [1,0,64,2,0,invalidHandle,0,0,1,0] with requestId := 9,status := 1 }

private def hashReply : MailboxEntry :=
  { opcode := opCryptoHash,payloadLen := 48,payload := Payload.ofWords [20,1,0] }

private def oneHash : BatchLog :=
  [⟨.point (.iteration 16 0 0 0),()⟩,⟨.point (.iteration 16 0 0 0),()⟩,⟨.point (.subtract 1 0),()⟩,
    ⟨.point (.subtract 16 0),()⟩,⟨.semaphore,true⟩,⟨.requestIndices,(0,0)⟩,⟨.nextRequestId,(9 : UInt32)⟩,
    ⟨.publish hashRequest,()⟩,⟨.point (.iteration 16 1 0 1),()⟩,⟨.semaphore,true⟩,
    ⟨.completionIndices,(0,1)⟩,⟨.take,hashReply⟩,⟨.point (.store 0),()⟩,⟨.point (.subtract 1 1),()⟩,
    ⟨.point (.iteration 16 1 1 0),()⟩]

/-- One descriptor, answered at once -/
theorem cryptoBatch_accounts_one : (consumed oneHash).length = 1 ∧ ∀ e ∈ oneHash, e.1.Sound 1 := by
  have hr : (cryptoHashBatch batchCtx (fun _ => hashDesc) 1 0 250 3 []).Runs oneHash
      (some (.ok,[⟨20,1,0⟩])) := Ask.runs_of_replay (by decide +kernel)
  obtain ⟨hsound,_,hok⟩ := cryptoBatch_accounts batchCtx hashBatch (fun _ => hashDesc) 1 0 250 3 []
    oneHash (some (.ok,[⟨20,1,0⟩])) hr
  exact ⟨(hok _ rfl).1,hsound⟩

end ZZ9K.Host
