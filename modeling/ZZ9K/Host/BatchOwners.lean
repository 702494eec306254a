import ZZ9K.Host.BatchAccounts

namespace ZZ9K.Host

open ZZ9K.Abi ZZ9K.Framework

/-- A completion that was taken, the request it answers, and the number of the batch call that
published that request -/
structure Answering where
  call : Nat
  request : MailboxEntry
  reply : MailboxEntry
  deriving DecidableEq

/-- What is under way between a sequence of batch calls and firmware: the requests not answered
yet, under the numbers of their calls, and what the current call has taken -/
structure Traffic where
  call : Nat := 0
  taken : Nat := 0
  outstanding : List (Nat × MailboxEntry) := []
  answered : List Answering := []

def Traffic.nextCall (t : Traffic) : Traffic := {t with call := t.call+1,answered := []}

/-- The completion carries the id, the opcode and the cookie of the request. -/
def Echoes (request reply : MailboxEntry) : Prop :=
  reply.requestId = request.requestId ∧ reply.opcode = request.opcode ∧
    reply.userCookie = request.userCookie

instance (request reply : MailboxEntry) : Decidable (Echoes request reply) :=
  inferInstanceAs (Decidable (_ ∧ _))

/-- Firmware that answers each request once, in an order of its own: its completion number `n`
answers the one at `choice n` among those outstanding then. Indices may be read at any time. -/
def firmware (choice : Nat → Nat) : World BatchCall BatchCall.Answer where
  State := Traffic
  allowed t
    | ⟨.take,reply⟩ => ∃ q, t.outstanding[choice t.taken]? = some q ∧ Echoes q.2 reply
    | _ => True
  next t
    | ⟨.publish entry,_⟩ => {t with outstanding := t.outstanding++[(t.call,entry)]}
    | ⟨.take,reply⟩ => match t.outstanding[choice t.taken]? with
        | none => t
        | some q => {t with
            taken := t.taken+1
            outstanding := t.outstanding.eraseIdx (choice t.taken)
            answered := t.answered++[⟨q.1,q.2,reply⟩]}
    | _ => t

/-- One batch call: any of the three, on any descriptors -/
structure BatchJob where
  Desc : Type
  kind : BatchKind Desc
  descs : UInt32 → Desc
  count : UInt32
  maxInFlight : UInt32
  timeoutTicks : UInt32
  fuel : Nat
  results : List CryptoResult

def BatchJob.program (ctx : Context) (b : BatchJob) :
    BatchProg (Option (Status × List CryptoResult)) :=
  cryptoBatch ctx b.kind b.descs b.count b.maxInFlight b.timeoutTicks b.fuel b.results

/-- A batch call with what it did and returned -/
structure BatchRun where
  job : BatchJob
  log : BatchLog
  out : Option (Status × List CryptoResult)

section

variable (ctx : Context) (choice : Nat → Nat)

/-- The traffic after one more call -/
def afterCall (t : Traffic) (r : BatchRun) : Traffic := (firmware choice).after t.nextCall r.log

/-- The calls are made one after another on this firmware. -/
def Follows : Traffic → List BatchRun → Prop
  | _,[] => True
  | t,r::rest => (r.job.program ctx).Runs r.log r.out ∧ (firmware choice).Allows t.nextCall r.log ∧
      Follows (afterCall choice t r) rest

/-- Every call of the sequence has `P`, in the traffic it leaves. -/
def EachCall (P : Traffic → BatchRun → Prop) : Traffic → List BatchRun → Prop
  | _,[] => True
  | t,r::rest => P (afterCall choice t r) r ∧ EachCall P (afterCall choice t r) rest

end

/-- Every result of a batch that came back with OK is the decoded completion of the one request
that this call published for its descriptor. -/
def Belongs (t : Traffic) (r : BatchRun) : Prop :=
  ∀ results, r.out = some (.ok,results) → results.length = r.job.count.toNat ∧
    (published r.log).length = r.job.count.toNat ∧
    ∀ i result, results[i]? = some result → ∃ request reply, (published r.log)[i]? = some request ∧
      RequestFor r.job.kind r.job.descs (UInt32.ofNat i) request ∧
      ⟨t.call,request,reply⟩ ∈ t.answered ∧
      replyCryptoResult reply r.job.kind.opcode = .ok result

/-- The call took no completion of an earlier call's request that it could mistake for one of its
own: of the same opcode, with a cookie below its count. -/
def Undisturbed (t : Traffic) (r : BatchRun) : Prop :=
  ∀ a ∈ t.answered, a.request.opcode = r.job.kind.opcode → a.request.userCookie < r.job.count →
    a.call = t.call

/-- Nothing is under a number to come; what is under the number of the current call was published
in it; and completions echo their requests. -/
structure Owned (sent : List MailboxEntry) (t : Traffic) : Prop where
  outstanding : ∀ q ∈ t.outstanding, q.1 ≤ t.call ∧ (q.1 = t.call → q.2 ∈ sent)
  answered : ∀ a ∈ t.answered, Echoes a.request a.reply ∧ (a.call = t.call → a.request ∈ sent)

section

variable {ctx : Context} {choice : Nat → Nat}

theorem Owned.same {sent sent' : List MailboxEntry} {t : Traffic} (h : Owned sent t)
    (hs : ∀ entry ∈ sent, entry ∈ sent') : Owned sent' t :=
  ⟨fun q hq => ⟨(h.outstanding q hq).1,fun he => hs _ ((h.outstanding q hq).2 he)⟩,
    fun a ha => ⟨(h.answered a ha).1,fun he => hs _ ((h.answered a ha).2 he)⟩⟩

theorem published_cons (e : Answered BatchCall BatchCall.Answer) (log : BatchLog) :
    published (e::log) = published [e]++published log := by
  rw [published,published,published,← List.filterMap_append,List.singleton_append]

theorem consumed_cons (e : Answered BatchCall BatchCall.Answer) (log : BatchLog) :
    consumed (e::log) = consumed [e]++consumed log := by
  rw [consumed,consumed,consumed,← List.filterMap_append,List.singleton_append]

/-- One step of the traffic -/
theorem Owned.next {sent : List MailboxEntry} {t : Traffic} (h : Owned sent t)
    {e : Answered BatchCall BatchCall.Answer} (ha : (firmware choice).allowed t e) :
    Owned (sent++published [e]) ((firmware choice).next t e) ∧
      ((firmware choice).next t e).call = t.call ∧
      (∀ a ∈ t.answered, a ∈ ((firmware choice).next t e).answered) ∧
      ∀ reply ∈ consumed [e], ∃ a ∈ ((firmware choice).next t e).answered, a.reply = reply := by
  obtain ⟨c,x⟩ := e
  have hmono := @Owned.same sent (sent++published [⟨c,x⟩]) t h fun entry => List.mem_append_left _
  cases c with
  | publish entry =>
    refine ⟨⟨fun q hq => ?_,hmono.answered⟩,rfl,fun _ => id,nofun⟩
    rcases List.mem_append.mp hq with hq | hq
    · exact hmono.outstanding q hq
    · obtain rfl := List.mem_singleton.mp hq
      exact ⟨le_refl _,fun _ => List.mem_append_right _ (List.mem_singleton_self _)⟩
  | take =>
    obtain ⟨q,hq,hecho⟩ := ha
    have hnext : (firmware choice).next t ⟨.take,x⟩ = {t with
        taken := t.taken+1
        outstanding := t.outstanding.eraseIdx (choice t.taken)
        answered := t.answered++[⟨q.1,q.2,x⟩]} := by
      simp only [firmware,hq]
    rw [hnext]
    have hmem : q ∈ t.outstanding := List.mem_of_getElem? hq
    refine ⟨⟨fun p hp => hmono.outstanding p (List.mem_of_mem_eraseIdx hp),fun a ha => ?_⟩,rfl,
      fun a ha => List.mem_append_left _ ha,fun reply hr => ?_⟩
    · rcases List.mem_append.mp ha with ha | ha
      · exact hmono.answered a ha
      · obtain rfl := List.mem_singleton.mp ha
        exact ⟨hecho,(hmono.outstanding q hmem).2⟩
    · obtain rfl := List.mem_singleton.mp hr
      exact ⟨_,List.mem_append_right _ (List.mem_singleton_self _),rfl⟩
  | semaphore => exact ⟨hmono,rfl,fun _ => id,nofun⟩
  | requestIndices => exact ⟨hmono,rfl,fun _ => id,nofun⟩
  | nextRequestId => exact ⟨hmono,rfl,fun _ => id,nofun⟩
  | completionIndices => exact ⟨hmono,rfl,fun _ => id,nofun⟩
  | idle waitTicks => exact ⟨hmono,rfl,fun _ => id,nofun⟩
  | point p => exact ⟨hmono,rfl,fun _ => id,nofun⟩

/-- The same over a whole log, by induction on it -/
theorem Owned.after {sent : List MailboxEntry} {t : Traffic} (h : Owned sent t) {log : BatchLog}
    (ha : (firmware choice).Allows t log) :
    Owned (sent++published log) ((firmware choice).after t log) ∧
      ((firmware choice).after t log).call = t.call ∧
      (∀ a ∈ t.answered, a ∈ ((firmware choice).after t log).answered) ∧
      ∀ reply ∈ consumed log, ∃ a ∈ ((firmware choice).after t log).answered, a.reply = reply := by
  induction log generalizing sent t with
  | nil => exact ⟨by rwa [show published [] = [] from rfl,List.append_nil],rfl,fun _ => id,nofun⟩
  | cons e log ih =>
    obtain ⟨hnext,hcall,hkeep,hnew⟩ := h.next ha.1
    obtain ⟨hlast,hcall',hkeep',hnew'⟩ := ih hnext ha.2
    refine ⟨?_,hcall'.trans hcall,fun a h => hkeep' a (hkeep a h),fun reply hr => ?_⟩
    · rw [published_cons,← List.append_assoc]
      exact hlast
    · rw [consumed_cons] at hr
      rcases List.mem_append.mp hr with hr | hr
      · obtain ⟨a,ha,he⟩ := hnew reply hr
        exact ⟨a,hkeep' a ha,he⟩
      · exact hnew' reply hr

theorem replyCryptoResult_opcode {reply : MailboxEntry} {opcode : UInt16} {result : CryptoResult}
    (h : replyCryptoResult reply opcode = .ok result) : reply.opcode = opcode := by
  unfold replyCryptoResult at h
  split at h
  · cases h
  · exact (replyRequire_eq_ok.mp ‹_›).opcode

/-- One call: each result was decoded from a completion with its index as cookie, which answers a
request of this call, and of those only the one for that descriptor has this cookie. -/
theorem belongs_of_undisturbed {t : Traffic} {r : BatchRun} (h0 : Owned [] t.nextCall)
    (hr : (r.job.program ctx).Runs r.log r.out) (ha : (firmware choice).Allows t.nextCall r.log)
    (hu : Undisturbed (afterCall choice t r) r) : Belongs (afterCall choice t r) r := by
  intro results hout
  have hdone := (cryptoBatch_runs hr).2.2 results hout
  obtain ⟨howned,_,_,hanswered⟩ := h0.after ha
  refine ⟨hdone.length,hdone.sent,fun i result hget => ?_⟩
  obtain ⟨reply,hmem,hcookie,hdecode⟩ := hdone.decoded i result hget
  obtain ⟨a,hmem',rfl⟩ := hanswered reply hmem
  obtain ⟨⟨_,hop,huser⟩,hsent⟩ := howned.answered a hmem'
  have hi : i < r.job.count.toNat := by
    rw [← hdone.length]
    exact (List.getElem?_eq_some_iff.mp hget).1
  have hcall : a.call = (afterCall choice t r).call := by
    refine hu a hmem' ?_ ?_
    · rw [← hop,replyCryptoResult_opcode hdecode]
    · rw [← huser,UInt32.lt_iff_toNat_lt,hcookie]
      exact hi
  have hreq := hsent hcall
  rw [List.nil_append] at hreq
  obtain ⟨j,hj⟩ := List.mem_iff_getElem?.mp hreq
  have hfor := hdone.made j a.request hj
  have hji : j = i := by
    obtain ⟨request,_,requestId,he⟩ := hfor
    have hjc : j < r.job.count.toNat := by
      rw [← hdone.sent]
      exact (List.getElem?_eq_some_iff.mp hj).1
    have hc : a.request.userCookie.toNat = j := by
      rw [he]
      exact UInt32.toNat_ofNat_of_lt' (hjc.trans r.job.count.toNat_lt)
    rw [← hc,← huser,hcookie]
  subst hji
  exact ⟨a.request,a.reply,hj,hfor,hcall ▸ hmem',hdecode⟩

/-- In a sequence of batch calls, whatever their kinds, counts, windows and timeouts, in which no
call takes a completion left over from an earlier one for its own, all results belong. -/
theorem cryptoBatches_belong {runs : List BatchRun} (h : Follows ctx choice {} runs)
    (hu : EachCall choice Undisturbed {} runs) : EachCall choice Belongs {} runs := by
  have start : ∀ {t : Traffic}, (∀ q ∈ t.outstanding, q.1 ≤ t.call) → Owned [] t.nextCall := by
    intro t ht
    refine ⟨fun q hq => ⟨(ht q hq).trans (Nat.le_succ _),fun he => ?_⟩,nofun⟩
    exact absurd he (Nat.lt_succ_of_le (ht q hq)).ne
  have go : ∀ (runs : List BatchRun) (t : Traffic), (∀ q ∈ t.outstanding, q.1 ≤ t.call) →
      Follows ctx choice t runs → EachCall choice Undisturbed t runs →
      EachCall choice Belongs t runs := by
    intro runs
    induction runs with
    | nil => exact fun _ _ _ _ => trivial
    | cons r rest ih =>
      intro t ht hf hu
      obtain ⟨hr,ha,hrest⟩ := hf
      refine ⟨belongs_of_undisturbed (start ht) hr ha hu.1,ih _ ?_ hrest hu.2⟩
      exact fun q hq => (((start ht).after ha).1.outstanding q hq).1
  exact go runs {} nofun h hu

end

private def ringCtx : Context := {requestRingEntries := 4,completionRingEntries := 4}

private def hashOf (srcHandle : UInt32) : CryptoHashDesc where
  srcHandle
  srcOffset := 0
  srcLength := 64
  dstHandle := 2
  dstOffset := 0
  keyHandle := invalidHandle
  keyOffset := 0
  keyLength := 0
  algorithm := 1
  flags := 0

private def hashSent (srcHandle requestId : UInt32) : MailboxEntry :=
  { requestInit opCryptoHash [srcHandle,0,64,2,0,invalidHandle,0,0,1,0] with
    requestId,status := statusQueued }

private def hashAnswer (requestId : UInt32) : MailboxEntry :=
  { requestId,opcode := opCryptoHash,payloadLen := 48,payload := Payload.ofWords [20,1,0] }

private def hashJob (srcHandle timeoutTicks : UInt32) : BatchJob where
  Desc := CryptoHashDesc
  kind := hashBatch
  descs _ := hashOf srcHandle
  count := 1
  maxInFlight := 0
  timeoutTicks
  fuel := 3
  results := []

/-- Submitting the only request of a batch -/
private def submitLog (srcHandle requestId : UInt32) : BatchLog :=
  [⟨.point (.iteration 16 0 0 0),()⟩,⟨.point (.iteration 16 0 0 0),()⟩,⟨.point (.subtract 1 0),()⟩,
    ⟨.point (.subtract 16 0),()⟩,⟨.semaphore,true⟩,⟨.requestIndices,(0,0)⟩,
    ⟨.nextRequestId,requestId⟩,⟨.publish (hashSent srcHandle requestId),()⟩,
    ⟨.point (.iteration 16 1 0 1),()⟩]

private def timedOut : BatchRun where
  job := hashJob 1 1
  log := submitLog 1 9++[⟨.semaphore,true⟩,⟨.completionIndices,(0,0)⟩,⟨.idle 0,()⟩]
  out := some (.timeout,[{}])

private def answeredBy (requestId : UInt32) : BatchRun where
  job := hashJob 3 250
  log := submitLog 3 10++[⟨.semaphore,true⟩,⟨.completionIndices,(0,1)⟩,
    ⟨.take,hashAnswer requestId⟩,⟨.point (.store 0),()⟩,⟨.point (.subtract 1 1),()⟩,
    ⟨.point (.iteration 16 1 1 0),()⟩]
  out := some (.ok,[⟨20,1,0⟩])

private theorem timedOut_runs : (timedOut.job.program ringCtx).Runs timedOut.log timedOut.out :=
  Ask.runs_of_replay (by decide +kernel)

/-- A batch that times out leaves its request in flight; the completion then passes for that of
the next batch, which hashes something else. -/
theorem cryptoBatches_not_belong : ∃ runs, Follows ringCtx (fun _ => 0) {} runs ∧
    ¬EachCall (fun _ => 0) Belongs {} runs := by
  have hlate : ((answeredBy 9).job.program ringCtx).Runs (answeredBy 9).log (answeredBy 9).out :=
    Ask.runs_of_replay (by decide +kernel)
  refine ⟨[timedOut,answeredBy 9],⟨timedOut_runs,?_,hlate,?_,trivial⟩,fun h => ?_⟩
  · simp [World.Allows,firmware,timedOut,submitLog]
  · simp [World.Allows,World.after,firmware,afterCall,Traffic.nextCall,timedOut,answeredBy,
      submitLog,hashSent,hashAnswer,Echoes,requestInit]
  · obtain ⟨_,_,hall⟩ := h.2.1 _ rfl
    obtain ⟨request,reply,_,_,hmem,_⟩ := hall 0 _ rfl
    simp [World.after,firmware,afterCall,Traffic.nextCall,timedOut,answeredBy,submitLog] at hmem

/-- A batch that is answered, and so has its own completion -/
theorem cryptoBatches_belong_one : EachCall (fun _ => 0) Belongs {} [answeredBy 10] := by
  have hrun : ((answeredBy 10).job.program ringCtx).Runs (answeredBy 10).log (answeredBy 10).out :=
    Ask.runs_of_replay (by decide +kernel)
  refine @cryptoBatches_belong ringCtx _ _ ⟨hrun,?_,trivial⟩ ⟨?_,trivial⟩
  · simp [World.Allows,firmware,Traffic.nextCall,answeredBy,submitLog,hashSent,hashAnswer,Echoes,
      requestInit]
  · simp [Undisturbed,World.after,firmware,afterCall,Traffic.nextCall,answeredBy,submitLog]

end ZZ9K.Host
