import ZZ9K.Host.Ring

namespace ZZ9K.Host

open ZZ9K.Abi ZZ9K.Framework ZZ9K.Math

/-- Who moves the indices: the host under the mailbox lock, and the two sides of firmware. -/
inductive Party
  | host
  | taker
  | poster
  deriving DecidableEq

/-- `zz9k_submit` on the shared memory, remembering how it ended -/
def hostEnqueue (ctx : Context) (request : MailboxEntry) : Res Link Unit :=
  enqueueRequestLocked ctx request >>= fun r =>
  Res.store fun s => {s with outcomes := s.outcomes++[.enqueue request r s.seen s.stores]}

/-- `zz9k_poll` on the shared memory, remembering how it ended -/
def hostConsume (ctx : Context) (reply : MailboxEntry) : Res Link Unit :=
  consumeNextCompletionLocked ctx reply >>= fun r =>
  Res.store fun s => {s with outcomes := s.outcomes++[.consume r s.seen]}

/-- Any number of host operations against any number of firmware steps, in any order of their
memory accesses, over rings of `n` and `m` slots. -/
def ringSystem (n m : UInt32) : System Party Link where
  ops
    | .host,p => (∃ ctx request, ctx.requestRingEntries = n ∧ p = hostEnqueue ctx request) ∨
        ∃ ctx reply, ctx.completionRingEntries = m ∧ p = hostConsume ctx reply
    | .taker,p => p = (firmwareTake n >>= fun _ => .ret ())
    | .poster,p => ∃ wire, p = (firmwarePost m wire >>= fun _ => .ret ())
  env _ _ := False
  halts _ := False

/-- Both rings empty, nobody in the middle of anything. -/
def ringStart (requestRing completionRing : Nat → MailboxWireEntry) : Config Party Link :=
  ⟨fun _ => .ret (),{mailbox := {requestRing,completionRing}}⟩

def requestFifo (n : UInt32) (s : Link) : Fifo Message :=
  ⟨s.enqueued,s.fetched,s.mailbox.requests n⟩

def completionFifo (m : UInt32) (s : Link) : Fifo MailboxEntry :=
  ⟨s.posted,s.returned,s.mailbox.completions m⟩

/-- The two bounded queues that the shared memory stands for. -/
def queues (n m : UInt32) (s : Link) : Fifo Message × Fifo MailboxEntry :=
  (requestFifo n s,completionFifo m s)

/-- The messages of the requests that were accepted, as the caller meant them: with the id
they were given and marked QUEUED. -/
def queuedMessages (os : List Outcome) : List Message :=
  os.filterMap fun
    | .enqueue request r _ _ => if r.status = .queued then
        some {request with requestId := r.requestId,status := statusQueued : MailboxEntry}.message
        else none
    | .consume _ _ => none

/-- The completions that host operations returned. -/
def answeredEntries (os : List Outcome) : List MailboxEntry :=
  os.filterMap fun
    | .enqueue _ _ _ _ => none
    | .consume r _ => if r.status = .ok then some r.reply else none

/-- How a finished operation must have ended, given what it saw. -/
def Outcome.Good (n : UInt32) : Outcome → Prop
  | .enqueue request r seen stores =>
      if request.payloadLen.toNat ≤ 48 then
        (r.status = .busy ↔ seen = n.toNat-1) ∧ (r.status = .queued ↔ seen ≠ n.toNat-1) ∧
          (r.status = .busy → stores = 0)
      else r.status = .badRequest
  | .consume r seen => (r.status = .busy ↔ seen = 0) ∧ (r.status = .ok ↔ seen ≠ 0)

structure RingInv (n m : UInt32) (s : Link) : Prop where
  indices : s.mailbox.Indices n m
  requests : s.enqueued = s.fetched++s.mailbox.requests n
  completions : s.posted = s.returned++s.mailbox.completions m
  outcomes : ∀ o ∈ s.outcomes, o.Good n
  queued : queuedMessages s.outcomes <+: s.enqueued
  answered : answeredEntries s.outcomes <+: s.returned

/-- The host adds requests, removes completions and touches nothing else. -/
structure HostMoves (n m : UInt32) (s t : Link) : Prop where
  requests : requestFifo n t = requestFifo n s ∨
    Fifo.Push (n.toNat-1) (requestFifo n s) (requestFifo n t)
  completions : completionFifo m t = completionFifo m s ∨
    Fifo.Pop (completionFifo m s) (completionFifo m t)
  requestHead : t.mailbox.requestHead = s.mailbox.requestHead
  completionTail : t.mailbox.completionTail = s.mailbox.completionTail
  completionRing : t.mailbox.completionRing = s.mailbox.completionRing

/-- Taking a request moves `request_head` only. -/
structure TakerMoves (n : UInt32) (s t : Link) : Prop where
  requests : requestFifo n t = requestFifo n s ∨ Fifo.Pop (requestFifo n s) (requestFifo n t)
  mailbox : t.mailbox = {s.mailbox with requestHead := t.mailbox.requestHead}
  rest : t = {s with mailbox := t.mailbox,fetched := t.fetched}

/-- Posting a completion writes the completion ring and `completion_tail` only. -/
structure PosterMoves (m : UInt32) (s t : Link) : Prop where
  completions : completionFifo m t = completionFifo m s ∨
    Fifo.Push (m.toNat-1) (completionFifo m s) (completionFifo m t)
  mailbox : t.mailbox = {s.mailbox with
    completionTail := t.mailbox.completionTail
    completionRing := t.mailbox.completionRing}
  rest : t = {s with mailbox := t.mailbox,posted := t.posted}

/-- What the host has finished accounts for all that it published and took. -/
def HostIdle (s : Link) : Prop :=
  queuedMessages s.outcomes = s.enqueued ∧ answeredEntries s.outcomes = s.returned

def ringDiscipline (n m : UInt32) : Discipline Party Link where
  inv := RingInv n m
  rest
    | .host => HostIdle
    | _ => fun _ => True
  guar
    | .host => HostMoves n m
    | .taker => TakerMoves n
    | .poster => PosterMoves m
  cond _ _ := True

section

variable {n m : UInt32}

abbrev RingStable (n m : UInt32) (i : Party) (P : Link → Prop) : Prop :=
  Stable (ringSystem n m) (ringDiscipline n m) i P

abbrev RingSat {α : Type} (n m : UInt32) (i : Party) (p : Res Link α) (P : Link → Prop)
    (Q : α → Link → Prop) : Prop :=
  Sat (ringSystem n m) (ringDiscipline n m) i p P Q

/-- What the host may rely on: firmware only removes requests and adds completions. -/
theorem host_stable {P : Link → Prop}
    (ht : ∀ s t, RingInv n m s → RingInv n m t → TakerMoves n s t → P s → P t)
    (hp : ∀ s t, RingInv n m s → RingInv n m t → PosterMoves m s t → P s → P t) :
    RingStable n m .host P := by
  rintro s t hs h _ (he | ⟨j,hj,hg⟩) hP
  · exact he.elim
  · cases j with
    | host => exact (hj rfl).elim
    | taker => exact ht s t hs h hg hP
    | poster => exact hp s t hs h hg hP

theorem taker_stable {P : Link → Prop}
    (hh : ∀ s t, RingInv n m s → RingInv n m t → HostMoves n m s t → P s → P t)
    (hp : ∀ s t, RingInv n m s → RingInv n m t → PosterMoves m s t → P s → P t) :
    RingStable n m .taker P := by
  rintro s t hs h _ (he | ⟨j,hj,hg⟩) hP
  · exact he.elim
  · cases j with
    | host => exact hh s t hs h hg hP
    | taker => exact (hj rfl).elim
    | poster => exact hp s t hs h hg hP

theorem poster_stable {P : Link → Prop}
    (hh : ∀ s t, RingInv n m s → RingInv n m t → HostMoves n m s t → P s → P t)
    (ht : ∀ s t, RingInv n m s → RingInv n m t → TakerMoves n s t → P s → P t) :
    RingStable n m .poster P := by
  rintro s t hs h _ (he | ⟨j,hj,hg⟩) hP
  · exact he.elim
  · cases j with
    | host => exact hh s t hs h hg hP
    | taker => exact ht s t hs h hg hP
    | poster => exact (hj rfl).elim

theorem HostMoves.refl (s : Link) : HostMoves n m s s := ⟨Or.inl rfl,Or.inl rfl,rfl,rfl,rfl⟩

theorem TakerMoves.refl (s : Link) : TakerMoves n s s := ⟨Or.inl rfl,rfl,rfl⟩

theorem PosterMoves.refl (s : Link) : PosterMoves m s s := ⟨Or.inl rfl,rfl,rfl⟩

/-- While others move, the request queue can only shrink under the host. -/
theorem TakerMoves.requests_le {s t : Link} (h : TakerMoves n s t) :
    (t.mailbox.requests n).length ≤ (s.mailbox.requests n).length := by
  rcases h.requests with he | ⟨x,hq,_,_⟩
  · exact (congrArg (fun f => f.queue.length) he).le
  · have hlen := congrArg List.length hq
    simp only [requestFifo,List.length_cons] at hlen
    omega

/-- What the host remembers is its own. -/
structure SameHost (s t : Link) : Prop where
  enqueued : t.enqueued = s.enqueued
  returned : t.returned = s.returned
  seen : t.seen = s.seen
  stores : t.stores = s.stores
  outcomes : t.outcomes = s.outcomes

theorem TakerMoves.same {s t : Link} (h : TakerMoves n s t) : SameHost s t := by
  constructor <;> rw [h.rest]

theorem PosterMoves.same {s t : Link} (h : PosterMoves m s t) : SameHost s t := by
  constructor <;> rw [h.rest]

theorem SameHost.idle {s t : Link} (h : SameHost s t) (hs : HostIdle s) : HostIdle t :=
  ⟨by rw [h.outcomes,h.enqueued]; exact hs.1,by rw [h.outcomes,h.returned]; exact hs.2⟩

theorem PosterMoves.requests {s t : Link} (h : PosterMoves m s t) :
    t.mailbox.requests n = s.mailbox.requests n := by
  rw [h.mailbox]
  rfl

/-- After `request_head` was read as `head`: the queue was that long and is no longer now. -/
structure HeadRead (n head : UInt32) (s : Link) : Prop where
  idle : HostIdle s
  stores : s.stores = 0
  seen : s.seen = ahead n.toNat head.toNat (getBe32 s.mailbox.requestTail).toNat
  room : (s.mailbox.requests n).length ≤ s.seen

theorem headRead_stable (head : UInt32) : RingStable n m .host (HeadRead n head) := by
  apply host_stable
  · intro s t _ _ hm h
    refine ⟨hm.same.idle h.idle,hm.same.stores.trans h.stores,?_,?_⟩
    · rw [hm.same.seen,h.seen,hm.mailbox]
    · rw [hm.same.seen]
      exact hm.requests_le.trans h.room
  · intro s t _ _ hm h
    refine ⟨hm.same.idle h.idle,hm.same.stores.trans h.stores,?_,?_⟩
    · rw [hm.same.seen,h.seen,hm.mailbox]
    · rw [hm.same.seen,hm.requests]
      exact h.room

/-- Past the full test: there is room behind `tail`, which only the host moves. -/
structure Room (n tail : UInt32) (s : Link) : Prop where
  idle : HostIdle s
  seen : s.seen ≠ n.toNat-1
  tail : getBe32 s.mailbox.requestTail = tail
  room : (s.mailbox.requests n).length < n.toNat-1

/-- The entry is in its slot but not yet published. -/
def Written (n tail : UInt32) (msg : Message) (s : Link) : Prop :=
  Room n tail s ∧ (entryFromWire (s.mailbox.requestRing tail.toNat)).message = msg

theorem TakerMoves.room {tail : UInt32} {s t : Link} (hm : TakerMoves n s t)
    (h : Room n tail s) : Room n tail t := by
  refine ⟨hm.same.idle h.idle,by rw [hm.same.seen]; exact h.seen,?_,
    hm.requests_le.trans_lt h.room⟩
  rw [hm.mailbox]
  exact h.tail

theorem PosterMoves.room {tail : UInt32} {s t : Link} (hm : PosterMoves m s t)
    (h : Room n tail s) : Room n tail t := by
  refine ⟨hm.same.idle h.idle,by rw [hm.same.seen]; exact h.seen,?_,
    by rw [hm.requests]; exact h.room⟩
  rw [hm.mailbox]
  exact h.tail

theorem room_stable (tail : UInt32) : RingStable n m .host (Room n tail) :=
  host_stable (fun _ _ _ _ hm h => hm.room h) fun _ _ _ _ hm h => hm.room h

theorem written_stable (tail : UInt32) (msg : Message) :
    RingStable n m .host (Written n tail msg) := by
  apply host_stable
  · intro s t _ _ hm h
    exact ⟨hm.room h.1,by rw [hm.mailbox]; exact h.2⟩
  · intro s t _ _ hm h
    exact ⟨hm.room h.1,by rw [hm.mailbox]; exact h.2⟩

/-- An enqueue has returned `r` and only its record is missing. -/
structure EnqueueDone (n : UInt32) (request : MailboxEntry) (r : Enqueued) (s : Link) :
    Prop where
  good : Outcome.Good n (.enqueue request r s.seen s.stores)
  queued : queuedMessages (s.outcomes++[.enqueue request r s.seen s.stores]) = s.enqueued
  answered : answeredEntries s.outcomes = s.returned

theorem queuedMessages_append (os : List Outcome) (o : Outcome) :
    queuedMessages (os++[o]) = queuedMessages os++queuedMessages [o] := by
  simp [queuedMessages]

theorem answeredEntries_append (os : List Outcome) (o : Outcome) :
    answeredEntries (os++[o]) = answeredEntries os++answeredEntries [o] := by
  simp [answeredEntries]

theorem SameHost.enqueueDone {s t : Link} (h : SameHost s t) {request : MailboxEntry}
    {r : Enqueued} (hs : EnqueueDone n request r s) : EnqueueDone n request r t := by
  refine ⟨?_,?_,?_⟩
  · rw [h.seen,h.stores]
    exact hs.good
  · rw [h.seen,h.stores,h.outcomes,h.enqueued]
    exact hs.queued
  · rw [h.outcomes,h.returned]
    exact hs.answered

theorem enqueueDone_stable (request : MailboxEntry) (r : Enqueued) :
    RingStable n m .host (EnqueueDone n request r) :=
  host_stable (fun _ _ _ _ hm h => hm.same.enqueueDone h)
    fun _ _ _ _ hm h => hm.same.enqueueDone h

/-- An enqueue that changed nothing is done when it ended as it should. -/
theorem enqueueDone_unchanged {request : MailboxEntry} {r : Enqueued} {s : Link}
    (h : HostIdle s) (hr : r.status ≠ .queued)
    (hg : Outcome.Good n (.enqueue request r s.seen s.stores)) : EnqueueDone n request r s := by
  refine ⟨hg,?_,h.2⟩
  rw [queuedMessages_append,h.1]
  simp [queuedMessages,hr]

/-- The host's enqueue, verified access by access against every interference. -/
theorem enqueueRequestLocked_sat (hn : 2 ≤ n.toNat) (ctx : Context) (request : MailboxEntry)
    (hctx : ctx.requestRingEntries = n) :
    RingSat n m .host (enqueueRequestLocked ctx request) HostIdle (EnqueueDone n request) := by
  unfold enqueueRequestLocked
  by_cases hlen : 48 < request.payloadLen.toNat
  · rw [if_pos hlen]
    intro s _ h
    refine enqueueDone_unchanged h (by simp) ?_
    simp [Outcome.Good,Nat.not_le.mpr hlen]
  rw [if_neg hlen,hctx]
  simp only [Res.load_bind,Res.store_bind]
  intro s hs h _
  have hlen' : request.payloadLen.toNat ≤ 48 := Nat.le_of_not_lt hlen
  have hhead := hs.indices.requestHead
  refine ⟨⟨hs.indices,hs.requests,hs.completions,hs.outcomes,hs.queued,hs.answered⟩,
    ⟨Or.inl rfl,Or.inl rfl,rfl,rfl,rfl⟩,HeadRead n (getBe32 s.mailbox.requestHead),
    headRead_stable _,⟨h,rfl,Mailbox.requests_length,le_rfl⟩,?_⟩
  dsimp only
  generalize getBe32 s.mailbox.requestHead = head at hhead
  -- the tail is the host's own, so the full test settles how long the queue was
  intro s hs h _
  have htail := hs.indices.requestTail
  have hfull : s.seen = n.toNat-1 ↔ nextRingIndex (getBe32 s.mailbox.requestTail) n = head := by
    rw [h.seen,ahead_full (UInt32.lt_iff_toNat_lt.mp hhead) (UInt32.lt_iff_toNat_lt.mp htail),
      ← nextRingIndex_toNat htail,UInt32.toNat_inj]
  have hbound : s.seen < n.toNat := by
    rw [h.seen]
    exact ahead_lt (UInt32.lt_iff_toNat_lt.mp hhead) (UInt32.lt_iff_toNat_lt.mp htail)
  refine ⟨hs,HostMoves.refl s,?_⟩
  dsimp only
  have hin : ¬(n ≤ head ∨ n ≤ getBe32 s.mailbox.requestTail) := by
    simp only [not_or,UInt32.not_le]
    exact ⟨hhead,htail⟩
  rw [if_neg hin]
  by_cases hbusy : nextRingIndex (getBe32 s.mailbox.requestTail) n = head
  · simp only [hbusy,if_true]
    have hg : EnqueueDone n request {status := .busy,ctx} s := by
      refine enqueueDone_unchanged h.idle (by simp) ?_
      simp [Outcome.Good,hlen',hfull.mpr hbusy,h.stores]
    exact ⟨_,enqueueDone_stable _ _,hg,fun _ _ h => h⟩
  · simp only [hbusy,if_false]
    have hseen : s.seen ≠ n.toNat-1 := fun hc => hbusy (hfull.mp hc)
    refine ⟨Room n (getBe32 s.mailbox.requestTail),room_stable _,
      ⟨h.idle,hseen,rfl,h.room.trans_lt (by omega)⟩,?_⟩
    generalize getBe32 s.mailbox.requestTail = tail at htail
    generalize hassigned : (if request.requestId = 0 then contextNextRequestId ctx
      else (request.requestId,ctx)) = assigned
    -- the slot behind the tail is outside the window, so writing it disturbs no reader
    intro s hs h _
    have hw := Mailbox.requests_write hs.indices (entryToWire (s.mailbox.requestRing tail.toNat)
      {request with requestId := assigned.1,status := statusQueued})
    rw [h.tail] at hw
    refine ⟨⟨⟨hs.indices.1,hs.indices.2,hs.indices.3,hs.indices.4⟩,by rw [hw]; exact hs.requests,
        hs.completions,hs.outcomes,hs.queued,hs.answered⟩,
      ⟨Or.inl (by simp only [requestFifo,hw]),Or.inl rfl,rfl,rfl,rfl⟩,
      Written n tail {request with
        requestId := assigned.1,status := statusQueued : MailboxEntry}.message,
      written_stable _ _,⟨⟨h.idle,h.seen,h.tail,by rw [hw]; exact h.room⟩,?_⟩,?_⟩
    · simp [message_entryToWire]
    -- publishing the tail is the moment the request enters the queue
    intro s hs h _
    obtain ⟨h,hmsg⟩ := h
    have hnot : nextRingIndex (getBe32 s.mailbox.requestTail) n ≠ getBe32 s.mailbox.requestHead := by
      intro hc
      have := (Mailbox.requests_full hs.indices).mpr hc
      have := h.room
      omega
    have hp := Mailbox.requests_publish hs.indices hnot
    rw [h.tail,hmsg] at hp
    have hidx : nextRingIndex tail n < n := Mailbox.nextRingIndex_lt htail
    refine ⟨⟨⟨hs.indices.1,by simpa using hidx,hs.indices.3,hs.indices.4⟩,?_,hs.completions,
        hs.outcomes,?_,hs.answered⟩,⟨Or.inr ⟨_,h.room,rfl,rfl,hp⟩,Or.inl rfl,rfl,rfl,rfl⟩,
      EnqueueDone n request {status := .queued,requestId := assigned.1,ctx := assigned.2},
      enqueueDone_stable _ _,⟨?_,?_,h.idle.2⟩,fun _ _ h => h⟩
    · simp only
      rw [hp,hs.requests,List.append_assoc]
    · exact hs.queued.trans (List.prefix_append _ _)
    · simp [Outcome.Good,hlen',h.seen]
    · rw [queuedMessages_append,h.idle.1]
      simp [queuedMessages]

theorem TakerMoves.completions_eq {s t : Link} (h : TakerMoves n s t) :
    t.mailbox.completions m = s.mailbox.completions m := by
  rw [h.mailbox]
  rfl

/-- A completion that is at the front stays there until the host takes it. -/
theorem PosterMoves.front {s t : Link} (h : PosterMoves m s t) {e : MailboxEntry}
    {rest : List MailboxEntry} (hs : s.mailbox.completions m = e :: rest) :
    ∃ rest, t.mailbox.completions m = e :: rest := by
  rcases h.completions with he | ⟨x,_,_,_,hq⟩
  · exact ⟨rest,(congrArg Fifo.queue he).trans hs⟩
  · refine ⟨rest++[x],?_⟩
    have hq' : t.mailbox.completions m = s.mailbox.completions m++[x] := hq
    rw [hq',hs,List.cons_append]

/-- The host stands before `head`, which only it moves. -/
structure AtHead (head : UInt32) (s : Link) : Prop where
  idle : HostIdle s
  head : getBe32 s.mailbox.completionHead = head

theorem TakerMoves.atHead {head : UInt32} {s t : Link} (hm : TakerMoves n s t)
    (h : AtHead head s) : AtHead head t := by
  refine ⟨hm.same.idle h.idle,?_⟩
  rw [hm.mailbox]
  exact h.head

theorem PosterMoves.atHead {head : UInt32} {s t : Link} (hm : PosterMoves m s t)
    (h : AtHead head s) : AtHead head t := by
  refine ⟨hm.same.idle h.idle,?_⟩
  rw [hm.mailbox]
  exact h.head

theorem atHead_stable (head : UInt32) : RingStable n m .host (AtHead head) :=
  host_stable (fun _ _ _ _ hm h => hm.atHead h) fun _ _ _ _ hm h => hm.atHead h

/-- There is a completion to take, and `P` is true of it. -/
structure Front (m head : UInt32) (P : MailboxEntry → Prop) (s : Link) : Prop
    extends AtHead head s where
  seen : s.seen ≠ 0
  front : ∃ e rest, P e ∧ s.mailbox.completions m = e :: rest

theorem front_stable (head : UInt32) (P : MailboxEntry → Prop) :
    RingStable n m .host (Front m head P) := by
  apply host_stable
  · intro s t _ _ hm h
    obtain ⟨e,rest,hP,hq⟩ := h.front
    exact ⟨hm.atHead h.toAtHead,by rw [hm.same.seen]; exact h.seen,e,rest,hP,
      hm.completions_eq.trans hq⟩
  · intro s t _ _ hm h
    obtain ⟨e,rest,hP,hq⟩ := h.front
    obtain ⟨rest',hq'⟩ := hm.front hq
    exact ⟨hm.atHead h.toAtHead,by rw [hm.same.seen]; exact h.seen,e,rest',hP,hq'⟩

theorem Front.pop {head : UInt32} {P : MailboxEntry → Prop} {s : Link} (h : Front m head P s)
    (hs : RingInv n m s) :
    s.mailbox.completions m = entryFromWire (s.mailbox.completionRing head.toNat) ::
      Mailbox.completions m
        {s.mailbox with completionHead := putBe32 (nextRingIndex head m)} := by
  obtain ⟨e,rest,_,hq⟩ := h.front
  have hne : getBe32 s.mailbox.completionHead ≠ getBe32 s.mailbox.completionTail := by
    intro hc
    simp [(Mailbox.completions_nil hs.indices).mpr hc] at hq
  rw [← h.head]
  exact Mailbox.completions_pop hs.indices hne

/-- A consume has returned `r` and only its record is missing. -/
structure ConsumeDone (n : UInt32) (r : Consumed) (s : Link) : Prop where
  good : Outcome.Good n (.consume r s.seen)
  queued : queuedMessages s.outcomes = s.enqueued
  answered : answeredEntries (s.outcomes++[.consume r s.seen]) = s.returned

theorem SameHost.consumeDone {s t : Link} (h : SameHost s t) {r : Consumed}
    (hs : ConsumeDone n r s) : ConsumeDone n r t := by
  refine ⟨?_,?_,?_⟩
  · rw [h.seen]
    exact hs.good
  · rw [h.outcomes,h.enqueued]
    exact hs.queued
  · rw [h.seen,h.outcomes,h.returned]
    exact hs.answered

theorem consumeDone_stable (r : Consumed) : RingStable n m .host (ConsumeDone n r) :=
  host_stable (fun _ _ _ _ hm h => hm.same.consumeDone h)
    fun _ _ _ _ hm h => hm.same.consumeDone h

/-- The host's consume, verified in the same way. -/
theorem consumeNextCompletionLocked_sat (ctx : Context) (reply : MailboxEntry)
    (hctx : ctx.completionRingEntries = m) :
    RingSat n m .host (consumeNextCompletionLocked ctx reply) HostIdle (ConsumeDone n) := by
  unfold consumeNextCompletionLocked
  rw [hctx]
  simp only [Res.load_bind,Res.store_bind]
  intro s hs h _
  refine ⟨hs,HostMoves.refl s,AtHead (getBe32 s.mailbox.completionHead),atHead_stable _,
    ⟨h,rfl⟩,?_⟩
  dsimp only
  generalize getBe32 s.mailbox.completionHead = head
  -- the tail read decides: an empty queue is reported as it was at this moment
  intro s hs h _
  have hinv : RingInv n m {s with seen := (s.mailbox.completions m).length} :=
    ⟨hs.indices,hs.requests,hs.completions,hs.outcomes,hs.queued,hs.answered⟩
  refine ⟨hinv,⟨Or.inl rfl,Or.inl rfl,rfl,rfl,rfl⟩,?_⟩
  have hin : ¬(m ≤ head ∨ m ≤ getBe32 s.mailbox.completionTail) := by
    simp only [not_or,UInt32.not_le]
    exact ⟨h.head ▸ hs.indices.completionHead,hs.indices.completionTail⟩
  have hempty := Mailbox.completions_nil hs.indices
  rw [h.head] at hempty
  simp only [hin,if_false]
  by_cases hbusy : head = getBe32 s.mailbox.completionTail
  · rw [if_pos hbusy]
    have hq := hempty.mpr hbusy
    refine ⟨_,consumeDone_stable ⟨.busy,reply⟩,⟨?_,h.idle.1,?_⟩,fun _ _ h => h⟩
    · simp [Outcome.Good,hq]
    · rw [answeredEntries_append,h.idle.2]
      simp [answeredEntries]
  rw [if_neg hbusy]
  obtain ⟨e,rest,hq⟩ := List.exists_cons_of_ne_nil fun hc => hbusy (hempty.mp hc)
  refine ⟨Front m head (fun _ => True),front_stable _ _,
    ⟨⟨h.idle,h.head⟩,by simp [hq],e,rest,trivial,hq⟩,?_⟩
  intro s hs h _
  have hpop := h.pop hs
  refine ⟨hs,HostMoves.refl s,
    Front m head (· = entryFromWire (s.mailbox.completionRing head.toNat)),front_stable _ _,
    ⟨h.toAtHead,h.seen,_,_,rfl,hpop⟩,?_⟩
  dsimp only
  generalize entryFromWire (s.mailbox.completionRing head.toNat) = entry
  -- moving the head is the moment the completion leaves the queue
  intro s hs h _
  have hpop := h.pop hs
  obtain ⟨e,rest,rfl,hq⟩ := h.front
  obtain ⟨he,hrest⟩ := List.cons.inj (hpop.symm.trans hq)
  rw [he] at hpop
  have hidx : nextRingIndex head m < m :=
    Mailbox.nextRingIndex_lt (h.head ▸ hs.indices.completionHead)
  refine ⟨⟨⟨hs.indices.1,hs.indices.2,by simpa using hidx,hs.indices.4⟩,hs.requests,?_,
      hs.outcomes,hs.queued,?_⟩,⟨Or.inl rfl,Or.inr ⟨e,hpop,rfl,rfl⟩,rfl,rfl,rfl⟩,
    _,consumeDone_stable ⟨.ok,e⟩,⟨?_,h.idle.1,?_⟩,fun _ _ h => h⟩
  · simp only
    rw [hs.completions,hpop,List.append_assoc,List.singleton_append]
  · exact hs.answered.trans (List.prefix_append _ _)
  · simp [Outcome.Good,h.seen]
  · rw [answeredEntries_append,h.idle.2]
    simp [answeredEntries]

theorem HostMoves.refl_of {s t : Link} (hr : requestFifo n t = requestFifo n s)
    (hc : completionFifo m t = completionFifo m s) (hm : t.mailbox = s.mailbox) :
    HostMoves n m s t := ⟨Or.inl hr,Or.inl hc,by rw [hm],by rw [hm],by rw [hm]⟩

/-- Recording how an operation ended brings the host back to rest. -/
theorem record_sat {o : Link → Outcome} {P : Link → Prop}
    (h : ∀ s, RingInv n m s → P s → (o s).Good n ∧
      HostIdle {s with outcomes := s.outcomes++[o s]}) :
    RingSat n m .host (Res.store fun s => {s with outcomes := s.outcomes++[o s]}) P
      fun _ => HostIdle := by
  intro s hs hP _
  obtain ⟨hgood,hidle⟩ := h s hs hP
  refine ⟨⟨hs.indices,hs.requests,hs.completions,?_,hidle.1 ▸ List.prefix_refl _,
      hidle.2 ▸ List.prefix_refl _⟩,HostMoves.refl_of rfl rfl rfl,HostIdle,?_,hidle,
    fun _ _ h => h⟩
  · intro x hx
    rcases List.mem_append.mp hx with hx | hx
    · exact hs.outcomes x hx
    · rw [List.mem_singleton.mp hx]
      exact hgood
  · exact host_stable (fun _ _ _ _ hm h => hm.same.idle h) fun _ _ _ _ hm h => hm.same.idle h

theorem hostEnqueue_sat (hn : 2 ≤ n.toNat) (ctx : Context) (request : MailboxEntry)
    (hctx : ctx.requestRingEntries = n) :
    RingSat n m .host (hostEnqueue ctx request) HostIdle fun _ => HostIdle := by
  refine (enqueueRequestLocked_sat hn ctx request hctx).bind fun r => record_sat ?_
  intro s _ h
  refine ⟨h.good,h.queued,?_⟩
  simp only
  rw [answeredEntries_append,h.answered]
  exact List.append_nil _

theorem hostConsume_sat (ctx : Context) (reply : MailboxEntry)
    (hctx : ctx.completionRingEntries = m) :
    RingSat n m .host (hostConsume ctx reply) HostIdle fun _ => HostIdle := by
  refine (consumeNextCompletionLocked_sat (n := n) ctx reply hctx).bind fun r => record_sat ?_
  intro s _ h
  refine ⟨h.good,?_,h.answered⟩
  simp only
  rw [queuedMessages_append,h.queued]
  exact List.append_nil _

/-- A request that is at the front stays there until firmware takes it. -/
theorem HostMoves.front {s t : Link} (h : HostMoves n m s t) {x : Message} {rest : List Message}
    (hs : s.mailbox.requests n = x :: rest) : ∃ rest, t.mailbox.requests n = x :: rest := by
  rcases h.requests with he | ⟨y,_,_,_,hq⟩
  · exact ⟨rest,(congrArg Fifo.queue he).trans hs⟩
  · refine ⟨rest++[y],?_⟩
    have hq' : t.mailbox.requests n = s.mailbox.requests n++[y] := hq
    rw [hq',hs,List.cons_append]

/-- Firmware stands before `head`, which only it moves, and `P` is true of the request there. -/
structure Taking (n head : UInt32) (P : Message → Prop) (s : Link) : Prop where
  head : getBe32 s.mailbox.requestHead = head
  front : ∃ x rest, P x ∧ s.mailbox.requests n = x :: rest

theorem taking_stable (head : UInt32) (P : Message → Prop) :
    RingStable n m .taker (Taking n head P) := by
  apply taker_stable
  · intro s t _ _ hm h
    obtain ⟨x,rest,hP,hq⟩ := h.front
    obtain ⟨rest',hq'⟩ := hm.front hq
    exact ⟨by rw [hm.requestHead]; exact h.head,x,rest',hP,hq'⟩
  · intro s t _ _ hm h
    obtain ⟨x,rest,hP,hq⟩ := h.front
    refine ⟨?_,x,rest,hP,hm.requests.trans hq⟩
    rw [hm.mailbox]
    exact h.head

theorem requestHead_stable (head : UInt32) :
    RingStable n m .taker fun s => getBe32 s.mailbox.requestHead = head :=
  taker_stable (fun _ _ _ _ hm h => by rw [hm.requestHead]; exact h) fun _ _ _ _ hm h => by
    rw [hm.mailbox]
    exact h

theorem Taking.pop {head : UInt32} {P : Message → Prop} {s : Link} (h : Taking n head P s)
    (hs : RingInv n m s) :
    s.mailbox.requests n = (entryFromWire (s.mailbox.requestRing head.toNat)).message ::
      Mailbox.requests n {s.mailbox with requestHead := putBe32 (nextRingIndex head n)} := by
  obtain ⟨x,rest,_,hq⟩ := h.front
  have hne : getBe32 s.mailbox.requestHead ≠ getBe32 s.mailbox.requestTail := by
    intro hc
    simp [(Mailbox.requests_nil hs.indices).mpr hc] at hq
  rw [← h.head]
  exact Mailbox.requests_pop hs.indices hne

theorem firmwareTake_sat :
    RingSat n m .taker (firmwareTake n) (fun _ => True) fun _ _ => True := by
  unfold firmwareTake
  simp only [Res.load_bind,Res.store_bind]
  intro s hs _ _
  refine ⟨hs,TakerMoves.refl s,_,requestHead_stable (getBe32 s.mailbox.requestHead),rfl,?_⟩
  dsimp only
  generalize getBe32 s.mailbox.requestHead = head
  intro s hs h _
  refine ⟨hs,TakerMoves.refl s,?_⟩
  dsimp only
  by_cases hempty : head = getBe32 s.mailbox.requestTail
  · rw [if_pos hempty]
    exact ⟨_,stable_true _ _ _,trivial,fun _ _ _ => trivial⟩
  rw [if_neg hempty]
  have hne : s.mailbox.requests n ≠ [] := fun hc =>
    hempty (h ▸ (Mailbox.requests_nil hs.indices).mp hc)
  obtain ⟨x,rest,hq⟩ := List.exists_cons_of_ne_nil hne
  refine ⟨_,taking_stable head fun _ => True,⟨h,x,rest,trivial,hq⟩,?_⟩
  intro s hs h _
  refine ⟨hs,TakerMoves.refl s,_,
    taking_stable head (· = (entryFromWire (s.mailbox.requestRing head.toNat)).message),
    ⟨h.head,_,_,rfl,h.pop hs⟩,?_⟩
  dsimp only
  generalize (entryFromWire (s.mailbox.requestRing head.toNat)).message = msg
  intro s hs h _
  have hpop := h.pop hs
  obtain ⟨x,rest,rfl,hq⟩ := h.front
  rw [(List.cons.inj (hpop.symm.trans hq)).1] at hpop
  have hhead : head < n := h.head ▸ hs.indices.requestHead
  have hidx := Mailbox.nextRingIndex_lt hhead
  rw [advance_eq_nextRingIndex hhead]
  refine ⟨⟨⟨by simpa using hidx,hs.indices.2,hs.indices.3,hs.indices.4⟩,?_,hs.completions,
      hs.outcomes,hs.queued,hs.answered⟩,⟨Or.inr ⟨x,hpop,rfl,rfl⟩,rfl,rfl⟩,
    _,stable_true _ _ _,trivial,fun _ _ _ => trivial⟩
  simp only
  rw [hs.requests,hpop,List.append_assoc,List.singleton_append]

theorem HostMoves.completions_le {s t : Link} (h : HostMoves n m s t) :
    (t.mailbox.completions m).length ≤ (s.mailbox.completions m).length := by
  rcases h.completions with he | ⟨x,hq,_,_⟩
  · exact (congrArg (fun f => f.queue.length) he).le
  · have hlen := congrArg List.length hq
    simp only [completionFifo,List.length_cons] at hlen
    omega

/-- After `completion_head` was read as `head`: the queue is no longer than it looked then. -/
def Posting (m head : UInt32) (s : Link) : Prop :=
  head < m ∧ (s.mailbox.completions m).length ≤
    ahead m.toNat head.toNat (getBe32 s.mailbox.completionTail).toNat

theorem posting_stable (head : UInt32) : RingStable n m .poster (Posting m head) := by
  apply poster_stable
  · intro s t _ _ hm h
    exact ⟨h.1,by rw [hm.completionTail]; exact hm.completions_le.trans h.2⟩
  · intro s t _ _ hm h
    refine ⟨h.1,?_⟩
    rw [hm.completions_eq,hm.mailbox]
    exact h.2

/-- There is room behind `tail`, which only firmware moves, and `P` is true of its slot. -/
structure Slot (m tail : UInt32) (P : MailboxEntry → Prop) (s : Link) : Prop where
  atTail : getBe32 s.mailbox.completionTail = tail
  room : (s.mailbox.completions m).length < m.toNat-1
  slot : P (entryFromWire (s.mailbox.completionRing tail.toNat))

theorem slot_stable (tail : UInt32) (P : MailboxEntry → Prop) :
    RingStable n m .poster (Slot m tail P) := by
  apply poster_stable
  · intro s t _ _ hm h
    exact ⟨by rw [hm.completionTail]; exact h.atTail,hm.completions_le.trans_lt h.room,
      by rw [hm.completionRing]; exact h.slot⟩
  · intro s t _ _ hm h
    refine ⟨?_,by rw [hm.completions_eq]; exact h.room,?_⟩
    · rw [hm.mailbox]
      exact h.atTail
    · rw [hm.mailbox]
      exact h.slot

theorem firmwarePost_sat (wire : MailboxWireEntry) :
    RingSat n m .poster (firmwarePost m wire) (fun _ => True) fun _ _ => True := by
  unfold firmwarePost
  simp only [Res.load_bind,Res.store_bind]
  intro s hs _ _
  refine ⟨hs,PosterMoves.refl s,_,posting_stable (getBe32 s.mailbox.completionHead),
    ⟨hs.indices.completionHead,Mailbox.completions_length.le⟩,?_⟩
  dsimp only
  generalize getBe32 s.mailbox.completionHead = head
  intro s hs h _
  refine ⟨hs,PosterMoves.refl s,?_⟩
  dsimp only
  have htail := hs.indices.completionTail
  rw [advance_eq_nextRingIndex htail]
  by_cases hfull : nextRingIndex (getBe32 s.mailbox.completionTail) m = head
  · rw [if_pos hfull]
    exact ⟨_,stable_true _ _ _,trivial,fun _ _ _ => trivial⟩
  rw [if_neg hfull]
  have hroom : (s.mailbox.completions m).length < m.toNat-1 := by
    have hlt := ahead_lt (UInt32.lt_iff_toNat_lt.mp h.1) (UInt32.lt_iff_toNat_lt.mp htail)
    have hne : ahead m.toNat head.toNat (getBe32 s.mailbox.completionTail).toNat ≠ m.toNat-1 := by
      rw [ne_eq,ahead_full (UInt32.lt_iff_toNat_lt.mp h.1) (UInt32.lt_iff_toNat_lt.mp htail),
        ← nextRingIndex_toNat htail,UInt32.toNat_inj]
      exact hfull
    have := h.2
    omega
  refine ⟨_,slot_stable (getBe32 s.mailbox.completionTail) fun _ => True,
    ⟨rfl,hroom,trivial⟩,?_⟩
  generalize getBe32 s.mailbox.completionTail = tail at htail
  intro s hs h _
  have hw := Mailbox.completions_write hs.indices wire
  rw [h.atTail] at hw
  refine ⟨⟨⟨hs.indices.1,hs.indices.2,hs.indices.3,hs.indices.4⟩,hs.requests,
      by rw [hw]; exact hs.completions,hs.outcomes,hs.queued,hs.answered⟩,
    ⟨Or.inl (by simp only [completionFifo,hw]),rfl,rfl⟩,_,
    slot_stable tail (· = entryFromWire wire),⟨h.atTail,by rw [hw]; exact h.room,by simp⟩,?_⟩
  intro s hs h _
  have hnot : nextRingIndex (getBe32 s.mailbox.completionTail) m ≠
      getBe32 s.mailbox.completionHead := by
    intro hc
    have := (Mailbox.completions_full hs.indices).mpr hc
    have := h.room
    omega
  have hp := Mailbox.completions_publish hs.indices hnot
  rw [h.atTail,h.slot] at hp
  have hidx := Mailbox.nextRingIndex_lt htail
  refine ⟨⟨⟨hs.indices.1,hs.indices.2,hs.indices.3,by simpa using hidx⟩,hs.requests,?_,
      hs.outcomes,hs.queued,hs.answered⟩,⟨Or.inr ⟨_,h.room,rfl,rfl,hp⟩,rfl,rfl⟩,
    _,stable_true _ _ _,trivial,fun _ _ _ => trivial⟩
  simp only
  rw [hp,hs.completions,List.append_assoc]

theorem ringSystem_sound (hn : 2 ≤ n.toNat) : Sound (ringSystem n m) (ringDiscipline n m) where
  ops
    | .host,p,h => by
        rcases h with ⟨ctx,request,hctx,rfl⟩ | ⟨ctx,reply,hctx,rfl⟩
        · exact hostEnqueue_sat hn ctx request hctx
        · exact hostConsume_sat ctx reply hctx
    | .taker,p,h => by
        subst h
        exact firmwareTake_sat.bind fun _ _ _ _ => trivial
    | .poster,p,h => by
        obtain ⟨wire,rfl⟩ := h
        exact (firmwarePost_sat wire).bind fun _ _ _ _ => trivial
  rest
    | .host => host_stable (fun _ _ _ _ hm h => hm.same.idle h) fun _ _ _ _ hm h => hm.same.idle h
    | .taker => stable_true _ _ _
    | .poster => stable_true _ _ _
  halts _ _ h := h.elim
  env _ _ _ h := h.elim

/-- Every single step, of whichever party, moves the two queues as bounded queues move. -/
theorem pairStep_of_guar {i : Party} {s t : Link} (h : (ringDiscipline n m).guar i s t) :
    PairStep (n.toNat-1) (m.toNat-1) (queues n m s) (queues n m t) := by
  cases i with
  | host =>
    exact ⟨h.requests.imp id Or.inl,h.completions.imp id Or.inr⟩
  | taker =>
    refine ⟨h.requests.imp id Or.inr,Or.inl ?_⟩
    simp only [queues,completionFifo,h.completions_eq]
    rw [h.rest]
  | poster =>
    refine ⟨Or.inl ?_,h.completions.imp id Or.inl⟩
    simp only [queues,requestFifo,h.requests]
    rw [h.rest]

theorem ringStart_verified (hn : 2 ≤ n.toNat) (hm : 2 ≤ m.toNat)
    (requestRing completionRing : Nat → MailboxWireEntry) :
    Verified (ringSystem n m) (ringDiscipline n m) (ringStart requestRing completionRing) := by
  have hn0 : (0 : UInt32) < n := UInt32.lt_iff_toNat_lt.mpr (by simp; omega)
  have hm0 : (0 : UInt32) < m := UInt32.lt_iff_toNat_lt.mpr (by simp; omega)
  have hidx : (ringStart requestRing completionRing).state.mailbox.Indices n m :=
    ⟨by simpa [ringStart] using hn0,by simpa [ringStart] using hn0,
      by simpa [ringStart] using hm0,by simpa [ringStart] using hm0⟩
  have hreq := (Mailbox.requests_nil hidx).mpr rfl
  have hcomp := (Mailbox.completions_nil hidx).mpr rfl
  refine verified_idle (ringSystem_sound hn) (fun _ => rfl) ?_ ?_
  · refine ⟨hidx,?_,?_,?_,?_,?_⟩
    · rw [hreq]
      rfl
    · rw [hcomp]
      rfl
    · intro o ho
      exact absurd ho List.not_mem_nil
    · exact List.prefix_refl _
    · exact List.prefix_refl _
  · rintro (_ | _ | _)
    · exact ⟨rfl,rfl⟩
    · trivial
    · trivial

end

/-- The mailbox is two bounded queues, whatever the interleaving of host and firmware: what
firmware reads is what was submitted, what the host returns is what was posted, both in order
and complete, and BUSY means a full request ring or an empty completion ring. -/
theorem mailbox_refines_queues {n m : UInt32} (hn : 2 ≤ n.toNat) (hm : 2 ≤ m.toNat)
    (requestRing completionRing : Nat → MailboxWireEntry) (c : Config Party Link)
    (hc : Reach (ringSystem n m) (fun _ _ => True) (ringStart requestRing completionRing) c) :
    Relation.ReflTransGen (PairStep (n.toNat-1) (m.toNat-1)) (Fifo.empty,Fifo.empty)
        (queues n m c.state) ∧
      (requestFifo n c.state).Conserves (n.toNat-1) ∧
      (completionFifo m c.state).Conserves (m.toNat-1) ∧
      (∀ o ∈ c.state.outcomes, o.Good n) ∧
      queuedMessages c.state.outcomes <+: c.state.enqueued ∧
      answeredEntries c.state.outcomes <+: c.state.returned ∧
      (c.prog .host = .ret () → queuedMessages c.state.outcomes = c.state.enqueued ∧
        answeredEntries c.state.outcomes = c.state.returned) := by
  have hS := ringSystem_sound (n := n) (m := m) hn
  have hv0 := ringStart_verified hn hm requestRing completionRing
  have hv : Verified (ringSystem n m) (ringDiscipline n m) c := verified_reach hS hv0 hc
  have hinv : RingInv n m c.state := hv.1
  have hruns : Relation.ReflTransGen (PairStep (n.toNat-1) (m.toNat-1))
      (queues n m (ringStart requestRing completionRing).state) (queues n m c.state) := by
    clear hv hinv
    induction hc with
    | refl => exact .refl
    | tail hr hs ih =>
      refine .tail ih ?_
      rcases (verified_step hS (verified_reach hS hv0 hr) hs.1 trivial).2 with
        ⟨i,hg⟩ | he | heq
      · exact pairStep_of_guar hg
      · exact he.elim
      · rw [heq]
        exact ⟨Or.inl rfl,Or.inl rfl⟩
  have hstart : queues n m (ringStart requestRing completionRing).state =
      (Fifo.empty,Fifo.empty) := by
    have h0 : RingInv n m (ringStart requestRing completionRing).state := hv0.1
    have hreq := (Mailbox.requests_nil h0.indices).mpr rfl
    have hcomp := (Mailbox.completions_nil h0.indices).mpr rfl
    simp only [queues,requestFifo,completionFifo,hreq,hcomp]
    rfl
  rw [hstart] at hruns
  exact ⟨hruns,⟨hinv.requests,Mailbox.requests_bound hinv.indices⟩,
    ⟨hinv.completions,Mailbox.completions_bound hinv.indices⟩,hinv.outcomes,hinv.queued,
    hinv.answered,fun hi => hv.rest hi⟩

private def blankWire : MailboxWireEntry :=
  entryToWire ⟨putBe32 0,putBe16 0,putBe16 0,putBe16 0,putBe16 0,putBe32 0,fun _ => 0⟩ {}

private def oneRequest : Link :=
  ((hostEnqueue {} {opcode := 7,payloadLen := 4}).run
    (ringStart (fun _ => blankWire) fun _ => blankWire).state).2

private def oneTaken : Link := ((firmwareTake 2 >>= fun _ => .ret ()).run oneRequest).2

theorem mailbox_refines_queues_taken :
    oneTaken.fetched.map Message.requestId = [1] ∧ (requestFifo 2 oneTaken).Conserves 1 ∧
      (∀ o ∈ oneTaken.outcomes, o.Good 2) := by
  have h1 : Reach (ringSystem 2 2) (fun _ _ => True)
      (ringStart (fun _ => blankWire) fun _ => blankWire) ⟨fun _ => .ret (),oneRequest⟩ :=
    reach_solo Party.host rfl (Or.inl ⟨{},_,rfl,rfl⟩)
  have h2 : Reach (ringSystem 2 2) (fun _ _ => True) ⟨fun _ => .ret (),oneRequest⟩
      ⟨fun _ => .ret (),oneTaken⟩ := reach_solo Party.taker rfl rfl
  have h := mailbox_refines_queues (by decide) (by decide) _ _ _ (h1.trans h2)
  exact ⟨by decide,h.2.1,h.2.2.2.1⟩

end ZZ9K.Host
