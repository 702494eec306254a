import ZZ9K.Host.Ring

namespace ZZ9K.Host

open ZZ9K.Abi ZZ9K.Framework ZZ9K.Math

/-- Between operations the memory holds exactly what was submitted and not fetched, and what was
posted and not returned. -/
structure Link.Consistent (n m : UInt32) (l : Link) : Prop where
  indices : l.mailbox.Indices n m
  requests : l.enqueued = l.fetched++l.mailbox.requests n
  completions : l.posted = l.returned++l.mailbox.completions m

/-- What one enqueue does with nobody in between -/
structure EnqueueRan (n m : UInt32) (ctx : Context) (request : MailboxEntry) (l : Link)
    (r : Enqueued × Link) : Prop where
  consistent : r.2.Consistent n m
  fetched : r.2.fetched = l.fetched
  posted : r.2.posted = l.posted
  returned : r.2.returned = l.returned
  queued : r.1.status = .queued → r.2.enqueued = l.enqueued++[
    {request with requestId := r.1.requestId,status := statusQueued : MailboxEntry}.message]
  refused : r.1.status ≠ .queued → r.2.enqueued = l.enqueued
  requestId : r.1.status = .queued → request.requestId ≠ 0 → r.1.requestId = request.requestId
  context : r.1.ctx = ctx ∨ r.1.ctx = (contextNextRequestId ctx).2

/-- What one consume does with nobody in between -/
structure ConsumeRan (n m : UInt32) (l : Link) (r : Consumed × Link) : Prop where
  consistent : r.2.Consistent n m
  enqueued : r.2.enqueued = l.enqueued
  fetched : r.2.fetched = l.fetched
  posted : r.2.posted = l.posted
  taken : r.1.status = .ok → r.2.returned = l.returned++[r.1.reply]
  refused : r.1.status ≠ .ok → r.2.returned = l.returned

/-- What fetching a request does: the oldest one moves on, or there is none. -/
structure TakeRan (n m : UInt32) (l l' : Link) : Prop where
  consistent : l'.Consistent n m
  enqueued : l'.enqueued = l.enqueued
  fetched : l.fetched <+: l'.fetched
  posted : l'.posted = l.posted
  returned : l'.returned = l.returned

/-- What posting a completion does: it is added at the end, unless the ring is full. -/
structure PostRan (n m : UInt32) (wire : MailboxWireEntry) (l : Link) (r : Bool × Link) :
    Prop where
  consistent : r.2.Consistent n m
  enqueued : r.2.enqueued = l.enqueued
  fetched : r.2.fetched = l.fetched
  returned : r.2.returned = l.returned
  posted : r.1 = true → r.2.posted = l.posted++[entryFromWire wire]

variable {n m : UInt32} {l : Link}

theorem enqueue_ran (h : l.Consistent n m) {ctx : Context} (hctx : ctx.requestRingEntries = n)
    (request : MailboxEntry) :
    EnqueueRan n m ctx request l ((enqueueRequestLocked ctx request).run l) := by
  have hsame : ∀ r : Enqueued, r.status ≠ .queued → r.ctx = ctx →
      ∀ seen, EnqueueRan n m ctx request l (r,{l with seen,stores := 0}) := by
    intro r hr hc seen
    exact ⟨⟨h.indices,h.requests,h.completions⟩,rfl,rfl,rfl,fun hq => absurd hq hr,fun _ => rfl,
      fun hq => absurd hq hr,Or.inl hc⟩
  unfold enqueueRequestLocked
  by_cases hlen : 48 < request.payloadLen.toNat
  · rw [if_pos hlen]
    exact ⟨h,rfl,rfl,rfl,fun hq => Status.noConfusion hq,fun _ => rfl,
      fun hq => Status.noConfusion hq,Or.inl rfl⟩
  rw [if_neg hlen,hctx]
  simp only [Res.load_bind,Res.store_bind,Res.run_step,id]
  have hin : ¬(n ≤ getBe32 l.mailbox.requestHead ∨ n ≤ getBe32 l.mailbox.requestTail) := by
    simp only [not_or,UInt32.not_le]
    exact ⟨h.indices.requestHead,h.indices.requestTail⟩
  rw [if_neg hin]
  by_cases hbusy : nextRingIndex (getBe32 l.mailbox.requestTail) n = getBe32 l.mailbox.requestHead
  · rw [if_pos hbusy]
    exact hsame _ (by simp) rfl _
  rw [if_neg hbusy]
  have hid : request.requestId ≠ 0 → (if request.requestId = 0 then contextNextRequestId ctx
      else (request.requestId,ctx)).1 = request.requestId := fun hne => by rw [if_neg hne]
  have hcontext : (if request.requestId = 0 then contextNextRequestId ctx
        else (request.requestId,ctx)).2 = ctx ∨
      (if request.requestId = 0 then contextNextRequestId ctx
        else (request.requestId,ctx)).2 = (contextNextRequestId ctx).2 := by
    split_ifs
    · exact Or.inr rfl
    · exact Or.inl rfl
  generalize (if request.requestId = 0 then contextNextRequestId ctx
    else (request.requestId,ctx)) = assigned at hid hcontext ⊢
  simp only [Res.run_step,Res.run_ret]
  have hp := Mailbox.requests_append h.indices hbusy (entryToWire
    (l.mailbox.requestRing (getBe32 l.mailbox.requestTail).toNat)
    {request with requestId := assigned.1,status := statusQueued})
  rw [message_entryToWire] at hp
  have hnext : nextRingIndex (getBe32 l.mailbox.requestTail) n < n :=
    Mailbox.nextRingIndex_lt h.indices.requestTail
  refine ⟨⟨⟨h.indices.1,by simpa using hnext,h.indices.3,h.indices.4⟩,?_,h.completions⟩,rfl,rfl,
    rfl,fun _ => rfl,fun hq => absurd rfl hq,fun _ => hid,hcontext⟩
  simp only
  rw [hp,h.requests,List.append_assoc]

theorem consume_ran (h : l.Consistent n m) {ctx : Context} (hctx : ctx.completionRingEntries = m)
    (reply : MailboxEntry) :
    ConsumeRan n m l ((consumeNextCompletionLocked ctx reply).run l) := by
  have hsame : ∀ r : Consumed, r.status ≠ .ok → ∀ seen, ConsumeRan n m l (r,{l with seen}) := by
    intro r hr seen
    exact ⟨⟨h.indices,h.requests,h.completions⟩,rfl,rfl,rfl,fun hq => absurd hq hr,fun _ => rfl⟩
  unfold consumeNextCompletionLocked
  rw [hctx]
  simp only [Res.load_bind,Res.store_bind,Res.run_step,id]
  have hin : ¬(m ≤ getBe32 l.mailbox.completionHead ∨ m ≤ getBe32 l.mailbox.completionTail) := by
    simp only [not_or,UInt32.not_le]
    exact ⟨h.indices.completionHead,h.indices.completionTail⟩
  rw [if_neg hin]
  by_cases hbusy : getBe32 l.mailbox.completionHead = getBe32 l.mailbox.completionTail
  · rw [if_pos hbusy]
    exact hsame _ (by simp) _
  rw [if_neg hbusy]
  simp only [Res.run_step,Res.run_ret,id]
  have hp := Mailbox.completions_pop h.indices hbusy
  have hnext : nextRingIndex (getBe32 l.mailbox.completionHead) m < m :=
    Mailbox.nextRingIndex_lt h.indices.completionHead
  refine ⟨⟨⟨h.indices.1,h.indices.2,by simpa using hnext,h.indices.4⟩,h.requests,?_⟩,rfl,rfl,rfl,
    fun _ => rfl,fun hq => absurd rfl hq⟩
  simp only
  rw [h.completions,hp,List.append_assoc,List.singleton_append]

theorem take_ran (h : l.Consistent n m) : TakeRan n m l ((firmwareTake n).run l).2 := by
  unfold firmwareTake
  simp only [Res.load_bind,Res.store_bind,Res.run_step,id]
  by_cases hempty : getBe32 l.mailbox.requestHead = getBe32 l.mailbox.requestTail
  · rw [if_pos hempty]
    exact ⟨h,rfl,List.prefix_refl _,rfl,rfl⟩
  rw [if_neg hempty,advance_eq_nextRingIndex h.indices.requestHead]
  simp only [Res.run_step,Res.run_ret,id]
  have hp := Mailbox.requests_pop h.indices hempty
  have hnext : nextRingIndex (getBe32 l.mailbox.requestHead) n < n :=
    Mailbox.nextRingIndex_lt h.indices.requestHead
  refine ⟨⟨⟨by simpa using hnext,h.indices.2,h.indices.3,h.indices.4⟩,?_,h.completions⟩,rfl,
    List.prefix_append _ _,rfl,rfl⟩
  simp only
  rw [h.requests,hp,List.append_assoc,List.singleton_append]

theorem post_ran (h : l.Consistent n m) (wire : MailboxWireEntry) :
    PostRan n m wire l ((firmwarePost m wire).run l) := by
  unfold firmwarePost
  simp only [Res.load_bind,Res.store_bind,Res.run_step,id]
  rw [advance_eq_nextRingIndex h.indices.completionTail]
  by_cases hfull : nextRingIndex (getBe32 l.mailbox.completionTail) m =
      getBe32 l.mailbox.completionHead
  · rw [if_pos hfull]
    exact ⟨h,rfl,rfl,rfl,fun hp => Bool.noConfusion hp⟩
  rw [if_neg hfull]
  simp only [Res.run_step,Res.run_ret]
  have hp := Mailbox.completions_append h.indices hfull wire
  have hnext : nextRingIndex (getBe32 l.mailbox.completionTail) m < m :=
    Mailbox.nextRingIndex_lt h.indices.completionTail
  refine ⟨⟨⟨h.indices.1,h.indices.2,h.indices.3,by simpa using hnext⟩,h.requests,?_⟩,rfl,rfl,rfl,
    fun _ => rfl⟩
  simp only
  rw [hp,h.completions,List.append_assoc]

end ZZ9K.Host
