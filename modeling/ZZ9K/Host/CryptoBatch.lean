import ZZ9K.Framework.Ask
import ZZ9K.Host.Replies

namespace ZZ9K.Host

open ZZ9K.Abi ZZ9K.Framework

def opCryptoHash : UInt16 := 0x0800
def opCryptoStream : UInt16 := 0x0801
def opCryptoAead : UInt16 := 0x0802

def cryptoHashNone : UInt32 := 0
def cryptoHashPoly1305 : UInt32 := 6
def cryptoHashFlagHmac : UInt32 := 1
def cryptoStreamNone : UInt32 := 0
def cryptoAeadFlagDecrypt : UInt32 := 1
def cryptoAeadAlgMask : UInt32 := 0xff00

/-- `ZZ9K_CRYPTO_BATCH_MAX_IN_FLIGHT` -/
def cryptoBatchMaxInFlight : UInt32 := 16

/-- `ZZ9KCryptoHashDesc` -/
structure CryptoHashDesc where
  srcHandle : UInt32
  srcOffset : UInt32
  srcLength : UInt32
  dstHandle : UInt32
  dstOffset : UInt32
  keyHandle : UInt32
  keyOffset : UInt32
  keyLength : UInt32
  algorithm : UInt32
  flags : UInt32
  deriving DecidableEq, Repr

/-- `ZZ9KCryptoStreamDesc` -/
structure CryptoStreamDesc where
  srcHandle : UInt32
  srcOffset : UInt32
  srcLength : UInt32
  dstHandle : UInt32
  dstOffset : UInt32
  keyHandle : UInt32
  keyOffset : UInt32
  nonceHandle : UInt32
  nonceOffset : UInt32
  counter : UInt32
  algorithm : UInt32
  flags : UInt32
  deriving DecidableEq, Repr

/-- `ZZ9KCryptoAeadDesc` -/
structure CryptoAeadDesc where
  srcHandle : UInt32
  srcOffset : UInt32
  srcLength : UInt32
  dstHandle : UInt32
  dstOffset : UInt32
  aadHandle : UInt32
  aadOffset : UInt32
  aadLength : UInt32
  keyHandle : UInt32
  keyOffset : UInt32
  nonceHandle : UInt32
  flags : UInt32
  deriving DecidableEq, Repr

/-- `zz9k_request_crypto_hash` -/
def requestCryptoHash (desc : CryptoHashDesc) : Except Status MailboxEntry :=
  if desc.srcHandle = invalidHandle ∨ desc.srcLength = 0 ∨ desc.dstHandle = invalidHandle ∨
      desc.algorithm = cryptoHashNone then .error .badRequest
  else if desc.flags &&& cryptoHashFlagHmac ≠ 0 ∧
      (desc.keyHandle = invalidHandle ∨ desc.keyLength = 0) then .error .badRequest
  else if desc.algorithm = cryptoHashPoly1305 ∧
      (desc.flags ≠ 0 ∨ desc.keyHandle = invalidHandle ∨ desc.keyLength ≠ 32) then
    .error .badRequest
  else .ok (requestInit opCryptoHash [desc.srcHandle,desc.srcOffset,desc.srcLength,desc.dstHandle,
    desc.dstOffset,desc.keyHandle,desc.keyOffset,desc.keyLength,desc.algorithm,desc.flags])

/-- `zz9k_request_crypto_stream` -/
def requestCryptoStream (desc : CryptoStreamDesc) : Except Status MailboxEntry :=
  if desc.srcHandle = invalidHandle ∨ desc.srcLength = 0 ∨ desc.dstHandle = invalidHandle ∨
      desc.keyHandle = invalidHandle ∨ desc.nonceHandle = invalidHandle ∨
      desc.algorithm = cryptoStreamNone then .error .badRequest
  else .ok (requestInit opCryptoStream [desc.srcHandle,desc.srcOffset,desc.srcLength,
    desc.dstHandle,desc.dstOffset,desc.keyHandle,desc.keyOffset,desc.nonceHandle,desc.nonceOffset,
    desc.counter,desc.algorithm,desc.flags])

/-- `zz9k_request_crypto_aead` -/
def requestCryptoAead (desc : CryptoAeadDesc) : Except Status MailboxEntry :=
  if desc.srcHandle = invalidHandle ∨ desc.srcLength = 0 ∨ desc.dstHandle = invalidHandle ∨
      desc.keyHandle = invalidHandle ∨ desc.nonceHandle = invalidHandle ∨
      desc.flags &&& ~~~(cryptoAeadFlagDecrypt ||| cryptoAeadAlgMask) ≠ 0 then .error .badRequest
  else if desc.aadLength ≠ 0 ∧ desc.aadHandle = invalidHandle then .error .badRequest
  else .ok (requestInit opCryptoAead [desc.srcHandle,desc.srcOffset,desc.srcLength,desc.dstHandle,
    desc.dstOffset,desc.aadHandle,desc.aadOffset,desc.aadLength,desc.keyHandle,desc.keyOffset,
    desc.nonceHandle,desc.flags])

/-- Where a batch stands: what its loops test, a subtraction it is about to make, an element of
`results` it is about to write. -/
inductive BatchPoint
  | iteration (maxInFlight submittedTotal completedTotal inFlight : UInt32)
  | subtract (a b : UInt32)
  | store (index : UInt32)
  deriving DecidableEq

/-- What a batch does to the outside: it looks for the mailbox semaphore, reads the indices of the
two rings and an entry of the second, puts an entry in the first, takes an id from its context
and waits. A `point` does nothing and shows where the batch stands. -/
inductive BatchCall
  | semaphore
  | requestIndices
  | nextRequestId
  | publish (entry : MailboxEntry)
  | completionIndices
  | take
  | idle (waitTicks : UInt32)
  | point (p : BatchPoint)
  deriving DecidableEq

/-- What comes back; heads stand before tails. -/
abbrev BatchCall.Answer : BatchCall → Type
  | .semaphore => Bool
  | .requestIndices => UInt32 × UInt32
  | .nextRequestId => UInt32
  | .publish _ => Unit
  | .completionIndices => UInt32 × UInt32
  | .take => MailboxEntry
  | .idle _ => Unit
  | .point _ => Unit

abbrev BatchProg := Ask BatchCall BatchCall.Answer

abbrev BatchLog := List (Answered BatchCall BatchCall.Answer)

section

variable (ctx : Context)

/-- `zz9k_mailbox_lock` -/
def mailboxLock : BatchProg Status :=
  .ask .semaphore fun found => .ret (if found then .ok else .noMemory)

/-- `zz9k_submit`, with the id the request got -/
def submit (request : MailboxEntry) : BatchProg (Status × UInt32) :=
  mailboxLock >>= fun lockStatus =>
  if lockStatus ≠ .ok then .ret (lockStatus,0)
  else if 48 < request.payloadLen.toNat then .ret (.badRequest,0)
  else
    .ask .requestIndices fun (head,tail) =>
    if ctx.requestRingEntries ≤ head ∨ ctx.requestRingEntries ≤ tail then .ret (.badRequest,0)
    else if nextRingIndex tail ctx.requestRingEntries = head then .ret (.busy,0)
    else
      (if request.requestId = 0 then Ask.one .nextRequestId else .ret request.requestId) >>=
        fun requestId =>
      .ask (.publish {request with requestId,status := statusQueued}) fun _ =>
      .ret (.queued,requestId)

/-- `zz9k_poll`, on what `reply` held before -/
def poll (reply : MailboxEntry) : BatchProg (Status × MailboxEntry) :=
  mailboxLock >>= fun lockStatus =>
  if lockStatus ≠ .ok then .ret (lockStatus,reply)
  else
    .ask .completionIndices fun (head,tail) =>
    if ctx.completionRingEntries ≤ head ∨ ctx.completionRingEntries ≤ tail then
      .ret (.badRequest,reply)
    else if head = tail then .ret (.busy,reply)
    else .ask .take fun reply => .ret (.ok,reply)

/-- The loop of `zz9k_submit_batch`, `done` requests in -/
def submitBatchLoop (done : UInt32) : List MailboxEntry → BatchProg (Status × UInt32)
  | [] => .ret (.queued,done)
  | request::rest => submit ctx request >>= fun (status,_) =>
      if status ≠ .queued then .ret (if done ≠ 0 then .queued else status,done)
      else submitBatchLoop (done+1) rest

/-- `zz9k_submit_batch` without a place for the ids, and how many it submitted -/
def submitBatch (requests : List MailboxEntry) : BatchProg (Status × UInt32) :=
  if requests = [] then .ret (.badRequest,0) else submitBatchLoop ctx 0 requests

/-- The loop of `zz9k_poll_batch` with `replies` taken and room for so many more -/
def pollBatchLoop (replies : List MailboxEntry) : Nat → BatchProg (Status × List MailboxEntry)
  | 0 => .ret (.ok,replies)
  | room+1 => poll ctx {} >>= fun (status,reply) =>
      if status = .busy then .ret (if replies = [] then .busy else .ok,replies)
      else if status ≠ .ok then .ret (status,replies)
      else pollBatchLoop (replies++[reply]) room

/-- `zz9k_poll_batch`, with the replies it completed -/
def pollBatch (capacity : UInt32) : BatchProg (Status × List MailboxEntry) :=
  if capacity = 0 then .ret (.badRequest,[]) else pollBatchLoop ctx [] capacity.toNat

end

/-- The local variables of a batch, and the array it fills -/
structure BatchState where
  submittedTotal : UInt32 := 0
  completedTotal : UInt32 := 0
  inFlight : UInt32 := 0
  waitTicks : UInt32 := 0
  results : List CryptoResult
  deriving DecidableEq

/-- What sets the three batches apart: how a descriptor becomes a request, under which opcode. A
descriptor is refused with an error, never with OK. -/
structure BatchKind (Desc : Type) where
  request : Desc → Except Status MailboxEntry
  opcode : UInt16
  refused : ∀ {desc status}, request desc = .error status → status ≠ .ok
  asked : ∀ {desc entry}, request desc = .ok entry → entry.opcode = opcode

/-- `a-b`, where underflow could happen -/
def subtract (a b : UInt32) : BatchProg UInt32 := .ask (.point (.subtract a b)) fun _ => .ret (a-b)

section

variable (ctx : Context) {Desc : Type} (kind : BatchKind Desc) (descs : UInt32 → Desc)
  (count maxInFlight timeoutTicks : UInt32)

/-- The next `n` requests, each with the index of its descriptor as cookie -/
def batchRequests (submittedTotal : UInt32) : Nat → Except Status (List MailboxEntry)
  | 0 => .ok []
  | n+1 => match kind.request (descs submittedTotal) with
      | .error status => .error status
      | .ok entry => match batchRequests (submittedTotal+1) n with
          | .error status => .error status
          | .ok rest => .ok ({entry with userCookie := submittedTotal}::rest)

/-- One round of the submitting loop; it ends with the state it leaves or with what the batch
returns. -/
def fillRound (s : BatchState) : BatchProg (Except Status BatchState ⊕ BatchState) :=
  .ask (.point (.iteration maxInFlight s.submittedTotal s.completedTotal s.inFlight)) fun _ =>
  if s.submittedTotal < count ∧ s.inFlight < maxInFlight then
    subtract count s.submittedTotal >>= fun left =>
    subtract maxInFlight s.inFlight >>= fun room =>
    let batchCapacity := if room < left then room else left
    match batchRequests kind descs s.submittedTotal batchCapacity.toNat with
    | .error status => .ret (.inl (.error status))
    | .ok requests =>
        submitBatch ctx requests >>= fun (status,submittedNow) =>
        if status = .queued ∧ submittedNow ≠ 0 then
          let s := {s with
            submittedTotal := s.submittedTotal+submittedNow
            inFlight := s.inFlight+submittedNow
            waitTicks := 0}
          if submittedNow < batchCapacity then .ret (.inl (.ok s)) else .ret (.inr s)
        else if status = .busy then .ret (.inl (.ok s))
        else .ret (.inl (.error status))
  else .ret (.inl (.ok s))

/-- The loop over the replies just completed -/
def storeReplies : List MailboxEntry → List CryptoResult →
    BatchProg (Except (Status × List CryptoResult) (List CryptoResult))
  | [],results => .ret (.ok results)
  | reply::rest,results =>
      let index := reply.userCookie
      if count ≤ index ∨ (results.getD index.toNat {}).bytesWritten ≠ 0 then
        .ret (.error (.internalError,results))
      else .ask (.point (.store index)) fun _ =>
        match replyCryptoResult reply kind.opcode with
        | .error status => .ret (.error (status,results.set index.toNat {}))
        | .ok result => storeReplies rest (results.set index.toNat result)

/-- `wait_ticks++` with its test -/
def waitRound (s : BatchState) :
    BatchProg (Option (Status × List CryptoResult) ⊕ BatchState) :=
  .ask (.idle s.waitTicks) fun _ =>
  let s := {s with waitTicks := s.waitTicks+1}
  if timeoutTicks ≤ s.waitTicks then .ret (.inl (some (.timeout,s.results))) else .ret (.inr s)

/-- The second half of a round of the main loop, on what the submitting loop left -/
def pollRound (s : BatchState) : BatchProg (Option (Status × List CryptoResult) ⊕ BatchState) :=
  if s.inFlight = 0 then waitRound timeoutTicks s
  else
    let pollCapacity := if maxInFlight < s.inFlight then maxInFlight else s.inFlight
    pollBatch ctx pollCapacity >>= fun (status,replies) =>
    if status = .busy then waitRound timeoutTicks s
    else if status ≠ .ok then .ret (.inl (some (status,s.results)))
    else
      storeReplies kind count replies s.results >>= fun
      | .error out => .ret (.inl (some out))
      | .ok results =>
          let justCompleted := UInt32.ofNat replies.length
          subtract s.inFlight justCompleted >>= fun inFlight =>
          .ret (.inr {s with
            completedTotal := s.completedTotal+justCompleted
            inFlight
            waitTicks := 0
            results})

/-- One round of the main loop; `none` stands for a submitting loop that did not come to an end. -/
def batchRound (fuel : Nat) (s : BatchState) :
    BatchProg (Option (Status × List CryptoResult) ⊕ BatchState) :=
  .ask (.point (.iteration maxInFlight s.submittedTotal s.completedTotal s.inFlight)) fun _ =>
  if s.completedTotal < count then
    Ask.iterate (fillRound ctx kind descs count maxInFlight) fuel s >>= fun
    | none => .ret (.inl none)
    | some (.error status) => .ret (.inl (some (status,s.results)))
    | some (.ok s) => pollRound ctx kind count maxInFlight timeoutTicks s
  else .ret (.inl (some (.ok,s.results)))

/-- The three batches, each loop in at most `fuel` rounds -/
def cryptoBatch (fuel : Nat) (results : List CryptoResult) :
    BatchProg (Option (Status × List CryptoResult)) :=
  if count = 0 then .ret (some (.badRequest,results))
  else
    let maxInFlight := if maxInFlight = 0 ∨ cryptoBatchMaxInFlight < maxInFlight then
      cryptoBatchMaxInFlight else maxInFlight
    Ask.iterate (batchRound ctx kind descs count maxInFlight timeoutTicks fuel) fuel
      {results := List.replicate count.toNat {}} >>= fun r => .ret r.join

end

def hashBatch : BatchKind CryptoHashDesc where
  request := requestCryptoHash
  opcode := opCryptoHash
  refused h := by
    unfold requestCryptoHash at h
    split_ifs at h <;> obtain rfl := Except.error.inj h <;> simp
  asked h := by
    unfold requestCryptoHash at h
    split_ifs at h
    obtain rfl := Except.ok.inj h
    rfl

/-- `zz9k_crypto_hash_batch` -/
def cryptoHashBatch (ctx : Context) (descs : UInt32 → CryptoHashDesc)
    (count maxInFlight timeoutTicks : UInt32) (fuel : Nat) (results : List CryptoResult) :
    BatchProg (Option (Status × List CryptoResult)) :=
  cryptoBatch ctx hashBatch descs count maxInFlight timeoutTicks fuel results

def streamBatch : BatchKind CryptoStreamDesc where
  request := requestCryptoStream
  opcode := opCryptoStream
  refused h := by
    unfold requestCryptoStream at h
    split_ifs at h
    obtain rfl := Except.error.inj h
    simp
  asked h := by
    unfold requestCryptoStream at h
    split_ifs at h
    obtain rfl := Except.ok.inj h
    rfl

/-- `zz9k_crypto_stream_batch` -/
def cryptoStreamBatch (ctx : Context) (descs : UInt32 → CryptoStreamDesc)
    (count maxInFlight timeoutTicks : UInt32) (fuel : Nat) (results : List CryptoResult) :
    BatchProg (Option (Status × List CryptoResult)) :=
  cryptoBatch ctx streamBatch descs count maxInFlight timeoutTicks fuel results

def aeadBatch : BatchKind CryptoAeadDesc where
  request := requestCryptoAead
  opcode := opCryptoAead
  refused h := by
    unfold requestCryptoAead at h
    split_ifs at h <;> obtain rfl := Except.error.inj h <;> simp
  asked h := by
    unfold requestCryptoAead at h
    split_ifs at h
    obtain rfl := Except.ok.inj h
    rfl

/-- `zz9k_crypto_aead_batch` -/
def cryptoAeadBatch (ctx : Context) (descs : UInt32 → CryptoAeadDesc)
    (count maxInFlight timeoutTicks : UInt32) (fuel : Nat) (results : List CryptoResult) :
    BatchProg (Option (Status × List CryptoResult)) :=
  cryptoBatch ctx aeadBatch descs count maxInFlight timeoutTicks fuel results

end ZZ9K.Host
