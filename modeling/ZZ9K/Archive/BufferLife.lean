import ZZ9K.Archive.LhaBatch

namespace ZZ9K.Archive

open ZZ9K.Abi ZZ9K.Host ZZ9K.Framework

/-- A log of questions and answers -/
abbrev JobLog := List (Answered JobCall JobCall.Answer)

/-- The decodings of the tool, and what it does between them without the board -/
inductive DecodeJob : Type → Type 1
  | memory (service : CodecService) (algorithm : Compression) (compressed : Bytes)
      (outputCapacity : Nat) (verifyOnly : Bool) : DecodeJob (Option (Bytes × DecompressResult))
  | test (service : CodecService) (algorithm : Compression) (compressed : Bytes)
      (outputLimit : Nat) : DecodeJob (Option DecompressResult)
  | stream (service : CodecService) (opts : ToolOptions) (algorithm : Compression)
      (compressed : Bytes) (outputLimit : Nat) (outputDir : CString) (entry : ArchiveEntry) :
      DecodeJob (DecodeEnd Unit)
  | feedStream (service : CodecService) (opts : ToolOptions) (algorithm : Compression)
      (prefixBytes compressed : Bytes) (outputLimit : Nat) (outputDir : CString)
      (entry : ArchiveEntry) : DecodeJob (DecodeEnd Unit)
  | feedFile {σ : Type} (service : CodecService) (algorithm : Compression) (prefixBytes : Bytes)
      (inputPath : CString) (inputStart inputLength outputLimit : Nat) (output : FeedOutput σ) :
      DecodeJob (DecodeEnd σ)
  | lhaBatch (decoder : LhaDecoder) (opts : ToolOptions) (limits : BatchLimits)
      (service : CodecService) (src : LhaSource) (entries : List ArchiveEntry)
      (command : ArchiveCommand) (outputDir : CString) (state : List LhaBatchState) :
      DecodeJob (List LhaBatchState)
  | askBoard (diag : LhaBoardDiag) : DecodeJob (Option LhaBoardDiag)
  | files {α : Type} (p : Tool α) : DecodeJob α

def DecodeJob.program {α : Type} : DecodeJob α → Job α
  | memory service algorithm compressed outputCapacity verifyOnly =>
    decompressToMemoryEx service algorithm compressed outputCapacity verifyOnly
  | test service algorithm compressed outputLimit =>
    decompressTestToResult service algorithm compressed outputLimit
  | stream service opts algorithm compressed outputLimit outputDir entry =>
    decompressStreamToFile service opts algorithm compressed outputLimit outputDir entry
  | feedStream service opts algorithm prefixBytes compressed outputLimit outputDir entry =>
    decompressFeedStreamPartsToFile service opts algorithm prefixBytes compressed outputLimit
      outputDir entry
  | feedFile service algorithm prefixBytes inputPath inputStart inputLength outputLimit output =>
    decompressFeedFilePartsCore service algorithm prefixBytes inputPath inputStart inputLength
      outputLimit output
  | lhaBatch decoder opts limits service src entries command outputDir state =>
    lhaBatchRunSrc decoder opts limits service src entries command outputDir state
  | askBoard diag => lhaAskBoard diag
  | files p => Job.tool p

/-- A run of the tool, which chooses each decoding by the results of those before -/
inductive ToolRun : Type 1
  | stop
  | job {α : Type} (j : DecodeJob α) (next : α → ToolRun)

def ToolRun.program : ToolRun → Job Unit
  | stop => pure ()
  | job j next => j.program >>= fun a => (next a).program

/-- What surrounds a run: the handles of the buffers that the board has given out and not had
back, and the flag `zz9k_archive_cancel_latched` -/
structure Surroundings where
  held : List UInt32 := []
  latched : Bool := false

/-- The board gives out a buffer only once at a time, never under the invalid handle; and
`zz9k_archive_cancelled` stays true. -/
def Surroundings.Allowed (s : Surroundings) : (c : JobCall) → c.Answer → Prop
  | .allocShared _ _ _,answer =>
    ∀ buffer : SharedBuffer, answer = Except.ok buffer →
      buffer.handle ≠ invalidHandle ∧ buffer.handle ∉ s.held
  | .tool .cancelled,answer => s.latched = true → answer = true
  | _,_ => True

def Surroundings.next (s : Surroundings) : (c : JobCall) → c.Answer → Surroundings
  | .allocShared _ _ _,answer =>
    match (answer : Except Status SharedBuffer) with
    | .ok buffer => {s with held := buffer.handle::s.held}
    | .error _ => s
  | .freeShared handle,_ => {s with held := s.held.filter fun h => h ≠ handle}
  | .latchCancelled,_ => {s with latched := true}
  | _,_ => s

def surroundings : World JobCall JobCall.Answer where
  State := Surroundings
  allowed s e := s.Allowed e.1 e.2
  next s e := s.next e.1 e.2

/-- The firmware may still be using the buffers of a request that ended so. -/
def Unfinished (status : Status) : Bool := status = .cancelled ∨ status = .timeout

/-- No buffer that an unfinished request named is freed after it. -/
def BuffersKept (log : JobLog) : Prop :=
  ∀ (before after : JobLog) (request : CodecRequest) (answer : Status × DecompressResult),
    log = before++⟨.codec request,answer⟩::after → Unfinished answer.1 = true →
      ∀ handle ∈ request.buffers, ∀ e ∈ after, e.1 ≠ .freeShared handle

/-- Whether the code gives up the buffers of a request that ended so: those of a one-shot decoding
and of a batch that were cancelled, and those of a batch that timed out when Ctrl-C had been
pressed before the next look for it, right after -/
def GivesUp (request : CodecRequest) (status : Status) (after : JobLog) : Prop :=
  match request with
  | .decompress .. => status = .cancelled
  | .decompressBatch .. =>
    status = .cancelled ∨ after.head? = some ⟨.tool .cancelled,(true : Bool)⟩
  | _ => False

/-- Requests are left unfinished only where the code gives up their buffers, or where they name no
buffer with a handle other than zero, which is never freed. -/
def Handled (log : JobLog) : Prop :=
  ∀ (before after : JobLog) (request : CodecRequest) (answer : Status × DecompressResult),
    log = before++⟨.codec request,answer⟩::after → Unfinished answer.1 = true →
      (∀ handle ∈ request.buffers, handle = 0) ∨ GivesUp request answer.1 after

/-- Whether a request is one whose buffers the code can give up -/
def CodecRequest.abandons : CodecRequest → Bool
  | decompress .. | decompressBatch .. => true
  | _ => false

/-- The surroundings with what the buffers' lives are judged by: the handles that unfinished
requests named, whether a batch has just timed out, and whether no abandoned buffer was freed -/
structure Life extends Surroundings where
  abandoned : List UInt32 := []
  stopping : Bool := false
  kept : Bool := true

namespace Life

/-- Where a request may be left unfinished; what comes after a batch is left to `stopping`. -/
def Tolerates (request : CodecRequest) (status : Status) : Prop :=
  Unfinished status = true → (∀ handle ∈ request.buffers, handle = 0) ∨
    (request.abandons = true ∧ (status = .timeout → ∃ arena offset length,
      request = .decompressBatch arena offset length))

def Allowed (l : Life) : (c : JobCall) → c.Answer → Prop
  | .codec request,answer => l.stopping = false ∧ Tolerates request (Prod.fst answer)
  | .tool .cancelled,answer => l.stopping = true → answer = true
  | _,_ => l.stopping = false

def next (l : Life) : (c : JobCall) → c.Answer → Life
  | .codec request,answer =>
    if Unfinished (Prod.fst answer) then
      {l with
        abandoned := request.buffers++l.abandoned
        stopping := Prod.fst answer = .timeout ∧ request.abandons = true ∧
          ∃ handle ∈ request.buffers, handle ≠ 0}
    else l
  | .freeShared handle,_ =>
    {l with
      toSurroundings := l.toSurroundings.next (.freeShared handle) ()
      kept := l.kept ∧ handle ∉ l.abandoned}
  | .tool .cancelled,_ => {l with stopping := false}
  | c,answer => {l with toSurroundings := l.toSurroundings.next c answer}

end Life

def life : World JobCall JobCall.Answer where
  State := Life
  allowed l e := l.toSurroundings.Allowed e.1 e.2 ∧ l.Allowed e.1 e.2
  next l e := l.next e.1 e.2

theorem life_surroundings (l : Life) (c : JobCall) (x : c.Answer) :
    (l.next c x).toSurroundings = l.toSurroundings.next c x := by
  cases c with
  | codec request =>
    simp only [Life.next,Surroundings.next]
    split <;> rfl
  | tool c => cases c <;> rfl
  | _ => rfl

theorem Handled.tail {e : Answered JobCall JobCall.Answer} {log : JobLog} (h : Handled (e::log)) :
    Handled log := by
  intro before after request answer hlog
  exact h (e::before) after request answer (by rw [hlog,List.cons_append])

theorem Handled.tolerates {request : CodecRequest} {answer : Status × DecompressResult}
    {log : JobLog} (h : Handled (⟨.codec request,answer⟩::log)) :
    Life.Tolerates request answer.1 := by
  intro hunfinished
  rcases h [] log request answer rfl hunfinished with hzero | hgives
  · exact Or.inl hzero
  · right
    cases request with
    | decompress _ _ _ _ _ _ _ _ =>
      refine ⟨rfl,fun htimeout => ?_⟩
      have hcancelled : answer.1 = .cancelled := hgives
      rw [hcancelled] at htimeout
      cases htimeout
    | decompressBatch arena offset length => exact ⟨rfl,fun _ => ⟨arena,offset,length,rfl⟩⟩
    | _ => exact hgives.elim

/-- A batch that has just timed out is followed by the look for Ctrl-C. -/
theorem Handled.stopping {request : CodecRequest} {answer : Status × DecompressResult}
    {log : JobLog} {l : Life} (h : Handled (⟨.codec request,answer⟩::log))
    (hl : l.stopping = false) (hs : (l.next (.codec request) answer).stopping = true) :
    log.head? = some ⟨.tool .cancelled,(true : Bool)⟩ := by
  simp only [Life.next] at hs
  split at hs
  · next hunfinished =>
    simp only [decide_eq_true_eq] at hs
    obtain ⟨htimeout,habandons,handle,hmem,hne⟩ := hs
    rcases h [] log request answer rfl hunfinished with hzero | hgives
    · exact absurd (hzero handle hmem) hne
    · cases request with
      | decompress _ _ _ _ _ _ _ _ =>
        have hcancelled : answer.1 = .cancelled := hgives
        rw [hcancelled] at htimeout
        cases htimeout
      | decompressBatch _ _ _ =>
        rcases hgives with hcancelled | hhead
        · rw [hcancelled] at htimeout
          cases htimeout
        · exact hhead
      | _ => exact hgives.elim
  · rw [hl] at hs
    cases hs

theorem Life.stopping_next {l : Life} {c : JobCall} {x : c.Answer}
    (hc : ∀ request, c ≠ .codec request) (h : (l.next c x).stopping = true) :
    l.stopping = true := by
  cases c with
  | codec request => exact absurd rfl (hc request)
  | tool c =>
    cases c with
    | cancelled => cases h
    | _ => exact h
  | _ => exact h

/-- A handled log is one that the lives of the buffers allow. -/
theorem life_allows {log : JobLog} {l : Life} (ha : surroundings.Allows l.toSurroundings log)
    (hh : Handled log)
    (hs : l.stopping = true → log.head? = some ⟨.tool .cancelled,(true : Bool)⟩) :
    life.Allows l log := by
  induction log generalizing l with
  | nil => trivial
  | cons e log ih =>
    obtain ⟨c,x⟩ := e
    have hfalse (hc : c ≠ .tool .cancelled) : l.stopping = false := by
      cases hstop : l.stopping with
      | false => rfl
      | true =>
        have hhead := Option.some.inj (hs hstop)
        exact absurd (congrArg Sigma.fst hhead) hc
    have hallowed : l.Allowed c x := by
      cases c with
      | codec request => exact ⟨hfalse (by simp),hh.tolerates⟩
      | tool c =>
        cases c with
        | cancelled =>
          intro hstop
          have hhead := Option.some.inj (hs hstop)
          cases hhead
          rfl
        | _ => exact hfalse (by simp)
      | _ => exact hfalse (by simp)
    refine ⟨⟨ha.1,hallowed⟩,ih ?_ hh.tail ?_⟩
    · have hrest := ha.2
      simp only [surroundings,life] at hrest ⊢
      rw [life_surroundings]
      exact hrest
    · intro hstop
      cases c with
      | codec request => exact hh.stopping (hfalse (by simp)) hstop
      | tool c =>
        cases c with
        | cancelled => cases hstop
        | _ =>
          have hbefore := Life.stopping_next (by simp) hstop
          rw [hfalse (by simp)] at hbefore
          cases hbefore
      | _ =>
        have hbefore := Life.stopping_next (by simp) hstop
        rw [hfalse (by simp)] at hbefore
        cases hbefore

/-- What is abandoned stays so, and freeing it shows. -/
theorem Life.kept_next {l : Life} {c : JobCall} {x : c.Answer} (h : (l.next c x).kept = true) :
    l.kept = true ∧ ∀ handle ∈ l.abandoned,
      c ≠ .freeShared handle ∧ handle ∈ (l.next c x).abandoned := by
  cases c with
  | codec request =>
    simp only [Life.next] at h ⊢
    split at h
    · next hu =>
      rw [if_pos hu]
      exact ⟨h,fun handle hm => ⟨by simp,List.mem_append_right _ hm⟩⟩
    · next hu =>
      rw [if_neg hu]
      exact ⟨h,fun handle hm => ⟨by simp,hm⟩⟩
  | freeShared freed =>
    simp only [Life.next,decide_eq_true_eq] at h ⊢
    refine ⟨h.1,fun handle hm => ⟨?_,hm⟩⟩
    intro heq
    cases heq
    exact h.2 hm
  | tool c => cases c <;> exact ⟨h,fun handle hm => ⟨by simp,hm⟩⟩
  | _ => exact ⟨h,fun handle hm => ⟨by simp,hm⟩⟩

theorem life_after_kept {log : JobLog} {l : Life} (h : (life.after l log).kept = true) :
    l.kept = true ∧ ∀ handle ∈ l.abandoned, ∀ e ∈ log, e.1 ≠ .freeShared handle := by
  induction log generalizing l with
  | nil => exact ⟨h,fun handle hm e he => nomatch he⟩
  | cons e log ih =>
    obtain ⟨hkept,hrest⟩ := ih h
    obtain ⟨hl,hnext⟩ := Life.kept_next hkept
    refine ⟨hl,fun handle hm e' he' => ?_⟩
    obtain ⟨hne,hstill⟩ := hnext handle hm
    rcases List.mem_cons.mp he' with rfl | he'
    · exact hne
    · exact hrest handle hstill e' he'

/-- A log after which no abandoned buffer has been freed keeps the buffers. -/
theorem buffersKept_of_life {log : JobLog} {l : Life} (h : (life.after l log).kept = true) :
    BuffersKept log := by
  intro before after request answer hlog hunfinished handle hm e he
  subst hlog
  have hafter : life.after l (before++⟨.codec request,answer⟩::after) =
      life.after ((life.after l before).next (.codec request) answer) after := by
    simp [World.after,life]
  rw [hafter] at h
  refine (life_after_kept h).2 handle ?_ e he
  simp only [Life.next,hunfinished]
  exact List.mem_append_left _ hm

end ZZ9K.Archive
