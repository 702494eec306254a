import ZZ9K.Archive.BufferLife

namespace ZZ9K.Archive

open ZZ9K.Abi ZZ9K.Host ZZ9K.Framework

namespace Life

/-- No abandoned buffer was freed, and all of them are still out. -/
structure Steady (l : Life) : Prop where
  kept : l.kept = true
  going : l.stopping = false
  held : ∀ handle ∈ l.abandoned, handle ∈ l.held

/-- A buffer that may be freed: one without a handle, or one that is not abandoned -/
def Idle (l : Life) (handle : UInt32) : Prop := handle = 0 ∨ handle ∉ l.abandoned

/-- A buffer that a decoding has allocated and works with -/
structure Owned (l : Life) (handle : UInt32) : Prop where
  held : handle ∈ l.held
  idle : l.Idle handle

/-- Nothing was allocated, freed or given up between two states. -/
structure Quiet (l m : Life) : Prop where
  steady : m.Steady
  held : m.held = l.held
  latched : l.latched = true → m.latched = true
  idle : ∀ handle, l.Idle handle → m.Idle handle

theorem Steady.quiet {l : Life} (h : l.Steady) : l.Quiet l := ⟨h,rfl,id,fun _ => id⟩

theorem Quiet.owned {l m : Life} (h : l.Quiet m) {handle : UInt32} (ho : l.Owned handle) :
    m.Owned handle :=
  ⟨h.held ▸ ho.held,h.idle handle ho.idle⟩

theorem Quiet.trans {l m n : Life} (h : l.Quiet m) (h' : m.Quiet n) : l.Quiet n :=
  ⟨h'.steady,h'.held.trans h.held,fun hl => h'.latched (h.latched hl),
    fun handle hi => h'.idle handle (h.idle handle hi)⟩

/-- The state once the board has given out a buffer -/
def give (l : Life) (handle : UInt32) : Life := {l with held := handle::l.held}

theorem Steady.fresh {l : Life} (h : l.Steady) {handle : UInt32} (hf : handle ∉ l.held) :
    handle ∉ l.abandoned :=
  fun hm => hf (h.held handle hm)

theorem Steady.give {l : Life} (h : l.Steady) (handle : UInt32) : (l.give handle).Steady :=
  ⟨h.kept,h.going,fun handle' hm => List.mem_cons_of_mem _ (h.held handle' hm)⟩

theorem Owned.give {l : Life} {handle : UInt32} (h : l.Owned handle) (handle' : UInt32) :
    (l.give handle').Owned handle :=
  ⟨List.mem_cons_of_mem _ h.held,h.idle⟩

theorem Steady.owned_give {l : Life} (h : l.Steady) {handle : UInt32} (hf : handle ∉ l.held) :
    (l.give handle).Owned handle :=
  ⟨List.mem_cons_self ..,Or.inr (h.fresh hf)⟩

end Life

/-- A question that allocates, frees and gives up nothing, and whose requests name only buffers
among `handles` -/
def CalmCall (handles : List UInt32) : JobCall → Prop
  | .allocShared _ _ _ | .freeShared _ => False
  | .codec request => request.abandons = false ∧ ∀ handle ∈ request.buffers, handle ∈ handles
  | _ => True

theorem calm_next {handles : List UInt32} {l : Life} {c : JobCall} {x : c.Answer}
    (hc : CalmCall handles c) (hl : l.Steady) (hh : ∀ handle ∈ handles, handle ∈ l.held)
    (ha : l.Allowed c x) : l.Quiet (l.next c x) := by
  cases c with
  | allocShared _ _ _ => exact hc.elim
  | freeShared _ => exact hc.elim
  | codec request =>
    simp only [Life.next]
    split
    · next hunfinished =>
      have hzero : ∀ handle ∈ request.buffers, handle = 0 := by
        rcases ha.2 hunfinished with hzero | ⟨habandons,-⟩
        · exact hzero
        · rw [hc.1] at habandons
          cases habandons
      constructor
      · constructor
        · exact hl.kept
        · simp [hc.1]
        · intro handle hm
          rcases List.mem_append.mp hm with hm | hm
          · exact hh handle (hc.2 handle hm)
          · exact hl.held handle hm
      · rfl
      · exact id
      · intro handle hi
        by_cases h0 : handle = 0
        · exact Or.inl h0
        · right
          intro hm
          rcases List.mem_append.mp hm with hm | hm
          · exact h0 (hzero handle hm)
          · exact (hi.resolve_left h0) hm
    · exact hl.quiet
  | tool c =>
    cases c with
    | cancelled => exact ⟨⟨hl.kept,rfl,hl.held⟩,rfl,id,fun _ => id⟩
    | _ => exact hl.quiet
  | latchCancelled => exact ⟨⟨hl.kept,hl.going,hl.held⟩,rfl,fun _ => rfl,fun _ => id⟩
  | _ => exact hl.quiet

/-- A calm program leaves the buffers as they are. -/
theorem calm_wp {α : Type} {handles : List UInt32} {p : Job α} (hp : p.All (CalmCall handles))
    {l : Life} (hl : l.Steady) (hh : ∀ handle ∈ handles, handle ∈ l.held) :
    life.wp p (fun _ m => l.Quiet m) l := by
  apply life.wp_invariant (P := CalmCall handles) _ hp hl.quiet
  intro m c x hc hm ha
  have hnext := calm_next hc hm.steady (fun handle hmem => hm.held ▸ hh handle hmem) ha.2
  exact hm.trans hnext

section

variable {σ : Type} {handles : List UInt32}

theorem calm_tool {α : Type} (p : Tool α) : (Job.tool p).All (CalmCall handles) :=
  Ask.all_translate _ _ (fun _ => trivial) p

theorem calm_noteStatus (status : Status) : (Job.noteStatus status).All (CalmCall handles) := by
  unfold Job.noteStatus
  split
  · exact ⟨trivial,fun _ => trivial⟩
  · trivial

theorem calm_sharedCopyTo (buffer : SharedBuffer) (offset : Nat) (data : Bytes) :
    (sharedCopyTo buffer offset data).All (CalmCall handles) := by
  unfold sharedCopyTo
  split
  · exact ⟨trivial,fun _ => trivial⟩
  · trivial

theorem calm_sharedCopyFrom (buffer : SharedBuffer) (offset length : Nat) :
    (sharedCopyFrom buffer offset length).All (CalmCall handles) := by
  unfold sharedCopyFrom
  split
  · exact ⟨trivial,fun _ => trivial⟩
  · trivial

theorem calm_printSharedDiag : printSharedDiag.All (CalmCall handles) := by
  refine Ask.all_step trivial fun answer => ?_
  dsimp only
  split
  · exact ⟨trivial,fun _ => trivial⟩
  · trivial

theorem calm_deliverChunk (decoded : SharedBuffer) (file : Option Nat)
    (onChunk : Option (σ → Bytes → Tool (Bool × σ))) (s : σ) (length : Nat) :
    (deliverChunk decoded file onChunk s length).All (CalmCall handles) := by
  unfold deliverChunk
  split
  · trivial
  apply Ask.all_bind (calm_sharedCopyFrom decoded 0 length)
  intro data
  cases data with
  | none => trivial
  | some data =>
    apply Ask.all_bind
    · cases file with
      | none => trivial
      | some file => exact calm_tool _
    intro written
    cases written with
    | false => trivial
    | true =>
      cases onChunk with
      | none => trivial
      | some take => exact calm_tool _

theorem calm_streamReadPart {session : UInt32} {decoded : SharedBuffer} {outputLimit : Nat}
    {deliver : σ → Nat → Job (Bool × σ)}
    (hd : decoded.length.toNat ≠ 0 → decoded.handle ∈ handles)
    (hdeliver : ∀ s length, (deliver s length).All (CalmCall handles)) (total : Nat) (s : σ) :
    (streamReadPart session decoded outputLimit deliver total s).All (CalmCall handles) := by
  unfold streamReadPart
  split
  · trivial
  next desc hdesc =>
  have hcalm : CalmCall handles (.codec desc) := by
    obtain ⟨rfl,hlength⟩ := buildStreamReadDesc_eq hdesc
    refine ⟨rfl,fun handle hm => ?_⟩
    rw [List.mem_singleton.mp hm]
    exact hd hlength
  refine Ask.all_step hcalm fun answer => ?_
  dsimp only
  split
  · apply Ask.all_bind calm_printSharedDiag
    intro _
    trivial
  split
  · trivial
  apply Ask.all_bind
  · split
    · trivial
    · exact hdeliver s _
  rintro ⟨delivered,s⟩
  dsimp only
  split
  · trivial
  split <;> trivial

theorem calm_streamReadLoop {session : UInt32} {decoded : SharedBuffer} {outputLimit : Nat}
    {deliver : σ → Nat → Job (Bool × σ)}
    (hd : decoded.length.toNat ≠ 0 → decoded.handle ∈ handles)
    (hdeliver : ∀ s length, (deliver s length).All (CalmCall handles)) {n total : Nat}
    (hn : outputLimit-total = n) (s : σ) :
    (streamReadLoop session decoded outputLimit deliver total s).All (CalmCall handles) := by
  induction n using Nat.strong_induction_on generalizing total s with
  | _ n ih =>
    rw [streamReadLoop]
    apply Ask.all_bind (calm_streamReadPart hd hdeliver total s)
    intro part
    cases part with
    | ended e => trivial
    | going result s hfits =>
      dsimp only
      split
      · trivial
      · exact ih _ (by omega) rfl s

theorem calm_streamFeedPart {session : UInt32} {input : SharedBuffer} {totalInput left : Nat}
    {copyChunk : SharedBuffer → Nat → Nat → Job Bool} (hi : input.handle ∈ handles)
    (hcopy : ∀ offset length, (copyChunk input offset length).All (CalmCall handles))
    (needInput : Bool) (s : σ) :
    (streamFeedPart session input copyChunk totalInput needInput left s).All
      (CalmCall handles) := by
  unfold streamFeedPart
  split
  · trivial
  split
  · trivial
  extract_lets feedLen
  apply Ask.all_bind (hcopy _ _)
  intro copied
  extract_lets
  split
  · trivial
  next desc hdesc =>
  have hcalm : CalmCall handles (.codec desc) := by
    split at hdesc
    · rw [buildStreamFeedDesc_eq hdesc]
      refine ⟨rfl,fun handle hm => ?_⟩
      rw [List.mem_singleton.mp hm]
      exact hi
    · cases hdesc
  refine Ask.all_step hcalm fun answer => ?_
  dsimp only
  split
  · apply Ask.all_bind calm_printSharedDiag
    intro _
    trivial
  · trivial

theorem calm_feedLoop {session : UInt32} {input decoded : SharedBuffer}
    {totalInput outputLimit : Nat} {copyChunk : SharedBuffer → Nat → Nat → Job Bool}
    {deliver : σ → Nat → Job (Bool × σ)} (hi : input.handle ∈ handles)
    (hd : decoded.handle ∈ handles)
    (hcopy : ∀ offset length, (copyChunk input offset length).All (CalmCall handles))
    (hdeliver : ∀ s length, (deliver s length).All (CalmCall handles)) {n : Nat}
    {needInput : Bool} {left total : Nat}
    (hn : 2*left+(outputLimit-total)+(if needInput then 0 else 1) = n) (s : σ) :
    (feedLoop session input decoded totalInput outputLimit copyChunk deliver needInput left total
      s).All (CalmCall handles) := by
  induction n using Nat.strong_induction_on generalizing needInput left total s with
  | _ n ih =>
    rw [feedLoop]
    apply Ask.all_bind (calm_streamFeedPart hi hcopy needInput s)
    intro fed
    cases fed with
    | ended e => trivial
    | fed rest hless =>
      apply Ask.all_bind (calm_streamReadPart (fun _ => hd) hdeliver total s)
      intro part
      cases part with
      | ended e => trivial
      | going result s hfits =>
        dsimp only
        split
        · refine ih _ ?_ rfl s
          cases needInput <;> simp at hless hn ⊢ <;> omega
        split
        · trivial
        · refine ih _ ?_ rfl s
          cases needInput <;> simp at hless hn ⊢ <;> omega

theorem calm_copyFeedInputChunk (prefixBytes compressed : Bytes) (input : SharedBuffer)
    (inputOffset maxLength : Nat) :
    (copyFeedInputChunk prefixBytes compressed input inputOffset maxLength).All
      (CalmCall handles) := by
  unfold copyFeedInputChunk
  extract_lets remaining
  split
  · trivial
  apply Ask.all_bind
  · split
    · exact calm_sharedCopyTo ..
    · trivial
  intro first
  split
  · trivial
  split
  · trivial
  · exact calm_sharedCopyTo ..

theorem calm_copyFeedFileInputChunk (inputPath : CString) (prefixBytes : Bytes)
    (fileLength : Nat) (input : SharedBuffer) (inputOffset maxLength : Nat) :
    (copyFeedFileInputChunk inputPath prefixBytes fileLength input inputOffset maxLength).All
      (CalmCall handles) := by
  unfold copyFeedFileInputChunk
  extract_lets total remaining
  split
  · trivial
  apply Ask.all_bind
  · split
    · exact calm_sharedCopyTo ..
    · trivial
  intro first
  split
  · trivial
  split
  · trivial
  apply Ask.all_bind (calm_tool _)
  intro data
  cases data with
  | none => trivial
  | some data => exact ⟨trivial,fun _ => trivial⟩

end

section

variable {σ : Type} {l : Life}

/-- What the decodings come to: the run goes on, and no abandoned buffer has been freed. -/
def Settled {α : Type} (p : Job α) (l : Life) : Prop := life.wp p (fun _ m => m.Steady) l

/-- A calm part leaves what follows a steady state and the same buffers. -/
theorem calm_bind {α β : Type} {handles : List UInt32} {p : Job α} {f : α → Job β}
    {Q : β → Life → Prop} (hp : p.All (CalmCall handles)) (hl : l.Steady)
    (hh : ∀ handle ∈ handles, handle ∈ l.held)
    (hf : ∀ a m, l.Quiet m → life.wp (f a) Q m) : life.wp (p >>= f) Q l := by
  apply (life.wp_bind).mpr
  exact life.wp_mono (calm_wp hp hl hh) hf

theorem quiet_bind {α β : Type} {p : Job α} {f : α → Job β} {Q : β → Life → Prop}
    (hp : p.All (CalmCall [])) (hl : l.Steady) (hf : ∀ a m, l.Quiet m → life.wp (f a) Q m) :
    life.wp (p >>= f) Q l :=
  calm_bind hp hl (fun _ h => nomatch h) hf

/-- Allocating gives a buffer that is the caller's own. -/
theorem wp_allocShared {β : Type} {length alignment : Nat} {flags : UInt32}
    {f : Except Status SharedBuffer → Job β} {Q : β → Life → Prop}
    (herror : ∀ status, life.wp (f (.error status)) Q l)
    (hok : ∀ buffer : SharedBuffer, buffer.handle ≠ invalidHandle → buffer.handle ∉ l.held →
      life.wp (f (.ok buffer)) Q (l.give buffer.handle)) :
    life.wp (Job.allocShared length alignment flags >>= f) Q l := by
  rintro (status | buffer) ha
  · exact herror status
  · obtain ⟨hvalid,hfresh⟩ := ha.1 buffer rfl
    exact hok buffer hvalid hfresh

/-- A free keeps what is abandoned, unless it is what it frees. -/
theorem wp_freeShared {handle : UInt32} {Q : Unit → Life → Prop} (hl : l.Steady)
    (hfree : handle ∉ l.abandoned)
    (hQ : ∀ m : Life, m.Steady → m.abandoned = l.abandoned → Q () m) :
    life.wp (Job.freeShared handle) Q l := by
  unfold Job.freeShared
  split
  · exact hQ l hl rfl
  · intro _ _
    apply hQ
    · constructor
      · simp [life,Life.next,hl.kept,hfree]
      · exact hl.going
      · intro h hm
        have hne : h ≠ handle := fun heq => hfree (heq ▸ hm)
        exact List.mem_filter.mpr ⟨hl.held h hm,by simpa using hne⟩
    · rfl

theorem wp_releaseShared {handle : UInt32} {Q : Unit → Life → Prop} (hl : l.Steady)
    (hi : l.Idle handle) (hQ : ∀ m : Life, m.Steady → m.abandoned = l.abandoned → Q () m) :
    life.wp (releaseShared handle) Q l := by
  unfold releaseShared
  split
  · next hne => exact wp_freeShared hl (hi.resolve_left hne.1) hQ
  · exact hQ l hl rfl

theorem wp_releasePair {decoded input : SharedBuffer} {Q : Unit → Life → Prop} (hl : l.Steady)
    (hd : l.Idle decoded.handle) (hi : l.Idle input.handle)
    (hQ : ∀ m : Life, m.Steady → Q () m) : life.wp (releasePair decoded input) Q l := by
  apply (life.wp_bind).mpr
  apply wp_releaseShared hl hd
  intro m hm hsame
  have hi' : m.Idle input.handle := by
    unfold Life.Idle
    rw [hsame]
    exact hi
  exact wp_releaseShared hm hi' fun n hn _ => hQ n hn

/-- A request that does not give up its buffers leaves them usable, however it ends. -/
theorem wp_codec {β : Type} {request : CodecRequest} {f : Status × DecompressResult → Job β}
    {Q : β → Life → Prop} (hrequest : request.abandons = false) (hl : l.Steady)
    (hh : ∀ handle ∈ request.buffers, handle ∈ l.held)
    (hf : ∀ answer m, l.Quiet m → life.wp (f answer) Q m) :
    life.wp (Job.codec request >>= f) Q l := by
  have hcalm : (Job.codec request).All (CalmCall request.buffers) :=
    ⟨⟨hrequest,fun _ h => h⟩,fun _ => trivial⟩
  exact calm_bind hcalm hl hh hf

theorem calm_closeOpened (opened : Option OpenedOutput) : (match opened with
    | none => pure true
    | some output => Job.tool (Tool.close output.file) : Job Bool).All (CalmCall []) := by
  cases opened with
  | none => trivial
  | some output => exact calm_tool _

theorem settled_endStream {e : StreamEnd σ} {opened : Option OpenedOutput}
    {decoded input : SharedBuffer} (hl : l.Steady) (hd : l.Idle decoded.handle)
    (hi : l.Idle input.handle) : Settled (endStream e opened decoded input) l := by
  have hclose : (if e.session ≠ 0 then Job.codec (.streamClose e.session 0)
      else pure (.ok,{}) : Job (Status × DecompressResult)).All (CalmCall []) := by
    split
    · exact ⟨⟨rfl,fun _ h => h⟩,fun _ => trivial⟩
    · trivial
  apply quiet_bind hclose hl
  intro _ m hm
  apply quiet_bind (calm_closeOpened opened) hm.steady
  intro closed n hn
  apply (life.wp_bind).mpr
  exact wp_releasePair hn.steady (hn.idle _ (hm.idle _ hd)) (hn.idle _ (hm.idle _ hi))
    fun _ ho => ho

/-- After a one-shot decoding the buffers are usable, unless it was cancelled. -/
theorem wp_decompress {β : Type} {algorithm : Compression} {src dst flags : UInt32}
    {srcOffset srcLength dstOffset dstCapacity : Nat} {f : Status × DecompressResult → Job β}
    {Q : β → Life → Prop} (hl : l.Steady) (hsrc : src ∈ l.held) (hdst : dst ∈ l.held)
    (hcancelled : ∀ result m, m.Steady → life.wp (f (.cancelled,result)) Q m)
    (hother : ∀ answer m, answer.1 ≠ .cancelled → l.Quiet m → life.wp (f answer) Q m) :
    life.wp (Job.codec (.decompress algorithm src srcOffset srcLength dst dstOffset dstCapacity
      flags) >>= f) Q l := by
  rintro ⟨status,result⟩ ha
  simp only [life,Life.next]
  split
  · next hunfinished =>
    have hheld : ∀ handle ∈ [src,dst]++l.abandoned, handle ∈ l.held := by
      intro handle hm
      simp only [List.mem_append,List.mem_cons,List.not_mem_nil,or_false] at hm
      rcases hm with (rfl | rfl) | hm
      · exact hsrc
      · exact hdst
      · exact hl.held handle hm
    by_cases hstatus : status = .cancelled
    · subst hstatus
      exact hcancelled result _ ⟨hl.kept,by simp,hheld⟩
    · rcases ha.2.2 hunfinished with hzero | ⟨-,hbatch⟩
      · apply hother _ _ hstatus
        refine ⟨⟨hl.kept,?_,hheld⟩,rfl,id,fun handle hi => ?_⟩
        · simpa using fun _ _ => hzero
        · by_cases h0 : handle = 0
          · exact Or.inl h0
          · right
            intro hm
            rcases List.mem_append.mp hm with hm | hm
            · exact h0 (hzero handle hm)
            · exact (hi.resolve_left h0) hm
      · have htimeout : status = .timeout := by
          simp only [Unfinished,decide_eq_true_eq] at hunfinished
          exact hunfinished.resolve_left hstatus
        obtain ⟨_,_,_,hrequest⟩ := hbatch htimeout
        cases hrequest
  · next hfinished =>
    have hstatus : status ≠ .cancelled := by
      rintro rfl
      exact hfinished rfl
    exact hother _ _ hstatus hl.quiet

theorem settled_decompressBuffers {algorithm : Compression} {compressed : Bytes}
    {outputCapacity : Nat} {verifyOnly : Bool} {input decoded : SharedBuffer} (hl : l.Steady)
    (hi : l.Owned input.handle) (hd : l.Owned decoded.handle) :
    Settled (decompressBuffers algorithm compressed outputCapacity verifyOnly input decoded) l := by
  have hrelease {m : Life} {α : Type} {a : α} (hm : l.Quiet m) :
      Settled (releasePair decoded input >>= fun _ => pure a) m := by
    apply (life.wp_bind).mpr
    exact wp_releasePair hm.steady (hm.idle _ hd.idle) (hm.idle _ hi.idle) fun _ h => h
  apply quiet_bind (calm_sharedCopyTo input 0 compressed) hl
  intro copied m hm
  split
  · exact hrelease hm
  next desc hdesc =>
  have hrequest : desc = .decompress algorithm input.handle 0 compressed.length decoded.handle 0
      outputCapacity decompressFlagExpectEnd := by
    split at hdesc
    · exact buildDecompressDesc_eq hdesc
    · cases hdesc
  subst hrequest
  apply wp_decompress hm.steady (hm.owned hi).held (hm.owned hd).held
  · intro result n hn
    dsimp only
    rw [if_pos rfl]
    apply quiet_bind (calm_noteStatus .cancelled) hn
    exact fun _ _ ho => ho.steady
  · intro answer n hstatus hn
    have hln := hm.trans hn
    dsimp only
    rw [if_neg hstatus]
    split
    · apply quiet_bind calm_printSharedDiag hln.steady
      exact fun _ o ho => hrelease (hln.trans ho)
    · have hdata : (if verifyOnly then pure (some [])
          else if outputCapacity < answer.2.bytesWritten then pure none
          else do
            let data ← sharedCopyFrom decoded 0 answer.2.bytesWritten
            pure (data.map Subtype.val) : Job (Option Bytes)).All (CalmCall []) := by
        split
        · trivial
        split
        · trivial
        · exact Ask.all_bind (calm_sharedCopyFrom ..) fun _ => trivial
      apply quiet_bind hdata hln.steady
      exact fun _ o ho => hrelease (hln.trans ho)

theorem settled_decompressToMemoryEx (hl : l.Steady) (service : CodecService)
    (algorithm : Compression) (compressed : Bytes) (outputCapacity : Nat) (verifyOnly : Bool) :
    Settled (decompressToMemoryEx service algorithm compressed outputCapacity verifyOnly) l := by
  have hfailed {m : Life} (status : Status) (hm : m.Steady) {α : Type} {p : Job α}
      (hp : ∀ n, m.Quiet n → Settled p n) :
      Settled (Job.noteStatus status >>= fun _ => printSharedDiag >>= fun _ => p) m := by
    apply quiet_bind (calm_noteStatus status) hm
    intro _ n hn
    apply quiet_bind calm_printSharedDiag hn.steady
    exact fun _ o ho => hp o (hn.trans ho)
  unfold decompressToMemoryEx
  split
  · exact hl
  have hmalloc : (if verifyOnly then pure true
      else Job.tool (Tool.malloc outputCapacity) : Job Bool).All (CalmCall []) := by
    split
    · trivial
    · exact calm_tool _
  apply quiet_bind hmalloc hl
  intro got m hm
  split
  · exact hm.steady
  apply wp_allocShared
  · intro status
    exact hfailed status hm.steady fun n hn => hn.steady
  intro input _ hinput
  have hi := hm.steady.owned_give hinput
  apply wp_allocShared
  · intro status
    apply hfailed status (hm.steady.give _)
    intro n hn
    apply (life.wp_bind).mpr
    exact wp_releaseShared hn.steady (hn.idle _ hi.idle) fun _ ho _ => ho
  intro decoded _ hdecoded
  have hsteady := hm.steady.give input.handle
  exact settled_decompressBuffers (hsteady.give _) (hi.give _) (hsteady.owned_give hdecoded)

theorem buildDecompressTestDesc_eq {algorithm : Compression} {srcHandle flags : UInt32}
    {srcOffset srcLength outputLimit : Nat} {desc : CodecRequest}
    (h : buildDecompressTestDesc algorithm srcHandle srcOffset srcLength outputLimit flags =
      some desc) :
    desc = .decompressTest algorithm srcHandle srcOffset srcLength outputLimit flags := by
  unfold buildDecompressTestDesc at h
  split at h
  · cases h
  · exact (Option.some.inj h).symm

theorem settled_decompressTestToResult (hl : l.Steady) (service : CodecService)
    (algorithm : Compression) (compressed : Bytes) (outputLimit : Nat) :
    Settled (decompressTestToResult service algorithm compressed outputLimit) l := by
  have hrelease {m : Life} {handle : UInt32} {α : Type} {a : α} (hm : m.Steady)
      (hi : m.Idle handle) : Settled (releaseShared handle >>= fun _ => pure a) m := by
    apply (life.wp_bind).mpr
    exact wp_releaseShared hm hi fun _ h _ => h
  unfold decompressTestToResult
  split
  · exact hl
  apply wp_allocShared
  · intro status
    apply quiet_bind calm_printSharedDiag hl
    exact fun _ m hm => hm.steady
  intro input _ hinput
  have hi := hl.owned_give hinput
  apply quiet_bind (calm_sharedCopyTo input 0 compressed) (hl.give _)
  intro copied m hm
  split
  · exact hrelease hm.steady (hm.owned hi).idle
  next desc hdesc =>
  have hrequest : desc = .decompressTest algorithm input.handle 0 compressed.length outputLimit
      decompressFlagExpectEnd := by
    split at hdesc
    · exact buildDecompressTestDesc_eq hdesc
    · cases hdesc
  subst hrequest
  apply wp_codec rfl hm.steady
  · intro handle hmem
    rw [List.mem_singleton.mp hmem]
    exact (hm.owned hi).held
  intro answer n hn
  have hidle := (hn.owned (hm.owned hi)).idle
  dsimp only
  split
  · apply quiet_bind calm_printSharedDiag hn.steady
    exact fun _ o ho => hrelease ho.steady (ho.idle _ hidle)
  · exact hrelease hn.steady hidle

theorem wp_allocStreamOutput {n capacity : Nat} (hn : capacity = n) (hl : l.Steady)
    {handle : UInt32} (ho : l.Owned handle) :
    life.wp (allocStreamOutput capacity)
      (fun r m => m.Steady ∧ m.Owned handle ∧
        ∀ decoded size, r = .ok (decoded,size) →
          decoded = {} ∨ m.Owned decoded.handle) l := by
  induction n using Nat.strong_induction_on generalizing capacity with
  | _ n ih =>
    rw [allocStreamOutput]
    split
    · next hmin =>
      apply wp_allocShared
      · intro status
        dsimp only
        split
        · exact ⟨hl,ho,nofun⟩
        · have hpos : 0 < archiveStreamMinChunk := by decide
          exact ih (capacity/2) (by omega) rfl
      · intro decoded _ hfresh
        refine ⟨hl.give _,ho.give _,fun decoded' size h => Or.inr ?_⟩
        cases h
        exact hl.owned_give hfresh
    · refine ⟨hl,ho,fun decoded size h => Or.inl ?_⟩
      cases h
      rfl

theorem settled_decompressStreamToFile (hl : l.Steady) (service : CodecService)
    (opts : ToolOptions) (algorithm : Compression) (compressed : Bytes) (outputLimit : Nat)
    (outputDir : CString) (entry : ArchiveEntry) :
    Settled (decompressStreamToFile service opts algorithm compressed outputLimit outputDir entry)
      l := by
  unfold decompressStreamToFile
  split
  · exact hl
  apply wp_allocShared
  · intro status
    apply quiet_bind calm_printSharedDiag hl
    exact fun _ m hm => hm.steady
  intro input _ hinput
  apply (life.wp_bind).mpr
  apply life.wp_mono (wp_allocStreamOutput rfl (hl.give _) (hl.owned_give hinput))
  rintro (status | ⟨decoded,capacity⟩) m ⟨hm,hi,hdecoded⟩
  · apply quiet_bind calm_printSharedDiag hm
    exact fun _ n hn => settled_endStream hn.steady (Or.inl rfl) (hn.idle _ hi.idle)
  have hd : m.Idle decoded.handle := by
    rcases hdecoded decoded capacity rfl with rfl | hd
    · exact Or.inl rfl
    · exact hd.idle
  have hend {n : Life} {e : StreamEnd Unit} {opened : Option OpenedOutput} (hn : m.Quiet n) :
      Settled (endStream e opened decoded input) n :=
    settled_endStream hn.steady (hn.idle _ hd) (hn.idle _ hi.idle)
  apply quiet_bind (calm_tool _) hm
  intro got n hn
  have hcopy : (if got = true then sharedCopyTo input 0 compressed
      else pure false : Job Bool).All (CalmCall []) := by
    split
    · exact calm_sharedCopyTo ..
    · trivial
  apply quiet_bind hcopy hn.steady
  intro copied o ho
  have hmo := hn.trans ho
  split
  · exact hend hmo
  next desc hdesc =>
  have hrequest : desc = .streamBegin algorithm input.handle 0 compressed.length outputLimit
      decompressFlagExpectEnd := by
    split at hdesc
    · exact buildStreamBeginDesc_eq hdesc
    · cases hdesc
  subst hrequest
  apply wp_codec rfl hmo.steady
  · intro handle hmem
    simp only [CodecRequest.buffers] at hmem
    split at hmem
    · cases hmem
    · rw [List.mem_singleton.mp hmem]
      exact (hmo.owned hi).held
  intro answer q hq
  have hmq := hmo.trans hq
  dsimp only
  split
  · apply quiet_bind calm_printSharedDiag hmq.steady
    exact fun _ r hr => hend (hmq.trans hr)
  apply quiet_bind (calm_tool _) hmq.steady
  intro opened r hr
  have hmr := hmq.trans hr
  cases opened with
  | none => exact hend hmr
  | some opened =>
    have hloop {handles : List UInt32}
        (hmem : decoded.length.toNat ≠ 0 → decoded.handle ∈ handles) :
        (streamReadLoop answer.2.session decoded outputLimit
          (deliverChunk decoded (some opened.file) none) 0 ()).All (CalmCall handles) :=
      calm_streamReadLoop hmem (calm_deliverChunk decoded (some opened.file) none) rfl ()
    rcases hdecoded decoded capacity rfl with rfl | hown
    · apply quiet_bind (hloop fun h0 => absurd rfl h0) hmr.steady
      exact fun e t ht => hend (hmr.trans ht)
    · apply calm_bind (hloop fun _ => List.mem_singleton_self _) hmr.steady
      · intro handle hmem
        rw [List.mem_singleton.mp hmem]
        exact (hmr.owned hown).held
      · exact fun e t ht => hend (hmr.trans ht)

/-- The pair is allocated as a whole or not at all. -/
theorem wp_allocStreamPairLoop {outputFlags : UInt32} {n capacity : Nat} (hn : capacity = n)
    (hl : l.Steady) :
    life.wp (allocStreamPairLoop outputFlags capacity)
      (fun r m => m.Steady ∧ ∀ input decoded size, r = .ok (input,decoded,size) →
        m.Owned input.handle ∧ m.Owned decoded.handle) l := by
  induction n using Nat.strong_induction_on generalizing capacity l with
  | _ n ih =>
    rw [allocStreamPairLoop]
    split
    swap
    · exact ⟨hl,nofun⟩
    next hmin =>
    have hpos : 0 < archiveStreamMinChunk := by decide
    have hretry {m : Life} (status : Status) (hm : m.Steady) :
        life.wp (if pairShrinkRetry status capacity then
            allocStreamPairLoop outputFlags (capacity/2) else pure (.error status))
          (fun r m => m.Steady ∧ ∀ input decoded size, r = .ok (input,decoded,size) →
            m.Owned input.handle ∧ m.Owned decoded.handle) m := by
      split
      · exact ih (capacity/2) (by omega) rfl hm
      · exact ⟨hm,nofun⟩
    apply wp_allocShared
    · exact fun status => hretry status hl
    intro input _ hinput
    apply wp_allocShared
    · intro status
      apply (life.wp_bind).mpr
      apply wp_freeShared (hl.give _) (hl.fresh hinput)
      exact fun m hm _ => hretry status hm
    · intro decoded _ hdecoded
      have hsteady := hl.give input.handle
      refine ⟨hsteady.give _,fun input' decoded' size h => ?_⟩
      cases h
      exact ⟨(hl.owned_give hinput).give _,hsteady.owned_give hdecoded⟩

theorem calm_openFile (openFile : Option (Tool (Option OpenedOutput))) : (match openFile with
    | none => pure (some none)
    | some openFile => do
      let opened ← Job.tool openFile
      pure (opened.map some) : Job (Option (Option OpenedOutput))).All (CalmCall []) := by
  cases openFile with
  | none => trivial
  | some openFile => exact Ask.all_bind (calm_tool openFile) fun _ => trivial

theorem settled_decompressFeed (hl : l.Steady) (service : CodecService) (algorithm : Compression)
    (totalInput outputLimit : Nat) (copyChunk : SharedBuffer → Nat → Nat → Job Bool)
    (hcopy : ∀ handles input offset length,
      (copyChunk input offset length).All (CalmCall handles)) (output : FeedOutput σ) :
    Settled (decompressFeed service algorithm totalInput outputLimit copyChunk output) l := by
  apply (life.wp_bind).mpr
  apply life.wp_mono (wp_allocStreamPairLoop rfl hl)
  rintro (status | ⟨input,decoded,capacity⟩) m ⟨hm,howned⟩
  · apply quiet_bind calm_printSharedDiag hm
    exact fun _ n hn => settled_endStream hn.steady (Or.inl rfl) (Or.inl rfl)
  obtain ⟨hi,hd⟩ := howned input decoded capacity rfl
  have hend {n : Life} {e : StreamEnd σ} {opened : Option OpenedOutput} (hn : m.Quiet n) :
      Settled (endStream e opened decoded input) n :=
    settled_endStream hn.steady (hn.idle _ hd.idle) (hn.idle _ hi.idle)
  have hmalloc : (if output.wanted = true then Job.tool (Tool.malloc capacity)
      else pure true : Job Bool).All (CalmCall []) := by
    split
    · exact calm_tool _
    · trivial
  apply quiet_bind hmalloc hm
  intro got n hn
  split
  · exact hend hn
  next desc hdesc =>
  have hrequest : desc = .streamBegin algorithm invalidHandle 0 0 outputLimit
      (decompressFlagExpectEnd ||| decompressFlagFeedInput) := by
    split at hdesc
    · exact buildStreamBeginDesc_eq hdesc
    · cases hdesc
  subst hrequest
  apply wp_codec rfl hn.steady (by simp [CodecRequest.buffers])
  intro answer o ho
  have hmo := hn.trans ho
  dsimp only
  split
  · apply quiet_bind calm_printSharedDiag hmo.steady
    exact fun _ q hq => hend (hmo.trans hq)
  apply quiet_bind (calm_openFile output.openFile) hmo.steady
  intro opened q hq
  have hmq := hmo.trans hq
  cases opened with
  | none => exact hend hmq
  | some opened =>
    have hloop : (feedLoop answer.2.session input decoded totalInput outputLimit copyChunk
        (deliverChunk decoded (opened.map OpenedOutput.file) output.onChunk) true totalInput 0
        output.consumer).All (CalmCall [input.handle,decoded.handle]) :=
      calm_feedLoop (by simp) (by simp) (hcopy _ input)
        (calm_deliverChunk decoded (opened.map OpenedOutput.file) output.onChunk) rfl
        output.consumer
    apply calm_bind hloop hmq.steady
    · intro handle hmem
      simp only [List.mem_cons,List.not_mem_nil,or_false] at hmem
      rcases hmem with rfl | rfl
      · exact (hmq.owned hi).held
      · exact (hmq.owned hd).held
    · exact fun e t ht => hend (hmq.trans ht)

theorem settled_decompressFeedStream (hl : l.Steady) (service : CodecService) (opts : ToolOptions)
    (algorithm : Compression) (prefixBytes compressed : Bytes) (outputLimit : Nat)
    (outputDir : CString) (entry : ArchiveEntry) :
    Settled (decompressFeedStreamPartsToFile service opts algorithm prefixBytes compressed
      outputLimit outputDir entry) l := by
  unfold decompressFeedStreamPartsToFile
  extract_lets totalInput
  split
  · exact hl
  · exact settled_decompressFeed hl service algorithm _ _ _
      (fun _ => calm_copyFeedInputChunk prefixBytes compressed) _

theorem settled_decompressFeedFile (hl : l.Steady) (service : CodecService)
    (algorithm : Compression) (prefixBytes : Bytes) (inputPath : CString)
    (inputStart inputLength outputLimit : Nat) (output : FeedOutput σ) :
    Settled (decompressFeedFilePartsCore service algorithm prefixBytes inputPath inputStart
      inputLength outputLimit output) l := by
  unfold decompressFeedFilePartsCore
  extract_lets totalInput
  split
  · exact hl
  apply quiet_bind (calm_tool _) hl
  intro opened m hm
  have hseek : (if opened = true then Job.tool (Tool.seek inputPath inputStart)
      else pure false : Job Bool).All (CalmCall []) := by
    split
    · exact calm_tool _
    · trivial
  apply quiet_bind hseek hm.steady
  intro sought n hn
  split
  · exact hn.steady
  · exact settled_decompressFeed hn.steady service algorithm _ _ _
      (fun _ => calm_copyFeedFileInputChunk inputPath prefixBytes inputLength) output

end

section

variable {handles : List UInt32}

theorem calm_lhaBatchFill (batch : LhaBatch) (src : LhaSource) (span : Option (Nat × Bytes))
    (packed : List Nat) (blob : Nat) :
    (lhaBatchFill batch src span packed blob).All (CalmCall handles) := by
  induction packed generalizing blob with
  | nil => trivial
  | cons i rest ih =>
    apply Ask.all_bind
    · cases span with
      | none => exact calm_tool _
      | some span => trivial
    intro member
    cases member with
    | none => trivial
    | some member =>
      apply Ask.all_bind (calm_sharedCopyTo ..)
      intro copied
      split
      · exact ih _
      · trivial

theorem calm_lhaBatchDrainMember (decoder : LhaDecoder) (opts : ToolOptions) (batch : LhaBatch)
    (dstOffset : Nat) (outputDir : CString) (src : LhaSource) (entry : ArchiveEntry) :
    (lhaBatchDrainMember decoder opts batch dstOffset outputDir src entry).All
      (CalmCall handles) := by
  apply Ask.all_bind (calm_tool _)
  intro opened
  cases opened with
  | none => trivial
  | some opened =>
    apply Ask.all_bind
    · split
      · apply Ask.all_bind (calm_tool _)
        intro got
        apply Ask.all_bind
        · split
          · exact calm_sharedCopyFrom ..
          · trivial
        intro data
        cases data with
        | none => exact calm_tool _
        | some data => exact calm_tool _
      · trivial
    intro ok
    exact Ask.all_bind (calm_tool _) fun _ => trivial

theorem calm_lhaBatchDrain (decoder : LhaDecoder) (opts : ToolOptions) (batch : LhaBatch)
    (command : ArchiveCommand) (outputDir : CString) (src : LhaSource) (results : Bytes)
    (packed : List Nat) (i out : Nat) (state : List LhaBatchState) :
    (lhaBatchDrain decoder opts batch command outputDir src results packed i out state).All
      (CalmCall handles) := by
  induction packed generalizing i out state with
  | nil => trivial
  | cons member rest ih =>
    apply Ask.all_bind
    · split
      · exact calm_lhaBatchDrainMember ..
      · trivial
    intro drained
    exact ih ..

end

section

variable {l : Life}

/-- Where a batch stands when its loop ends: the arena may be freed if it was not given up. -/
def ArenaKept (arena : UInt32) (m : Life) (abandoned : Bool) : Prop :=
  m.Steady ∧ (abandoned = false → m.Idle arena)

/-- A batch that fails gives its arena up exactly when it is left to the board. -/
theorem batch_stops {arena : UInt32} {offset length : Nat} {answer : Status × DecompressResult}
    {state : List LhaBatchState} (hl : l.Steady) (ho : l.Owned arena)
    (ha : life.allowed l ⟨.codec (.decompressBatch arena offset length),answer⟩) :
    life.wp (Job.noteStatus answer.1 >>= fun _ => Job.tool Tool.cancelled >>= fun stop =>
        (pure (.stop state stop) : Job LhaChunkEnd))
      (fun r m => match r with
        | .next _ => False
        | .stop _ abandoned => ArenaKept arena m abandoned)
      (life.next l ⟨.codec (.decompressBatch arena offset length),answer⟩) := by
  obtain ⟨status,result⟩ := answer
  simp only [life,Life.next]
  split
  · next hunfinished =>
    have hheld : ∀ handle ∈ [arena]++l.abandoned, handle ∈ l.held := by
      intro handle hm
      rcases List.mem_append.mp hm with hm | hm
      · rw [List.mem_singleton.mp hm]
        exact ho.held
      · exact hl.held handle hm
    simp only [Unfinished,decide_eq_true_eq] at hunfinished
    rcases hunfinished with rfl | rfl
    · -- the status latches the cancellation, so the next look for it stops the batch
      intro _ _ stop hstop
      have htrue : stop = true := hstop.1 rfl
      subst htrue
      exact ⟨⟨hl.kept,rfl,hheld⟩,(by simp)⟩
    · intro stop hstop
      refine ⟨⟨hl.kept,rfl,hheld⟩,fun hgoing => ?_⟩
      by_cases h0 : arena = 0
      · exact Or.inl h0
      · have htrue : stop = true := by
          apply hstop.2
          simp [CodecRequest.abandons,CodecRequest.buffers,h0]
        rw [htrue] at hgoing
        cases hgoing
  · next hfinished =>
    have hstatus : status ≠ .cancelled := by
      rintro rfl
      exact hfinished rfl
    apply quiet_bind (calm_noteStatus status) hl
    intro _ m hm
    apply quiet_bind (calm_tool _) hm.steady
    intro stop n hn
    exact ⟨hn.steady,fun _ => hn.idle _ (hm.idle _ ho.idle)⟩

theorem wp_lhaBatchChunk (decoder : LhaDecoder) (opts : ToolOptions) {batch : LhaBatch}
    (command : ArchiveCommand) (outputDir : CString) (src : LhaSource) (packed : List Nat)
    (state : List LhaBatchState) (hl : l.Steady) (ho : l.Owned batch.arena.handle) :
    life.wp (lhaBatchChunk decoder opts batch command outputDir src packed state)
      (fun r m => match r with
        | .next _ => l.Quiet m
        | .stop _ abandoned => ArenaKept batch.arena.handle m abandoned) l := by
  have hkept {m : Life} (hm : l.Quiet m) : ArenaKept batch.arena.handle m false :=
    ⟨hm.steady,fun _ => hm.idle _ ho.idle⟩
  apply quiet_bind (calm_sharedCopyTo ..) hl
  intro tabled m hm
  have hfill : (if tabled = true then do
        let span ← Job.tool (lhaBatchSpan batch src packed)
        lhaBatchFill batch src span packed 0
      else pure false : Job Bool).All (CalmCall []) := by
    split
    · exact Ask.all_bind (calm_tool _) fun span => calm_lhaBatchFill batch src span packed 0
    · trivial
  apply quiet_bind hfill hm.steady
  intro filled n hn
  have hmn := hm.trans hn
  split
  · exact hkept hmn
  intro answer ha
  change life.wp (if answer.1 ≠ .ok then _ else _) _ _
  split
  · apply life.wp_mono (batch_stops hmn.steady (hmn.owned ho) ha)
    intro r o hr
    cases r with
    | next _ => exact hr.elim
    | stop state abandoned => exact hr
  · next hok =>
    have hsame : life.next n ⟨.codec (.decompressBatch batch.arena.handle 0
        batch.layout.totalSize.toNat),answer⟩ = n := by
      simp only [not_not] at hok
      simp [life,Life.next,Unfinished,hok]
    rw [hsame]
    apply quiet_bind (calm_sharedCopyFrom ..) hmn.steady
    intro results o ho'
    cases results with
    | none => exact hkept (hmn.trans ho')
    | some results =>
      apply quiet_bind (calm_lhaBatchDrain ..) ho'.steady
      exact fun _ q hq => (hmn.trans ho').trans hq

theorem wp_lhaBatchLoop (decoder : LhaDecoder) (opts : ToolOptions) {batch : LhaBatch}
    (command : ArchiveCommand) (outputDir : CString) (src : LhaSource) {members : List Nat} {n : Nat}
    (hn : members.length = n) (state : List LhaBatchState) (hl : l.Steady)
    (ho : l.Owned batch.arena.handle) :
    life.wp (lhaBatchLoop decoder opts batch command outputDir src members state)
      (fun r m => ArenaKept batch.arena.handle m r.2) l := by
  induction n using Nat.strong_induction_on generalizing members state l with
  | _ n ih =>
    cases members with
    | nil =>
      rw [lhaBatchLoop]
      exact ⟨hl,fun _ => ho.idle⟩
    | cons first rest =>
      rw [List.length_cons] at hn
      rw [lhaBatchLoop]
      split
      · exact ih rest.length (by omega) rfl state hl ho
      next packed more _ hpacked =>
      apply (life.wp_bind).mpr
      apply life.wp_mono (wp_lhaBatchChunk decoder opts command outputDir src _ state hl ho)
      intro r m hm
      cases r with
      | stop state abandoned => exact hm
      | next state =>
        refine ih _ ?_ rfl state hm.steady (hm.owned ho)
        rw [List.length_drop]
        omega

theorem wp_lhaBatchAlloc (entries : List ArchiveEntry) (mode : UInt32)
    (memberCap blobCapacity layoutOutput outputCapacity : Nat) (hl : l.Steady) :
    life.wp (lhaBatchAlloc entries mode memberCap blobCapacity layoutOutput outputCapacity)
      (fun r m => m.Steady ∧ ∀ batch, r = some batch → m.Owned batch.arena.handle) l := by
  unfold lhaBatchAlloc
  split
  · exact ⟨hl,nofun⟩
  apply wp_allocShared
  · exact fun _ => ⟨hl,nofun⟩
  · intro arena _ hfresh
    refine ⟨hl.give _,fun batch h => ?_⟩
    cases h
    exact hl.owned_give hfresh

theorem wp_lhaBatchArena (limits : BatchLimits) (entries : List ArchiveEntry)
    (command : ArchiveCommand) (members : List Nat) (hl : l.Steady) :
    life.wp (lhaBatchArena limits entries command members)
      (fun r m => m.Steady ∧ ∀ batch, r = some batch → m.Owned batch.arena.handle) l := by
  unfold lhaBatchArena
  extract_lets sizes largest largestUncomp memberCap blobCapacity outputCapacity
  split
  swap
  · exact wp_lhaBatchAlloc _ _ _ _ _ _ hl
  apply (life.wp_bind).mpr
  have hgrown : life.wp (if blobCapacity < largest then
        lhaBatchAlloc entries batchModeTest memberCap largest 0
          (max (u32 (limits.testUncompKb*1024)) largestUncomp) else pure none)
      (fun r m => m.Steady ∧ ∀ batch, r = some batch → m.Owned batch.arena.handle) l := by
    split
    · exact wp_lhaBatchAlloc _ _ _ _ _ _ hl
    · exact ⟨hl,nofun⟩
  apply life.wp_mono hgrown
  rintro (_ | batch) m ⟨hm,ho⟩
  · exact wp_lhaBatchAlloc _ _ _ _ _ _ hm
  · dsimp only
    split
    · exact wp_lhaBatchAlloc _ _ _ _ _ _ hm
    · exact ⟨hm,ho⟩

theorem settled_lhaBatchRunMembers (decoder : LhaDecoder) (opts : ToolOptions)
    (limits : BatchLimits) (src : LhaSource) (entries : List ArchiveEntry)
    (command : ArchiveCommand) (outputDir : CString) (members : List Nat)
    (state : List LhaBatchState) (hl : l.Steady) :
    Settled (lhaBatchRunMembers decoder opts limits src entries command outputDir members state)
      l := by
  apply (life.wp_bind).mpr
  apply life.wp_mono (wp_lhaBatchArena limits entries command members hl)
  rintro (_ | batch) m ⟨hm,ho⟩
  · exact hm
  have harena := ho batch rfl
  apply quiet_bind (calm_tool _) hm
  intro tables n hn
  apply quiet_bind (calm_tool _) hn.steady
  intro results o ho
  have hmo := hn.trans ho
  apply (life.wp_bind).mpr
  have hloop : life.wp (if (tables && results) = true then
        lhaBatchLoop decoder opts batch command outputDir src members state
      else pure (state,false)) (fun r m => ArenaKept batch.arena.handle m r.2) o := by
    split
    · exact wp_lhaBatchLoop decoder opts command outputDir src rfl state hmo.steady
        (hmo.owned harena)
    · exact ⟨hmo.steady,fun _ => hmo.idle _ harena.idle⟩
  apply life.wp_mono hloop
  rintro ⟨state,abandoned⟩ q ⟨hq,hidle⟩
  cases abandoned with
  | true => exact hq
  | false =>
    apply (life.wp_bind).mpr
    exact wp_releaseShared hq (hidle rfl) fun _ hr _ => hr

theorem settled_lhaBatchRunSrc (decoder : LhaDecoder) (opts : ToolOptions) (limits : BatchLimits)
    (service : CodecService) (src : LhaSource) (entries : List ArchiveEntry)
    (command : ArchiveCommand) (outputDir : CString) (state : List LhaBatchState)
    (hl : l.Steady) :
    Settled (lhaBatchRunSrc decoder opts limits service src entries command outputDir state) l := by
  unfold lhaBatchRunSrc
  split
  · exact hl
  have hboard : Job.findBoard.All (CalmCall []) := ⟨trivial,fun _ => trivial⟩
  apply quiet_bind hboard hl
  intro board m hm
  split
  · exact hm.steady
  apply quiet_bind (calm_tool _) hm.steady
  intro listed n hn
  have hmask : (if listed = false then pure none
      else if command = .test then pure (some [])
      else do
        let collides ← Job.tool (Tool.malloc entries.length)
        let slots ← (if collides then Job.tool (Tool.malloc (268*entries.length)) else pure false)
        pure (if slots then some (lhaCollisions opts entries) else none) :
      Job (Option (List Nat))).All (CalmCall []) := by
    split
    · trivial
    split
    · trivial
    apply Ask.all_bind (calm_tool _)
    intro collides
    apply Ask.all_bind
    · split
      · exact calm_tool _
      · trivial
    · exact fun _ => trivial
  apply quiet_bind hmask hn.steady
  intro mask o ho
  cases mask with
  | none => exact ho.steady
  | some collisions =>
    dsimp only
    split
    · exact ho.steady
    · exact settled_lhaBatchRunMembers decoder opts limits src entries command outputDir _ state
        ho.steady

theorem DecodeJob.settled {α : Type} (j : DecodeJob α) (hl : l.Steady) : Settled j.program l := by
  cases j with
  | memory => exact settled_decompressToMemoryEx hl ..
  | test => exact settled_decompressTestToResult hl ..
  | stream => exact settled_decompressStreamToFile hl ..
  | feedStream => exact settled_decompressFeedStream hl ..
  | feedFile => exact settled_decompressFeedFile hl ..
  | lhaBatch => exact settled_lhaBatchRunSrc _ _ _ _ _ _ _ _ _ hl
  | askBoard diag =>
    cases diag with
    | unasked =>
      have hdiag : Job.readDiag.All (CalmCall []) := ⟨trivial,fun _ => trivial⟩
      apply quiet_bind hdiag hl
      intro answer m hm
      apply quiet_bind (calm_noteStatus answer.1) hm.steady
      intro _ n hn
      split <;> exact hn.steady
    | _ => exact hl
  | files p =>
    have hcalm : (Job.tool p).All (CalmCall []) := calm_tool p
    apply life.wp_mono (calm_wp hcalm hl fun _ h => nomatch h)
    exact fun _ m hm => hm.steady

theorem ToolRun.settled (run : ToolRun) (hl : l.Steady) : Settled run.program l := by
  induction run generalizing l with
  | stop => exact hl
  | job j next ih =>
    apply (life.wp_bind).mpr
    apply life.wp_mono (j.settled hl)
    exact fun a m hm => ih a hm

end

/-- In a run whose requests are left unfinished only where the code gives up their buffers, no
buffer of an unfinished request is freed. -/
theorem buffers_kept (run : ToolRun) (log : JobLog) (hrun : run.program.Runs log ())
    (hs : surroundings.Allows {} log) (hh : Handled log) : BuffersKept log := by
  have hsteady : ({} : Life).Steady := ⟨rfl,rfl,fun _ h => nomatch h⟩
  have hallows : life.Allows ({} : Life) log := life_allows (l := {}) hs hh nofun
  have hend := life.wp_sound (run.settled hsteady) hrun hallows
  exact buffersKept_of_life (l := {}) hend.kept

/-- A service that knows every codec -/
def fullService : CodecService := {flags := 0xffffffff}

/-- One test of a member of one byte -/
def testRun : ToolRun := .job (.test fullService .gzip [0] 1) fun _ => .stop

/-- The same test offloaded to the board one-shot -/
def memoryRun : ToolRun := .job (.memory fullService .gzip [0] 1 true) fun _ => .stop

def boardBuffer (handle : UInt32) : SharedBuffer := {handle,data := 0x1000,length := 1}

/-- The one-shot decoding is cancelled, and its buffers are left to the board. -/
def memoryLog : JobLog :=
  [⟨.allocShared 1 16 0,Except.ok (boardBuffer 1)⟩,⟨.allocShared 1 16 0,Except.ok (boardBuffer 2)⟩,
   ⟨.store 1 0 [0],()⟩,⟨.codec (.decompress .gzip 1 0 1 2 0 1 1),(Status.cancelled,{})⟩,
   ⟨.latchCancelled,()⟩]

/-- The test is cancelled, and its buffer is freed. -/
def testLog : JobLog :=
  [⟨.allocShared 1 16 0,Except.ok (boardBuffer 1)⟩,⟨.store 1 0 [0],()⟩,
   ⟨.codec (.decompressTest .gzip 1 0 1 1 1),(Status.cancelled,{})⟩,
   ⟨.readDiag,(Status.cancelled,⟨0,0⟩)⟩,⟨.freeShared 1,()⟩]

theorem testRun_runs : testRun.program.Runs testLog () := by
  change (decompressTestToResult fullService .gzip [0] 1 >>= fun _ => pure ()).Runs testLog ()
  rw [decompressTestToResult,if_neg (by decide)]
  refine .ask _ ?_
  refine .ask _ ?_
  refine .ask _ ?_
  refine .ask _ ?_
  refine .ask _ ?_
  exact .ret _

theorem memoryRun_runs : memoryRun.program.Runs memoryLog () := by
  change (decompressToMemoryEx fullService .gzip [0] 1 true >>= fun _ => pure ()).Runs memoryLog ()
  rw [decompressToMemoryEx,if_neg (by decide)]
  refine .ask _ ?_
  refine .ask _ ?_
  refine .ask _ ?_
  refine .ask _ ?_
  refine .ask _ ?_
  exact .ret _

theorem memoryLog_handled : Handled memoryLog := by
  intro before after request answer hlog hunfinished
  right
  rcases before with _ | ⟨_,_ | ⟨_,_ | ⟨_,_ | ⟨_,_ | ⟨_,before⟩⟩⟩⟩⟩
  · cases hlog
  · cases hlog
  · cases hlog
  · cases hlog
    exact rfl
  · cases hlog
  · have hlength := congrArg List.length hlog
    simp [memoryLog] at hlength

theorem buffers_kept_memory : BuffersKept memoryLog := by
  refine buffers_kept memoryRun memoryLog memoryRun_runs ⟨?_,?_,trivial,trivial,trivial,trivial⟩
    memoryLog_handled
  · intro buffer h
    cases h
    decide
  · intro buffer h
    cases h
    decide

/-- A cancelled test has its input freed, while the board may still be reading it. -/
theorem buffers_freed : ¬∀ (run : ToolRun) (log : JobLog), run.program.Runs log () →
    surroundings.Allows {} log → BuffersKept log := by
  intro h
  have hallows : surroundings.Allows {} testLog := by
    refine ⟨?_,trivial,trivial,trivial,trivial,trivial⟩
    intro buffer hbuffer
    cases hbuffer
    decide
  have hkept := h testRun testLog testRun_runs hallows
  exact hkept [_,_] [_,⟨.freeShared 1,()⟩] _ (Status.cancelled,{}) rfl rfl 1 (by decide) _
    (List.mem_cons_of_mem _ (List.mem_singleton_self _)) rfl

end ZZ9K.Archive
