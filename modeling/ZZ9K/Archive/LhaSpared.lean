import ZZ9K.Archive.BatchChunks
import ZZ9K.Archive.Directories
import ZZ9K.Archive.FileDecodings
import ZZ9K.Archive.LhaCommand
import ZZ9K.Archive.LhaList

namespace ZZ9K.Archive

open ZZ9K.Abi ZZ9K.Host ZZ9K.Framework

section

variable {f : FileWatch} {R : Bool → Prop} {opts : ToolOptions} {outputDir archivePath : CString}
  {entry : ArchiveEntry} {decoder : LhaDecoder} {src : LhaSource}

theorem harmless_lhaSrcMember : (lhaSrcMember src entry).All ToolCall.Harmless := by
  unfold lhaSrcMember
  split
  · trivial
  cases src with
  | memory data => trivial
  | file path length =>
    dsimp only
    split
    · trivial
    refine Ask.all_step trivial fun (grown : Bool) => ?_
    apply Ask.all_bind
    · cases grown with
      | true => exact ⟨trivial,fun _ => trivial⟩
      | false => trivial
    intro sought
    cases sought with
    | true => exact ⟨trivial,fun _ => trivial⟩
    | false => trivial

theorem harmless_lhaDecoder {input : LhaInput} {output : Option Nat} :
    (decoder.decode input output entry).All ToolCall.Harmless := by
  refine (decoder.asks input output entry).mono fun c hc => ?_
  cases c with
  | read _ _ => trivial
  | write _ _ => trivial
  | malloc _ => trivial
  | _ => exact hc.elim

theorem harmless_lhaSoftwareDecode {output : Option Nat} :
    (lhaSoftwareDecodeToFile decoder src entry output).All ToolCall.Harmless := by
  unfold lhaSoftwareDecodeToFile
  split
  · trivial
  cases src with
  | file path length =>
    refine Ask.all_step trivial fun (sought : Bool) => ?_
    cases sought with
    | true => exact harmless_lhaDecoder
    | false => trivial
  | memory data =>
    refine Ask.all_step trivial fun temporary => ?_
    cases temporary with
    | none => trivial
    | some temporary =>
      apply Ask.all_bind
      · split
        · trivial
        · exact ⟨trivial,fun _ => trivial⟩
      intro written
      apply Ask.all_bind
      · cases written with
        | true => exact harmless_lhaDecoder
        | false => trivial
      exact fun ok => ⟨trivial,fun _ => trivial⟩

theorem harmless_lhaAskBoard (diag : LhaBoardDiag) : (lhaAskBoard diag).All JobCall.Harmless := by
  cases diag with
  | unasked =>
    refine Ask.all_step trivial fun answer => ?_
    apply Ask.all_bind (harmless_noteStatus _)
    intro _
    split <;> trivial
  | known heap => trivial
  | unavailable => trivial

theorem harmless_lhaOffload {service : CodecService} {output : Option Nat} :
    (lhaOffload service src entry output).All JobCall.Harmless := by
  apply Ask.all_bind (harmless_tool harmless_lhaSrcMember)
  intro member
  cases member with
  | none => trivial
  | some member =>
    apply Ask.all_bind harmless_decompressToMemoryEx
    intro decoded
    cases decoded with
    | none => exact ⟨trivial,fun _ => trivial⟩
    | some decoded =>
      dsimp only
      split
      · cases output with
        | none => trivial
        | some file =>
          apply Ask.all_bind
          · split
            · trivial
            · exact ⟨trivial,fun _ => trivial⟩
          exact fun _ => trivial
      · trivial

theorem harmless_lhaDecodeMethod {service : Option CodecService} {diag : LhaBoardDiag}
    {output : Option Nat} :
    (lhaDecodeMethodToFile decoder service src diag entry output).All JobCall.Harmless := by
  unfold lhaDecodeMethodToFile
  split
  · trivial
  apply Ask.all_bind
  · cases service with
    | none => trivial
    | some service =>
      dsimp only
      split
      · trivial
      apply Ask.all_bind (harmless_lhaAskBoard diag)
      intro diag
      cases diag with
      | none => trivial
      | some diag =>
        dsimp only
        split
        · exact Ask.all_bind harmless_lhaOffload fun _ => trivial
        · trivial
  intro verdict
  rcases verdict with ⟨verdict,diag⟩
  cases verdict with
  | some ok => trivial
  | none => exact Ask.all_bind (harmless_tool harmless_lhaSoftwareDecode) fun _ => trivial

/-- What a staged output still has to show when it is closed -/
theorem StagedApart.closes {o : OpenedOutput} (h : StagedApart f opts outputDir entry o)
    (hpath : f.Redeemed R opts outputDir entry) (finalPath tmpPath : CString)
    (hstaged : o.staged = some (finalPath,tmpPath)) :
    ¬f.leads tmpPath ∧ (f.leads finalPath → f.Redeems R) := by
  obtain ⟨htmp,hmay,out,hout,rfl⟩ := h finalPath tmpPath hstaged
  exact ⟨htmp,fun hleads => hpath out hout (hmay hleads) hleads⟩

theorem ends_extractLhaLh5 {service : Option CodecService} {diag : LhaBoardDiag}
    (hdiscard : ¬f.leads opts.platform.discard) (hpath : f.Redeemed R opts outputDir entry) :
    f.job.Ends (fun _ => True) (fun r => R r.1)
      (extractLhaLh5 decoder service src opts outputDir diag entry) := by
  refine Watch.Spares.bind (ends_tool (spares_openOutputStaged hdiscard)) fun opened hopened => ?_
  cases opened with
  | none => trivial
  | some o =>
    refine (spares_harmless_job harmless_lhaDecodeMethod).bind fun decoded _ => ?_
    have hclose : f.job.Ends (fun _ => True) R (Job.tool (closeStaged o decoded.1)) :=
      ends_tool (ends_closeStaged ((hopened o rfl).closes hpath))
    exact Watch.ends_bind hclose (fun _ _ => trivial) fun _ hR => hR

theorem ends_extractLhaSoftware (hdiscard : ¬f.leads opts.platform.discard)
    (hpath : f.Redeemed R opts outputDir entry) :
    f.watch.Ends (fun _ => True) R (extractLhaSoftware decoder src opts outputDir entry) := by
  refine (spares_openOutputStaged hdiscard).bind fun opened hopened => ?_
  cases opened with
  | none => trivial
  | some o =>
    refine (spares_harmless harmless_lhaSoftwareDecode).bind fun decoded _ => ?_
    exact ends_closeStaged ((hopened o rfl).closes hpath)

/-- A member of an archive file is staged, stored or decoded. -/
theorem ends_lhaExtractMember {service : Option CodecService} {diag : LhaBoardDiag}
    {state : LhaBatchState} {length : Nat} (hdiscard : ¬f.leads opts.platform.discard)
    (htemporaries : f.TemporariesClear opts outputDir entry)
    (hpath : f.Redeemed R opts outputDir entry) :
    f.job.Ends (fun _ => True) (fun r => R r.1)
      (lhaExtractMember decoder service opts (.file archivePath length) outputDir diag state
        entry) := by
  have hpair {p : Tool Bool} (h : f.watch.Ends (fun _ => True) R p) :
      f.job.Ends (fun _ => True) (fun r => R r.1) (do
        let ok ← Job.tool p
        pure (ok,diag)) :=
    Watch.ends_bind (ends_tool h) (fun _ _ => trivial) fun _ hR => hR
  unfold lhaExtractMember
  split
  · cases state with
    | done => trivial
    | failed => trivial
    | sw => exact hpair (ends_extractLhaSoftware hdiscard hpath)
    | none => exact ends_extractLhaLh5 hdiscard hpath
  split
  · trivial
  · apply hpair
    unfold lhaExtractStored
    split
    · trivial
    · refine ends_writeFileRangeEntry htemporaries fun out hout hmay hleads _ => ?_
      exact hpath out hout hmay hleads

end

/-- What is left of the name of a directory is the name of a directory. -/
theorem outputEntry_isDir {opts : ToolOptions} {entry out : ArchiveEntry}
    (h : outputEntry opts entry = some out) (hname : nameEndsWithSlash entry.name = true) :
    out.isDir = true := by
  simp only [outputEntry] at h
  split at h
  · cases h
  · next hnot =>
    cases h
    obtain ⟨before,hbefore⟩ := stripEntryName_suffix opts.stripComponents entry.name
    simp only [nameEndsWithSlash,decide_eq_true_eq] at hname ⊢
    rw [← hbefore,List.getLast?_append] at hname
    have hne : stripEntryName opts.stripComponents entry.name ≠ [] := fun h => hnot (Or.inl h)
    rw [List.getLast?_eq_getLast_of_ne_nil hne] at hname ⊢
    exact hname

theorem lhaDirName_slash {x : LhaExt} {joined name : CString} (h : lhaDirName x joined = some name) :
    nameEndsWithSlash name = true := by
  simp only [lhaDirName] at h
  generalize (if x.dir ≠ [] ∧ x.name = [] then x.dir else joined) = base at h
  split at h
  · next hends =>
    cases h
    exact hends
  split at h
  · cases h
  · cases h
    simp [nameEndsWithSlash]

theorem lhaEntry_isDir {hdr : Bytes} {l : LhaLayout} {x : LhaExt} {archiveAvail : Nat}
    {entry : ArchiveEntry} (h : lhaEntry hdr l x archiveAvail = some entry)
    (hdir : entry.isDir = true) : nameEndsWithSlash entry.name = true := by
  simp only [lhaEntry,Option.bind_eq_bind,Option.bind_eq_some_iff] at h
  obtain ⟨size,-,h⟩ := h
  split at h
  · cases h
  simp only [Option.bind_eq_some_iff,Option.some.injEq] at h
  obtain ⟨joined,-,name,hname,rfl⟩ := h
  simp only [decide_eq_true_eq] at hdir ⊢
  rcases hdir with hmethod | hslash
  · rw [if_pos hmethod] at hname
    exact lhaDirName_slash hname
  · exact hslash

/-- A directory that a header stands for has a slash behind its name. -/
theorem lhaParseHeader_isDir {hdr : Bytes} {archiveAvail : Nat} {entry : ArchiveEntry}
    (h : lhaParseHeader hdr archiveAvail = .ok entry) (hdir : entry.isDir = true) :
    nameEndsWithSlash entry.name = true := by
  unfold lhaParseHeader at h
  split_ifs at h
  dsimp only at h
  split_ifs at h
  cases hx : lhaExtensions hdr (lhaLayout hdr) with
  | invalid => simp [hx] at h
  | needsWindow => simp [hx] at h
  | ok x =>
    simp only [hx] at h
    cases he : lhaEntry hdr (lhaLayout hdr) x archiveAvail with
    | none => simp [he] at h
    | some e =>
      simp only [he] at h
      cases h
      exact lhaEntry_isDir he hdir

section

variable {f : FileWatch} {R : Bool → Prop} {opts : ToolOptions} {outputDir archivePath : CString}
  {entry : ArchiveEntry} {decoder : LhaDecoder} {service : Option CodecService} {length : Nat}

/-- An entry as a walk over headers makes it -/
def LhaParsed (entry : ArchiveEntry) : Prop :=
  ∃ hdr archiveAvail e pos, lhaParseHeader hdr archiveAvail = .ok e ∧ entry = e.at pos

theorem LhaParsed.isDir (h : LhaParsed entry) {out : ArchiveEntry}
    (hout : outputEntry opts entry = some out) (hdir : entry.isDir = true) : out.isDir = true := by
  obtain ⟨hdr,archiveAvail,e,pos,hparse,rfl⟩ := h
  have hname := lhaParseHeader_isDir hparse hdir
  exact outputEntry_isDir hout hname

/-- Making the directory of an entry harms nothing. -/
theorem spares_lhaDirectory (h : LhaParsed entry) (hdir : entry.isDir = true) :
    f.watch.Spares (fun _ => True) (writeEntry opts outputDir entry []) := by
  refine ends_writeEntry fun out hout hfile _ _ => ?_
  rw [h.isDir hout hdir] at hfile
  cases hfile

/-- The guard of the archive may let a path pass. -/
def FileWatch.Unguarded (f : FileWatch) (archivePath path : CString) : Prop :=
  f.possible ⟨.sameFile archivePath path,false⟩ ∨ ∃ size, f.possible ⟨.malloc size,false⟩

theorem spares_lhaOutputIsArchive :
    f.watch.Spares (fun collides => collides = false → entry.isDir = false →
        ∀ out, outputEntry opts entry = some out →
          f.Unguarded archivePath (joinedPath outputDir out.name))
      (lhaOutputIsArchive opts (.file archivePath length) outputDir entry) := by
  rw [lhaOutputIsArchive]
  split
  · next hdir => exact fun _ hfile => absurd (hdir.symm.trans hfile) Bool.false_ne_true.symm
  split
  · next hnone => exact fun _ _ out hout => absurd (hnone.symm.trans hout) (Option.some_ne_none _).symm
  next out hout =>
  intro got hpossible _
  refine ⟨fun hh => hh.elim,fun _ => ?_⟩
  cases got with
  | false => exact fun _ _ _ _ => Or.inr ⟨_,hpossible⟩
  | true =>
    intro same hsame _
    refine ⟨fun hh => hh.elim,fun _ hfalse _ out' hout' => ?_⟩
    have hsameOut : out = out' := Option.some.inj (hout.symm.trans hout')
    subst hfalse
    subst hsameOut
    exact Or.inl hsame

/-- A member that the walk works on replaces the watched file only where the guard may let it pass
and the result redeems it. -/
theorem ends_lhaWorkEntry {diag : LhaBoardDiag} (hparsed : LhaParsed entry)
    (hdiscard : ¬f.leads opts.platform.discard)
    (htemporaries : f.TemporariesClear opts outputDir entry)
    (hpath : ∀ out, outputEntry opts entry = some out → opts.mayReplace = true →
      f.leads (joinedPath outputDir out.name) →
      f.Unguarded archivePath (joinedPath outputDir out.name) → f.Redeems R) :
    f.job.Ends (fun _ => True) (fun r => R r.1)
      (lhaWorkEntry decoder service opts (.file archivePath length) outputDir diag entry) := by
  unfold lhaWorkEntry
  split
  · trivial
  split
  · trivial
  split
  · next hdir =>
    refine Watch.Spares.bind (ends_tool (spares_lhaDirectory hparsed hdir)) fun _ _ => ?_
    trivial
  next hfile =>
  have hdir : entry.isDir = false := by simpa using hfile
  have hguard : f.job.Spares (fun collides => collides = false → f.Redeemed R opts outputDir entry)
      (Job.tool (if opts.mayReplace then
        lhaOutputIsArchive opts (.file archivePath length) outputDir entry else pure false)) := by
    apply ends_tool
    split
    · refine Watch.ends_mono spares_lhaOutputIsArchive (fun collides h hno out hout hmay hleads => ?_)
        fun _ h => h
      exact hpath out hout hmay hleads (h hno hdir out hout)
    · next hnot => exact fun _ out hout hmay => absurd hmay hnot
  refine hguard.bind fun collides hcollides => ?_
  cases collides with
  | true => trivial
  | false =>
    rw [if_neg Bool.false_ne_true]
    exact ends_lhaExtractMember hdiscard htemporaries (hcollides rfl)

/-- What a run may rely on so that the guards find the archive: two paths to it are known for the
same file, and memory for paths can be had. -/
structure FileWatch.KnowsArchive (f : FileWatch) (archivePath : CString) : Prop where
  same : ∀ path, f.leads path → ¬f.possible ⟨.sameFile archivePath path,false⟩
  memory : ∀ size, ¬f.possible ⟨.malloc size,false⟩

theorem FileWatch.KnowsArchive.guarded (h : f.KnowsArchive archivePath) {path : CString}
    (hleads : f.leads path) : ¬f.Unguarded archivePath path := by
  rintro (hsame | ⟨size,hsize⟩)
  · exact h.same path hleads hsame
  · exact h.memory size hsize

/-- The walk over an archive file never harms it. -/
theorem spares_lhaWorkEach {diag : LhaBoardDiag} {entries : List ArchiveEntry}
    (harchive : f.KnowsArchive archivePath) (hdiscard : ¬f.leads opts.platform.discard)
    (hentries : ∀ entry ∈ entries, LhaParsed entry ∧ f.TemporariesClear opts outputDir entry) :
    f.job.Spares (fun _ => True)
      (lhaWorkEach decoder service opts (.file archivePath length) outputDir diag entries) := by
  induction entries generalizing diag with
  | nil => trivial
  | cons entry rest ih =>
    obtain ⟨hparsed,htemporaries⟩ := hentries entry (List.mem_cons_self ..)
    refine Watch.ends_step (fun _ _ _ hh => hh) fun (stop : Bool) _ _ => ?_
    cases stop with
    | true => trivial
    | false =>
      have hentry : f.job.Spares (fun _ => True) (lhaWorkEntry decoder service opts
          (.file archivePath length) outputDir diag entry) :=
        ends_lhaWorkEntry (R := fun _ => False) hparsed hdiscard htemporaries
          fun out _ _ hleads hguard => absurd hguard (harchive.guarded hleads)
      refine Watch.Spares.bind hentry fun done _ => ?_
      have hrest := @ih done.2 fun e he => hentries e (List.mem_cons_of_mem _ he)
      exact hrest.bind fun _ _ => trivial

/-- The refusal passes only entries whose outputs are not the archive. -/
theorem spares_lhaRefuseArchive {entries : List ArchiveEntry}
    (harchive : f.KnowsArchive archivePath) :
    f.watch.Spares (fun refused => refused = false → ∀ entry ∈ entries,
        entryMatchesFilter opts.matchFilter entry = true → entry.isDir = false →
          f.Clear opts outputDir entry)
      (lhaRefuseArchive opts (.file archivePath length) outputDir entries) := by
  induction entries with
  | nil => exact fun _ entry he => absurd he (List.not_mem_nil)
  | cons entry rest ih =>
    have hentry : f.watch.Spares (fun collides => collides = false →
        entryMatchesFilter opts.matchFilter entry = true → entry.isDir = false →
          f.Clear opts outputDir entry)
        (if entryMatchesFilter opts.matchFilter entry then
          lhaOutputIsArchive opts (.file archivePath length) outputDir entry else pure false) := by
      split
      · refine Watch.ends_mono spares_lhaOutputIsArchive (fun collides h hno _ hfile out hout _ hleads =>
          ?_) fun _ h => h
        exact harchive.guarded hleads (h hno hfile out hout)
      · next hnot => exact fun _ hmatch => absurd hmatch hnot
    refine hentry.bind fun collides hcollides => ?_
    cases collides with
    | true => exact fun h => absurd h Bool.false_ne_true.symm
    | false =>
      refine Watch.ends_mono ih (fun refused h hno e he hmatch hfile => ?_) fun _ h => h
      rcases List.mem_cons.mp he with rfl | he
      · exact hcollides rfl hmatch hfile
      · exact h hno e he hmatch hfile

end

section

variable {f : FileWatch} {opts : ToolOptions} {outputDir archivePath : CString}
  {decoder : LhaDecoder} {src : LhaSource} {batch : LhaBatch} {command : ArchiveCommand}

theorem harmless_lhaBatchSpan {packed : List Nat} :
    (lhaBatchSpan batch src packed).All ToolCall.Harmless := by
  unfold lhaBatchSpan
  split
  · extract_lets start span blobLength
    split
    · trivial
    refine Ask.all_step trivial fun (got : Bool) => ?_
    apply Ask.all_bind
    · cases got with
      | true => exact ⟨trivial,fun _ => trivial⟩
      | false => trivial
    intro sought
    apply Ask.all_bind
    · cases sought with
      | true => exact ⟨trivial,fun _ => trivial⟩
      | false => trivial
    exact fun _ => trivial
  · trivial

theorem harmless_lhaBatchFill {span : Option (Nat × Bytes)} {packed : List Nat} {blob : Nat} :
    (lhaBatchFill batch src span packed blob).All JobCall.Harmless := by
  induction packed generalizing blob with
  | nil => trivial
  | cons i rest ih =>
    apply Ask.all_bind
    · cases span with
      | none => exact harmless_tool harmless_lhaSrcMember
      | some span => trivial
    intro member
    cases member with
    | none => trivial
    | some member =>
      apply Ask.all_bind (harmless_sharedCopyTo _ _ _)
      intro copied
      split
      · exact ih
      · trivial

theorem spares_lhaBatchDrainMember {dstOffset : Nat} {entry : ArchiveEntry}
    (hdiscard : ¬f.leads opts.platform.discard) (hclear : f.Clear opts outputDir entry) :
    f.job.Spares (fun _ => True)
      (lhaBatchDrainMember decoder opts batch dstOffset outputDir src entry) := by
  refine Watch.Spares.bind (ends_tool (spares_openOutputEntry hdiscard hclear)) fun opened _ => ?_
  cases opened with
  | none => trivial
  | some opened =>
    apply spares_harmless_job
    apply Ask.all_bind
    · split
      · refine Ask.all_step trivial fun (got : Bool) => ?_
        apply Ask.all_bind
        · split
          · exact harmless_sharedCopyFrom _ _ _
          · trivial
        intro data
        cases data with
        | none => exact harmless_tool harmless_lhaSoftwareDecode
        | some data => exact ⟨trivial,fun _ => trivial⟩
      · trivial
    exact fun ok => ⟨trivial,fun _ => trivial⟩

/-- The outputs of the members of a batch are not the file. -/
def LhaBatch.Apart (batch : LhaBatch) (f : FileWatch) (opts : ToolOptions) (outputDir : CString)
    (members : List Nat) : Prop :=
  ∀ i ∈ members, f.Clear opts outputDir (batch.entry i)

theorem spares_lhaBatchDrain {results : Bytes} {packed : List Nat} {i out : Nat}
    {state : List LhaBatchState} (hdiscard : ¬f.leads opts.platform.discard)
    (hclear : batch.Apart f opts outputDir packed) :
    f.job.Spares (fun _ => True)
      (lhaBatchDrain decoder opts batch command outputDir src results packed i out state) := by
  induction packed generalizing i out state with
  | nil => trivial
  | cons member rest ih =>
    have hmember := hclear member (List.mem_cons_self ..)
    have hdrain : f.job.Spares (fun _ => True)
        (if lhaBatchJudge (batch.entry member) (batchReadResult results i) = .done ∧
            command = .extract then
          lhaBatchDrainMember decoder opts batch out outputDir src (batch.entry member)
        else pure true) := by
      split
      · exact spares_lhaBatchDrainMember hdiscard hmember
      · trivial
    refine hdrain.bind fun drained _ => ?_
    exact ih fun j hj => hclear j (List.mem_cons_of_mem _ hj)

theorem spares_lhaBatchChunk {packed : List Nat} {state : List LhaBatchState}
    (hdiscard : ¬f.leads opts.platform.discard) (hclear : batch.Apart f opts outputDir packed) :
    f.job.Spares (fun _ => True)
      (lhaBatchChunk decoder opts batch command outputDir src packed state) := by
  refine (spares_harmless_job (harmless_sharedCopyTo _ _ _)).bind fun tabled _ => ?_
  have hfill : (if tabled = true then do
        let span ← Job.tool (lhaBatchSpan batch src packed)
        lhaBatchFill batch src span packed 0
      else pure false : Job Bool).All JobCall.Harmless := by
    split
    · exact Ask.all_bind (harmless_tool harmless_lhaBatchSpan) fun _ => harmless_lhaBatchFill
    · trivial
  refine (spares_harmless_job hfill).bind fun filled _ => ?_
  split
  · trivial
  refine Watch.ends_step (fun _ _ _ hh => hh) fun answer _ _ => ?_
  dsimp only
  split
  · refine (spares_harmless_job (harmless_noteStatus _)).bind fun _ _ => ?_
    exact Watch.ends_step (fun _ _ _ hh => hh) fun _ _ _ => trivial
  · refine (spares_harmless_job (harmless_sharedCopyFrom _ _ _)).bind fun results _ => ?_
    cases results with
    | none => trivial
    | some results => exact (spares_lhaBatchDrain hdiscard hclear).bind fun _ _ => trivial

theorem spares_lhaBatchLoop {members : List Nat} {n : Nat} {state : List LhaBatchState}
    (hn : members.length = n) (hdiscard : ¬f.leads opts.platform.discard)
    (hclear : batch.Apart f opts outputDir members) :
    f.job.Spares (fun _ => True)
      (lhaBatchLoop decoder opts batch command outputDir src members state) := by
  induction n using Nat.strong_induction_on generalizing members state with
  | _ n ih =>
    cases members with
    | nil =>
      rw [lhaBatchLoop]
      trivial
    | cons first rest =>
      rw [List.length_cons] at hn
      have hrest : ∀ k, batch.Apart f opts outputDir (rest.drop k) := fun k i hi =>
        hclear i (List.mem_cons_of_mem _ (List.mem_of_mem_drop hi))
      rw [lhaBatchLoop]
      split
      · exact ih rest.length (by omega) rfl (hrest 0)
      next hpacked =>
      have hfront : batch.Apart f opts outputDir (lhaBatchPlanChunk batch (first::rest) 0 0 0) :=
        fun i hi => hclear i ((lhaBatchPlanChunk_front _ _ _ _).subset hi)
      rw [hpacked] at hfront
      refine (spares_lhaBatchChunk hdiscard hfront).bind fun r _ => ?_
      cases r with
      | stop state abandoned => trivial
      | next state =>
        refine ih _ ?_ rfl (hrest _)
        rw [List.length_drop]
        omega

theorem spares_lhaBatchAlloc {entries : List ArchiveEntry} {mode : UInt32}
    {memberCap blobCapacity layoutOutput outputCapacity : Nat} :
    f.job.Spares (fun r => ∀ batch ∈ r, batch.entries = entries)
      (lhaBatchAlloc entries mode memberCap blobCapacity layoutOutput outputCapacity) := by
  have hnone : ∀ batch ∈ (none : Option LhaBatch), batch.entries = entries :=
    fun batch h => (Option.not_mem_none batch h).elim
  unfold lhaBatchAlloc
  split
  · exact hnone
  refine Watch.ends_step (fun _ _ _ hh => hh) fun answer _ _ => ?_
  cases answer with
  | error status => exact hnone
  | ok arena =>
    intro batch h
    cases h
    rfl

theorem spares_lhaBatchArena {limits : BatchLimits} {entries : List ArchiveEntry}
    {members : List Nat} :
    f.job.Spares (fun r => ∀ batch ∈ r, batch.entries = entries)
      (lhaBatchArena limits entries command members) := by
  unfold lhaBatchArena
  extract_lets sizes largest largestUncomp memberCap blobCapacity outputCapacity
  split
  swap
  · exact spares_lhaBatchAlloc
  have hgrown : f.job.Spares (fun r => ∀ batch ∈ r, batch.entries = entries)
      (if blobCapacity < largest then
        lhaBatchAlloc entries batchModeTest memberCap largest 0
          (max (u32 (limits.testUncompKb*1024)) largestUncomp) else pure none) := by
    split
    · exact spares_lhaBatchAlloc
    · exact fun batch h => (Option.not_mem_none batch h).elim
  refine hgrown.bind fun r hr => ?_
  cases r with
  | none => exact spares_lhaBatchAlloc
  | some batch =>
    dsimp only
    split
    · exact spares_lhaBatchAlloc
    · exact hr

/-- A batch writes nothing but the outputs of its members. -/
theorem spares_lhaBatchRunMembers {limits : BatchLimits} {entries : List ArchiveEntry}
    {members : List Nat} {state : List LhaBatchState} (hdiscard : ¬f.leads opts.platform.discard)
    (hclear : ∀ i ∈ members, f.Clear opts outputDir (entries.getD i {})) :
    f.job.Spares (fun _ => True)
      (lhaBatchRunMembers decoder opts limits src entries command outputDir members state) := by
  refine Watch.Spares.bind spares_lhaBatchArena fun r hr => ?_
  cases r with
  | none => trivial
  | some batch =>
    have hapart : batch.Apart f opts outputDir members := by
      intro i hi
      unfold LhaBatch.entry
      rw [hr batch rfl]
      exact hclear i hi
    refine Watch.ends_step (fun _ _ _ hh => hh) fun (tables : Bool) _ _ => ?_
    refine Watch.ends_step (fun _ _ _ hh => hh) fun (results : Bool) _ _ => ?_
    have hloop : f.job.Spares (fun _ => True) (if (tables && results) = true then
        lhaBatchLoop decoder opts batch command outputDir src members state
        else pure (state,false)) := by
      split
      · exact spares_lhaBatchLoop rfl hdiscard hapart
      · trivial
    refine hloop.bind fun r _ => ?_
    dsimp only
    split
    · trivial
    · exact (spares_harmless_job (harmless_releaseShared _)).bind fun _ _ => trivial

/-- The members of a batch match the filter and are no directories. -/
theorem lhaBatchMembers_eligible {service : CodecService} {entries : List ArchiveEntry}
    {length i : Nat} {collisions : List Nat}
    (h : i ∈ lhaBatchMembers opts service entries length command collisions) :
    i < entries.length ∧ lhaBatchMemberEligible opts (entries.getD i {}) length = true := by
  obtain ⟨hrange,hkeep⟩ := List.mem_filter.mp h
  simp only [decide_eq_true_eq] at hkeep
  exact ⟨List.mem_range.mp hrange,hkeep.1⟩

theorem spares_lhaBatchRunSrc {limits : BatchLimits} {service : CodecService}
    {entries : List ArchiveEntry} {state : List LhaBatchState}
    (hdiscard : ¬f.leads opts.platform.discard)
    (hclear : ∀ entry ∈ entries, entryMatchesFilter opts.matchFilter entry = true →
      entry.isDir = false → f.Clear opts outputDir entry) :
    f.job.Spares (fun _ => True)
      (lhaBatchRunSrc decoder opts limits service src entries command outputDir state) := by
  unfold lhaBatchRunSrc
  split
  · trivial
  refine Watch.ends_step (fun _ _ _ hh => hh) fun board _ _ => ?_
  dsimp only
  split
  · trivial
  refine Watch.ends_step (fun _ _ _ hh => hh) fun (listed : Bool) _ _ => ?_
  have hmask : (if listed = false then pure none
      else if command = .test then pure (some [])
      else do
        let collides ← Job.tool (Tool.malloc entries.length)
        let slots ← (if collides then Job.tool (Tool.malloc (268*entries.length)) else pure false)
        pure (if slots then some (lhaCollisions opts entries) else none) :
      Job (Option (List Nat))).All JobCall.Harmless := by
    split
    · trivial
    split
    · trivial
    refine Ask.all_step trivial fun (collides : Bool) => ?_
    apply Ask.all_bind (harmless_when (c := .malloc (268*entries.length)) trivial collides false)
    exact fun _ => trivial
  refine (spares_harmless_job hmask).bind fun mask _ => ?_
  cases mask with
  | none => trivial
  | some collisions =>
    dsimp only
    split
    · trivial
    · apply spares_lhaBatchRunMembers hdiscard
      intro i hi
      obtain ⟨hlt,heligible⟩ := lhaBatchMembers_eligible hi
      simp only [lhaBatchMemberEligible,decide_eq_true_eq] at heligible
      have hmem : entries.getD i {} ∈ entries := by
        rw [List.getD_eq_getElem entries {} hlt]
        exact List.getElem_mem hlt
      exact hclear _ hmem heligible.2.2.2.2.2.1 heligible.1

end

section

variable {f : FileWatch} {opts : ToolOptions} {outputDir archivePath : CString}
  {decoder : LhaDecoder} {service : Option CodecService} {length : Nat}

theorem spares_lhaCommandEach {diag : LhaBoardDiag} {entries : List (ArchiveEntry × LhaBatchState)}
    (hdiscard : ¬f.leads opts.platform.discard)
    (hentries : ∀ e ∈ entries, LhaParsed e.1 ∧ f.TemporariesClear opts outputDir e.1)
    (hclear : ∀ e ∈ entries, entryMatchesFilter opts.matchFilter e.1 = true →
      e.1.isDir = false → f.Clear opts outputDir e.1) :
    f.job.Spares (fun _ => True)
      (lhaCommandEach decoder service opts (.file archivePath length) outputDir diag entries) := by
  induction entries generalizing diag with
  | nil => trivial
  | cons e rest ih =>
    obtain ⟨entry,state⟩ := e
    have hhead := List.mem_cons_self (a := (entry,state)) (l := rest)
    obtain ⟨hparsed,htemporaries⟩ := hentries _ hhead
    have hrest := fun {d : LhaBoardDiag} => @ih d
      (fun e he => hentries e (List.mem_cons_of_mem _ he))
      (fun e he => hclear e (List.mem_cons_of_mem _ he))
    rw [lhaCommandEach]
    split
    · exact hrest
    next hmatch =>
    refine Watch.ends_step (fun _ _ _ hh => hh) fun (stop : Bool) _ _ => ?_
    cases stop with
    | true => trivial
    | false =>
      have hentry : f.job.Spares (fun _ => True)
          (if pathIsSafe entry.name = false then pure (false,diag)
          else if entry.isDir then do
            let ok ← Job.tool (writeEntry opts outputDir entry [])
            pure (ok,diag)
          else lhaExtractMember decoder service opts (.file archivePath length) outputDir diag state
            entry) := by
        split
        · trivial
        split
        · next hdir =>
          refine Watch.Spares.bind (ends_tool (spares_lhaDirectory hparsed hdir)) fun _ _ => ?_
          trivial
        · next hfile =>
          have hc := hclear _ hhead (by simpa using hmatch) (by simpa using hfile)
          exact ends_lhaExtractMember (R := fun _ => False) hdiscard htemporaries (hc.redeemed _)
      refine Watch.Spares.bind hentry fun done _ => ?_
      exact (hrest (d := done.2)).bind fun _ _ => trivial

/-- The command loop, with a batch or without, never harms the archive file. -/
theorem spares_lhaCommandLoop {limits : BatchLimits} {entries : List ArchiveEntry}
    (harchive : f.KnowsArchive archivePath) (hdiscard : ¬f.leads opts.platform.discard)
    (hentries : ∀ entry ∈ entries, LhaParsed entry ∧ f.TemporariesClear opts outputDir entry) :
    f.job.Spares (fun _ => True)
      (lhaCommandLoop decoder service opts (.file archivePath length) outputDir limits entries) := by
  have hrefuse : f.job.Spares (fun refused => refused = false → ∀ entry ∈ entries,
      entryMatchesFilter opts.matchFilter entry = true → entry.isDir = false →
        f.Clear opts outputDir entry)
      (Job.tool (if opts.mayReplace then
        lhaRefuseArchive opts (.file archivePath length) outputDir entries else pure false)) := by
    apply ends_tool
    split
    · exact spares_lhaRefuseArchive harchive
    · next hnot => exact fun _ entry _ _ _ out _ hmay => absurd hmay hnot
  refine Watch.Spares.bind hrefuse fun refused hclear => ?_
  cases refused with
  | true => trivial
  | false =>
    refine Watch.Spares.bind (show f.job.Spares (fun _ => True) _ from ?_) fun state _ => ?_
    · cases service with
      | none => trivial
      | some service =>
        dsimp only
        split
        · trivial
        refine Watch.ends_step (fun _ _ _ hh => hh) fun (got : Bool) _ _ => ?_
        cases got with
        | true => exact spares_lhaBatchRunSrc hdiscard (hclear rfl)
        | false => trivial
    apply spares_lhaCommandEach hdiscard
    · intro e he
      exact hentries _ (List.of_mem_zip he).1
    · intro e he
      exact hclear rfl _ (List.of_mem_zip he).1

end

end ZZ9K.Archive
