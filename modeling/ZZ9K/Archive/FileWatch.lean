import ZZ9K.Archive.Decode
import ZZ9K.Archive.OutputPaths
import ZZ9K.Framework.Watch

namespace ZZ9K.Archive

open ZZ9K.Framework

/-- The questions that change no file known by a path -/
def ToolCall.Harmless : ToolCall → Prop
  | openWrite _ => False
  | rename _ _ => False
  | remove _ => False
  | _ => True

def JobCall.Harmless : JobCall → Prop
  | tool c => c.Harmless
  | _ => True

/-- A file that is watched while the tool runs: the paths that lead to it all through the run, and
what is known of the answers besides -/
structure FileWatch where
  leads : CString → Prop
  possible : Answered ToolCall ToolCall.Answer → Prop

namespace FileWatch

/-- The watched file is there, and no directory. -/
def whole (f : FileWatch) : Answered ToolCall ToolCall.Answer → Prop
  | ⟨.pathExists path,x⟩ => f.leads path → x = true
  | ⟨.pathIsDir path,x⟩ => f.leads path → x = false
  | _ => True

/-- It is opened for writing, renamed, replaced or removed. -/
def harms (f : FileWatch) : Answered ToolCall ToolCall.Answer → Prop
  | ⟨.openWrite path,x⟩ => f.leads path ∧ x.isSome = true
  | ⟨.rename a b,_⟩ => f.leads a ∨ f.leads b
  | ⟨.remove path,_⟩ => f.leads path
  | _ => False

def watch (f : FileWatch) : Watch ToolCall ToolCall.Answer :=
  {possible := f.possible,whole := f.whole,harms := f.harms}

/-- A property of an answered question of the tool, as one of a decoding -/
def onTool (P : Answered ToolCall ToolCall.Answer → Prop) (other : Prop) :
    Answered JobCall JobCall.Answer → Prop
  | ⟨.tool c,x⟩ => P ⟨c,x⟩
  | _ => other

def job (f : FileWatch) : Watch JobCall JobCall.Answer :=
  {possible := onTool f.possible True,whole := onTool f.whole True,harms := onTool f.harms False}

/-- Harm is made good where the renaming that did it is the last but for what cannot fail, and the
result says that the file was replaced. -/
structure Redeems (f : FileWatch) (R : Bool → Prop) : Prop where
  result : R true
  renames : ∀ a b x, f.possible ⟨.rename a b,x⟩ → x = true

/-- The output of a member does not lead to the file, or it is not to be replaced. -/
def Clear (f : FileWatch) (opts : ToolOptions) (outputDir : CString) (entry : ArchiveEntry) :
    Prop :=
  ∀ out, outputEntry opts entry = some out → opts.mayReplace = true →
    ¬f.leads (joinedPath outputDir out.name)

/-- No temporary name of a path leads to the file. -/
def SiblingsClear (f : FileWatch) (path : CString) : Prop :=
  ∀ slot < 32, ¬f.leads (siblingPath path tmpTag slot)

/-- No temporary name of a member's output leads to the file. -/
def TemporariesClear (f : FileWatch) (opts : ToolOptions) (outputDir : CString)
    (entry : ArchiveEntry) : Prop :=
  ∀ out, outputEntry opts entry = some out → f.SiblingsClear (joinedPath outputDir out.name)

/-- Where the output of a member may replace the file, the result redeems it. -/
def Redeemed (f : FileWatch) (R : Bool → Prop) (opts : ToolOptions) (outputDir : CString)
    (entry : ArchiveEntry) : Prop :=
  ∀ out, outputEntry opts entry = some out → opts.mayReplace = true →
    f.leads (joinedPath outputDir out.name) → f.Redeems R

theorem Clear.redeemed {f : FileWatch} {opts : ToolOptions} {outputDir : CString}
    {entry : ArchiveEntry} (h : f.Clear opts outputDir entry) (R : Bool → Prop) :
    f.Redeemed R opts outputDir entry :=
  fun out hout hmay hleads => absurd hleads (h out hout hmay)

end FileWatch

section

variable {f : FileWatch} {α : Type} {Q : α → Prop} {R : Bool → Prop} {opts : ToolOptions}
  {outputDir path tmpPath name : CString} {entry : ArchiveEntry}

theorem ends_tool {Q R : α → Prop} {p : Tool α} (h : f.watch.Ends Q R p) :
    f.job.Ends Q R (Job.tool p) := by
  have hsure : ∀ {p : Tool α}, f.watch.Sure R p → f.job.Sure R (Job.tool p) := by
    intro p hp
    induction p with
    | ret a => exact hp
    | ask c k ih => exact fun x hx => ih x (hp x hx)
  induction p with
  | ret a => exact h
  | ask c k ih =>
    intro x hx hw
    obtain ⟨hharm,hkeep⟩ := h x hx hw
    exact ⟨fun hh => hsure (hharm hh),fun hh => ih x (hkeep hh)⟩

theorem ToolCall.Harmless.spares {c : ToolCall} (h : c.Harmless) (x : c.Answer) :
    ¬f.watch.harms ⟨c,x⟩ := by
  cases c <;> first | exact h.elim | exact id

theorem spares_harmless {p : Tool α} (h : p.All ToolCall.Harmless) :
    f.watch.Spares (fun _ => True) p := by
  apply Watch.spares_of_all
  exact h.mono fun c hc x => hc.spares x

theorem JobCall.Harmless.spares {c : JobCall} (h : c.Harmless) (x : c.Answer) :
    ¬f.job.harms ⟨c,x⟩ := by
  cases c with
  | tool c => exact ToolCall.Harmless.spares (f := f) h x
  | _ => exact id

theorem spares_harmless_job {p : Job α} (h : p.All JobCall.Harmless) :
    f.job.Spares (fun _ => True) p := by
  apply Watch.spares_of_all
  exact h.mono fun c hc x => hc.spares x

/-- A harmless question may stand before anything. -/
theorem ends_harmless {Q R : α → Prop} {c : ToolCall} {k : c.Answer → Tool α} (hc : c.Harmless)
    (hk : ∀ x, f.possible ⟨c,x⟩ → f.whole ⟨c,x⟩ → f.watch.Ends Q R (k x)) :
    f.watch.Ends Q R (.ask c .ret >>= k) :=
  Watch.ends_step (fun x _ _ => hc.spares x) hk

theorem spares_joinPath :
    f.watch.Spares (fun p => ∀ path ∈ p, path = joinedPath outputDir name)
      (joinPath outputDir name) := by
  refine ends_harmless trivial fun got _ _ => ?_
  cases got with
  | true => exact fun path hp => (Option.some.inj hp).symm
  | false => exact fun path hp => nomatch hp

theorem harmless_ensureParentDirs : (ensureParentDirs outputDir name).All ToolCall.Harmless :=
  all_ensureParentDirs (fun _ => trivial) (fun _ _ => trivial) fun _ => trivial

/-- What the checks let pass leads to the watched file only where it may be replaced. -/
theorem spares_checkOutput {guard : Tool Bool} {G : Bool → Prop} (hguard : f.watch.Spares G guard) :
    f.watch.Spares (fun check => check = .proceed → G false ∧ (f.leads path → opts.mayReplace = true))
      (checkOutput opts path guard) := by
  refine ends_harmless trivial fun isDir _ _ => ?_
  cases isDir with
  | true => exact fun h => nomatch h
  | false =>
    apply hguard.bind
    intro guarded hG
    cases guarded with
    | true => exact fun h => nomatch h
    | false =>
      have hskipped : f.watch.Spares
          (fun skipped => skipped = false → opts.skipExistingOutputs = true → ¬f.leads path)
          (if opts.skipExistingOutputs then Tool.pathExists path else pure false) := by
        split
        · intro x _ hw
          refine ⟨fun hh => hh.elim,fun _ hx _ hleads => ?_⟩
          have hxt : x = true := hw hleads
          exact Bool.false_ne_true (hx.symm.trans hxt)
        · next hn => exact fun _ hskip => absurd hskip hn
      have htaken : f.watch.Spares
          (fun taken => taken = false → opts.overwriteOutputs = false → ¬f.leads path)
          (if opts.overwriteOutputs then pure false else Tool.pathExists path) := by
        split
        · next hover => exact fun _ hn => absurd (hn.symm.trans hover) Bool.false_ne_true
        · intro x _ hw
          refine ⟨fun hh => hh.elim,fun _ hx _ hleads => ?_⟩
          have hxt : x = true := hw hleads
          exact Bool.false_ne_true (hx.symm.trans hxt)
      apply hskipped.bind
      intro skipped hskip
      cases skipped with
      | true => exact fun h => nomatch h
      | false =>
        apply htaken.bind
        intro taken htake
        cases taken with
        | true => exact fun h => nomatch h
        | false =>
          cases hdry : opts.dryRunOutputs with
          | true => exact fun h => nomatch h
          | false =>
            intro _
            refine ⟨hG,fun hleads => ?_⟩
            have hover : opts.overwriteOutputs = true := by
              by_contra hn
              exact htake rfl (by simpa using hn) hleads
            have hnoskip : opts.skipExistingOutputs = false := by
              by_contra hn
              exact hskip rfl (by simpa using hn) hleads
            simp [ToolOptions.mayReplace,hover,hdry,hnoskip]

/-- A name that was found free does not lead to the file, and any other is one of the siblings. -/
theorem spares_probeSiblingLoop {t : SiblingTag} {seed left : Nat} {dst : CString}
    (hdst : ∃ slot < 32, dst = siblingPath path t slot) :
    f.watch.Spares (fun r => (r.1 = true → ¬f.leads r.2) ∧ ∃ slot < 32, r.2 = siblingPath path t slot)
      (probeSiblingLoop path t seed left dst) := by
  induction left generalizing dst with
  | zero => exact ⟨fun h => (nomatch h),hdst⟩
  | succ left ih =>
    have hnext : ∃ slot < 32, siblingPath path t ((seed+(31-left))%32) = siblingPath path t slot :=
      ⟨_,Nat.mod_lt _ (by decide),rfl⟩
    refine ends_harmless trivial fun taken _ hw => ?_
    cases taken with
    | true => exact ih hnext
    | false =>
      refine ⟨fun _ hleads => ?_,hnext⟩
      exact Bool.false_ne_true (hw hleads)

theorem spares_probeSibling {t : SiblingTag} :
    f.watch.Spares (fun r => (r.1 = true → ¬f.leads r.2) ∧ ∃ slot < 32, r.2 = siblingPath path t slot)
      (probeSibling path t) := by
  refine ends_harmless trivial fun (seed : Nat) _ _ => ?_
  have hfirst : ∃ slot < 32, siblingPath path t ((seed%32+(31-31))%32) = siblingPath path t slot :=
    ⟨_,Nat.mod_lt _ (by decide),rfl⟩
  refine ends_harmless trivial fun taken _ hw => ?_
  cases taken with
  | true => exact spares_probeSiblingLoop hfirst
  | false =>
    refine ⟨fun _ hleads => ?_,hfirst⟩
    exact Bool.false_ne_true (hw hleads)

/-- What becomes of a file that a staged output replaces is shown by the result. -/
theorem FileWatch.Redeems.told (h : f.Redeems R) : f.Redeems fun ok => ok = true ∧ R ok :=
  {result := ⟨rfl,h.result⟩,renames := h.renames}

theorem sure_installStaged (h : f.Redeems R) {backup : Option CString} :
    f.watch.Sure R (installStaged tmpPath path backup) := by
  intro renamed hrenamed
  obtain rfl : renamed = true := h.renames _ _ _ hrenamed
  cases backup with
  | none => exact h.result
  | some old => exact fun _ _ => h.result

theorem spares_installStaged (htmp : ¬f.leads tmpPath) (hpath : ¬f.leads path)
    {backup : Option CString} (hbackup : ∀ old ∈ backup, ¬f.leads old) :
    f.watch.Spares (fun _ => True) (installStaged tmpPath path backup) := by
  refine Watch.ends_step (fun _ _ _ hh => hh.elim htmp hpath) fun renamed _ _ => ?_
  cases renamed with
  | true =>
    cases backup with
    | none => trivial
    | some old =>
      refine Watch.ends_step (fun _ _ _ hh => ?_) fun _ _ _ => trivial
      exact hbackup old rfl hh
  | false =>
    refine Watch.ends_step (fun _ _ _ hh => htmp hh) fun _ _ _ => ?_
    cases backup with
    | none => trivial
    | some old =>
      refine Watch.ends_step (fun _ _ _ hh => ?_) fun _ _ _ => trivial
      exact hh.elim (hbackup old rfl) hpath

/-- A staged file replaces the watched one only by what the result redeems. -/
theorem ends_replaceWithStaged (htmp : ¬f.leads tmpPath) (hpath : f.leads path → f.Redeems R) :
    f.watch.Ends (fun _ => True) R (replaceWithStaged tmpPath path) := by
  have hdrop : f.watch.Ends (fun _ => True) R (do
      let _ ← Tool.remove tmpPath
      pure false) :=
    Watch.ends_step (fun _ _ _ hh => htmp hh) fun _ _ _ => trivial
  refine ends_harmless trivial fun old _ hw => ?_
  cases old with
  | false =>
    have hnot : ¬f.leads path := fun hleads => Bool.false_ne_true (hw hleads)
    exact (spares_installStaged htmp hnot (fun _ h => (Option.not_mem_none _ h).elim)).ends
      fun _ h => h
  | true =>
    refine ends_harmless trivial fun (got : Bool) _ _ => ?_
    have hprobe : f.watch.Spares (fun r => r.1 = true → ¬f.leads r.2)
        (if got then probeSibling path backupTag else pure (false,[])) := by
      cases got with
      | true => exact Watch.ends_mono spares_probeSibling (fun _ h => h.1) fun _ h => h
      | false => exact fun h => absurd h Bool.false_ne_true
    apply hprobe.bind
    rintro ⟨found,backup⟩ hbackup
    cases found with
    | false => exact hdrop
    | true =>
      intro moved hpossible _
      constructor
      · intro hh
        have hleads : f.leads path := hh.resolve_right (hbackup rfl)
        have hmoved : moved = true := (hpath hleads).renames _ _ _ hpossible
        rw [hmoved]
        change f.watch.Sure R (installStaged tmpPath path (some backup))
        exact sure_installStaged (hpath hleads)
      · intro hh
        have hnot : ¬f.leads path := fun hleads => hh (Or.inl hleads)
        cases moved with
        | false => exact hdrop
        | true =>
          change f.watch.Ends (fun _ => True) R (installStaged tmpPath path (some backup))
          refine (spares_installStaged htmp hnot fun old h => ?_).ends fun _ h => h
          cases h
          exact hbackup rfl

theorem harmless_rangeCopyLoop {inputPath : CString} {file remaining : Nat} {verifyCrc : Bool}
    {rangeCrc : UInt32} :
    (rangeCopyLoop inputPath file verifyCrc remaining rangeCrc).All ToolCall.Harmless := by
  induction remaining using Nat.strong_induction_on generalizing rangeCrc with
  | _ remaining ih =>
    rw [rangeCopyLoop]
    split
    · trivial
    next hmore =>
    have hchunk : 0 < archiveStreamChunk := by decide
    refine Ask.all_step trivial fun stop => ?_
    cases stop with
    | true => trivial
    | false =>
      refine Ask.all_step trivial fun chunk => ?_
      cases chunk with
      | none => trivial
      | some chunk =>
        refine Ask.all_step trivial fun written => ?_
        cases written with
        | false => trivial
        | true => exact ih _ (by split <;> omega)

theorem ends_rangeCopy {inputPath : CString} {verifyCrc : Bool} {file : Nat}
    (htmp : ¬f.leads tmpPath) (hpath : f.leads path → f.Redeems R) :
    f.watch.Ends (fun _ => True) R (rangeCopy entry inputPath path tmpPath verifyCrc file) := by
  have hdrop : f.watch.Ends (fun _ => True) R (do
      let _ ← Tool.remove tmpPath
      pure false) :=
    Watch.ends_step (fun _ _ _ hh => htmp hh) fun _ _ _ => trivial
  refine ends_harmless trivial fun (got : Bool) _ _ => ?_
  have hloop : f.watch.Spares (fun _ => True)
      (if got then rangeCopyLoop inputPath file verifyCrc entry.compressedSize 0
        else pure none) := by
    cases got with
    | true => exact spares_harmless harmless_rangeCopyLoop
    | false => trivial
  apply hloop.bind
  intro copied _
  cases copied with
  | none => exact ends_harmless trivial fun _ _ _ => hdrop
  | some rangeCrc =>
    dsimp only
    split
    · refine ends_harmless trivial fun _ _ _ => ?_
      exact Watch.ends_step (fun _ _ _ hh => htmp hh) fun _ _ _ => hdrop
    · refine ends_harmless trivial fun (closed : Bool) _ _ => ?_
      have hinstall : f.watch.Ends (fun _ => True) (fun ok => ok = true ∧ R ok)
          (if closed then replaceWithStaged tmpPath path else do
            let _ ← Tool.remove tmpPath
            pure false) := by
        cases closed with
        | true => exact ends_replaceWithStaged htmp fun hleads => (hpath hleads).told
        | false => exact Watch.ends_step (fun _ _ _ hh => htmp hh) fun _ _ _ => trivial
      apply Watch.ends_bind hinstall
      · intro installed _
        cases installed with
        | true => trivial
        | false => exact hdrop
      · rintro installed ⟨rfl,hR⟩
        exact hR

/-- Where no name is free, the sibling that was tried last is removed. -/
theorem ends_rangeStaged {inputPath : CString} {verifyCrc : Bool} (hsiblings : f.SiblingsClear path)
    (hpath : f.leads path → f.Redeems R) :
    f.watch.Ends (fun _ => True) R (rangeStaged entry inputPath path verifyCrc) := by
  have hcall : ∀ (c : ToolCall) (h : c.Harmless) (p : Tool c.Answer) (no : c.Answer) (b : Bool),
      p = .ask c .ret → f.watch.Spares (fun _ => True) (if b then p else pure no) := by
    rintro c hc p no b rfl
    cases b with
    | true => exact ends_harmless (k := .ret) hc fun _ _ _ => trivial
    | false => trivial
  refine ends_harmless trivial fun opened _ _ => ?_
  apply (hcall (.seek inputPath entry.dataOffset) trivial _ false opened rfl).bind
  intro sought _
  apply (hcall (.malloc (path.length+16)) trivial _ false sought rfl).bind
  intro got _
  cases got with
  | false => trivial
  | true =>
    apply spares_probeSibling.bind
    rintro ⟨found,tmpPath⟩ ⟨hfree,slot,hslot,hname⟩
    cases found with
    | false =>
      refine Watch.ends_step (fun _ _ _ hh => ?_) fun _ _ _ => trivial
      exact hsiblings slot hslot (hname ▸ hh)
    | true =>
      have htmp : ¬f.leads tmpPath := hfree rfl
      refine Watch.ends_step (fun _ _ _ hh => htmp hh.1) fun output _ _ => ?_
      cases output with
      | none => exact Watch.ends_step (fun _ _ _ hh => htmp hh) fun _ _ _ => trivial
      | some file => exact ends_rangeCopy htmp hpath

/-- The guard that compares the output with the archive lets no output pass that may be replaced and
of which it is told that it is the archive. -/
theorem spares_archiveGuard {archivePath : CString} :
    f.watch.Spares (fun guarded => guarded = false → opts.mayReplace = true →
      f.possible ⟨.sameFile archivePath path,false⟩) (archiveGuard opts archivePath path) := by
  unfold archiveGuard
  split
  · intro same hpossible _
    refine ⟨fun hh => hh.elim,fun _ hsame _ => ?_⟩
    subst hsame
    exact hpossible
  · next hnot =>
    intro _ hmay
    simp only [ToolOptions.mayReplace,decide_eq_true_eq] at hmay
    exact absurd hmay hnot

/-- A stored member replaces the watched file only where it may, where the guard does not know the
file for the archive, and where the result redeems it. -/
theorem ends_writeFileRangeEntry {inputPath : CString} {verifyCrc : Bool}
    (hsiblings : f.TemporariesClear opts outputDir entry)
    (hpath : ∀ out, outputEntry opts entry = some out → opts.mayReplace = true →
      f.leads (joinedPath outputDir out.name) →
      f.possible ⟨.sameFile inputPath (joinedPath outputDir out.name),false⟩ → f.Redeems R) :
    f.watch.Ends (fun _ => True) R (writeFileRangeEntry opts outputDir entry inputPath verifyCrc) := by
  unfold writeFileRangeEntry
  split
  · trivial
  split
  · trivial
  next out hout =>
  split
  · trivial
  refine spares_joinPath.bind fun joined hjoined => ?_
  cases joined with
  | none => trivial
  | some path =>
    obtain rfl : path = joinedPath outputDir out.name := hjoined path rfl
    refine (spares_checkOutput spares_archiveGuard).bind fun check hcheck => ?_
    cases check with
    | refuse => trivial
    | skip => trivial
    | dryRun => trivial
    | proceed =>
      obtain ⟨hguard,hmay⟩ := hcheck rfl
      refine (spares_harmless harmless_ensureParentDirs).bind fun parents _ => ?_
      cases parents with
      | false => trivial
      | true =>
        refine ends_rangeStaged (hsiblings out hout) fun hleads => ?_
        exact hpath out hout (hmay hleads) hleads (hguard rfl (hmay hleads))

theorem spares_openDiscard (hdiscard : ¬f.leads opts.platform.discard) {skipped dryRun : Bool} :
    f.watch.Spares (fun opened => ∀ o ∈ opened, o.staged = none) (openDiscard opts skipped dryRun) := by
  refine Watch.ends_step (fun _ _ _ hh => hdiscard hh.1) fun file _ _ => ?_
  cases file with
  | none => exact fun o h => (Option.not_mem_none _ h).elim
  | some file =>
    intro o ho
    cases ho
    rfl

/-- What opens an output does no harm if what opens its path does none where it may be replaced. -/
theorem spares_openOutput {openPath : CString → Tool (Option OpenedOutput)}
    {Q : Option OpenedOutput → Prop} (hdiscard : ¬f.leads opts.platform.discard)
    (hnone : Q none) (hdevice : ∀ o : OpenedOutput, o.staged = none → Q (some o))
    (hopen : ∀ out, outputEntry opts entry = some out →
      (f.leads (joinedPath outputDir out.name) → opts.mayReplace = true) →
      f.watch.Spares Q (openPath (joinedPath outputDir out.name))) :
    f.watch.Spares Q (openOutput opts outputDir entry openPath) := by
  have hdiscarded : ∀ skipped dryRun, f.watch.Spares Q (openDiscard opts skipped dryRun) := by
    intro skipped dryRun
    refine Watch.ends_mono (spares_openDiscard hdiscard) (fun opened h => ?_) fun _ h => h
    cases opened with
    | none => exact hnone
    | some o => exact hdevice o (h o rfl)
  unfold openOutput
  split
  · exact hdiscarded true false
  next out hout =>
  split
  · exact hnone
  refine spares_joinPath.bind fun joined hjoined => ?_
  cases joined with
  | none => exact hnone
  | some path =>
    obtain rfl : path = joinedPath outputDir out.name := hjoined path rfl
    have hguard : f.watch.Spares (fun _ => True) (pure false : Tool Bool) := trivial
    refine (spares_checkOutput hguard).bind fun check hcheck => ?_
    cases check with
    | refuse => exact hnone
    | skip => exact hdiscarded true false
    | dryRun => exact hdiscarded false true
    | proceed =>
      refine (spares_harmless harmless_ensureParentDirs).bind fun parents _ => ?_
      cases parents with
      | false => exact hnone
      | true => exact hopen out hout (hcheck rfl).2

/-- An output that is written itself is not the watched file, or harm is done when it is opened. -/
theorem spares_openOutputEntry (hdiscard : ¬f.leads opts.platform.discard)
    (hclear : f.Clear opts outputDir entry) :
    f.watch.Spares (fun opened => ∀ o ∈ opened, o.staged = none)
      (openOutputEntry opts outputDir entry) := by
  apply spares_openOutput hdiscard
  · exact fun o h => (Option.not_mem_none _ h).elim
  · intro o ho x hx
    cases hx
    exact ho
  · intro out hout hmay
    refine Watch.ends_step (fun _ _ _ hh => ?_) fun file _ _ => ?_
    · exact hclear out hout (hmay hh.1) hh.1
    · cases file with
      | none => exact fun o h => (Option.not_mem_none _ h).elim
      | some file =>
        intro o ho
        cases ho
        rfl

/-- The temporary of a staged output does not lead to the watched file, and where the output does, it
may be replaced. -/
def StagedApart (f : FileWatch) (opts : ToolOptions) (outputDir : CString) (entry : ArchiveEntry)
    (o : OpenedOutput) : Prop :=
  ∀ finalPath tmpPath, o.staged = some (finalPath,tmpPath) → ¬f.leads tmpPath ∧
    (f.leads finalPath → opts.mayReplace = true) ∧
    ∃ out, outputEntry opts entry = some out ∧ finalPath = joinedPath outputDir out.name

theorem spares_openOutputStaged (hdiscard : ¬f.leads opts.platform.discard) :
    f.watch.Spares (fun opened => ∀ o ∈ opened, StagedApart f opts outputDir entry o)
      (openOutputStaged opts outputDir entry) := by
  apply spares_openOutput hdiscard
  · exact fun o h => (Option.not_mem_none _ h).elim
  · intro o ho x hx finalPath tmpPath hstaged
    cases hx
    exact absurd (ho.symm.trans hstaged) (Option.some_ne_none _).symm
  · intro out hout hmay
    refine ends_harmless trivial fun (got : Bool) _ _ => ?_
    have hprobe : f.watch.Spares (fun r => r.1 = true → ¬f.leads r.2)
        (if got then probeSibling (joinedPath outputDir out.name) tmpTag else pure (false,[])) := by
      cases got with
      | true => exact Watch.ends_mono spares_probeSibling (fun _ h => h.1) fun _ h => h
      | false => exact fun h => absurd h Bool.false_ne_true
    apply hprobe.bind
    rintro ⟨found,tmpPath⟩ hfree
    cases found with
    | false => exact fun o h => (Option.not_mem_none _ h).elim
    | true =>
      refine Watch.ends_step (fun _ _ _ hh => hfree rfl hh.1) fun file _ _ => ?_
      cases file with
      | none => exact fun o h => (Option.not_mem_none _ h).elim
      | some file =>
        intro o ho
        cases ho
        intro finalPath tmp hstaged
        cases hstaged
        exact ⟨hfree rfl,hmay,out,hout,rfl⟩

/-- Closing a staged output harms the watched file only by what the result redeems. -/
theorem ends_closeStaged {o : OpenedOutput} {ok : Bool}
    (h : ∀ finalPath tmpPath, o.staged = some (finalPath,tmpPath) → ¬f.leads tmpPath ∧
      (f.leads finalPath → f.Redeems R)) :
    f.watch.Ends (fun _ => True) R (closeStaged o ok) := by
  refine ends_harmless trivial fun closed _ _ => ?_
  cases hstaged : o.staged with
  | none => trivial
  | some staged =>
    obtain ⟨finalPath,tmpPath⟩ := staged
    obtain ⟨htmp,hfinal⟩ := h finalPath tmpPath hstaged
    dsimp only
    split
    · exact ends_replaceWithStaged htmp hfinal
    · exact Watch.ends_step (fun _ _ _ hh => htmp hh) fun _ _ _ => trivial

end

end ZZ9K.Archive
