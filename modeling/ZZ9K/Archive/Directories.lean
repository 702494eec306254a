import ZZ9K.Archive.OutputPaths

namespace ZZ9K.Archive

open ZZ9K.Framework

/-- What a name of the file system stands for -/
inductive Node
  | absent
  | file
  | directory
  deriving DecidableEq

/-- What making a directory leaves of a name -/
def Node.made (node : Node) : MakeDirResult → Node
  | .made => directory
  | _ => node

/-- What opening a file for writing leaves of a name -/
def Node.opened (node : Node) : Option Nat → Node
  | some _ => file
  | none => node

/-- What removing leaves of a name -/
def Node.removed (node : Node) : Bool → Node
  | true => absent
  | false => node

section

variable {K : Type} [DecidableEq K]

/-- The tree after a renaming -/
def renamed (tree : K → Node) (a b : K) : Bool → K → Node
  | true => Function.update (Function.update tree a .absent) b (tree a)
  | false => tree

/-- The output tree while the tool runs; `resolve` says which object a path means. A question about
the tree is answered as the tree is; to make or open anything may fail at any time. -/
abbrev treeWorld (resolve : CString → K) : World ToolCall ToolCall.Answer where
  State := K → Node
  allowed tree
    | ⟨.pathExists path,x⟩ => x = true ↔ tree (resolve path) ≠ .absent
    | ⟨.pathIsDir path,x⟩ => x = true ↔ tree (resolve path) = .directory
    | ⟨.makeDir path,x⟩ => x = .made → tree (resolve path) = .absent
    | ⟨.openWrite path,x⟩ => x.isSome = true → tree (resolve path) ≠ .directory
    | _ => True
  next tree
    | ⟨.makeDir path,x⟩ => Function.update tree (resolve path) ((tree (resolve path)).made x)
    | ⟨.openWrite path,x⟩ => Function.update tree (resolve path) ((tree (resolve path)).opened x)
    | ⟨.rename a b,x⟩ => renamed tree (resolve a) (resolve b) x
    | ⟨.remove path,x⟩ => Function.update tree (resolve path) ((tree (resolve path)).removed x)
    | _ => tree

end

/-- Where an entry goes, without a slash at the end -/
def outputPath (opts : ToolOptions) (outputDir : CString) (entry : ArchiveEntry) : CString :=
  trimTrailingSeparators (joinedPath outputDir (stripEntryName opts.stripComponents entry.name))

/-- In every output tree: no file comes into being for the entry, what the data pointer points to is
of no account, and where the writer succeeds (it has something to write, writes at all, and does
not leave an existing file as it is) there is a directory in the end. -/
structure DirectoryStays (opts : ToolOptions) (outputDir : CString) (entry : ArchiveEntry) :
    Prop where
  noFile : ∀ (K : Type) [DecidableEq K] (resolve : CString → K) (data : Bytes) (tree after : K → Node)
    (ok : Bool), (treeWorld resolve).Reaches (writeEntry opts outputDir entry data) tree ok after →
    ∀ k, after k = .file → tree k = .file
  dataUnread : ∀ (K : Type) [DecidableEq K] (resolve : CString → K) (data other : Bytes)
    (tree after : K → Node) (ok : Bool),
    (treeWorld resolve).Reaches (writeEntry opts outputDir entry data) tree ok after →
    (treeWorld resolve).Reaches (writeEntry opts outputDir entry other) tree ok after
  directory : ∀ (K : Type) [DecidableEq K] (resolve : CString → K) (data : Bytes)
    (tree after : K → Node), opts.dryRunOutputs = false →
    stripEntryName opts.stripComponents entry.name ≠ [] →
    ¬(opts.skipExistingOutputs = true ∧ tree (resolve (outputPath opts outputDir entry)) = .file) →
    (treeWorld resolve).Reaches (writeEntry opts outputDir entry data) tree true after →
    after (resolve (outputPath opts outputDir entry)) = .directory

/-- The questions that make no file -/
def ToolCall.MakesNoFile : ToolCall → Prop
  | openWrite _ => False
  | rename _ _ => False
  | remove _ => False
  | _ => True

section

variable {K : Type} [DecidableEq K] {resolve : CString → K} {opts : ToolOptions}
  {outputDir path name : CString} {entry : ArchiveEntry} {tree after : K → Node}

/-- Files of the tree were there before. -/
def NoNewFile (tree after : K → Node) : Prop := ∀ k,after k = .file → tree k = .file

theorem noNewFile_next {c : ToolCall} {x : c.Answer} (hc : c.MakesNoFile)
    (h : NoNewFile tree after) : NoNewFile tree ((treeWorld resolve).next after ⟨c,x⟩) := by
  cases c with
  | makeDir path =>
    intro k hk
    have hk : Function.update after (resolve path) ((after (resolve path)).made x) k = .file := hk
    by_cases hkey : k = resolve path
    · rw [hkey,Function.update_self] at hk
      have hsame : (after (resolve path)).made x = after (resolve path) := by
        revert hk
        cases (show MakeDirResult from x) with
        | made => exact fun h => nomatch h
        | taken => exact fun _ => rfl
        | failed => exact fun _ => rfl
      rw [hsame] at hk
      rw [hkey]
      exact h _ hk
    · rw [Function.update_of_ne hkey] at hk
      exact h k hk
  | openWrite path => exact hc.elim
  | rename a b => exact hc.elim
  | remove path => exact hc.elim
  | _ => exact h

/-- A program whose questions make no file leaves no file that was not there. -/
theorem noNewFile_of_all {α : Type} {p : Tool α} (hp : p.All ToolCall.MakesNoFile)
    {ok : α} (h : (treeWorld resolve).Reaches p tree ok after) : NoNewFile tree after := by
  have hwp : (treeWorld resolve).wp p (fun _ t => NoNewFile tree t) tree :=
    (treeWorld resolve).wp_invariant (fun t c x hc ht _ => noNewFile_next hc ht) hp
      fun k hk => hk
  exact World.wp_reaches hwp h

theorem mkdirOne_makesNoFile (path : CString) : (mkdirOne path).All ToolCall.MakesNoFile := by
  unfold mkdirOne
  split
  · trivial
  · refine Ask.all_step trivial fun result => ?_
    cases result with
    | made => trivial
    | taken => exact ⟨trivial,fun _ => trivial⟩
    | failed => trivial

theorem ensureParentDirsLoop_makesNoFile (before rest : CString) :
    (ensureParentDirsLoop before rest).All ToolCall.MakesNoFile := by
  induction rest generalizing before with
  | nil => trivial
  | cons c rest ih =>
    unfold ensureParentDirsLoop
    split
    · apply Ask.all_bind (mkdirOne_makesNoFile before)
      intro made
      cases made with
      | true => exact ih (before++[c])
      | false => trivial
    · exact ih (before++[c])

theorem ensureParentDirs_makesNoFile (outputDir name : CString) :
    (ensureParentDirs outputDir name).All ToolCall.MakesNoFile := by
  refine Ask.all_step trivial fun got => ?_
  cases got with
  | true => exact ensureParentDirsLoop_makesNoFile [] _
  | false => trivial

/-- What the checks on a directory say: nothing is asked that changes the tree, and without a dry run
it is refused or made. -/
theorem checkEntry_directory (tree : K → Node) : (treeWorld resolve).wp (checkEntry opts path true)
    (fun check after => after = tree ∧ (opts.dryRunOutputs = true → check ≠ .proceed) ∧
      (opts.dryRunOutputs = false → check = .refuse ∨ check = .proceed)) tree := by
  have hlast : (treeWorld resolve).wp
      (if opts.dryRunOutputs then pure .dryRun else pure .proceed : Tool OutputCheck)
      (fun check after => after = tree ∧ (opts.dryRunOutputs = true → check ≠ .proceed) ∧
        (opts.dryRunOutputs = false → check = .refuse ∨ check = .proceed)) tree := by
    cases opts.dryRunOutputs with
    | true => exact ⟨rfl,fun _ => nofun,nofun⟩
    | false => exact ⟨rfl,nofun,fun _ => .inr rfl⟩
  intro taken _
  cases taken with
  | false => exact hlast
  | true =>
    intro dir _
    cases dir with
    | false => exact ⟨rfl,fun _ => nofun,fun _ => .inl rfl⟩
    | true => exact hlast

theorem checkOutput_unguarded : checkOutput opts path (pure false) = (do
    let isDir ← Tool.pathIsDir path
    if isDir then pure .refuse
    else do
      let skipped ← (if opts.skipExistingOutputs then Tool.pathExists path else pure false)
      if skipped then pure .skip
      else do
        let taken ← (if opts.overwriteOutputs then pure false else Tool.pathExists path)
        if taken then pure .refuse
        else if opts.dryRunOutputs then pure .dryRun
        else pure .proceed) := by
  unfold checkOutput
  simp only [Ask.pure_eq,Ask.ret_bind,Bool.false_eq_true,if_false]

/-- The checks on a file change nothing either. -/
theorem checkOutput_keeps (tree : K → Node) : (treeWorld resolve).wp
    (checkOutput opts path (pure false))
    (fun check after => after = tree ∧ (opts.dryRunOutputs = true → check ≠ .proceed)) tree := by
  rw [checkOutput_unguarded]
  intro isDir _
  cases isDir with
  | true => exact ⟨rfl,fun _ => nofun⟩
  | false =>
    have hask : ∀ b : Bool,(treeWorld resolve).wp
        (if b then Tool.pathExists path else pure false : Tool Bool) (fun _ after => after = tree)
        tree := by
      intro b
      cases b with
      | true => exact fun _ _ => rfl
      | false => rfl
    have hask' : ∀ b : Bool,(treeWorld resolve).wp
        (if b then pure false else Tool.pathExists path : Tool Bool) (fun _ after => after = tree)
        tree := by
      intro b
      cases b with
      | true => rfl
      | false => exact fun _ _ => rfl
    refine ((treeWorld resolve).wp_bind (p := .ret false)).mpr ?_
    refine ((treeWorld resolve).wp_bind).mpr
      ((treeWorld resolve).wp_mono (hask opts.skipExistingOutputs) ?_)
    rintro skipped _ rfl
    cases skipped with
    | true => exact ⟨rfl,fun _ => nofun⟩
    | false =>
      refine ((treeWorld resolve).wp_bind).mpr
        ((treeWorld resolve).wp_mono (hask' opts.overwriteOutputs) ?_)
      rintro taken _ rfl
      cases taken with
      | true => exact ⟨rfl,fun _ => nofun⟩
      | false =>
        cases opts.dryRunOutputs with
        | true => exact ⟨rfl,fun _ => nofun⟩
        | false => exact ⟨rfl,nofun⟩

theorem checkEntry_keeps (isDir : Bool) (tree : K → Node) : (treeWorld resolve).wp
    (checkEntry opts path isDir)
    (fun check after => after = tree ∧ (opts.dryRunOutputs = true → check ≠ .proceed)) tree := by
  cases isDir with
  | true =>
    exact (treeWorld resolve).wp_mono (checkEntry_directory tree) fun _ _ h => ⟨h.1,h.2.1⟩
  | false => exact checkOutput_keeps tree

/-- A directory that is made or found there is there. -/
theorem mkdirOne_directory (hpath : path ≠ []) (tree : K → Node) : (treeWorld resolve).wp
    (mkdirOne path) (fun ok after => ok = true → after (resolve path) = .directory) tree := by
  unfold mkdirOne
  rw [if_neg hpath]
  intro result _
  cases result with
  | made =>
    intro _
    exact Function.update_self ..
  | taken => exact fun dir hdir hok => hdir.mp hok
  | failed => exact nofun

/-- What the writer does with a path that passed the checks -/
def writeChecked (opts : ToolOptions) (outputDir path : CString) (out : ArchiveEntry) (data : Bytes) :
    OutputCheck → Tool Bool
  | .refuse => pure false
  | .skip => pure true
  | .dryRun => pure true
  | .proceed => do
    let parents ← ensureParentDirs outputDir out.name
    if parents = false then pure false
    else if out.isDir then mkdirOne path
    else writeFile opts path (data.take out.uncompressedSize)

/-- What the writer does with the joined path -/
def writeJoined (opts : ToolOptions) (outputDir : CString) (out : ArchiveEntry) (data : Bytes) :
    Option CString → Tool Bool
  | none => pure false
  | some joined => do
    let path := if out.isDir then trimTrailingSeparators joined else joined
    let check ← checkEntry opts path out.isDir
    writeChecked opts outputDir path out data check

variable {out : ArchiveEntry}

theorem writeEntry_safe (hout : outputEntry opts entry = some out)
    (hsafe : pathIsSafe out.name = true) (data : Bytes) :
    writeEntry opts outputDir entry data =
      joinPath outputDir out.name >>= writeJoined opts outputDir out data := by
  unfold writeEntry
  rw [hout]
  dsimp only
  rw [hsafe,if_neg (by decide)]
  refine congrArg (joinPath outputDir out.name >>= ·) (funext fun joined => ?_)
  cases joined with
  | none => rfl
  | some joined =>
    refine congrArg (checkEntry opts _ out.isDir >>= ·) (funext fun check => ?_)
    cases check <;> rfl

/-- The joined path, or none if there is no memory for it -/
theorem joinPath_wp (tree : K → Node) : (treeWorld resolve).wp (joinPath outputDir name)
    (fun joined after => after = tree ∧
      ∀ path,joined = some path → path = joinedPath outputDir name) tree := by
  intro got _
  cases got with
  | true => exact ⟨rfl,fun _ h => (Option.some.inj h).symm⟩
  | false => exact ⟨rfl,fun _ => nofun⟩

/-- In a dry run nothing is written, whatever the data. -/
theorem writeEntry_dryRun (hout : outputEntry opts entry = some out)
    (hsafe : pathIsSafe out.name = true) (hdry : opts.dryRunOutputs = true) (data other : Bytes)
    (tree : K → Node) :
    (treeWorld resolve).wp (writeEntry opts outputDir entry data) (fun _ after => after = tree) tree ∧
    ∀ ok after, (treeWorld resolve).Reaches (writeEntry opts outputDir entry data) tree ok after →
      (treeWorld resolve).Reaches (writeEntry opts outputDir entry other) tree ok after := by
  rw [writeEntry_safe hout hsafe,writeEntry_safe hout hsafe]
  constructor
  · refine ((treeWorld resolve).wp_bind).mpr ((treeWorld resolve).wp_mono (joinPath_wp tree) ?_)
    rintro joined _ ⟨rfl,-⟩
    cases joined with
    | none => rfl
    | some joined =>
      refine ((treeWorld resolve).wp_bind).mpr
        ((treeWorld resolve).wp_mono (checkEntry_keeps out.isDir _) ?_)
      rintro check _ ⟨rfl,hcheck⟩
      cases check with
      | proceed => exact absurd rfl (hcheck hdry)
      | _ => rfl
  · intro ok after hreach
    refine World.reaches_onward ?_ hreach
    refine (treeWorld resolve).wp_mono (joinPath_wp tree) ?_
    rintro joined _ ⟨rfl,-⟩ hreach
    cases joined with
    | none => exact hreach
    | some joined =>
      refine World.reaches_onward ?_ hreach
      refine (treeWorld resolve).wp_mono (checkEntry_keeps out.isDir _) ?_
      rintro check _ ⟨rfl,hcheck⟩ hreach
      cases check with
      | proceed => exact absurd rfl (hcheck hdry)
      | _ => exact hreach

theorem checkEntry_makesNoFile : (checkEntry opts path true).All ToolCall.MakesNoFile := by
  refine Ask.all_step trivial fun taken => ?_
  cases taken with
  | false => cases opts.dryRunOutputs <;> trivial
  | true =>
    refine Ask.all_step trivial fun dir => ?_
    cases dir with
    | false => trivial
    | true => cases opts.dryRunOutputs <;> trivial

theorem writeEntry_makesNoFile (hout : outputEntry opts entry = some out)
    (hsafe : pathIsSafe out.name = true) (hdir : out.isDir = true) (data : Bytes) :
    (writeEntry opts outputDir entry data).All ToolCall.MakesNoFile := by
  rw [writeEntry_safe hout hsafe]
  refine Ask.all_bind ⟨trivial,fun _ => trivial⟩ fun joined => ?_
  cases joined with
  | none => trivial
  | some joined =>
    unfold writeJoined
    rw [hdir]
    refine Ask.all_bind checkEntry_makesNoFile fun check => ?_
    cases check with
    | proceed =>
      refine Ask.all_bind (ensureParentDirs_makesNoFile _ _) fun parents => ?_
      cases parents with
      | false => trivial
      | true =>
        rw [hdir]
        exact mkdirOne_makesNoFile _
    | _ => trivial

/-- A directory has no data. -/
theorem writeEntry_unread (hout : outputEntry opts entry = some out)
    (hsafe : pathIsSafe out.name = true) (hdir : out.isDir = true) (data other : Bytes) :
    writeEntry opts outputDir entry data = writeEntry opts outputDir entry other := by
  have hchecked : ∀ path,writeChecked opts outputDir path out data =
      writeChecked opts outputDir path out other := by
    intro path
    funext check
    cases check with
    | proceed =>
      unfold writeChecked
      rw [hdir]
      rfl
    | _ => rfl
  have hjoined : writeJoined opts outputDir out data = writeJoined opts outputDir out other := by
    funext joined
    cases joined with
    | none => rfl
    | some joined =>
      unfold writeJoined
      simp only [hchecked]
  rw [writeEntry_safe hout hsafe,writeEntry_safe hout hsafe,hjoined]

theorem writeEntry_directory (hout : outputEntry opts entry = some out)
    (hsafe : pathIsSafe out.name = true) (hdir : out.isDir = true)
    (hdry : opts.dryRunOutputs = false) (data : Bytes) (tree : K → Node) :
    (treeWorld resolve).wp (writeEntry opts outputDir entry data) (fun ok after => ok = true →
      after (resolve (trimTrailingSeparators (joinedPath outputDir out.name))) = .directory) tree := by
  have hpath : trimTrailingSeparators (joinedPath outputDir out.name) ≠ [] := by
    obtain ⟨sep,name,-,hname,hjoined⟩ :=
      trimTrailingSeparators_safe (show SafePath outputDir (joinedPath outputDir out.name) from
        joinedPath_safe (pathIsSafe_name hsafe))
    rw [hjoined]
    simp [hname.nonempty]
  rw [writeEntry_safe hout hsafe]
  refine ((treeWorld resolve).wp_bind).mpr ((treeWorld resolve).wp_mono (joinPath_wp tree) ?_)
  rintro joined _ ⟨rfl,hjoined⟩
  cases joined with
  | none => exact nofun
  | some joined =>
    rw [hjoined joined rfl]
    unfold writeJoined
    rw [hdir]
    refine ((treeWorld resolve).wp_bind).mpr
      ((treeWorld resolve).wp_mono (checkEntry_directory _) ?_)
    rintro check _ ⟨rfl,-,hcheck⟩
    rcases hcheck hdry with rfl | rfl
    · exact nofun
    · refine ((treeWorld resolve).wp_bind).mpr ((treeWorld resolve).wp_always ?_ _)
      intro parents after
      cases parents with
      | false => exact nofun
      | true =>
        rw [hdir]
        exact mkdirOne_directory hpath after

/-- The parent directories that are there already are no obstacle. -/
theorem ensureParentDirsLoop_reaches (tree : K → Node) (before rest : CString)
    (h : ∀ path,path <+: before++rest → path ≠ before++rest → tree (resolve path) = .directory) :
    (treeWorld resolve).Reaches (ensureParentDirsLoop before rest) tree true tree := by
  induction rest generalizing before with
  | nil => exact (treeWorld resolve).reaches_ret true tree
  | cons c rest ih =>
    have hrest := ih (before++[c]) (by rw [List.append_assoc]; exact h)
    unfold ensureParentDirsLoop
    split
    · next hsep =>
      have hthere : tree (resolve before) = .directory := by
        refine h before (List.prefix_append _ _) fun heq => ?_
        have hlength := congrArg List.length heq
        rw [List.length_append,List.length_cons] at hlength
        omega
      refine World.reaches_bind (t := tree) (a := true) ?_ (by rw [if_pos rfl]; exact hrest)
      unfold mkdirOne
      rw [if_neg hsep.2.1]
      have hkept : (treeWorld resolve).next tree ⟨.makeDir before,MakeDirResult.taken⟩ = tree :=
        Function.update_eq_self ..
      refine World.reaches_ask MakeDirResult.taken (by simp) ?_
      rw [hkept]
      exact World.reaches_ask true (iff_of_true rfl hthere) ((treeWorld resolve).reaches_ret true tree)
    · exact hrest

theorem checkOutput_reaches (hdry : opts.dryRunOutputs = false)
    (habsent : tree (resolve path) = .absent) :
    (treeWorld resolve).Reaches (checkOutput opts path (pure false)) tree .proceed tree := by
  have hexists : ¬tree (resolve path) ≠ .absent := not_not.mpr habsent
  rw [checkOutput_unguarded,hdry]
  refine World.reaches_ask false (iff_of_false nofun (by rw [habsent]; exact nofun)) ?_
  refine World.reaches_bind (p := .ret false) ((treeWorld resolve).reaches_ret false tree) ?_
  refine World.reaches_bind (t := tree) (a := false) ?_ ?_
  · cases opts.skipExistingOutputs with
    | true =>
      exact World.reaches_ask false (iff_of_false nofun hexists) ((treeWorld resolve).reaches_ret false tree)
    | false => exact (treeWorld resolve).reaches_ret false tree
  refine World.reaches_bind (t := tree) (a := false) ?_ (by
    simp only [Bool.false_eq_true,if_false]
    exact (treeWorld resolve).reaches_ret OutputCheck.proceed tree)
  cases opts.overwriteOutputs with
  | true => exact (treeWorld resolve).reaches_ret false tree
  | false =>
    exact World.reaches_ask false (iff_of_false nofun hexists) ((treeWorld resolve).reaches_ret false tree)

/-- Without a slash at its end a name becomes a file: for instance where the parent directories are
there and nothing else. -/
theorem writeEntry_file (hout : outputEntry opts entry = some out)
    (hsafe : pathIsSafe out.name = true) (hdir : out.isDir = false)
    (hdry : opts.dryRunOutputs = false) (data : Bytes) (tree : K → Node)
    (habsent : tree (resolve (joinedPath outputDir out.name)) = .absent)
    (hparents : ∀ path,path <+: joinedPath outputDir out.name →
      path ≠ joinedPath outputDir out.name → tree (resolve path) = .directory) :
    (treeWorld resolve).Reaches (writeEntry opts outputDir entry data) tree true
      (Function.update tree (resolve (joinedPath outputDir out.name)) .file) := by
  have hjoin : (treeWorld resolve).Reaches (joinPath outputDir out.name) tree
      (some (joinedPath outputDir out.name)) tree :=
    World.reaches_ask true trivial ((treeWorld resolve).reaches_ret _ tree)
  have hopened : (treeWorld resolve).allowed tree
      ⟨.openWrite (joinedPath outputDir out.name),(some 0 : Option Nat)⟩ := by
    intro _
    rw [habsent]
    exact nofun
  rw [writeEntry_safe hout hsafe]
  refine World.reaches_bind hjoin ?_
  unfold writeJoined
  rw [hdir]
  simp only [Bool.false_eq_true,if_false]
  refine World.reaches_bind (checkOutput_reaches hdry habsent) ?_
  refine World.reaches_bind (t := tree) (a := true) ?_ ?_
  · exact World.reaches_bind hjoin (ensureParentDirsLoop_reaches tree [] _ hparents)
  rw [hdir]
  simp only [Bool.true_eq_false,Bool.false_eq_true,if_false]
  refine World.reaches_bind (checkOutput_reaches hdry habsent) ?_
  refine World.reaches_ask (some 0) hopened ?_
  refine World.reaches_bind (t := Function.update tree
    (resolve (joinedPath outputDir out.name)) .file) (a := true) ?_ ?_
  · by_cases hempty : data.take out.uncompressedSize = []
    · simp only [hempty,if_true]
      exact (treeWorld resolve).reaches_ret true _
    · simp only [hempty,if_false]
      exact World.reaches_ask true trivial ((treeWorld resolve).reaches_ret true _)
  · exact World.reaches_ask true trivial ((treeWorld resolve).reaches_ret true _)

theorem stripComponentsLoop_suffix (n : Nat) (name : CString) :
    (stripComponentsLoop n name).2 <:+ name := by
  induction n generalizing name with
  | zero => exact List.suffix_rfl
  | succ n ih =>
    unfold stripComponentsLoop
    split
    · exact List.suffix_rfl
    · have hdropped : (name.dropWhile (· = slash)).dropWhile (· ≠ slash) <:+ name :=
        (List.dropWhile_suffix _).trans (List.dropWhile_suffix _)
      split
      · exact List.nil_suffix
      · next rest hrest =>
        rw [hrest] at hdropped
        exact (ih rest).trans ((List.suffix_cons _ rest).trans hdropped)

theorem stripEntryName_suffix (n : Nat) (name : CString) : stripEntryName n name <:+ name := by
  unfold stripEntryName
  split_ifs with hzero
  · exact List.suffix_rfl
  · dsimp only
    split
    · exact (List.dropWhile_suffix _).trans (stripComponentsLoop_suffix n name)
    · exact List.nil_suffix

/-- A stripped name makes an entry of its own, which is a directory if it ends with a slash. -/
theorem outputEntry_some (hname : entry.name.length < archiveMaxName)
    (h : stripEntryName opts.stripComponents entry.name ≠ []) :
    outputEntry opts entry = some {entry with
      name := stripEntryName opts.stripComponents entry.name
      isDir := nameEndsWithSlash (stripEntryName opts.stripComponents entry.name) } := by
  have hle := (stripEntryName_suffix opts.stripComponents entry.name).length_le
  have hshort : ¬(stripEntryName opts.stripComponents entry.name = [] ∨
      archiveMaxName ≤ (stripEntryName opts.stripComponents entry.name).length) := by
    rw [not_or]
    exact ⟨h,by omega⟩
  unfold outputEntry
  rw [if_neg hshort]

end

/-- A directory of an archive stays one in every output tree just when nothing is left of its name,
the name is refused, nothing is to be written, or the name still ends with a slash: its own
`is_dir` is of no account. -/
theorem writeEntry_directories (opts : ToolOptions) (outputDir : CString) (entry : ArchiveEntry)
    (_ : entry.isDir = true) (hname : entry.name.length < archiveMaxName) :
    DirectoryStays opts outputDir entry ↔
      stripEntryName opts.stripComponents entry.name = [] ∨
      pathIsSafe (stripEntryName opts.stripComponents entry.name) = false ∨
      opts.dryRunOutputs = true ∨
      nameEndsWithSlash (stripEntryName opts.stripComponents entry.name) = true := by
  by_cases hempty : stripEntryName opts.stripComponents entry.name = []
  · have hprogram : ∀ data,writeEntry opts outputDir entry data = .ret true := by
      intro data
      unfold writeEntry outputEntry
      rw [if_pos (Or.inl hempty)]
      rfl
    refine iff_of_true ⟨?_,?_,?_⟩ (.inl hempty)
    · intro K _ resolve data tree after ok h
      rw [hprogram] at h
      exact noNewFile_of_all (p := .ret _) trivial h
    · intro K _ resolve data other tree after ok h
      rw [hprogram] at h ⊢
      exact h
    · intro K _ resolve data tree after _ hne
      exact absurd hempty hne
  have hout := outputEntry_some hname hempty
  cases hsafe : pathIsSafe (stripEntryName opts.stripComponents entry.name) with
  | false =>
    have hprogram : ∀ data,writeEntry opts outputDir entry data = .ret false := by
      intro data
      unfold writeEntry
      rw [hout]
      dsimp only
      rw [if_pos hsafe]
      rfl
    refine iff_of_true ⟨?_,?_,?_⟩ (.inr (.inl rfl))
    · intro K _ resolve data tree after ok h
      rw [hprogram] at h
      exact noNewFile_of_all (p := .ret _) trivial h
    · intro K _ resolve data other tree after ok h
      rw [hprogram] at h ⊢
      exact h
    · intro K _ resolve data tree after _ _ _ h
      rw [hprogram] at h
      have hfalse : (treeWorld resolve).wp (.ret false : Tool Bool) (fun ok _ => ok = false) tree :=
        rfl
      exact nomatch World.wp_reaches hfalse h
  | true =>
    cases hdry : opts.dryRunOutputs with
    | true =>
      refine iff_of_true ⟨?_,?_,?_⟩ (.inr (.inr (.inl rfl)))
      · intro K _ resolve data tree after ok h k hk
        rw [World.wp_reaches (writeEntry_dryRun hout hsafe hdry data data tree).1 h] at hk
        exact hk
      · intro K _ resolve data other tree after ok h
        exact (writeEntry_dryRun hout hsafe hdry data other tree).2 ok after h
      · intro K _ resolve data tree after hwrite
        exact nomatch hdry.symm.trans hwrite
    | false =>
      cases hslash : nameEndsWithSlash (stripEntryName opts.stripComponents entry.name) with
      | true =>
        refine iff_of_true ⟨?_,?_,?_⟩ (.inr (.inr (.inr rfl)))
        · intro K _ resolve data tree after ok h
          exact noNewFile_of_all (writeEntry_makesNoFile hout hsafe hslash data) h
        · intro K _ resolve data other tree after ok h
          rw [writeEntry_unread hout hsafe hslash other data]
          exact h
        · intro K _ resolve data tree after _ _ _ h
          exact World.wp_reaches (writeEntry_directory hout hsafe hslash hdry data tree) h rfl
      | false =>
        refine iff_of_false (fun h => ?_) (by simp [hempty])
        obtain ⟨joined,hjoined⟩ : ∃ joined, joined = joinedPath outputDir
          (stripEntryName opts.stripComponents entry.name) := ⟨_,rfl⟩
        obtain ⟨tree,htree⟩ : ∃ tree : CString → Node, tree = fun path =>
          if path = joined then .absent else .directory := ⟨_,rfl⟩
        have hfile := @writeEntry_file CString _ id opts outputDir entry _ hout hsafe hslash hdry []
          tree (by rw [htree]; exact if_pos hjoined.symm) fun path _ hne => by
            rw [htree]
            exact if_neg (by rw [hjoined]; exact hne)
        have hnew := h.noFile CString id [] tree _ true hfile joined
          (by rw [hjoined]; exact Function.update_self ..)
        have habsent : tree joined = .absent := by
          rw [htree]
          exact if_pos rfl
        rw [habsent] at hnew
        cases hnew

theorem writeEntry_directories_slash :
    DirectoryStays {} [] {name := [0x64,slash],isDir := true} ↔
      stripEntryName 0 [0x64,slash] = [] ∨ pathIsSafe (stripEntryName 0 [0x64,slash]) = false ∨
      ({} : ToolOptions).dryRunOutputs = true ∨
      nameEndsWithSlash (stripEntryName 0 [0x64,slash]) = true :=
  writeEntry_directories {} [] {name := [0x64,slash],isDir := true} rfl (by decide)

/-- The directory "d" becomes a file. -/
theorem writeEntry_loses_directory : ¬∀ (opts : ToolOptions) (outputDir : CString)
    (entry : ArchiveEntry), entry.isDir = true → entry.name.length < archiveMaxName →
      DirectoryStays opts outputDir entry := by
  intro h
  have hfile := @writeEntry_file CString _ id {} [] {name := [0x64],isDir := true}
    {name := [0x64]} rfl (by decide) rfl rfl [] (fun path =>
      if path = [0x64] then .absent else .directory) rfl fun path _ hne => if_neg hne
  have hnew := (h {} [] {name := [0x64],isDir := true} rfl (by decide)).noFile CString id [] _ _
    true hfile [0x64] (Function.update_self ..)
  cases hnew

end ZZ9K.Archive
