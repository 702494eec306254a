import ZZ9K.Archive.Output

namespace ZZ9K.Archive

open ZZ9K.Framework

/-- A component that names something inside the directory it is looked up in -/
structure SafeComponent (c : CString) : Prop where
  nonempty : c ≠ []
  notDot : isDotComponent c = false
  plain : ∀ b ∈ c, isComponentEnd b = false

/-- Components with slashes between them -/
def joinComponents : List CString → CString
  | [] => []
  | [c] => c
  | c::cs => c++slash::joinComponents cs

/-- One or more safe components, with at most one slash behind -/
def SafeName (name : CString) : Prop :=
  ∃ cs trail, cs ≠ [] ∧ (∀ c ∈ cs, SafeComponent c) ∧ (trail = [] ∨ trail = [slash]) ∧
    name = joinComponents cs++trail

/-- Nothing written behind the directory runs into its last component. -/
def EndsComponent (dir : CString) : Prop :=
  dir = [] ∨ ∃ before c, dir = before++[c] ∧ isComponentEnd c = true

/-- A path inside the output directory: the directory, a slash where it needs one, and a safe
name -/
def SafePath (outputDir path : CString) : Prop :=
  ∃ sep name, (sep = [slash] ∨ sep = [] ∧ EndsComponent outputDir) ∧ SafeName name ∧
    path = outputDir++sep++name

section

variable {outputDir path name : CString}

theorem joinComponents_cons {c : CString} {cs : List CString} (h : cs ≠ []) :
    joinComponents (c::cs) = c++slash::joinComponents cs := by
  cases cs with
  | nil => exact absurd rfl h
  | cons d cs => rfl

/-- What the loop accepts is empty or a safe name. -/
theorem pathIsSafeLoop_name {component : CString} (hplain : ∀ b ∈ component, isComponentEnd b = false)
    (h : pathIsSafeLoop component path = true) : component++path = [] ∨ SafeName (component++path) := by
  induction path generalizing component with
  | nil =>
    rw [List.append_nil]
    by_cases hc : component = []
    · exact Or.inl hc
    · right
      simp only [pathIsSafeLoop,hc,false_or,decide_eq_true_eq] at h
      refine ⟨[component],[],by simp,?_,Or.inl rfl,by simp [joinComponents]⟩
      intro c hmem
      rw [List.mem_singleton.mp hmem]
      exact ⟨hc,h,hplain⟩
  | cons b path ih =>
    unfold pathIsSafeLoop at h
    split at h
    · cases h
    next hcolon =>
    split at h
    · next hslash =>
      split at h
      · cases h
      next hsafe =>
      have hc : SafeComponent component := by
        refine ⟨fun he => hsafe (Or.inl he),?_,hplain⟩
        by_contra hdot
        exact hsafe (Or.inr (by simpa using hdot))
      right
      rw [hslash]
      rcases @ih [] (fun b hb => nomatch hb) h with hempty | ⟨cs,trail,hne,hcs,htrail,heq⟩
      · rw [List.nil_append] at hempty
        rw [hempty]
        refine ⟨[component],[slash],by simp,?_,Or.inr rfl,rfl⟩
        intro c hmem
        rw [List.mem_singleton.mp hmem]
        exact hc
      · rw [List.nil_append] at heq
        refine ⟨component::cs,trail,by simp,?_,htrail,?_⟩
        · intro c hmem
          rcases List.mem_cons.mp hmem with rfl | hmem
          · exact hc
          · exact hcs c hmem
        · rw [joinComponents_cons hne,heq]
          simp
    · next hslash =>
      have hb : isComponentEnd b = false := by
        simp only [isComponentEnd,decide_eq_false_iff_not]
        tauto
      have hplain' : ∀ d ∈ component++[b], isComponentEnd d = false := by
        intro d hd
        rcases List.mem_append.mp hd with hd | hd
        · exact hplain d hd
        · rw [List.mem_singleton.mp hd]
          exact hb
      have hrest := ih hplain' h
      rwa [List.append_assoc,List.singleton_append] at hrest

theorem pathIsSafe_name (h : pathIsSafe name = true) : SafeName name := by
  simp only [pathIsSafe,decide_eq_true_eq] at h
  have hname := @pathIsSafeLoop_name _ [] (fun b hb => nomatch hb) h.2.2.2
  rw [List.nil_append] at hname
  exact hname.resolve_left h.1

theorem joinedPath_safe (h : SafeName name) : SafePath outputDir (joinedPath outputDir name) := by
  simp only [joinedPath]
  split
  · exact ⟨[slash],name,Or.inl rfl,h,rfl⟩
  · next hsep =>
    refine ⟨[],name,Or.inr ⟨rfl,?_⟩,h,rfl⟩
    rcases List.eq_nil_or_concat' outputDir with hempty | ⟨before,c,rfl⟩
    · exact Or.inl hempty
    · refine Or.inr ⟨before,c,rfl,?_⟩
      simp only [List.getLast?_concat,Option.some.injEq,ne_eq] at hsep
      simp only [isComponentEnd,decide_eq_true_eq]
      by_contra hc
      simp only [not_or] at hc
      exact hsep ⟨by simp,hc.1,hc.2.2,hc.2.1⟩

theorem joinComponents_concat (cs : List CString) (c : CString) (h : cs ≠ []) :
    joinComponents (cs++[c]) = joinComponents cs++slash::c := by
  induction cs with
  | nil => exact absurd rfl h
  | cons d cs ih =>
    by_cases hcs : cs = []
    · rw [hcs]
      rfl
    · rw [List.cons_append,joinComponents_cons (by simp),ih hcs,joinComponents_cons hcs]
      simp

theorem SafeName.nonempty (h : SafeName name) : name ≠ [] := by
  obtain ⟨cs,trail,hne,hcs,-,rfl⟩ := h
  intro hempty
  cases cs with
  | nil => exact hne rfl
  | cons c cs =>
    have hc := (hcs c (List.mem_cons_self ..)).nonempty
    by_cases hrest : cs = []
    · rw [hrest] at hempty
      simp [joinComponents,hc] at hempty
    · rw [joinComponents_cons hrest] at hempty
      simp at hempty

/-- A safe name ends in a component that any other may replace, or in a slash that one may
follow. -/
theorem SafeName.split (h : SafeName name) : ∃ before component, name = before++component ∧
    (∀ b ∈ component, isComponentEnd b = false) ∧ (before = [] ∨ ∃ d, before = d++[slash]) ∧
    ∀ c, SafeComponent c → SafeName (before++c) := by
  obtain ⟨cs,trail,hne,hcs,htrail,rfl⟩ := h
  rcases htrail with rfl | rfl
  · obtain ⟨front,last,rfl⟩ := (List.eq_nil_or_concat' cs).resolve_left hne
    have hlast := hcs last (by simp)
    by_cases hfront : front = []
    · subst hfront
      refine ⟨[],last,by simp [joinComponents],hlast.plain,Or.inl rfl,fun c hc => ?_⟩
      exact ⟨[c],[],by simp,by simpa using hc,Or.inl rfl,by simp [joinComponents]⟩
    · refine ⟨joinComponents front++[slash],last,?_,hlast.plain,Or.inr ⟨_,rfl⟩,fun c hc => ?_⟩
      · rw [joinComponents_concat front last hfront]
        simp
      · refine ⟨front++[c],[],by simp,?_,Or.inl rfl,?_⟩
        · intro d hd
          rcases List.mem_append.mp hd with hd | hd
          · exact hcs d (List.mem_append_left _ hd)
          · rw [List.mem_singleton.mp hd]
            exact hc
        · rw [joinComponents_concat front c hfront]
          simp
  · refine ⟨joinComponents cs++[slash],[],by simp,by simp,Or.inr ⟨_,rfl⟩,
      fun c hc => ⟨cs++[c],[],by simp,?_,Or.inl rfl,?_⟩⟩
    · intro d hd
      rcases List.mem_append.mp hd with hd | hd
      · exact hcs d hd
      · rw [List.mem_singleton.mp hd]
        exact hc
    · rw [joinComponents_concat cs c hne]
      simp

theorem lastComponent_append {dir component : CString}
    (hplain : ∀ b ∈ component, isComponentEnd b = false) (hdir : EndsComponent dir) :
    lastComponent (dir++component) = component := by
  have hstop : dir.reverse.takeWhile (fun c => isComponentEnd c = false) = [] := by
    rcases hdir with rfl | ⟨before,c,rfl,hc⟩
    · rfl
    · simp [hc]
  unfold lastComponent List.rtakeWhile
  rw [List.reverse_append,List.takeWhile_append_of_pos,hstop,List.append_nil,List.reverse_reverse]
  intro b hb
  simpa using hplain b (List.mem_reverse.mp hb)

theorem siblingStem_append {dir component : CString}
    (hlast : lastComponent (dir++component) = component) :
    siblingStem (dir++component) = dir++component.take 96 := by
  unfold siblingStem
  rw [hlast]
  split
  · rw [List.length_append,Nat.add_sub_cancel,List.take_length_add_append]
  · next hshort => rw [List.take_of_length_le (by omega)]

/-- The suffixes of siblings end no component and are longer than "..". -/
def SafeSuffix (suffix : CString) : Prop :=
  2 < suffix.length ∧ ∀ b ∈ suffix, isComponentEnd b = false

theorem safeComponent_suffix {component suffix : CString}
    (hplain : ∀ b ∈ component, isComponentEnd b = false) (hsuffix : SafeSuffix suffix) :
    SafeComponent (component++suffix) := by
  have hlen := hsuffix.1
  refine ⟨?_,?_,?_⟩
  · intro hempty
    have hzero := congrArg List.length hempty
    rw [List.length_append,List.length_nil] at hzero
    omega
  · simp only [isDotComponent,decide_eq_false_iff_not]
    rintro (hdot | hdot)
    · have hone := congrArg List.length hdot
      simp at hone
      omega
    · have htwo := congrArg List.length hdot
      simp at htwo
      omega
  · intro b hb
    rcases List.mem_append.mp hb with hb | hb
    · exact hplain b hb
    · exact hsuffix.2 b hb

/-- A sibling of a path inside the directory is inside the directory, next to it. -/
theorem SafePath.sibling (h : SafePath outputDir path) {suffix : CString}
    (hsuffix : SafeSuffix suffix) : SafePath outputDir (siblingStem path++suffix) := by
  obtain ⟨sep,name,hsep,hname,rfl⟩ := h
  obtain ⟨before,component,rfl,hplain,hbefore,hreplace⟩ := hname.split
  have hdir : EndsComponent (outputDir++sep++before) := by
    rcases hbefore with rfl | ⟨d,rfl⟩
    · rw [List.append_nil]
      rcases hsep with rfl | ⟨rfl,hends⟩
      · exact Or.inr ⟨outputDir,slash,rfl,by decide⟩
      · rwa [List.append_nil]
    · exact Or.inr ⟨outputDir++sep++d,slash,by simp,by decide⟩
  have hstem := siblingStem_append (lastComponent_append hplain hdir)
  refine ⟨sep,before++(component.take 96++suffix),hsep,hreplace _ ?_,?_⟩
  · exact safeComponent_suffix (fun b hb => hplain b (List.mem_of_mem_take hb)) hsuffix
  · rw [← List.append_assoc,hstem]
    simp

theorem plain_of_all {s : CString} (h : s.all (fun b => !isComponentEnd b) = true) :
    ∀ b ∈ s, isComponentEnd b = false := by
  intro b hb
  have hall := List.all_eq_true.mp h b hb
  rwa [Bool.not_eq_true'] at hall

theorem decimal_plain {n : Nat} (hn : n < 32) :
    1 ≤ (decimal n).length ∧ ∀ b ∈ decimal n, isComponentEnd b = false := by
  have hdigits : ∀ n < 32, 1 ≤ (decimal n).length ∧
      (decimal n).all (fun b => !isComponentEnd b) = true := by decide
  have h := hdigits n hn
  exact ⟨h.1,plain_of_all h.2⟩

/-- A tag both of whose names make siblings -/
def SafeTag (t : SiblingTag) : Prop := SafeSuffix t.base ∧ SafeSuffix t.tag

theorem tmpTag_safe : SafeTag tmpTag := by
  constructor
  · exact ⟨by decide,plain_of_all (by decide)⟩
  · exact ⟨by decide,plain_of_all (by decide)⟩

theorem backupTag_safe : SafeTag backupTag := by
  constructor
  · exact ⟨by decide,plain_of_all (by decide)⟩
  · exact ⟨by decide,plain_of_all (by decide)⟩

theorem SafePath.siblingPath (h : SafePath outputDir path) {t : SiblingTag} (ht : SafeTag t)
    {slot : Nat} (hslot : slot < 32) : SafePath outputDir (siblingPath path t slot) := by
  unfold ZZ9K.Archive.siblingPath
  split
  · exact h.sibling ht.1
  · have hdecimal := decimal_plain hslot
    rw [List.append_assoc]
    apply h.sibling
    refine ⟨?_,?_⟩
    · have hlen := ht.2.1
      rw [List.length_append]
      omega
    · intro b hb
      rcases List.mem_append.mp hb with hb | hb
      · exact ht.2.2 b hb
      · exact hdecimal.2 b hb

/-- A safe name without its trailing slash -/
theorem trimTrailingSeparators_safe (h : SafePath outputDir path) :
    SafePath outputDir (trimTrailingSeparators path) := by
  obtain ⟨sep,name,hsep,⟨cs,trail,hne,hcs,htrail,rfl⟩,rfl⟩ := h
  refine ⟨sep,joinComponents cs,hsep,⟨cs,[],hne,hcs,Or.inl rfl,by simp⟩,?_⟩
  obtain ⟨front,last,rfl⟩ := (List.eq_nil_or_concat' cs).resolve_left hne
  have hlast := hcs last (by simp)
  obtain ⟨inner,b,rfl⟩ := (List.eq_nil_or_concat' last).resolve_left hlast.nonempty
  have hb : isSeparator b = false := by
    have hend := hlast.plain b (by simp)
    simp only [isComponentEnd,decide_eq_false_iff_not] at hend
    simp only [isSeparator,decide_eq_false_iff_not]
    tauto
  obtain ⟨whole,hwhole⟩ : ∃ whole, joinComponents (front++[inner++[b]]) = whole++[b] := by
    by_cases hfront : front = []
    · exact ⟨inner,by rw [hfront]; rfl⟩
    · exact ⟨joinComponents front++slash::inner,by rw [joinComponents_concat _ _ hfront]; simp⟩
  rw [hwhole]
  have hkeep : trimTrailingSeparators (outputDir++sep++(whole++[b])) =
      outputDir++sep++(whole++[b]) := by
    unfold trimTrailingSeparators
    rw [← List.append_assoc,List.rdropWhile_concat_neg _ _ _ (by simp [hb])]
  rcases htrail with rfl | rfl
  · rw [List.append_nil,hkeep]
  · rw [← hkeep]
    unfold trimTrailingSeparators
    rw [← List.append_assoc (outputDir++sep) (whole++[b]) [slash],
      List.rdropWhile_concat_pos _ _ _ (by decide)]

end

/-- What a question touches is inside the output directory, is one of the devices, or is a directory
on the way to a path inside. -/
def Touches (devices : List CString) (outputDir : CString) : ToolCall → Prop
  | .makeDir path => ∃ output, SafePath outputDir output ∧ path <+: output
  | .openWrite path => SafePath outputDir path ∨ path ∈ devices
  | .rename a b => SafePath outputDir a ∧ SafePath outputDir b
  | .remove path => SafePath outputDir path
  | _ => True

section

variable {devices : List CString} {outputDir path tmpPath name : CString} {opts : ToolOptions}

section

variable {P : ToolCall → Prop}

theorem all_mkdirOne (hmake : P (.makeDir path)) (hdir : P (.pathIsDir path)) :
    (mkdirOne path).All P := by
  unfold mkdirOne
  split
  · trivial
  · refine Ask.all_step hmake fun result => ?_
    cases result with
    | made => trivial
    | taken => exact ⟨hdir,fun _ => trivial⟩
    | failed => trivial

theorem all_ensureParentDirsLoop {before rest : CString}
    (hmake : ∀ dir, dir <+: before++rest → P (.makeDir dir)) (hdir : ∀ dir, P (.pathIsDir dir)) :
    (ensureParentDirsLoop before rest).All P := by
  induction rest generalizing before with
  | nil => trivial
  | cons c rest ih =>
    have hrest := @ih (before++[c]) (by simpa using hmake)
    unfold ensureParentDirsLoop
    split
    · apply Ask.all_bind (all_mkdirOne (hmake _ (List.prefix_append _ _)) (hdir _))
      intro made
      cases made with
      | true => exact hrest
      | false => trivial
    · exact hrest

theorem all_ensureParentDirs (hmalloc : ∀ size, P (.malloc size))
    (hmake : ∀ dir, dir <+: joinedPath outputDir name → P (.makeDir dir))
    (hdir : ∀ dir, P (.pathIsDir dir)) : (ensureParentDirs outputDir name).All P := by
  refine Ask.all_step (hmalloc _) fun got => ?_
  cases got with
  | true => exact all_ensureParentDirsLoop hmake hdir
  | false => trivial

theorem all_checkOutput {guard : Tool Bool} (hdir : P (.pathIsDir path))
    (hexists : P (.pathExists path)) (h : guard.All P) : (checkOutput opts path guard).All P := by
  have hask : ∀ b : Bool, (if b then Tool.pathExists path else pure false : Tool Bool).All P := by
    intro b
    cases b with
    | true => exact ⟨hexists,fun _ => trivial⟩
    | false => trivial
  refine Ask.all_step hdir fun isDir => ?_
  cases isDir with
  | true => trivial
  | false =>
    apply Ask.all_bind h
    intro guarded
    cases guarded with
    | true => trivial
    | false =>
      apply Ask.all_bind (hask opts.skipExistingOutputs)
      intro skipped
      cases skipped with
      | true => trivial
      | false =>
        apply Ask.all_bind
        · cases opts.overwriteOutputs with
          | true => trivial
          | false => exact ⟨hexists,fun _ => trivial⟩
        intro taken
        cases taken with
        | true => trivial
        | false => cases opts.dryRunOutputs <;> trivial

theorem all_checkEntry {isDir : Bool} (hdir : P (.pathIsDir path)) (hexists : P (.pathExists path)) :
    (checkEntry opts path isDir).All P := by
  unfold checkEntry
  cases isDir with
  | false => exact all_checkOutput hdir hexists (Ask.all_ret _ false)
  | true =>
    refine Ask.all_step hexists fun taken => ?_
    cases taken with
    | false => cases opts.dryRunOutputs <;> trivial
    | true =>
      refine Ask.all_step hdir fun dir => ?_
      cases dir with
      | false => trivial
      | true => cases opts.dryRunOutputs <;> trivial

end

theorem safe_ensureParentDirs (h : SafeName name) :
    (ensureParentDirs outputDir name).All (Touches devices outputDir) :=
  all_ensureParentDirs (fun _ => trivial) (fun _ hdir => ⟨_,joinedPath_safe h,hdir⟩) fun _ => trivial

theorem all_writeFile {data : Bytes} (h : SafePath outputDir path) :
    (writeFile opts path data).All (Touches devices outputDir) := by
  apply Ask.all_bind (all_checkOutput trivial trivial (Ask.all_ret _ false))
  intro check
  cases check with
  | refuse => trivial
  | skip => trivial
  | dryRun => trivial
  | proceed =>
    refine Ask.all_step (Or.inl h) fun file => ?_
    cases file with
    | none => trivial
    | some file =>
      apply Ask.all_bind
      · split
        · trivial
        · exact ⟨trivial,fun _ => trivial⟩
      · exact fun _ => ⟨trivial,fun _ => trivial⟩

theorem all_writeEntry (entry : ArchiveEntry) (data : Bytes) :
    (writeEntry opts outputDir entry data).All (Touches devices outputDir) := by
  unfold writeEntry
  split
  · trivial
  next out hout =>
  split
  · trivial
  next hsafe =>
  have hname := pathIsSafe_name (by simpa using hsafe)
  have hpath : SafePath outputDir (if out.isDir then
      trimTrailingSeparators (joinedPath outputDir out.name) else joinedPath outputDir out.name) := by
    split
    · exact trimTrailingSeparators_safe (joinedPath_safe hname)
    · exact joinedPath_safe hname
  refine Ask.all_step trivial fun got => ?_
  cases got with
  | false => trivial
  | true =>
    apply Ask.all_bind (all_checkEntry trivial trivial)
    intro check
    cases check with
    | refuse => trivial
    | skip => trivial
    | dryRun => trivial
    | proceed =>
      apply Ask.all_bind (safe_ensureParentDirs hname)
      intro parents
      cases parents with
      | false => trivial
      | true =>
        cases hdir : out.isDir with
        | true =>
          rw [hdir] at hpath
          exact all_mkdirOne ⟨_,hpath,List.prefix_rfl⟩ trivial
        | false =>
          rw [hdir] at hpath
          exact all_writeFile hpath

/-- Whatever name the probing ends with, it is inside. -/
theorem probeSiblingLoop_safe {t : SiblingTag} {seed left : Nat} {dst : CString}
    (ht : SafeTag t) (h : SafePath outputDir path) (hdst : SafePath outputDir dst)
    {α : Type} {f : Bool × CString → Tool α}
    (hf : ∀ found p, SafePath outputDir p → (f (found,p)).All (Touches devices outputDir)) :
    (probeSiblingLoop path t seed left dst >>= f).All (Touches devices outputDir) := by
  induction left generalizing dst with
  | zero => exact hf false dst hdst
  | succ left ih =>
    have hnext := @SafePath.siblingPath _ _ h _ ht ((seed+(31-left))%32) (Nat.mod_lt _ (by decide))
    refine Ask.all_step trivial fun taken => ?_
    cases taken with
    | true => exact ih hnext
    | false => exact hf true _ hnext

theorem probeSibling_safe {t : SiblingTag} (ht : SafeTag t) (h : SafePath outputDir path)
    {α : Type} {f : Bool × CString → Tool α}
    (hf : ∀ found p, SafePath outputDir p → (f (found,p)).All (Touches devices outputDir)) :
    (probeSibling path t >>= f).All (Touches devices outputDir) := by
  refine Ask.all_step trivial fun (seed : Nat) => ?_
  have hfirst := @SafePath.siblingPath _ _ h _ ht ((seed%32+(31-31))%32) (Nat.mod_lt _ (by decide))
  refine Ask.all_step trivial fun taken => ?_
  cases taken with
  | true => exact probeSiblingLoop_safe ht h hfirst hf
  | false => exact hf true _ hfirst

theorem all_installStaged {backup : Option CString} (htmp : SafePath outputDir tmpPath)
    (h : SafePath outputDir path) (hbackup : ∀ p ∈ backup, SafePath outputDir p) :
    (installStaged tmpPath path backup).All (Touches devices outputDir) := by
  refine Ask.all_step ⟨htmp,h⟩ fun renamed => ?_
  cases renamed with
  | true =>
    cases backup with
    | none => trivial
    | some old => exact ⟨hbackup old rfl,fun _ => trivial⟩
  | false =>
    refine Ask.all_step htmp fun _ => ?_
    cases backup with
    | none => trivial
    | some old => exact ⟨⟨hbackup old rfl,h⟩,fun _ => trivial⟩

theorem all_replaceWithStaged (htmp : SafePath outputDir tmpPath) (h : SafePath outputDir path) :
    (replaceWithStaged tmpPath path).All (Touches devices outputDir) := by
  refine Ask.all_step trivial fun old => ?_
  cases old with
  | false =>
    rw [if_pos rfl]
    exact all_installStaged htmp h (by simp)
  | true =>
    refine Ask.all_step trivial fun got => ?_
    cases got with
    | false => exact ⟨htmp,fun _ => trivial⟩
    | true =>
      apply probeSibling_safe backupTag_safe h
      intro found backup hbackup
      cases found with
      | false => exact ⟨htmp,fun _ => trivial⟩
      | true =>
        refine Ask.all_step ⟨h,hbackup⟩ fun moved => ?_
        cases moved with
        | false => exact ⟨htmp,fun _ => trivial⟩
        | true =>
          rw [if_pos rfl]
          apply all_installStaged htmp h
          intro p hp
          cases hp
          exact hbackup

theorem all_rangeCopyLoop {inputPath : CString} {file remaining : Nat} {verifyCrc : Bool}
    {rangeCrc : UInt32} :
    (rangeCopyLoop inputPath file verifyCrc remaining rangeCrc).All (Touches devices outputDir) := by
  induction remaining using Nat.strong_induction_on generalizing rangeCrc with
  | _ remaining ih =>
    rw [rangeCopyLoop]
    split
    · trivial
    next hmore =>
    have hchunk : 0 < archiveStreamChunk := by decide
    refine Ask.all_step trivial fun stop => ?_
    cases stop with
    | true => trivial
    | false =>
      refine Ask.all_step trivial fun chunk => ?_
      cases chunk with
      | none => trivial
      | some chunk =>
        refine Ask.all_step trivial fun written => ?_
        cases written with
        | false => trivial
        | true => exact ih _ (by split <;> omega)

theorem all_rangeCopy {entry : ArchiveEntry} {inputPath : CString} {verifyCrc : Bool} {file : Nat}
    (htmp : SafePath outputDir tmpPath) (h : SafePath outputDir path) :
    (rangeCopy entry inputPath path tmpPath verifyCrc file).All (Touches devices outputDir) := by
  refine Ask.all_step trivial fun got => ?_
  apply Ask.all_bind
  · cases got with
    | true => exact all_rangeCopyLoop
    | false => trivial
  intro copied
  cases copied with
  | none => exact ⟨trivial,fun _ => ⟨htmp,fun _ => trivial⟩⟩
  | some rangeCrc =>
    dsimp only
    split
    · exact ⟨trivial,fun _ => ⟨htmp,fun _ => ⟨htmp,fun _ => trivial⟩⟩⟩
    · refine Ask.all_step trivial fun closed => ?_
      apply Ask.all_bind
      · cases closed with
        | true => exact all_replaceWithStaged htmp h
        | false => exact ⟨htmp,fun _ => trivial⟩
      intro installed
      cases installed with
      | true => trivial
      | false => exact ⟨htmp,fun _ => trivial⟩

theorem all_rangeStaged {entry : ArchiveEntry} {inputPath : CString} {verifyCrc : Bool}
    (h : SafePath outputDir path) :
    (rangeStaged entry inputPath path verifyCrc).All (Touches devices outputDir) := by
  have hseek : ∀ b : Bool, (if b then Tool.seek inputPath entry.dataOffset else pure false :
      Tool Bool).All (Touches devices outputDir) := by
    intro b
    cases b with
    | true => exact ⟨trivial,fun _ => trivial⟩
    | false => trivial
  have hmalloc : ∀ b : Bool, (if b then Tool.malloc (path.length+16) else pure false :
      Tool Bool).All (Touches devices outputDir) := by
    intro b
    cases b with
    | true => exact ⟨trivial,fun _ => trivial⟩
    | false => trivial
  refine Ask.all_step trivial fun opened => ?_
  apply Ask.all_bind (hseek opened)
  intro sought
  apply Ask.all_bind (hmalloc sought)
  intro got
  cases got with
  | false => trivial
  | true =>
    apply probeSibling_safe tmpTag_safe h
    intro found tmpPath htmp
    cases found with
    | false => exact ⟨htmp,fun _ => trivial⟩
    | true =>
      refine Ask.all_step (Or.inl htmp) fun output => ?_
      cases output with
      | none => exact ⟨htmp,fun _ => trivial⟩
      | some file => exact all_rangeCopy htmp h

theorem all_archiveGuard {archivePath : CString} :
    (archiveGuard opts archivePath path).All (Touches devices outputDir) := by
  unfold archiveGuard
  split
  · exact ⟨trivial,fun _ => trivial⟩
  · trivial

theorem all_writeFileRangeEntry (entry : ArchiveEntry) (inputPath : CString) (verifyCrc : Bool) :
    (writeFileRangeEntry opts outputDir entry inputPath verifyCrc).All
      (Touches devices outputDir) := by
  unfold writeFileRangeEntry
  split
  · trivial
  split
  · trivial
  next out hout =>
  split
  · trivial
  next hsafe =>
  have hname := pathIsSafe_name (by simpa using hsafe)
  refine Ask.all_step trivial fun got => ?_
  cases got with
  | false => trivial
  | true =>
    apply Ask.all_bind (all_checkOutput trivial trivial all_archiveGuard)
    intro check
    cases check with
    | refuse => trivial
    | skip => trivial
    | dryRun => trivial
    | proceed =>
      apply Ask.all_bind (safe_ensureParentDirs hname)
      intro parents
      cases parents with
      | false => trivial
      | true => exact all_rangeStaged (joinedPath_safe hname)

theorem all_openDiscard (hdevices : opts.platform.discard ∈ devices) (skipped dryRun : Bool) :
    (openDiscard opts skipped dryRun).All (Touches devices outputDir) :=
  ⟨Or.inr hdevices,fun _ => trivial⟩

theorem all_openOutput (hdevices : opts.platform.discard ∈ devices) (entry : ArchiveEntry)
    {openPath : CString → Tool (Option OpenedOutput)}
    (hopen : ∀ path, SafePath outputDir path → (openPath path).All (Touches devices outputDir)) :
    (openOutput opts outputDir entry openPath).All (Touches devices outputDir) := by
  unfold openOutput
  split
  · exact all_openDiscard hdevices true false
  next out hout =>
  split
  · trivial
  next hsafe =>
  have hname := pathIsSafe_name (by simpa using hsafe)
  refine Ask.all_step trivial fun got => ?_
  cases got with
  | false => trivial
  | true =>
    apply Ask.all_bind (all_checkOutput trivial trivial (Ask.all_ret _ false))
    intro check
    cases check with
    | refuse => trivial
    | skip => exact all_openDiscard hdevices true false
    | dryRun => exact all_openDiscard hdevices false true
    | proceed =>
      apply Ask.all_bind (safe_ensureParentDirs hname)
      intro parents
      cases parents with
      | false => trivial
      | true => exact hopen _ (joinedPath_safe hname)

theorem all_openSibling (h : SafePath outputDir path) :
    (openSibling path).All (Touches devices outputDir) := by
  refine Ask.all_step trivial fun got => ?_
  cases got with
  | false => trivial
  | true =>
    apply probeSibling_safe tmpTag_safe h
    intro found tmpPath htmp
    cases found with
    | false => trivial
    | true => exact ⟨Or.inl htmp,fun _ => trivial⟩

end

/-- Every question that the functions which open outputs may ask, for a member of any name -/
def OutputsTouch (devices : List CString) (opts : ToolOptions) : Prop :=
  ∀ (outputDir : CString) (entry : ArchiveEntry),
    (∀ data, (writeEntry opts outputDir entry data).All (Touches devices outputDir)) ∧
    (∀ inputPath verifyCrc, (writeFileRangeEntry opts outputDir entry inputPath verifyCrc).All
      (Touches devices outputDir)) ∧
    (openOutputEntry opts outputDir entry).All (Touches devices outputDir) ∧
    (openOutputStaged opts outputDir entry).All (Touches devices outputDir) ∧
    (tarStreamOpenStaged opts outputDir entry).All (Touches devices outputDir)

end ZZ9K.Archive
