import ZZ9K.Archive.FeedExact
import ZZ9K.Archive.SevenZipExtract

namespace ZZ9K.Archive

open ZZ9K.Abi ZZ9K.Host ZZ9K.Framework

/-- What there is of a member that is extracted: the bytes of its destination, if that exists, and
the file that is open to write them; whether a feeding or a reading was refused for lack of memory,
and the bytes read from the board before the whole member is asked for; the answer to that request,
and the bytes it decoded. -/
structure MemberDisk where
  dest : Option Bytes := none
  out : Option Nat := none
  late : Bool := false
  fed : Bytes := []
  whole : Option (Status × DecompressResult) := none
  decoded : Option Bytes := none

namespace MemberDisk

variable (path : CString) (v : MemberDisk)

def opened (name : CString) (file : Option Nat) : MemberDisk :=
  match file with
  | none => v
  | some _ =>
    if name = path then {v with dest := some [],out := file}
    else {v with out := if v.out = file then none else v.out}

def wrote (file : Nat) (data : Bytes) (done : Bool) : MemberDisk :=
  if done ∧ v.out = some file then {v with dest := v.dest.map (·++data)} else v

def refused (status : Status) : MemberDisk :=
  {v with late := v.late || decide (status = .noMemory)}

def loaded (data : Bytes) : MemberDisk :=
  if v.whole.isSome then {v with decoded := some data} else {v with fed := v.fed++data}

def next : (c : JobCall) → c.Answer → MemberDisk
  | .tool (.openWrite name),file => v.opened path name file
  | .tool (.write file data),done => v.wrote file data done
  | .codec (.streamFeed ..),answer => v.refused (Prod.fst answer)
  | .codec (.streamRead ..),answer => v.refused (Prod.fst answer)
  | .codec (.decompress ..),answer => {v with whole := some answer}
  | .load _ _ _,data => v.loaded (Subtype.val data)
  | _,_ => v

/-- The file system tells the truth about the destination, under which there is no directory and
which is no file if it ends in a slash. Once the member is decoded, memory and the file system serve
its writing. -/
def Serves : (c : JobCall) → c.Answer → Prop
  | .tool (.pathExists name),there => name = path → there = v.dest.isSome
  | .tool (.pathIsDir name),there => (name = path → there = false) ∧
      (v.decoded.isSome → name <+: path → name ≠ path → there = true)
  | .tool (.makeDir _),answer => v.decoded.isSome → answer ≠ MakeDirResult.failed
  | .tool (.openWrite name),file => (nameEndsWithSlash name = true → file = (none : Option Nat)) ∧
      (v.decoded.isSome → name = path → nameEndsWithSlash name = false → file ≠ (none : Option Nat))
  | .tool (.write _ _),done => v.decoded.isSome → done = true
  | .tool (.malloc _),got => v.decoded.isSome → got = true
  | _,_ => True

/-- The whole member was decoded to `text`, as its entry has it. -/
def Decodes (entry : ArchiveEntry) (text : Bytes) : Prop :=
  ∃ result,v.whole = some (.ok,result) ∧ sevenZipResultMatchesEntry entry result = true ∧
    v.decoded = some text

/-- The second attempt agrees with the first: if it decodes the member, the extraction succeeds and
leaves just that, and it succeeds with nothing else. -/
def Agrees (entry : ArchiveEntry) (ok : Bool) : Prop :=
  v.whole.isSome → (∀ text,v.Decodes entry text → ok = true ∧ v.dest = some text) ∧
    (ok = true → ∃ text,v.Decodes entry text ∧ v.dest = some text)

end MemberDisk

/-- The surroundings of a member's extraction to `path` -/
abbrev memberDisk (path : CString) : World JobCall JobCall.Answer where
  State := MemberDisk
  allowed v e := v.Serves path e.1 e.2
  next v e := v.next path e.1 e.2

/-- What leaves the member's disk as it is: all but to open and to write, to feed and to read, to
fetch, and to decode the whole -/
def Aside : JobCall → Prop
  | .tool (.openWrite _) | .tool (.write _ _) | .load _ _ _ => False
  | .codec request => match request with
    | .streamFeed .. | .streamRead .. | .decompress .. => False
    | _ => True
  | _ => True

section

variable {path : CString} {v : MemberDisk}

theorem aside_wp {α : Type} {p : Job α} (hp : p.All Aside) (v : MemberDisk) :
    (memberDisk path).wp p (fun _ u => u = v) v := by
  apply World.wp_invariant (memberDisk path) (I := fun u => u = v) (P := Aside) _ hp rfl
  rintro u c x hc rfl -
  cases c with
  | tool c => cases c <;> first | rfl | cases hc
  | codec request => cases request <;> first | rfl | cases hc
  | load handle offset length => cases hc
  | _ => rfl

theorem aside_tool {α : Type} {p : Tool α}
    (hp : p.All fun c => Aside (.tool c)) : (Job.tool p).All Aside := by
  induction p with
  | ret a => trivial
  | ask c k ih => exact ⟨hp.1,fun x => ih x (hp.2 x)⟩

theorem aside_looks {α : Type} {p : Tool α} (hp : p.All Looks) : (Job.tool p).All Aside :=
  aside_tool (hp.mono fun c hc => by cases c <;> trivial)

theorem aside_freeShared (handle : UInt32) : (Job.freeShared handle).All Aside := by
  unfold Job.freeShared
  split
  · trivial
  · exact ⟨trivial,fun _ => trivial⟩

theorem aside_releaseShared (handle : UInt32) : (releaseShared handle).All Aside := by
  unfold releaseShared
  split
  · exact aside_freeShared handle
  · trivial

theorem aside_releasePair (decoded input : SharedBuffer) : (releasePair decoded input).All Aside :=
  Ask.all_bind (aside_releaseShared _) fun _ => aside_releaseShared _

theorem aside_noteStatus (status : Status) : (Job.noteStatus status).All Aside := by
  unfold Job.noteStatus
  split
  · exact ⟨trivial,fun _ => trivial⟩
  · trivial

theorem aside_printSharedDiag : printSharedDiag.All Aside := by
  refine Ask.all_step trivial fun answer => ?_
  dsimp only
  split
  · exact ⟨trivial,fun _ => trivial⟩
  · trivial

theorem aside_sharedCopyTo (buffer : SharedBuffer) (offset : Nat) (data : Bytes) :
    (sharedCopyTo buffer offset data).All Aside := by
  unfold sharedCopyTo
  split
  · exact ⟨trivial,fun _ => trivial⟩
  · trivial

theorem aside_endStream {σ : Type} (e : StreamEnd σ) (opened : Option OpenedOutput)
    (decoded input : SharedBuffer) : (endStream e opened decoded input).All Aside := by
  refine Ask.all_bind ?_ fun _ => Ask.all_bind ?_ fun _ =>
    Ask.all_bind (aside_releasePair decoded input) fun _ => trivial
  · split
    · exact ⟨trivial,fun _ => trivial⟩
    · trivial
  · cases opened with
    | none => trivial
    | some output => exact ⟨trivial,fun _ => trivial⟩

theorem aside_allocStreamPairLoop (flags : UInt32) (capacity : Nat) :
    (allocStreamPairLoop flags capacity).All Aside := by
  induction capacity using Nat.strong_induction_on with
  | _ capacity ih =>
    rw [allocStreamPairLoop]
    split
    · next hle =>
      have hless : capacity/2 < capacity := by
        have hmin : 0 < archiveStreamMinChunk := by decide
        exact Nat.div_lt_self (by omega) (by decide)
      refine ⟨trivial,?_⟩
      rintro (status | input)
      · simp only [Ask.bind]
        split
        · exact ih _ hless
        · trivial
      · refine ⟨trivial,?_⟩
        rintro (status | decoded)
        · change Ask.All Aside (Job.freeShared input.handle >>= _)
          refine Ask.all_bind (aside_freeShared _) fun _ => ?_
          split
          · exact ih _ hless
          · trivial
        · trivial
    · trivial

theorem aside_copyFeedFileInputChunk (inputPath : CString) (prefixBytes : Bytes)
    (fileLength : Nat) (input : SharedBuffer) (inputOffset maxLength : Nat) :
    (copyFeedFileInputChunk inputPath prefixBytes fileLength input inputOffset maxLength).All
      Aside := by
  unfold copyFeedFileInputChunk
  extract_lets total remaining part
  split
  · trivial
  · refine Ask.all_bind ?_ fun first => ?_
    · split
      · exact aside_sharedCopyTo _ _ _
      · trivial
    · split
      · trivial
      · split
        · trivial
        · refine ⟨trivial,?_⟩
          rintro (_ | data)
          · trivial
          · exact ⟨trivial,fun _ => trivial⟩

theorem outputEntry_name {opts : ToolOptions} {entry out : ArchiveEntry}
    (h : outputEntry opts entry = some out) :
    out = {entry with name := stripEntryName opts.stripComponents entry.name,isDir := out.isDir} ∧
      out.name ≠ [] ∧ out.isDir = nameEndsWithSlash out.name := by
  simp only [outputEntry] at h
  split at h
  · cases h
  · next hname =>
    cases h
    exact ⟨rfl,fun h0 => hname (Or.inl h0),rfl⟩

theorem joinedPath_ends {dir name : CString} (h : name ≠ []) :
    nameEndsWithSlash (joinedPath dir name) = nameEndsWithSlash name := by
  unfold nameEndsWithSlash joinedPath
  rw [List.getLast?_append_of_ne_nil _ h]

/-- What opening the output of a member that is not there leaves -/
def MemberOpened (out : ArchiveEntry) (v : MemberDisk) : Option OpenedOutput → MemberDisk → Prop
  | none,u => u = v
  | some o,u => out.isDir = false ∧ u = {v with dest := some [],out := some o.file}

section

variable {opts : ToolOptions} {outputDir : CString} {entry out : ArchiveEntry}

theorem joinPath_member {dir name : CString} :
    (memberDisk path).wp (Job.tool (joinPath dir name))
      (fun r u => u = v ∧ (v.decoded.isSome → r.isSome) ∧ ∀ p,r = some p → p = joinedPath dir name)
      v := by
  rintro (_ | _) hgot
  · exact ⟨rfl,fun h => absurd (hgot h) Bool.false_ne_true,nofun⟩
  · refine ⟨rfl,fun _ => rfl,fun p hp => ?_⟩
    cases hp
    rfl

/-- What the checks on the destination of a file say, if it is there or not -/
def memberCheck (opts : ToolOptions) (there : Bool) : OutputCheck :=
  if opts.skipExistingOutputs && there then .skip
  else if !opts.overwriteOutputs && there then .refuse
  else .proceed

theorem memberCheck_ne_dryRun {there : Bool} : memberCheck opts there ≠ .dryRun := by
  unfold memberCheck
  split_ifs <;> nofun

theorem checkOutput_member (hdry : opts.dryRunOutputs = false) :
    (memberDisk path).wp (Job.tool (checkOutput opts path (pure false)))
      (fun r u => u = v ∧ r = memberCheck opts v.dest.isSome) v := by
  intro dir hdir
  obtain rfl : dir = false := hdir.1 rfl
  have hexists : ∀ f : Bool → Tool OutputCheck,
      (memberDisk path).wp (Job.tool (f v.dest.isSome))
        (fun r u => u = v ∧ r = memberCheck opts v.dest.isSome) v →
      (memberDisk path).wp (Job.tool (Tool.pathExists path >>= f))
        (fun r u => u = v ∧ r = memberCheck opts v.dest.isSome) v := by
    intro f hf there hthere
    obtain rfl : there = v.dest.isSome := hthere rfl
    exact hf
  change (memberDisk path).wp (Job.tool (do
    let skipped ← (if opts.skipExistingOutputs then Tool.pathExists path else pure false)
    if skipped then pure OutputCheck.skip
    else do
      let taken ← (if opts.overwriteOutputs then pure false else Tool.pathExists path)
      if taken then pure .refuse
      else if opts.dryRunOutputs then pure .dryRun
      else pure .proceed)) _ v
  rw [hdry]
  -- the questions that are asked depend on the mode
  cases hs : opts.skipExistingOutputs with
  | true =>
    refine hexists _ ?_
    cases hthere : v.dest.isSome with
    | true => exact ⟨rfl,by simp [memberCheck,hs]⟩
    | false =>
      cases ho : opts.overwriteOutputs with
      | true => exact ⟨rfl,by simp [memberCheck]⟩
      | false =>
        have hgo := hexists (fun taken => if taken then pure .refuse else pure .proceed)
        rw [hthere] at hgo
        exact hgo ⟨rfl,by simp [memberCheck]⟩
  | false =>
    cases ho : opts.overwriteOutputs with
    | true => exact ⟨rfl,by simp [memberCheck,hs,ho]⟩
    | false =>
      refine hexists (fun taken => if taken then pure .refuse else pure .proceed) ?_
      cases hthere : v.dest.isSome with
      | true => exact ⟨rfl,by simp [memberCheck,hs,ho]⟩
      | false => exact ⟨rfl,by simp [memberCheck]⟩

theorem openOutputEntry_member (hdry : opts.dryRunOutputs = false)
    (hout : outputEntry opts entry = some out) (hpath : path = joinedPath outputDir out.name)
    (hnone : v.dest = none) :
    (memberDisk path).wp (Job.tool (openOutputEntry opts outputDir entry)) (MemberOpened out v) v := by
  obtain ⟨-,hname,hdir⟩ := outputEntry_name hout
  have hends : nameEndsWithSlash path = out.isDir := by rw [hpath,joinedPath_ends hname,hdir]
  unfold openOutputEntry openOutput
  rw [hout]
  dsimp only
  split
  · rfl
  · rw [tool_bind,World.wp_bind]
    refine World.wp_mono _ joinPath_member ?_
    rintro r u ⟨rfl,-,hjoined⟩
    cases r with
    | none => rfl
    | some name =>
      obtain rfl : name = path := (hjoined name rfl).trans hpath.symm
      dsimp only
      rw [tool_bind,World.wp_bind]
      refine World.wp_mono _ (checkOutput_member hdry) ?_
      rintro check u ⟨rfl,rfl⟩
      have hproceed : memberCheck opts u.dest.isSome = .proceed := by simp [memberCheck,hnone]
      rw [hproceed]
      dsimp only
      rw [tool_bind,World.wp_bind]
      refine World.wp_mono _ (aside_wp (aside_looks looks_ensureParentDirs) _) ?_
      rintro parents _ rfl
      cases parents with
      | false => rfl
      | true =>
        rintro file hfile
        cases file with
        | none => rfl
        | some file =>
          refine ⟨?_,?_⟩
          · by_contra hd
            cases hfile.1 (hends.trans (by simpa using hd))
          · exact if_pos rfl

end

/-- The whole member was not asked for yet. -/
def Fresh (v : MemberDisk) : Prop := v.whole = none ∧ v.decoded = none

/-- The destination is open and holds what was read so far. -/
structure Filling (file : Nat) (v : MemberDisk) : Prop where
  fresh : Fresh v
  dest : v.dest = some v.fed
  out : v.out = some file
  late : v.late = false

/-- How a stream ends that fills the destination: if for lack of memory, it is left as it is. -/
def StreamEnded (e : StreamEnd Unit) (v : MemberDisk) : Prop :=
  Fresh v ∧ (e.failure = .noMemory → v.late = true ∧ v.dest = some v.fed)

variable {file : Nat} {session : UInt32} {input decoded : SharedBuffer}
  {outputLimit total left : Nat} {s : Unit}

theorem Filling.ended (h : Filling file v) {e : StreamEnd Unit} (he : e.failure = .ok) :
    StreamEnded e v := by
  refine ⟨h.fresh,fun hno => ?_⟩
  rw [he] at hno
  cases hno

theorem Filling.refused (h : Filling file v) (status : Status) {e : StreamEnd Unit}
    (he : e.failure = status) : StreamEnded e (v.refused status) := by
  refine ⟨h.fresh,fun hno => ⟨?_,h.dest⟩⟩
  simp [MemberDisk.refused,← he,hno]

theorem Filling.granted (h : Filling file v) {status : Status} (hs : status = .ok) :
    Filling file (v.refused status) := by
  refine ⟨h.fresh,h.dest,h.out,?_⟩
  simp [MemberDisk.refused,h.late,hs]

theorem deliverChunk_member (h : Filling file v) (length : Nat) :
    (memberDisk path).wp (deliverChunk decoded (some file) none s length)
      (fun r u => Fresh u ∧ (r.1 = true → Filling file u)) v := by
  unfold deliverChunk
  rw [if_neg (by simp)]
  unfold sharedCopyFrom
  split
  · intro data _
    have hload : v.next path (.load decoded.handle 0 length) data =
        {v with fed := v.fed++data.val} := by
      simp [MemberDisk.next,MemberDisk.loaded,h.fresh.1]
    dsimp only
    rw [hload]
    rintro (_ | _) -
    · exact ⟨h.fresh,nofun⟩
    · have hwrite : ({v with fed := v.fed++data.val} : MemberDisk).next path
          (.tool (.write file data.val)) true =
          {v with fed := v.fed++data.val,dest := some (v.fed++data.val)} := by
        simp [MemberDisk.next,MemberDisk.wrote,h.out,h.dest]
      have hfilling : Filling file (({v with fed := v.fed++data.val} : MemberDisk).next path
          (.tool (.write file data.val)) true) := by
        rw [hwrite]
        exact ⟨h.fresh,rfl,h.out,h.late⟩
      exact ⟨hfilling.fresh,fun _ => hfilling⟩
  · exact ⟨h.fresh,fun _ => h⟩

theorem streamReadPart_member (h : Filling file v) :
    (memberDisk path).wp
      (streamReadPart session decoded outputLimit (deliverChunk decoded (some file) none) total s)
      (AfterRead (w := memberDisk path) StreamEnded (fun _ _ _ _ u => Filling file u) session left
        total) v := by
  unfold streamReadPart
  split
  · exact h.ended rfl
  · next desc hdesc =>
    obtain ⟨rfl,-⟩ := buildStreamReadDesc_eq hdesc
    rintro ⟨status,result⟩ -
    simp only [Ask.bind]
    by_cases hs : status = .ok
    · rw [if_neg (not_not.mpr hs)]
      have hgranted : Filling file (v.refused status) := h.granted hs
      split
      · exact hgranted.ended rfl
      · have hdeliver : (memberDisk path).wp (if result.bytesWritten = 0 then pure (true,s)
            else deliverChunk decoded (some file) none s result.bytesWritten)
            (fun r u => Fresh u ∧ (r.1 = true → Filling file u)) (v.refused status) := by
          split
          · exact ⟨hgranted.fresh,fun _ => hgranted⟩
          · exact deliverChunk_member hgranted _
        refine (World.wp_bind _).mpr (World.wp_mono _ hdeliver ?_)
        rintro ⟨delivered,s⟩ u ⟨hfresh,hfilling⟩
        cases delivered with
        | false => exact ⟨hfresh,(by simp)⟩
        | true =>
          have hgo := hfilling rfl
          rw [if_neg (by simp)]
          split
          · exact hgo.ended rfl
          · simp only [AfterRead,World.wp_ret,Ask.pure_eq]
            split
            · exact hgo
            · split
              · exact hgo.ended rfl
              · exact hgo
    · rw [if_pos hs]
      refine (World.wp_bind _).mpr (World.wp_mono _ (aside_wp aside_printSharedDiag _) ?_)
      rintro _ _ rfl
      exact h.refused status rfl

theorem streamFeedPart_member {copyChunk : SharedBuffer → Nat → Nat → Job Bool}
    (hcopy : ∀ offset length,(copyChunk input offset length).All Aside) {totalInput : Nat}
    {needInput : Bool} (h : Filling file v) :
    (memberDisk path).wp (streamFeedPart session input copyChunk totalInput needInput left s)
      (AfterFeed (w := memberDisk path) StreamEnded (fun _ _ _ _ u => Filling file u) session
        decoded outputLimit (deliverChunk decoded (some file) none) total s) v := by
  unfold streamFeedPart
  split
  · exact streamReadPart_member h
  · split
    · exact h.ended rfl
    · extract_lets feedLen feedFlags
      refine (World.wp_bind _).mpr (World.wp_mono _ (aside_wp (hcopy _ _) _) ?_)
      rintro copied _ rfl
      split
      · exact h.ended rfl
      · next desc hdesc =>
        cases copied with
        | false => cases hdesc
        | true =>
          rw [if_pos rfl] at hdesc
          obtain rfl := buildStreamFeedDesc_eq hdesc
          rintro ⟨status,result⟩ -
          simp only [Ask.bind]
          by_cases hs : status = .ok
          · rw [if_neg (not_not.mpr hs)]
            exact streamReadPart_member (h.granted hs)
          · rw [if_pos hs]
            refine (World.wp_bind _).mpr (World.wp_mono _ (aside_wp aside_printSharedDiag _) ?_)
            rintro _ _ rfl
            exact h.refused status rfl

theorem endStream_member (e : StreamEnd Unit) (opened : Option OpenedOutput) :
    (memberDisk path).wp (endStream e opened decoded input)
      (fun r u => r.failure = e.failure ∧ u = v) v := by
  have hfailure : (memberDisk path).wp (endStream e opened decoded input)
      (fun r _ => r.failure = e.failure) v := by
    refine (World.wp_bind _).mpr (World.wp_always _ (fun _ u => ?_) _)
    refine (World.wp_bind _).mpr (World.wp_always _ (fun _ u => ?_) _)
    exact (World.wp_bind _).mpr (World.wp_always _ (fun _ _ => rfl) _)
  exact World.wp_and _ hfailure (aside_wp (aside_endStream e opened decoded input) v)

/-- What the first attempt leaves: where it failed for lack of memory, the destination is there just
if a feeding or a reading was refused, with the bytes read by then. -/
structure FirstTry (out : ArchiveEntry) (e : DecodeEnd Unit) (v : MemberDisk) : Prop where
  fresh : Fresh v
  left : e.failure = .noMemory → v.dest = if v.late then some v.fed else none
  early : e.failure = .noMemory → out.isDir = true → v.late = false

theorem decompressFeed_member {service : CodecService} {algorithm : Compression}
    {totalInput : Nat} {copyChunk : SharedBuffer → Nat → Nat → Job Bool} {opts : ToolOptions}
    {outputDir : CString} {entry out : ArchiveEntry}
    (hcopy : ∀ input offset length,(copyChunk input offset length).All Aside)
    (hdry : opts.dryRunOutputs = false) (hout : outputEntry opts entry = some out) :
    (memberDisk (joinedPath outputDir out.name)).wp
      (decompressFeed service algorithm totalInput outputLimit copyChunk
        {openFile := some (openOutputEntry opts outputDir entry),onChunk := none,consumer := ()})
      (FirstTry out) {} := by
  have hfirst : ∀ e : DecodeEnd Unit,FirstTry out e {} :=
    fun e => ⟨⟨rfl,rfl⟩,fun _ => rfl,fun _ _ => rfl⟩
  have hstop : ∀ (e : StreamEnd Unit) (input decoded : SharedBuffer),
      (memberDisk (joinedPath outputDir out.name)).wp (endStream e none decoded input)
        (FirstTry out) {} := by
    intro e input decoded
    refine World.wp_mono _ (endStream_member e none) ?_
    rintro r _ ⟨-,rfl⟩
    exact hfirst r
  unfold decompressFeed allocStreamPair
  refine (World.wp_bind _).mpr (World.wp_mono _ (aside_wp (aside_allocStreamPairLoop _ _) _) ?_)
  rintro (status | ⟨input,decoded,capacity⟩) _ rfl
  · refine (World.wp_bind _).mpr (World.wp_mono _ (aside_wp aside_printSharedDiag _) ?_)
    rintro _ _ rfl
    exact hstop _ _ _
  · have hmalloc : (if FeedOutput.wanted (σ := Unit) {
        openFile := some (openOutputEntry opts outputDir entry),onChunk := none,consumer := ()}
        then Job.tool (Tool.malloc capacity) else pure true : Job Bool).All Aside :=
      ⟨trivial,fun _ => trivial⟩
    refine (World.wp_bind _).mpr (World.wp_mono _ (aside_wp hmalloc _) ?_)
    rintro got _ rfl
    split
    · exact hstop _ _ _
    · next desc hdesc =>
      cases got with
      | false => cases hdesc
      | true =>
        rw [if_pos rfl] at hdesc
        obtain rfl := buildStreamBeginDesc_eq hdesc
        rintro ⟨status,begun⟩ -
        simp only [Ask.bind]
        by_cases hs : status = .ok
        · rw [if_neg (not_not.mpr hs)]
          change (memberDisk (joinedPath outputDir out.name)).wp
            ((Job.tool (openOutputEntry opts outputDir entry) >>= fun opened =>
              pure (opened.map some)) >>= _) _ {}
          refine (World.wp_bind _).mpr ((World.wp_bind _).mpr
            (World.wp_mono _ (openOutputEntry_member hdry hout rfl rfl) ?_))
          rintro (_ | opened) u hu
          · obtain rfl : u = _ := hu
            exact hstop _ _ _
          · obtain ⟨hdir,rfl⟩ := hu
            refine (World.wp_bind _).mpr (World.wp_mono _ (feedLoop_wp
              (w := memberDisk (joinedPath outputDir out.name))
              (fun _ _ _ _ _ h => streamFeedPart_member (hcopy _) h) rfl ?_) ?_)
            · exact ⟨⟨rfl,rfl⟩,rfl,rfl,rfl⟩
            · rintro e u ⟨hfresh,hended⟩
              refine World.wp_mono _ (endStream_member e _) ?_
              rintro r u ⟨hfailure,rfl⟩
              refine ⟨hfresh,fun hno => ?_,fun _ hd => ?_⟩
              · obtain ⟨hlate,hdest⟩ := hended (hfailure ▸ hno)
                rw [hdest,hlate]
                rfl
              · rw [hdir] at hd
                cases hd
        · rw [if_pos hs]
          refine (World.wp_bind _).mpr (World.wp_mono _ (aside_wp aside_printSharedDiag _) ?_)
          rintro _ _ rfl
          exact hstop _ _ _

/-- What the decoding of the whole member leaves, by what it returns -/
def WholeDecoded (v : MemberDisk) (r : Option (Bytes × DecompressResult)) (u : MemberDisk) : Prop :=
  u = {v with whole := u.whole,decoded := u.decoded} ∧ match r with
    | none => u.decoded = none
    | some (data,result) => u.whole = some (.ok,result) ∧ u.decoded = some data ∧
        data.length = result.bytesWritten

theorem decompressToMemory_member {service : CodecService} {algorithm : Compression}
    {compressed : Bytes} {outputCapacity : Nat} (h : Fresh v) :
    (memberDisk path).wp
      (decompressToMemoryEx service algorithm compressed outputCapacity false) (WholeDecoded v) v := by
  have hnone : WholeDecoded v none v := ⟨rfl,h.2⟩
  have hpart {α : Type} {p : Job α} (hp : p.All Aside) {f : α → Job (Option (Bytes × DecompressResult))}
      (hf : ∀ a,(memberDisk path).wp (f a) (WholeDecoded v) v) :
      (memberDisk path).wp (p >>= f) (WholeDecoded v) v := by
    refine (World.wp_bind _).mpr (World.wp_mono _ (aside_wp hp v) ?_)
    rintro a _ rfl
    exact hf a
  have hend : ∀ (input decoded : SharedBuffer) {r : Option (Bytes × DecompressResult)}
      {u : MemberDisk},WholeDecoded v r u → (memberDisk path).wp (do
        releasePair decoded input
        pure r) (WholeDecoded v) u := by
    intro input decoded r u hu
    refine (World.wp_bind _).mpr (World.wp_mono _ (aside_wp (aside_releasePair _ _) u) ?_)
    rintro _ _ rfl
    exact hu
  unfold decompressToMemoryEx
  split
  · exact hnone
  · refine hpart (p := Job.tool (Tool.malloc outputCapacity)) ⟨trivial,fun _ => trivial⟩ ?_
    intro got
    split
    · exact hnone
    · refine hpart (p := Job.allocShared compressed.length 16 0) ⟨trivial,fun _ => trivial⟩ ?_
      rintro (status | input)
      · exact hpart (aside_noteStatus status) fun _ => hpart aside_printSharedDiag fun _ => hnone
      · refine hpart (p := Job.allocShared outputCapacity 16 0) ⟨trivial,fun _ => trivial⟩ ?_
        rintro (status | decoded)
        · exact hpart (aside_noteStatus status) fun _ => hpart aside_printSharedDiag fun _ =>
            hpart (aside_releaseShared _) fun _ => hnone
        · unfold decompressBuffers
          refine hpart (aside_sharedCopyTo input 0 compressed) fun copied => ?_
          split
          · exact hend input decoded hnone
          · next desc hdesc =>
            cases copied with
            | false => cases hdesc
            | true =>
              rw [if_pos rfl] at hdesc
              obtain rfl := buildDecompressDesc_eq hdesc
              rintro ⟨status,result⟩ -
              have hasked : WholeDecoded v none {v with whole := some (status,result)} :=
                ⟨rfl,h.2⟩
              simp only [Ask.bind]
              split
              · refine (World.wp_bind _).mpr (World.wp_mono _ (aside_wp (aside_noteStatus _) _) ?_)
                rintro _ _ rfl
                exact hasked
              · split
                · refine (World.wp_bind _).mpr (World.wp_mono _ (aside_wp aside_printSharedDiag _) ?_)
                  rintro _ _ rfl
                  exact hend input decoded hasked
                · next hs =>
                  obtain rfl : status = .ok := not_not.mp hs
                  have hload : (memberDisk path).wp (if outputCapacity < result.bytesWritten then
                        pure none
                      else do
                        let data ← sharedCopyFrom decoded 0 result.bytesWritten
                        pure (data.map Subtype.val))
                      (fun r u => WholeDecoded v (r.map fun data => (data,result)) u)
                      {v with whole := some (.ok,result)} := by
                    split
                    · exact hasked
                    · unfold sharedCopyFrom
                      split
                      · intro data _
                        exact ⟨rfl,rfl,rfl,data.property⟩
                      · exact hasked
                  refine (World.wp_bind _).mpr (World.wp_mono _ hload ?_)
                  intro r u hr
                  exact hend input decoded hr

theorem ensureParentDirsLoop_member (hdecoded : v.decoded.isSome) {before rest : CString}
    (hpath : path = before++rest) :
    (memberDisk path).wp (Job.tool (ensureParentDirsLoop before rest))
      (fun r u => r = true ∧ u = v) v := by
  induction rest generalizing before with
  | nil => exact ⟨rfl,rfl⟩
  | cons c rest ih =>
    have hrest := @ih (before++[c]) (by simpa using hpath)
    have hprefix : before <+: path := hpath ▸ List.prefix_append _ _
    have hne : before ≠ path := by
      intro heq
      have hlength := congrArg List.length (heq.trans hpath)
      simp at hlength
    unfold ensureParentDirsLoop
    split
    · next hcond =>
      have hmade : (memberDisk path).wp (Job.tool (mkdirOne before)) (fun r u => r = true ∧ u = v)
          v := by
        unfold mkdirOne
        rw [if_neg hcond.2.1]
        intro answer hanswer
        cases answer with
        | made => exact ⟨rfl,rfl⟩
        | taken => exact fun dir hdir => ⟨hdir.2 hdecoded hprefix hne,rfl⟩
        | failed => exact absurd rfl (hanswer hdecoded)
      rw [tool_bind,World.wp_bind]
      refine World.wp_mono _ hmade ?_
      rintro _ _ ⟨rfl,rfl⟩
      exact hrest
    · exact hrest

theorem ensureParentDirs_member {dir name : CString} (hdecoded : v.decoded.isSome)
    (hpath : path = joinedPath dir name) :
    (memberDisk path).wp (Job.tool (ensureParentDirs dir name)) (fun r u => r = true ∧ u = v) v := by
  unfold ensureParentDirs
  rw [tool_bind,World.wp_bind]
  refine World.wp_mono _ joinPath_member ?_
  rintro r u ⟨rfl,hsome,hjoined⟩
  obtain ⟨p,rfl⟩ := Option.isSome_iff_exists.mp (hsome hdecoded)
  obtain rfl : p = path := (hjoined p rfl).trans hpath.symm
  exact ensureParentDirsLoop_member hdecoded rfl

section

variable {opts : ToolOptions} {outputDir : CString} {entry out : ArchiveEntry}

/-- What writing the decoded member leaves: it is written but where the checks refuse or skip the
destination. -/
def MemberWritten (opts : ToolOptions) (v : MemberDisk) (data : Bytes) (ok : Bool)
    (u : MemberDisk) : Prop :=
  u = {v with dest := u.dest,out := u.out} ∧ match memberCheck opts v.dest.isSome with
    | .skip => ok = true ∧ u.dest = v.dest
    | .refuse => ok = false
    | _ => ok = true ∧ u.dest = some data

theorem writeFile_member {data : Bytes} (hdry : opts.dryRunOutputs = false)
    (hdecoded : v.decoded.isSome) (hends : nameEndsWithSlash path = false) :
    (memberDisk path).wp (Job.tool (writeFile opts path data)) (MemberWritten opts v data) v := by
  unfold writeFile
  rw [tool_bind,World.wp_bind]
  refine World.wp_mono _ (checkOutput_member hdry) ?_
  rintro check u ⟨rfl,rfl⟩
  unfold MemberWritten
  cases hcheck : memberCheck opts u.dest.isSome with
  | refuse => exact ⟨rfl,rfl⟩
  | skip => exact ⟨rfl,rfl,rfl⟩
  | dryRun => exact absurd hcheck memberCheck_ne_dryRun
  | proceed =>
    intro file hfile
    obtain ⟨file,rfl⟩ := Option.ne_none_iff_exists'.mp (hfile.2 hdecoded rfl hends)
    have hopened : u.next path (.tool (.openWrite path)) (some file : Option Nat) =
        {u with dest := some [],out := some file} := if_pos rfl
    dsimp only
    rw [hopened]
    change (memberDisk path).wp (Job.tool (do
      let written ← (if data = [] then pure true else Tool.write file data)
      let _ ← Tool.close file
      pure written)) _ ({u with dest := some [],out := some file} : MemberDisk)
    by_cases hdata : data = []
    · rw [if_pos hdata]
      rintro closed -
      exact ⟨rfl,rfl,hdata ▸ rfl⟩
    · rw [if_neg hdata]
      rintro done hdone closed -
      obtain rfl : done = true := hdone hdecoded
      have hwritten : ({u with dest := some [],out := some file} : MemberDisk).next path
          (.tool (.write file data)) true = {u with dest := some data,out := some file} := by
        simp [MemberDisk.next,MemberDisk.wrote]
      have hend : MemberWritten opts u data true {u with dest := some data,out := some file} := by
        unfold MemberWritten
        rw [hcheck]
        exact ⟨rfl,rfl,rfl⟩
      rw [← hwritten] at hend
      unfold MemberWritten at hend
      rw [hcheck] at hend
      exact hend

theorem pathIsSafeLoop_rest {component name rest : CString} {c : UInt8}
    (h : pathIsSafeLoop component name = true) (hrest : name.dropWhile (· ≠ slash) = c::rest) :
    pathIsSafeLoop [] rest = true := by
  induction name generalizing component with
  | nil => cases hrest
  | cons b name ih =>
    unfold pathIsSafeLoop at h
    split at h
    · cases h
    · by_cases hb : b = slash
      · rw [if_pos hb] at h
        rw [List.dropWhile_cons_of_neg (by simpa using hb)] at hrest
        cases hrest
        split at h
        · cases h
        · exact h
      · rw [if_neg hb] at h
        rw [List.dropWhile_cons_of_pos (by simpa using hb)] at hrest
        exact ih h hrest

theorem pathIsSafeLoop_head {name : CString} (h : pathIsSafeLoop [] name = true) :
    name.head? ≠ some slash ∧ name.head? ≠ some backslash := by
  cases name with
  | nil => exact ⟨nofun,nofun⟩
  | cons b name =>
    constructor <;> intro hb <;> obtain rfl := Option.some.inj hb
    · simp [pathIsSafeLoop] at h
    · simp [pathIsSafeLoop] at h

theorem pathIsSafeLoop_unslashed {name : CString} (h : pathIsSafeLoop [] name = true) :
    name.dropWhile (· = slash) = name := by
  cases name with
  | nil => rfl
  | cons b name =>
    refine List.dropWhile_cons_of_neg ?_
    intro hb
    obtain rfl : b = slash := by simpa using hb
    exact (pathIsSafeLoop_head h).1 rfl

theorem stripComponentsLoop_safe {n : Nat} {name : CString} (h : pathIsSafeLoop [] name = true) :
    pathIsSafeLoop [] (stripComponentsLoop n name).2 = true := by
  induction n generalizing name with
  | zero => exact h
  | succ n ih =>
    unfold stripComponentsLoop
    rw [pathIsSafeLoop_unslashed h]
    split
    · exact h
    · split
      · rfl
      · next c rest hrest => exact ih (pathIsSafeLoop_rest h hrest)

/-- What is left of a safe name when leading components are stripped is safe. -/
theorem stripEntryName_safe {n : Nat} {name : CString} (h : pathIsSafe name = true)
    (hne : stripEntryName n name ≠ []) : pathIsSafe (stripEntryName n name) = true := by
  unfold stripEntryName at hne ⊢
  split at hne
  · next h0 =>
    rw [if_pos h0]
    exact h
  · next h0 =>
    rw [if_neg h0]
    simp only [pathIsSafe,decide_eq_true_eq] at h
    have hloop := @stripComponentsLoop_safe n _ h.2.2.2
    dsimp only at hne ⊢
    split at hne
    · next hleft =>
      rw [if_pos hleft]
      rw [pathIsSafeLoop_unslashed hloop] at hne ⊢
      simp only [pathIsSafe,decide_eq_true_eq]
      exact ⟨hne,(pathIsSafeLoop_head hloop).1,(pathIsSafeLoop_head hloop).2,hloop⟩
    · exact absurd rfl hne

theorem writeEntry_member {data : Bytes} (hdry : opts.dryRunOutputs = false)
    (hout : outputEntry opts entry = some out) (hsafe : pathIsSafe out.name = true)
    (hpath : path = joinedPath outputDir out.name) (hdecoded : v.decoded.isSome) :
    (memberDisk path).wp (Job.tool (writeEntry opts outputDir entry data))
      (fun ok u => if out.isDir then u = v
        else MemberWritten opts v (data.take entry.uncompressedSize) ok u) v := by
  obtain ⟨heq,hname,hdir⟩ := outputEntry_name hout
  have hends : nameEndsWithSlash path = out.isDir := by rw [hpath,joinedPath_ends hname,hdir]
  have hsize : out.uncompressedSize = entry.uncompressedSize := by rw [heq]
  unfold writeEntry
  rw [hout]
  dsimp only
  rw [if_neg (by simp [hsafe]),tool_bind,World.wp_bind]
  refine World.wp_mono _ joinPath_member ?_
  rintro r u ⟨rfl,hsome,hjoined⟩
  obtain ⟨p,rfl⟩ := Option.isSome_iff_exists.mp (hsome hdecoded)
  obtain rfl : p = path := (hjoined p rfl).trans hpath.symm
  cases hd : out.isDir with
  | true =>
    change (memberDisk p).wp (Job.tool (checkEntry opts (trimTrailingSeparators p) true >>= _))
      (fun _ w => w = u) u
    refine aside_wp (aside_looks (Ask.all_bind (all_checkEntry trivial trivial) ?_)) u
    rintro (_ | _ | _ | _)
    · trivial
    · trivial
    · trivial
    · refine Ask.all_bind looks_ensureParentDirs fun parents => ?_
      split
      · trivial
      · exact all_mkdirOne trivial trivial
  | false =>
    rw [hd] at hends
    change (memberDisk p).wp (Job.tool (checkOutput opts p (pure false) >>= _))
      (MemberWritten opts u (data.take entry.uncompressedSize)) u
    rw [tool_bind,World.wp_bind]
    refine World.wp_mono _ (checkOutput_member hdry) ?_
    rintro check u ⟨rfl,rfl⟩
    cases hcheck : memberCheck opts u.dest.isSome with
    | refuse =>
      unfold MemberWritten
      rw [hcheck]
      exact ⟨rfl,rfl⟩
    | skip =>
      unfold MemberWritten
      rw [hcheck]
      exact ⟨rfl,rfl,rfl⟩
    | dryRun => exact absurd hcheck memberCheck_ne_dryRun
    | proceed =>
      dsimp only
      rw [tool_bind,World.wp_bind]
      refine World.wp_mono _ (ensureParentDirs_member hdecoded hpath) ?_
      rintro _ u ⟨rfl,rfl⟩
      rw [if_neg (by decide),← hsize]
      exact writeFile_member hdry hdecoded hends

theorem fresh_tool {α : Type} (p : Tool α) (h : Fresh v) :
    (memberDisk path).wp (Job.tool p) (fun _ u => Fresh u) v := by
  induction p generalizing v with
  | ret a => exact h
  | ask c k ih =>
    intro x _
    refine ih x (v := v.next path (.tool c) x) ?_
    cases c with
    | openWrite name =>
      cases x with
      | none => exact h
      | some file =>
        simp only [MemberDisk.next,MemberDisk.opened]
        split <;> exact h
    | write file data =>
      simp only [MemberDisk.next,MemberDisk.wrote]
      split <;> exact h
    | _ => exact h

theorem MemberDisk.Decodes.agrees {u : MemberDisk} {data : Bytes} (h : u.Decodes entry data)
    {ok : Bool} : u.Agrees entry ok ↔ ok = true ∧ u.dest = some data := by
  obtain ⟨result,hwhole,hmatch,hdecoded⟩ := h
  constructor
  · exact fun ha => (ha (by simp [hwhole])).1 data ⟨result,hwhole,hmatch,hdecoded⟩
  · rintro ⟨hok,hdest⟩ -
    refine ⟨?_,fun _ => ⟨data,⟨result,hwhole,hmatch,hdecoded⟩,hdest⟩⟩
    rintro text ⟨-,-,-,htext⟩
    rw [hdecoded] at htext
    cases htext
    exact ⟨hok,hdest⟩

/-- The condition for the two attempts to agree on a member decoded to `text` -/
def FallbackSound (opts : ToolOptions) (out : ArchiveEntry) (v : MemberDisk) (text : Bytes) : Prop :=
  out.isDir = false ∧ (v.late = false ∨
    if opts.skipExistingOutputs then v.fed = text else opts.overwriteOutputs = true)

theorem agrees_undecoded {u : MemberDisk} (h : ∀ text,¬ u.Decodes entry text) :
    u.Agrees entry false ↔ ∀ text,u.Decodes entry text → FallbackSound opts out u text :=
  ⟨fun _ text htext => absurd htext (h text),
    fun _ _ => ⟨fun text htext => absurd htext (h text),nofun⟩⟩

theorem sevenZipResultMatchesEntry_length {result : DecompressResult}
    (h : sevenZipResultMatchesEntry entry result = true) :
    result.bytesWritten = entry.uncompressedSize := by
  simp only [sevenZipResultMatchesEntry,decide_eq_true_eq] at h
  exact h.1

/-- What is behind the decoding of the whole member agrees with the first attempt just under the
condition. -/
theorem written_agrees {u w : MemberDisk} {data : Bytes} {result : DecompressResult} {ok : Bool}
    (hwhole : u.whole = some (.ok,result)) (hdata : u.decoded = some data)
    (hlength : data.length = result.bytesWritten)
    (hleft : u.dest = if u.late then some u.fed else none)
    (hearly : out.isDir = true → u.late = false)
    (hw : if out.isDir then w = u
      else MemberWritten opts u (data.take entry.uncompressedSize) ok w) :
    w.Agrees entry ((if ok then some result else none).any (sevenZipResultMatchesEntry entry)) ↔
      ∀ text,w.Decodes entry text → FallbackSound opts out w text := by
  have hkept : w.whole = u.whole ∧ w.decoded = u.decoded ∧ w.late = u.late ∧ w.fed = u.fed := by
    split at hw
    · rw [hw]
      exact ⟨rfl,rfl,rfl,rfl⟩
    · rw [hw.1]
      exact ⟨rfl,rfl,rfl,rfl⟩
  obtain ⟨hw1,hw2,hw3,hw4⟩ := hkept
  cases hmatch : sevenZipResultMatchesEntry entry result with
  | false =>
    have hany : (if ok then some result else none).any (sevenZipResultMatchesEntry entry) = false := by
      cases ok <;> simp [hmatch]
    rw [hany]
    refine agrees_undecoded fun text => ?_
    rintro ⟨other,hother,hagain,-⟩
    rw [hw1,hwhole] at hother
    cases hother
    rw [hmatch] at hagain
    cases hagain
  | true =>
    have hdecodes : w.Decodes entry data :=
      ⟨result,hw1.trans hwhole,hmatch,hw2.trans hdata⟩
    have hall : data.take entry.uncompressedSize = data :=
      List.take_of_length_le (by rw [hlength,sevenZipResultMatchesEntry_length hmatch])
    have hany : (if ok then some result else none).any (sevenZipResultMatchesEntry entry) = ok := by
      cases ok <;> simp [hmatch]
    have hsound : (∀ text,w.Decodes entry text → FallbackSound opts out w text) ↔
        FallbackSound opts out w data := by
      refine ⟨fun h => h data hdecodes,?_⟩
      rintro h text ⟨-,-,-,htext⟩
      rw [hw2,hdata] at htext
      cases htext
      exact h
    rw [hany,hdecodes.agrees,hsound,FallbackSound,hw3,hw4]
    rw [hall] at hw
    cases hd : out.isDir with
    | true =>
      rw [hd,if_pos rfl] at hw
      rw [hearly hd] at hleft
      simp [hw,hleft]
    | false =>
      rw [hd,if_neg Bool.false_ne_true] at hw
      have hwritten := hw.2
      rw [hleft] at hwritten
      cases hlate : u.late with
      | false =>
        rw [hlate] at hwritten
        have hproceed : memberCheck opts (if false = true then some u.fed else none).isSome =
            .proceed := by simp [memberCheck]
        rw [hproceed] at hwritten
        simpa using hwritten
      | true =>
        rw [hlate] at hwritten hleft
        cases hs : opts.skipExistingOutputs with
        | true =>
          have hskip : memberCheck opts (if true = true then some u.fed else none).isSome = .skip := by
            simp [memberCheck,hs]
          rw [hskip] at hwritten
          obtain ⟨hok,hdest⟩ := hwritten
          simp [hok,hdest]
        | false =>
          cases ho : opts.overwriteOutputs with
          | true =>
            have hproceed : memberCheck opts (if true = true then some u.fed else none).isSome =
                .proceed := by simp [memberCheck,hs,ho]
            rw [hproceed] at hwritten
            simpa using hwritten
          | false =>
            have hrefuse : memberCheck opts (if true = true then some u.fed else none).isSome =
                .refuse := by simp [memberCheck,hs,ho]
            rw [hrefuse] at hwritten
            simp [show ok = false from hwritten]

/-- The second attempt, from what the first left -/
theorem sevenZipLzma2Fallback_member {service : CodecService} {archivePath : CString}
    (hdry : opts.dryRunOutputs = false) (hout : outputEntry opts entry = some out)
    (hsafe : pathIsSafe out.name = true) (hpath : path = joinedPath outputDir out.name)
    (hfresh : Fresh v) (hleft : v.dest = if v.late then some v.fed else none)
    (hearly : out.isDir = true → v.late = false) :
    (memberDisk path).wp (sevenZipLzma2FallbackFileRange service opts archivePath outputDir entry)
      (fun r u => u.Agrees entry (r.any (sevenZipResultMatchesEntry entry)) ↔
        ∀ text,u.Decodes entry text → FallbackSound opts out u text) v := by
  have hnone : ∀ u : MemberDisk,u.decoded = none → (u.Agrees entry false ↔
      ∀ text,u.Decodes entry text → FallbackSound opts out u text) := by
    intro u hu
    refine agrees_undecoded fun text => ?_
    rintro ⟨-,-,-,htext⟩
    rw [hu] at htext
    cases htext
  unfold sevenZipLzma2FallbackFileRange
  split
  · exact hnone v hfresh.2
  · have hread : (Job.tool (Tool.readFileRange archivePath entry.dataOffset
        entry.compressedSize)).All Aside := by
      refine aside_tool ?_
      unfold Tool.readFileRange
      split
      · trivial
      · refine Ask.all_bind ?_ fun got => Ask.all_bind ?_ fun opened => Ask.all_bind ?_ fun sought => ?_
        · split
          · exact ⟨trivial,fun _ => trivial⟩
          · trivial
        · split
          · exact ⟨trivial,fun _ => trivial⟩
          · trivial
        · split
          · exact ⟨trivial,fun _ => trivial⟩
          · trivial
        · split
          · trivial
          · split
            · trivial
            · exact ⟨trivial,fun _ => trivial⟩
    refine (World.wp_bind _).mpr (World.wp_mono _ (aside_wp hread v) ?_)
    rintro packed _ rfl
    split
    · exact hnone _ hfresh.2
    · next packed =>
      have hbuild : (Job.tool (sevenZipBuildLzma2Payload entry packed)).All Aside := by
        refine aside_tool ?_
        unfold sevenZipBuildLzma2Payload
        split
        · trivial
        · exact ⟨trivial,fun _ => trivial⟩
      refine (World.wp_bind _).mpr (World.wp_mono _ (aside_wp hbuild _) ?_)
      rintro wrapped _ rfl
      split
      · exact hnone _ hfresh.2
      · refine (World.wp_bind _).mpr (World.wp_mono _ (decompressToMemory_member hfresh) ?_)
        rintro (_ | ⟨data,result⟩) u ⟨hu,hdecoded⟩
        · exact hnone u hdecoded
        · obtain ⟨hwhole,hdata,hlength⟩ := hdecoded
          refine (World.wp_bind _).mpr (World.wp_mono _ (writeEntry_member
            hdry hout hsafe hpath (by rw [hdata]; rfl)) ?_)
          intro ok w hw
          have hagrees := written_agrees (w := w) hwhole hdata hlength (hu ▸ hleft) (hu ▸ hearly) hw
          cases ok <;> exact hagrees

/-- Where the whole member is decoded after a feed that ran out of memory, the two attempts agree
just if the first had not yet opened the destination, or its file is replaced, or is left in the
mode to skip and was complete. -/
theorem sevenZipExtractEntry_agrees {codec : Option CodecService} {archivePath : CString}
    {ok : Bool} (hmethod : entry.method = sevenZipMethodLzma2) (hdry : opts.dryRunOutputs = false)
    (hout : outputEntry opts entry = some out)
    (h : (memberDisk (joinedPath outputDir out.name)).Reaches
      (sevenZipExtractEntry codec opts archivePath outputDir entry) {} ok v) :
    v.Agrees entry ok ↔ ∀ text,v.Decodes entry text → FallbackSound opts out v text := by
  have hfresh : ∀ (ok : Bool) (u : MemberDisk),Fresh u →
      (u.Agrees entry ok ↔ ∀ text,u.Decodes entry text → FallbackSound opts out u text) := by
    intro ok u hu
    refine iff_of_true ?_ ?_
    · intro hasked
      rw [hu.1] at hasked
      cases hasked
    · rintro text ⟨result,hwhole,-⟩
      rw [hu.1] at hwhole
      cases hwhole
  have hstart : Fresh ({} : MemberDisk) := ⟨rfl,rfl⟩
  refine World.wp_reaches (Q := fun (ok : Bool) (u : MemberDisk) => u.Agrees entry ok ↔
    ∀ text,u.Decodes entry text → FallbackSound opts out u text) ?_ h
  unfold sevenZipExtractEntry
  split
  · exact hfresh _ _ hstart
  split
  · exact hfresh _ _ hstart
  next hsafe =>
  have hname : pathIsSafe out.name = true := by
    obtain ⟨heq,hne,-⟩ := outputEntry_name hout
    rw [heq] at hne ⊢
    exact stripEntryName_safe (by simpa using hsafe) hne
  split
  · exact World.wp_mono _ (fresh_tool _ hstart) fun ok u hu => hfresh ok u hu
  have hcopy : entry.method ≠ sevenZipMethodCopy := by rw [hmethod]; decide
  have hdeflate : entry.method ≠ sevenZipMethodDeflate := by rw [hmethod]; decide
  have hlzma : entry.method ≠ sevenZipMethodLzma := by rw [hmethod]; decide
  rw [if_neg hcopy]
  split
  · exact hfresh _ _ hstart
  next service =>
  rw [if_neg hdeflate,if_neg hlzma]
  split
  · exact hfresh _ _ hstart
  next limit _ =>
  have hfeed : (memberDisk (joinedPath outputDir out.name)).wp
      (sevenZipFeedEntry service opts archivePath outputDir entry
        ⟨.lzma2,entry.methodProps,limit⟩) (FirstTry out) {} := by
    have hfirst : ∀ e : DecodeEnd Unit,FirstTry out e {} :=
      fun e => ⟨hstart,fun _ => rfl,fun _ _ => rfl⟩
    unfold sevenZipFeedEntry decompressFeedFilePartsToFile decompressFeedFilePartsCore
    dsimp only
    split
    · exact hfirst _
    · rintro (_ | _) -
      · exact hfirst _
      · rintro (_ | _) -
        · exact hfirst _
        · exact decompressFeed_member (fun _ _ _ => aside_copyFeedFileInputChunk _ _ _ _ _ _) hdry
            hout
  refine (World.wp_bind _).mpr (World.wp_mono _ hfeed ?_)
  intro e u he
  split
  · exact hfresh _ _ he.fresh
  · split
    · next hno =>
      refine (World.wp_bind _).mpr (World.wp_mono _ (sevenZipLzma2Fallback_member hdry hout hname
        rfl he.fresh (he.left hno) (he.early hno)) ?_)
      intro r w hw
      exact hw
    · exact hfresh _ _ he.fresh

end

end

/-- A member of one byte -/
def oneByteMember : ArchiveEntry :=
  {name := [0x61],method := sevenZipMethodLzma2,methodProps := [0],compressedSize := 1,
   uncompressedSize := 1}

/-- The first buffer is refused, and the whole member then decoded and written. -/
theorem sevenZipExtractEntry_oneByte : ∃ (ok : Bool) (v : MemberDisk),
    (memberDisk (joinedPath [] oneByteMember.name)).Reaches
      (sevenZipExtractEntry (some anyService) {} [] [] oneByteMember) {} ok v ∧
    v.Decodes oneByteMember [7] ∧ (v.Agrees oneByteMember ok ↔
      ∀ text,v.Decodes oneByteMember text → FallbackSound {} oneByteMember v text) := by
  have hreach : ∃ (ok : Bool) (v : MemberDisk),
      (memberDisk (joinedPath [] oneByteMember.name)).Reaches
        (sevenZipExtractEntry (some anyService) {} [] [] oneByteMember) {} ok v ∧
      v.Decodes oneByteMember [7] := by
    refine ⟨?_,?_,?_,?_⟩
    pick_goal 3
    · change World.Reaches _ (decompressFeedFilePartsCore anyService .lzma2 [0] [] 0 1 2
        {openFile := some (openOutputEntry {} [] oneByteMember),onChunk := none,consumer := ()}
        >>= _) _ _ _
      unfold decompressFeedFilePartsCore
      dsimp only
      rw [if_neg (by decide)]
      refine World.reaches_ask true trivial ?_
      refine World.reaches_ask true trivial ?_
      change World.Reaches _ (decompressFeed anyService .lzma2 2 2
        (copyFeedFileInputChunk [] [0] 1) _ >>= _) _ _ _
      unfold decompressFeed allocStreamPair
      rw [allocStreamPairLoop,dif_pos (by decide)]
      refine World.reaches_ask (Except.error Status.noMemory) trivial ?_
      refine World.reaches_ask (Status.unsupported,⟨0,0⟩) trivial ?_
      -- the whole member
      refine World.reaches_ask true (by rintro ⟨⟩) ?_
      refine World.reaches_ask true trivial ?_
      refine World.reaches_ask true trivial ?_
      refine World.reaches_ask (some [0]) trivial ?_
      refine World.reaches_ask true (by rintro ⟨⟩) ?_
      refine World.reaches_ask true (by rintro ⟨⟩) ?_
      refine World.reaches_ask (Except.ok (wideBuffer 1)) trivial ?_
      refine World.reaches_ask (Except.ok (wideBuffer 2)) trivial ?_
      refine World.reaches_ask () trivial ?_
      refine World.reaches_ask (Status.ok,{bytesWritten := 1}) trivial ?_
      refine World.reaches_ask ⟨[7],rfl⟩ trivial ?_
      refine World.reaches_ask () trivial ?_
      refine World.reaches_ask () trivial ?_
      -- its writing
      refine World.reaches_ask true (fun _ => rfl) ?_
      refine World.reaches_ask false ⟨fun _ => rfl,fun _ _ h => absurd rfl h⟩ ?_
      refine World.reaches_ask false (fun _ => rfl) ?_
      refine World.reaches_ask true (fun _ => rfl) ?_
      refine World.reaches_ask false ⟨fun _ => rfl,fun _ _ h => absurd rfl h⟩ ?_
      refine World.reaches_ask false (fun _ => rfl) ?_
      refine World.reaches_ask (some 0) ⟨fun h => absurd h (by decide),fun _ _ _ => (by rintro ⟨⟩)⟩ ?_
      refine World.reaches_ask true (fun _ => rfl) ?_
      refine World.reaches_ask true trivial ?_
      exact World.reaches_ret ..
    · exact ⟨{bytesWritten := 1},rfl,rfl,rfl⟩
  obtain ⟨ok,v,hreach,hdecodes⟩ := hreach
  exact ⟨ok,v,hreach,hdecodes,sevenZipExtractEntry_agrees rfl rfl rfl hreach⟩

/-- In the mode to skip, a reading that is refused once the output is open leaves an empty file, which
the fallback takes for one that was there before: success is reported. -/
theorem sevenZipExtractEntry_skipped : ¬ ∀ (ok : Bool) (v : MemberDisk),
    (memberDisk (joinedPath [] oneByteMember.name)).Reaches
      (sevenZipExtractEntry (some anyService) {skipExistingOutputs := true} [] [] oneByteMember) {}
      ok v → v.Agrees oneByteMember ok := by
  have hreach : ∃ (ok : Bool) (v : MemberDisk),
      (memberDisk (joinedPath [] oneByteMember.name)).Reaches
        (sevenZipExtractEntry (some anyService) {skipExistingOutputs := true} [] [] oneByteMember) {}
        ok v ∧ v.Decodes oneByteMember [7] ∧ v.dest = some [] := by
    refine ⟨?_,?_,?_,?_⟩
    pick_goal 3
    · change World.Reaches _ (decompressFeedFilePartsCore anyService .lzma2 [0] [] 0 1 2
        {openFile := some (openOutputEntry {skipExistingOutputs := true} [] oneByteMember)
         onChunk := none,consumer := ()} >>= _) _ _ _
      unfold decompressFeedFilePartsCore
      dsimp only
      rw [if_neg (by decide)]
      refine World.reaches_ask true trivial ?_
      refine World.reaches_ask true trivial ?_
      change World.Reaches _ (decompressFeed anyService .lzma2 2 2
        (copyFeedFileInputChunk [] [0] 1) _ >>= _) _ _ _
      unfold decompressFeed allocStreamPair
      rw [allocStreamPairLoop,dif_pos (by decide)]
      refine World.reaches_ask (Except.ok (wideBuffer 1)) trivial ?_
      refine World.reaches_ask (Except.ok (wideBuffer 2)) trivial ?_
      refine World.reaches_ask true (by rintro ⟨⟩) ?_
      refine World.reaches_ask (Status.ok,{session := 1}) trivial ?_
      -- the output is opened
      refine World.reaches_ask true (by rintro ⟨⟩) ?_
      refine World.reaches_ask false ⟨fun _ => rfl,(by rintro ⟨⟩)⟩ ?_
      refine World.reaches_ask false (fun _ => rfl) ?_
      refine World.reaches_ask false (fun _ => rfl) ?_
      refine World.reaches_ask true (by rintro ⟨⟩) ?_
      refine World.reaches_ask (some 0) ⟨fun h => absurd h (by decide),(by rintro ⟨⟩)⟩ ?_
      change World.Reaches _
        ((feedLoop 1 (wideBuffer 1) (wideBuffer 2) 2 2 _ _ true 2 0 _ >>= _) >>= _) _ _ _
      rw [feedLoop]
      refine World.reaches_ask () trivial ?_
      refine World.reaches_ask (some [0]) trivial ?_
      refine World.reaches_ask () trivial ?_
      refine World.reaches_ask (Status.ok,{}) trivial ?_
      refine World.reaches_ask (Status.noMemory,{}) trivial ?_
      refine World.reaches_ask (Status.unsupported,⟨0,0⟩) trivial ?_
      refine World.reaches_ask true trivial ?_
      refine World.reaches_ask () trivial ?_
      refine World.reaches_ask () trivial ?_
      -- the whole member
      refine World.reaches_ask true (by rintro ⟨⟩) ?_
      refine World.reaches_ask true trivial ?_
      refine World.reaches_ask true trivial ?_
      refine World.reaches_ask (some [0]) trivial ?_
      refine World.reaches_ask true (by rintro ⟨⟩) ?_
      refine World.reaches_ask true (by rintro ⟨⟩) ?_
      refine World.reaches_ask (Except.ok (wideBuffer 1)) trivial ?_
      refine World.reaches_ask (Except.ok (wideBuffer 2)) trivial ?_
      refine World.reaches_ask () trivial ?_
      refine World.reaches_ask (Status.ok,{bytesWritten := 1}) trivial ?_
      refine World.reaches_ask ⟨[7],rfl⟩ trivial ?_
      refine World.reaches_ask () trivial ?_
      refine World.reaches_ask () trivial ?_
      -- its destination is there
      refine World.reaches_ask true (fun _ => rfl) ?_
      refine World.reaches_ask false ⟨fun _ => rfl,fun _ _ h => absurd rfl h⟩ ?_
      refine World.reaches_ask true (fun _ => rfl) ?_
      exact World.reaches_ret ..
    · exact ⟨⟨{bytesWritten := 1},rfl,rfl,rfl⟩,rfl⟩
  obtain ⟨ok,v,hreach,hdecodes,hdest⟩ := hreach
  intro h
  obtain ⟨-,htext⟩ := hdecodes.agrees.mp (h ok v hreach)
  rw [hdest] at htext
  cases htext

end ZZ9K.Archive
