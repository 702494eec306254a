import ZZ9K.Archive.FileWatch

namespace ZZ9K.Archive

open ZZ9K.Abi ZZ9K.Host ZZ9K.Framework

section

variable {f : FileWatch} {R : Bool → Prop} {opts : ToolOptions} {outputDir archivePath : CString}
  {entry : ArchiveEntry}

/-- An empty output is opened itself, and then the result is good. -/
theorem ends_writeEntry {data : Bytes}
    (h : ∀ out, outputEntry opts entry = some out → out.isDir = false → opts.mayReplace = true →
      f.leads (joinedPath outputDir out.name) → R true ∧ data.take out.uncompressedSize = []) :
    f.watch.Ends (fun _ => True) R (writeEntry opts outputDir entry data) := by
  have hguard : f.watch.Spares (fun _ => True) (pure false : Tool Bool) := trivial
  unfold writeEntry
  split
  · trivial
  next out hout =>
  split
  · trivial
  refine spares_joinPath.bind fun joined hjoined => ?_
  cases joined with
  | none => trivial
  | some path =>
    obtain rfl : path = joinedPath outputDir out.name := hjoined path rfl
    have hentry : f.watch.Spares (fun _ => True) (checkEntry opts
        (if out.isDir then trimTrailingSeparators (joinedPath outputDir out.name)
          else joinedPath outputDir out.name) out.isDir) :=
      spares_harmless (all_checkEntry trivial trivial)
    refine hentry.bind fun check _ => ?_
    cases check with
    | refuse => trivial
    | skip => trivial
    | dryRun => trivial
    | proceed =>
      refine (spares_harmless harmless_ensureParentDirs).bind fun parents _ => ?_
      cases parents with
      | false => trivial
      | true =>
        cases hdir : out.isDir with
        | true => exact (spares_harmless (all_mkdirOne trivial trivial)).ends fun _ h => h
        | false =>
          refine (spares_checkOutput hguard).bind fun check hcheck => ?_
          cases check with
          | refuse => trivial
          | skip => trivial
          | dryRun => trivial
          | proceed =>
            intro file _ _
            constructor
            · intro hh
              obtain ⟨hR,hdata⟩ := h out hout hdir ((hcheck rfl).2 hh.1) hh.1
              obtain ⟨file,rfl⟩ := Option.isSome_iff_exists.mp hh.2
              change f.watch.Sure R (do
                let written ← (if data.take out.uncompressedSize = [] then pure true
                  else Tool.write file (data.take out.uncompressedSize))
                let _ ← Tool.close file
                pure written)
              rw [if_pos hdata]
              exact fun _ _ => hR
            · intro _
              cases file with
              | none => trivial
              | some file =>
                have hwrite : f.watch.Spares (fun _ => True)
                    (if data.take out.uncompressedSize = [] then pure true
                      else Tool.write file (data.take out.uncompressedSize)) := by
                  split
                  · trivial
                  · exact ends_harmless (k := .ret) trivial fun _ _ _ => trivial
                refine hwrite.bind fun written _ => ?_
                exact ends_harmless trivial fun _ _ _ => trivial

theorem harmless_tool {α : Type} {p : Tool α} (h : p.All ToolCall.Harmless) :
    (Job.tool p).All JobCall.Harmless := by
  induction p with
  | ret a => trivial
  | ask c k ih => exact ⟨h.1,fun x => ih x (h.2 x)⟩

theorem harmless_noteStatus (status : Status) :
    (Job.noteStatus status).All JobCall.Harmless := by
  unfold Job.noteStatus
  split
  · exact ⟨trivial,fun _ => trivial⟩
  · trivial

theorem harmless_freeShared (handle : UInt32) : (Job.freeShared handle).All JobCall.Harmless := by
  unfold Job.freeShared
  split
  · trivial
  · exact ⟨trivial,fun _ => trivial⟩

theorem harmless_releaseShared (handle : UInt32) :
    (releaseShared handle).All JobCall.Harmless := by
  unfold releaseShared
  split
  · exact harmless_freeShared handle
  · trivial

theorem harmless_releasePair (decoded input : SharedBuffer) :
    (releasePair decoded input).All JobCall.Harmless :=
  Ask.all_bind (harmless_releaseShared _) fun _ => harmless_releaseShared _

theorem harmless_sharedCopyTo (buffer : SharedBuffer) (offset : Nat) (data : Bytes) :
    (sharedCopyTo buffer offset data).All JobCall.Harmless := by
  unfold sharedCopyTo
  split
  · exact ⟨trivial,fun _ => trivial⟩
  · trivial

theorem harmless_sharedCopyFrom (buffer : SharedBuffer) (offset length : Nat) :
    (sharedCopyFrom buffer offset length).All JobCall.Harmless := by
  unfold sharedCopyFrom
  split
  · exact ⟨trivial,fun _ => trivial⟩
  · trivial

theorem harmless_printSharedDiag : printSharedDiag.All JobCall.Harmless := by
  refine Ask.all_step trivial fun answer => ?_
  dsimp only
  split
  · exact ⟨trivial,fun _ => trivial⟩
  · trivial

/-- A question of the tool that is put on a condition -/
theorem harmless_when {c : ToolCall} (hc : c.Harmless) (b : Bool) (no : c.Answer) :
    (if b then Job.tool (.ask c .ret) else pure no : Job c.Answer).All JobCall.Harmless := by
  cases b with
  | true => exact ⟨hc,fun _ => trivial⟩
  | false => trivial

theorem harmless_decompressBuffers {algorithm : Compression} {compressed : Bytes}
    {outputCapacity : Nat} {verifyOnly : Bool} {input decoded : SharedBuffer} :
    (decompressBuffers algorithm compressed outputCapacity verifyOnly input decoded).All
      JobCall.Harmless := by
  have hrelease {α : Type} {a : α} :
      (releasePair decoded input >>= fun _ => pure a).All JobCall.Harmless :=
    Ask.all_bind (harmless_releasePair _ _) fun _ => trivial
  apply Ask.all_bind (harmless_sharedCopyTo _ _ _)
  intro copied
  split
  · exact hrelease
  refine Ask.all_step trivial fun answer => ?_
  dsimp only
  split
  · exact Ask.all_bind (harmless_noteStatus _) fun _ => trivial
  split
  · exact Ask.all_bind harmless_printSharedDiag fun _ => hrelease
  · apply Ask.all_bind
    · split
      · trivial
      split
      · trivial
      · exact Ask.all_bind (harmless_sharedCopyFrom _ _ _) fun _ => trivial
    exact fun _ => hrelease

theorem harmless_decompressToMemoryEx {service : CodecService} {algorithm : Compression}
    {compressed : Bytes} {outputCapacity : Nat} {verifyOnly : Bool} :
    (decompressToMemoryEx service algorithm compressed outputCapacity verifyOnly).All
      JobCall.Harmless := by
  unfold decompressToMemoryEx
  split
  · trivial
  apply Ask.all_bind
  · split
    · trivial
    · exact ⟨trivial,fun _ => trivial⟩
  intro got
  split
  · trivial
  refine Ask.all_step trivial fun answer => ?_
  cases answer with
  | error status =>
    exact Ask.all_bind (harmless_noteStatus _) fun _ =>
      Ask.all_bind harmless_printSharedDiag fun _ => trivial
  | ok input =>
    refine Ask.all_step trivial fun answer => ?_
    cases answer with
    | error status =>
      exact Ask.all_bind (harmless_noteStatus _) fun _ =>
        Ask.all_bind harmless_printSharedDiag fun _ =>
          Ask.all_bind (harmless_releaseShared _) fun _ => trivial
    | ok decoded => exact harmless_decompressBuffers

end

section

variable {f : FileWatch} {σ : Type} {I : σ → Prop}

/-- A part of a stream leaves a good state of the consumer, whether it is the last or not. -/
def ReadPart.Leaves {outputLimit total : Nat} (I : σ → Prop) : ReadPart σ outputLimit total → Prop
  | .ended e => I e.consumer
  | .going _ s _ => I s

def FeedPart.Leaves {needInput : Bool} {left : Nat} (I : σ → Prop) : FeedPart σ needInput left → Prop
  | .ended e => I e.consumer
  | .fed _ _ => True

theorem spares_streamReadPart {session : UInt32} {decoded : SharedBuffer} {outputLimit total : Nat}
    {deliver : σ → Nat → Job (Bool × σ)} {s : σ}
    (hdeliver : ∀ s length, I s → f.job.Spares (fun r => I r.2) (deliver s length)) (hs : I s) :
    f.job.Spares (ReadPart.Leaves I)
      (streamReadPart session decoded outputLimit deliver total s) := by
  unfold streamReadPart
  split
  · exact hs
  refine Watch.ends_step (fun _ _ _ hh => hh) fun answer _ _ => ?_
  dsimp only
  split
  · exact (spares_harmless_job harmless_printSharedDiag).bind fun _ _ => hs
  split
  · exact hs
  have hpart : f.job.Spares (fun r => I r.2) (if answer.2.bytesWritten = 0 then pure (true,s)
      else deliver s answer.2.bytesWritten) := by
    split
    · exact hs
    · exact hdeliver s _ hs
  refine hpart.bind fun delivered hd => ?_
  split
  · exact hd
  split
  · exact hd
  · exact hd

theorem spares_streamFeedPart {session : UInt32} {input : SharedBuffer} {totalInput left : Nat}
    {copyChunk : SharedBuffer → Nat → Nat → Job Bool} {needInput : Bool} {s : σ}
    (hcopy : ∀ offset length, (copyChunk input offset length).All JobCall.Harmless) (hs : I s) :
    f.job.Spares (FeedPart.Leaves I)
      (streamFeedPart session input copyChunk totalInput needInput left s) := by
  unfold streamFeedPart
  split
  · trivial
  split
  · exact hs
  extract_lets feedLen
  refine (spares_harmless_job (hcopy _ _)).bind fun copied _ => ?_
  extract_lets
  split
  · exact hs
  refine Watch.ends_step (fun _ _ _ hh => hh) fun answer _ _ => ?_
  dsimp only
  split
  · exact (spares_harmless_job harmless_printSharedDiag).bind fun _ _ => hs
  · trivial

/-- The loop keeps what the delivering of a chunk keeps. -/
theorem spares_feedLoop {session : UInt32} {input decoded : SharedBuffer}
    {totalInput outputLimit : Nat} {copyChunk : SharedBuffer → Nat → Nat → Job Bool}
    {deliver : σ → Nat → Job (Bool × σ)}
    (hcopy : ∀ offset length, (copyChunk input offset length).All JobCall.Harmless)
    (hdeliver : ∀ s length, I s → f.job.Spares (fun r => I r.2) (deliver s length)) {n : Nat}
    {needInput : Bool} {left total : Nat}
    (hn : 2*left+(outputLimit-total)+(if needInput then 0 else 1) = n) {s : σ} (hs : I s) :
    f.job.Spares (fun e => I e.consumer) (feedLoop session input decoded totalInput outputLimit
      copyChunk deliver needInput left total s) := by
  induction n using Nat.strong_induction_on generalizing needInput left total s with
  | _ n ih =>
    rw [feedLoop]
    refine (spares_streamFeedPart hcopy hs).bind fun fed hfed => ?_
    cases fed with
    | ended e => exact hfed
    | fed rest hless =>
      refine (spares_streamReadPart hdeliver hs).bind fun part hpart => ?_
      cases part with
      | ended e => exact hpart
      | going result s hfits =>
        dsimp only
        split
        · refine ih _ ?_ rfl hpart
          cases needInput <;> simp at hless hn ⊢ <;> omega
        split
        · exact hpart
        · refine ih _ ?_ rfl hpart
          cases needInput <;> simp at hless hn ⊢ <;> omega

theorem harmless_closeOpened (opened : Option OpenedOutput) : (match opened with
    | none => pure true
    | some output => Job.tool (Tool.close output.file) : Job Bool).All JobCall.Harmless := by
  cases opened with
  | none => trivial
  | some output => exact ⟨trivial,fun _ => trivial⟩

theorem spares_endStream {e : StreamEnd σ} {opened : Option OpenedOutput}
    {decoded input : SharedBuffer} (he : I e.consumer) :
    f.job.Spares (fun d => I d.consumer) (endStream e opened decoded input) := by
  have hclose : (if e.session ≠ 0 then Job.codec (.streamClose e.session 0)
      else pure (.ok,{}) : Job (Status × DecompressResult)).All JobCall.Harmless := by
    split
    · exact ⟨trivial,fun _ => trivial⟩
    · trivial
  refine (spares_harmless_job hclose).bind fun _ _ => ?_
  refine (spares_harmless_job (harmless_closeOpened opened)).bind fun closed _ => ?_
  exact (spares_harmless_job (harmless_releasePair _ _)).bind fun _ _ => he

theorem harmless_allocStreamPairLoop {outputFlags : UInt32} {n capacity : Nat} (hn : capacity = n) :
    (allocStreamPairLoop outputFlags capacity).All JobCall.Harmless := by
  induction n using Nat.strong_induction_on generalizing capacity with
  | _ n ih =>
    rw [allocStreamPairLoop]
    split
    swap
    · trivial
    next hmin =>
    have hpos : 0 < archiveStreamMinChunk := by decide
    have hretry (status : Status) : (if pairShrinkRetry status capacity then
        allocStreamPairLoop outputFlags (capacity/2) else pure (.error status)).All
        JobCall.Harmless := by
      split
      · exact ih (capacity/2) (by omega) rfl
      · trivial
    refine Ask.all_step trivial fun answer => ?_
    cases answer with
    | error status => exact hretry status
    | ok input =>
      refine Ask.all_step trivial fun answer => ?_
      cases answer with
      | ok decoded => trivial
      | error status => exact Ask.all_bind (harmless_freeShared _) fun _ => hretry status

theorem harmless_copyFeedFileInputChunk {inputPath : CString} {prefixBytes : Bytes}
    {fileLength : Nat} {input : SharedBuffer} {inputOffset maxLength : Nat} :
    (copyFeedFileInputChunk inputPath prefixBytes fileLength input inputOffset maxLength).All
      JobCall.Harmless := by
  unfold copyFeedFileInputChunk
  extract_lets total remaining
  split
  · trivial
  apply Ask.all_bind
  · split
    · exact harmless_sharedCopyTo _ _ _
    · trivial
  intro first
  split
  · trivial
  split
  · trivial
  refine Ask.all_step trivial fun data => ?_
  cases data with
  | none => trivial
  | some data => exact ⟨trivial,fun _ => trivial⟩

theorem harmless_writeChunk (file : Option Nat) (data : Bytes) : (match file with
    | none => pure true
    | some file => Job.tool (Tool.write file data) : Job Bool).All JobCall.Harmless := by
  cases file with
  | none => trivial
  | some file => exact ⟨trivial,fun _ => trivial⟩

theorem spares_deliverChunk {decoded : SharedBuffer} {file : Option Nat}
    {onChunk : Option (σ → Bytes → Tool (Bool × σ))} {s : σ} {length : Nat}
    (hchunk : ∀ take ∈ onChunk, ∀ s data, I s → f.watch.Spares (fun r => I r.2) (take s data))
    (hs : I s) :
    f.job.Spares (fun r => I r.2) (deliverChunk decoded file onChunk s length) := by
  unfold deliverChunk
  split
  · exact hs
  refine (spares_harmless_job (harmless_sharedCopyFrom _ _ _)).bind fun data _ => ?_
  cases data with
  | none => exact hs
  | some data =>
    refine (spares_harmless_job (harmless_writeChunk file data)).bind fun written _ => ?_
    cases written with
    | false => exact hs
    | true =>
      cases onChunk with
      | none => exact hs
      | some take => exact ends_tool (hchunk take rfl s _ hs)

theorem spares_openFile (openFile : Option (Tool (Option OpenedOutput))) :
    (∀ p ∈ openFile, f.watch.Spares (fun _ => True) p) →
    f.job.Spares (fun _ => True) (match openFile with
      | none => pure (some none)
      | some openFile => do
        let opened ← Job.tool openFile
        pure (opened.map some) : Job (Option (Option OpenedOutput))) := by
  intro hopen
  cases openFile with
  | none => trivial
  | some openFile => exact Watch.Spares.bind (ends_tool (hopen openFile rfl)) fun _ _ => trivial

/-- A fed decoding harms nothing but by opening its output. -/
theorem spares_decompressFeed {service : CodecService} {algorithm : Compression}
    {totalInput outputLimit : Nat} {copyChunk : SharedBuffer → Nat → Nat → Job Bool}
    {output : FeedOutput σ}
    (hcopy : ∀ input offset length, (copyChunk input offset length).All JobCall.Harmless)
    (hopen : ∀ openFile ∈ output.openFile, f.watch.Spares (fun _ => True) openFile)
    (hchunk : ∀ take ∈ output.onChunk, ∀ s data, I s → f.watch.Spares (fun r => I r.2) (take s data))
    (hs : I output.consumer) :
    f.job.Spares (fun d => I d.consumer)
      (decompressFeed service algorithm totalInput outputLimit copyChunk output) := by
  refine (spares_harmless_job (harmless_allocStreamPairLoop rfl)).bind fun pair _ => ?_
  rcases pair with status | ⟨input,decoded,capacity⟩
  · exact (spares_harmless_job harmless_printSharedDiag).bind fun _ _ => spares_endStream hs
  have hmalloc : (if output.wanted then Job.tool (Tool.malloc capacity)
      else pure true : Job Bool).All JobCall.Harmless :=
    harmless_when (c := .malloc capacity) trivial _ true
  refine (spares_harmless_job hmalloc).bind fun got _ => ?_
  split
  · exact spares_endStream hs
  refine Watch.ends_step (fun _ _ _ hh => hh) fun answer _ _ => ?_
  dsimp only
  split
  · exact (spares_harmless_job harmless_printSharedDiag).bind fun _ _ => spares_endStream hs
  refine (spares_openFile output.openFile hopen).bind fun opened _ => ?_
  cases opened with
  | none => exact spares_endStream hs
  | some opened =>
    have hdeliver : ∀ s length, I s → f.job.Spares (fun r => I r.2)
        (deliverChunk decoded (opened.map OpenedOutput.file) output.onChunk s length) :=
      fun s length hs => spares_deliverChunk hchunk hs
    exact (spares_feedLoop (hcopy input) hdeliver rfl hs).bind fun e he => spares_endStream he

theorem spares_decompressFeedFile {service : CodecService} {algorithm : Compression}
    {prefixBytes : Bytes} {inputPath : CString} {inputStart inputLength outputLimit : Nat}
    {output : FeedOutput σ}
    (hopen : ∀ openFile ∈ output.openFile, f.watch.Spares (fun _ => True) openFile)
    (hchunk : ∀ take ∈ output.onChunk, ∀ s data, I s → f.watch.Spares (fun r => I r.2) (take s data))
    (hs : I output.consumer) :
    f.job.Spares (fun d => I d.consumer) (decompressFeedFilePartsCore service algorithm prefixBytes
      inputPath inputStart inputLength outputLimit output) := by
  unfold decompressFeedFilePartsCore
  extract_lets totalInput
  split
  · exact hs
  refine Watch.ends_step (fun _ _ _ hh => hh) fun (opened : Bool) _ _ => ?_
  have hseek : (if opened then Job.tool (Tool.seek inputPath inputStart)
      else pure false : Job Bool).All JobCall.Harmless :=
    harmless_when (c := .seek inputPath inputStart) trivial opened false
  refine (spares_harmless_job hseek).bind fun sought _ => ?_
  split
  · exact hs
  · exact spares_decompressFeed (fun _ _ _ => harmless_copyFeedFileInputChunk) hopen hchunk hs

end

end ZZ9K.Archive
