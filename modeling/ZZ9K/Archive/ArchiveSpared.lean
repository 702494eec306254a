import ZZ9K.Archive.BufferLife
import ZZ9K.Archive.LhaSpared
import ZZ9K.Archive.SevenZipExtract
import ZZ9K.Archive.TarExtract

namespace ZZ9K.Archive

open ZZ9K.Abi ZZ9K.Host ZZ9K.Framework

section

variable {f : FileWatch} {R : Bool → Prop} {opts : ToolOptions} {outputDir archivePath : CString}
  {entry : ArchiveEntry}

theorem FileWatch.Clear.writes {data : Bytes} (h : f.Clear opts outputDir entry) :
    f.watch.Ends (fun _ => True) R (writeEntry opts outputDir entry data) :=
  ends_writeEntry fun out hout _ hmay hleads => absurd hleads (h out hout hmay)

/-- A member decoded from the file into its output harms nothing else. -/
theorem spares_decodeToFile {service : CodecService} {algorithm : Compression}
    {prefixBytes : Bytes} {inputStart inputLength outputLimit : Nat}
    (hdiscard : ¬f.leads opts.platform.discard) (hclear : f.Clear opts outputDir entry) :
    f.job.Spares (fun _ => True) (decompressFeedFilePartsToFile service opts algorithm prefixBytes
      archivePath inputStart inputLength outputLimit outputDir entry) := by
  have hopen : f.watch.Spares (fun _ => True) (openOutputEntry opts outputDir entry) :=
    Watch.ends_mono (spares_openOutputEntry hdiscard hclear) (fun _ _ => trivial) fun _ h => h
  apply spares_decompressFeedFile (I := fun _ => True)
  · intro openFile h
    cases h
    exact hopen
  · exact fun take h => (Option.not_mem_none take h).elim
  · trivial

/-- A member that is only tested harms nothing. -/
theorem spares_decodeToResult {service : CodecService} {algorithm : Compression}
    {prefixBytes : Bytes} {inputStart inputLength outputLimit : Nat} :
    f.job.Spares (fun _ => True) (decompressFeedFilePartsToResult service algorithm prefixBytes
      archivePath inputStart inputLength outputLimit) := by
  apply spares_decompressFeedFile (I := fun _ => True)
  · exact fun openFile h => (Option.not_mem_none openFile h).elim
  · exact fun take h => (Option.not_mem_none take h).elim
  · trivial

/-- A member of a ZIP archive that is decoded right into its output -/
def zipInPlace (entry : ArchiveEntry) : Prop :=
  entry.isDir = false ∧ entry.method = zipMethodDeflate ∧ entry.uncompressedSize ≠ 0

/-- A member of a 7z archive that is decoded right into its output -/
def sevenZipInPlace (entry : ArchiveEntry) : Prop :=
  entry.isDir = false ∧ entry.method ≠ sevenZipMethodCopy

/-- An empty member is written where the result redeems what becomes of an output of that name. -/
theorem ends_writeEmpty (h : f.Clear opts outputDir entry ∨ R true) :
    f.watch.Ends (fun _ => True) R (writeEntry opts outputDir entry []) := by
  rcases h with hclear | hR
  · exact hclear.writes
  · exact ends_writeEntry fun _ _ _ _ _ => ⟨hR,List.take_nil⟩

theorem ends_zipExtractEntry {codec : Option CodecService}
    (hdiscard : ¬f.leads opts.platform.discard)
    (htemporaries : f.TemporariesClear opts outputDir entry)
    (hstored : ∀ path, opts.mayReplace = true → f.leads path →
      f.possible ⟨.sameFile archivePath path,false⟩ → f.Redeems R)
    (hother : entry.isDir = true ∨ entry.method ≠ zipMethodStore →
      f.Clear opts outputDir entry ∨ R true ∧ ¬zipInPlace entry) :
    f.job.Ends (fun _ => True) R (zipExtractEntry codec opts archivePath outputDir entry) := by
  unfold zipExtractEntry
  split
  · trivial
  split
  · trivial
  split
  · trivial
  split
  · next hdir =>
    exact ends_tool (ends_writeEmpty ((hother (Or.inl hdir)).imp_right And.left))
  next hfile =>
  split
  · split
    · trivial
    · exact ends_tool (ends_writeFileRangeEntry htemporaries fun out _ hmay hleads hsame =>
        hstored _ hmay hleads hsame)
  next hstore =>
  split
  · next hdeflate =>
    cases codec with
    | none => trivial
    | some service =>
      have hmember := hother (Or.inr hstore)
      dsimp only [zipExtractDeflateEntry]
      split
      · trivial
      split
      · exact ends_tool (ends_writeEmpty (hmember.imp_right And.left))
      split
      · refine Watch.Spares.bind spares_decodeToResult fun e _ => ?_
        split
        · exact ends_tool (ends_writeEmpty (hmember.imp_right And.left))
        · trivial
      · next hsize =>
        have hclear : f.Clear opts outputDir entry := by
          rcases hmember with hclear | ⟨-,hnot⟩
          · exact hclear
          · exact absurd ⟨by simpa using hfile,hdeflate,hsize⟩ hnot
        exact Watch.Spares.bind (spares_decodeToFile hdiscard hclear) fun _ _ => trivial
  · trivial

theorem harmless_readFileRange {path : CString} {offset length : Nat} :
    (Tool.readFileRange path offset length).All ToolCall.Harmless := by
  have hwhen : ∀ {c : ToolCall} (_ : c.Harmless) (b : Bool) (no : c.Answer),
      (if b then .ask c .ret else pure no : Tool c.Answer).All ToolCall.Harmless := by
    intro c hc b no
    cases b with
    | true => exact ⟨hc,fun _ => trivial⟩
    | false => trivial
  unfold Tool.readFileRange
  split
  · trivial
  apply Ask.all_bind
  · split
    · exact ⟨trivial,fun _ => trivial⟩
    · trivial
  intro got
  apply Ask.all_bind (hwhen (c := .openRead path) trivial got false)
  intro opened
  apply Ask.all_bind (hwhen (c := .seek path offset) trivial opened false)
  intro sought
  split
  · trivial
  split
  · trivial
  · exact ⟨trivial,fun _ => trivial⟩

theorem spares_lzma2Fallback {service : CodecService} (hclear : f.Clear opts outputDir entry) :
    f.job.Spares (fun _ => True)
      (sevenZipLzma2FallbackFileRange service opts archivePath outputDir entry) := by
  unfold sevenZipLzma2FallbackFileRange
  split
  · trivial
  refine (spares_harmless_job (harmless_tool harmless_readFileRange)).bind fun packed _ => ?_
  cases packed with
  | none => trivial
  | some packed =>
    have hbuild : (sevenZipBuildLzma2Payload entry packed).All ToolCall.Harmless := by
      unfold sevenZipBuildLzma2Payload
      split
      · trivial
      · exact Ask.all_step trivial fun _ => trivial
    refine (spares_harmless_job (harmless_tool hbuild)).bind fun wrapped _ => ?_
    cases wrapped with
    | none => trivial
    | some wrapped =>
      refine (spares_harmless_job harmless_decompressToMemoryEx).bind fun decoded _ => ?_
      cases decoded with
      | none => trivial
      | some decoded => exact Watch.Spares.bind (ends_tool hclear.writes) fun _ _ => trivial

theorem ends_sevenZipExtractEntry {codec : Option CodecService}
    (hdiscard : ¬f.leads opts.platform.discard)
    (htemporaries : f.TemporariesClear opts outputDir entry)
    (hstored : ∀ path, opts.mayReplace = true → f.leads path →
      f.possible ⟨.sameFile archivePath path,false⟩ → f.Redeems R)
    (hother : entry.isDir = true ∨ entry.method ≠ sevenZipMethodCopy →
      f.Clear opts outputDir entry ∨ R true ∧ ¬sevenZipInPlace entry) :
    f.job.Ends (fun _ => True) R (sevenZipExtractEntry codec opts archivePath outputDir entry) := by
  unfold sevenZipExtractEntry
  split
  · trivial
  split
  · trivial
  split
  · next hdir =>
    exact ends_tool (ends_writeEmpty ((hother (Or.inl hdir)).imp_right And.left))
  next hfile =>
  split
  · exact ends_tool (ends_writeFileRangeEntry htemporaries fun out _ hmay hleads hsame =>
      hstored _ hmay hleads hsame)
  next hcopy =>
  have hclear : f.Clear opts outputDir entry := by
    rcases hother (Or.inr hcopy) with hclear | ⟨-,hnot⟩
    · exact hclear
    · exact absurd ⟨by simpa using hfile,hcopy⟩ hnot
  have hfeed : ∀ (service : CodecService) (feed : FolderFeed), f.job.Spares (fun _ => True)
      (sevenZipFeedEntry service opts archivePath outputDir entry feed) :=
    fun _ _ => spares_decodeToFile hdiscard hclear
  cases codec with
  | none => trivial
  | some service =>
    dsimp only
    split
    · exact Watch.Spares.bind (hfeed _ _) fun _ _ => trivial
    split
    · cases sevenZipLzmaAloneHeader entry with
      | none => trivial
      | some header => exact Watch.Spares.bind (hfeed _ _) fun _ _ => trivial
    split
    · split
      · trivial
      · refine Watch.Spares.bind (hfeed _ _) fun e _ => ?_
        have hresult : f.job.Spares (fun _ => True) (if e.ok then pure (some e.result)
            else if e.failure = .noMemory then
              sevenZipLzma2FallbackFileRange service opts archivePath outputDir entry
            else pure none) := by
          split
          · trivial
          split
          · exact spares_lzma2Fallback hclear
          · trivial
        exact hresult.bind fun _ _ => trivial
    · trivial

end

section

variable {f : FileWatch} {opts : ToolOptions} {outputDir archivePath : CString}
  {entry : ArchiveEntry} {w : SplitWriter}

/-- The members of a group that are written are apart from the file. -/
def GroupApart (f : FileWatch) (opts : ToolOptions) (outputDir : CString)
    (group : List ArchiveEntry) : Prop :=
  ∀ entry ∈ group, entryMatchesFilter opts.matchFilter entry = true → f.Clear opts outputDir entry

theorem GroupApart.tail {group : List ArchiveEntry} (h : GroupApart f opts outputDir (entry::group)) :
    GroupApart f opts outputDir group :=
  fun e he => h e (List.mem_cons_of_mem _ he)

theorem spares_splitStart (hdiscard : ¬f.leads opts.platform.discard)
    (hclear : entryMatchesFilter opts.matchFilter entry = true → f.Clear opts outputDir entry) :
    f.watch.Spares (fun _ => True) (splitWriterStartEntry opts outputDir entry w) := by
  unfold splitWriterStartEntry
  split
  · trivial
  split
  · next hmatch =>
    exact (spares_openOutputEntry hdiscard (hclear hmatch)).bind fun _ _ => trivial
  · trivial

theorem harmless_splitFinish : (splitWriterFinishEntry opts entry w).All ToolCall.Harmless := by
  unfold splitWriterFinishEntry
  cases w.file with
  | none => trivial
  | some file => exact ⟨trivial,fun _ => trivial⟩

theorem spares_splitAdvance {group : List ArchiveEntry} (hdiscard : ¬f.leads opts.platform.discard)
    (hgroup : GroupApart f opts outputDir group) :
    f.watch.Spares (fun r => GroupApart f opts outputDir r.2.1)
      (splitWriterAdvanceEmpty opts outputDir group w) := by
  induction group generalizing w with
  | nil => exact hgroup
  | cons entry rest ih =>
    rw [splitWriterAdvanceEmpty]
    split
    · exact hgroup
    refine (spares_splitStart hdiscard (hgroup entry (List.mem_cons_self ..))).bind
      fun started _ => ?_
    cases started with
    | none => exact hgroup
    | some started =>
      refine (spares_harmless harmless_splitFinish).bind fun done _ => ?_
      cases done with
      | true => exact ih hgroup.tail
      | false => exact hgroup.tail

theorem harmless_splitWrite (file : Option Nat) (data : Bytes) : (match file with
    | none => pure true
    | some file => Tool.write file data : Tool Bool).All ToolCall.Harmless := by
  cases file with
  | none => trivial
  | some file => exact ⟨trivial,fun _ => trivial⟩

theorem spares_splitChunkLoop {group : List ArchiveEntry} {data : Bytes} {n : Nat}
    (hn : data.length = n) (hdiscard : ¬f.leads opts.platform.discard)
    (hgroup : GroupApart f opts outputDir group) :
    f.watch.Spares (fun r => GroupApart f opts outputDir r.2.1)
      (splitWriterChunkLoop opts outputDir group w data) := by
  induction group generalizing w data n with
  | nil =>
    rw [splitWriterChunkLoop]
    split
    · exact spares_splitAdvance hdiscard hgroup
    · exact hgroup
  | cons entry rest ihrest =>
    induction n using Nat.strong_induction_on generalizing w data with
    | _ n ih =>
      rw [splitWriterChunkLoop]
      split
      · exact spares_splitAdvance hdiscard hgroup
      refine (spares_splitStart hdiscard (hgroup entry (List.mem_cons_self ..))).bind
        fun started _ => ?_
      cases started with
      | none => exact hgroup
      | some started =>
        dsimp only
        split
        · refine (spares_harmless harmless_splitFinish).bind fun done _ => ?_
          cases done with
          | true => exact ihrest rfl hgroup.tail
          | false => exact hgroup.tail
        next hpart =>
        have hpos := List.length_pos_of_ne_nil hpart
        have hwrite := harmless_splitWrite started.file
          (data.take (entry.uncompressedSize-started.entryWritten))
        refine (spares_harmless hwrite).bind fun written _ => ?_
        split
        · exact hgroup
        split
        · refine (spares_harmless harmless_splitFinish).bind fun done _ => ?_
          cases done with
          | true => exact ihrest rfl hgroup.tail
          | false => exact hgroup.tail
        · refine ih _ ?_ rfl
          rw [List.length_take] at hpos
          rw [List.length_drop,List.length_take]
          omega

theorem spares_splitChunk {s : SplitState} {data : Bytes} (hdiscard : ¬f.leads opts.platform.discard)
    (hgroup : GroupApart f opts outputDir s.1) :
    f.watch.Spares (fun r => GroupApart f opts outputDir r.2.1)
      (splitWriterChunk opts outputDir s data) := by
  refine (spares_splitAdvance hdiscard hgroup).bind fun advanced hadvanced => ?_
  dsimp only
  split
  · exact spares_splitChunkLoop rfl hdiscard hadvanced
  · exact hadvanced

theorem spares_splitFinish {s : SplitState} (hdiscard : ¬f.leads opts.platform.discard)
    (hgroup : GroupApart f opts outputDir s.1) :
    f.watch.Spares (fun _ => True) (splitWriterFinish opts outputDir s) :=
  (spares_splitAdvance hdiscard hgroup).bind fun _ _ => trivial

theorem harmless_splitCleanup {s : SplitState} : (splitWriterCleanup s).All ToolCall.Harmless := by
  unfold splitWriterCleanup
  cases s.2.file with
  | none => trivial
  | some file => exact ⟨trivial,fun _ => trivial⟩

theorem spares_splitGroup {service : CodecService} {first : ArchiveEntry}
    {group : List ArchiveEntry} (hdiscard : ¬f.leads opts.platform.discard)
    (hgroup : GroupApart f opts outputDir group) :
    f.job.Spares (fun _ => True)
      (handleSplitGroupFile service opts archivePath outputDir first group) := by
  unfold handleSplitGroupFile
  split
  · trivial
  split
  · trivial
  split
  · trivial
  next unpackedSize hsize =>
  extract_lets folder
  split
  · trivial
  next feed hfeed =>
  split
  · refine Watch.Spares.bind (ends_tool (spares_splitFinish hdiscard hgroup)) fun finished _ => ?_
    exact (spares_harmless_job (harmless_tool harmless_splitCleanup)).bind fun _ _ => trivial
  split
  · trivial
  have hdecode : f.job.Spares (fun d => GroupApart f opts outputDir d.consumer.1)
      (decompressFeedFilePartsCore service feed.algorithm feed.prefixBytes archivePath
        folder.dataOffset folder.compressedSize feed.outputLimit
        {openFile := none,onChunk := some (splitWriterChunk opts outputDir)
         consumer := (group,{})}) := by
    apply spares_decompressFeedFile (I := fun s : SplitState => GroupApart f opts outputDir s.1)
    · exact fun openFile h => (Option.not_mem_none openFile h).elim
    · intro take htake s data hs
      cases htake
      exact spares_splitChunk hdiscard hs
    · exact hgroup
  refine hdecode.bind fun e he => ?_
  have hfinish : f.job.Spares (fun _ => True)
      (if e.ok then Job.tool (splitWriterFinish opts outputDir e.consumer)
        else pure (false,e.consumer)) := by
    split
    · exact ends_tool (spares_splitFinish hdiscard he)
    · trivial
  refine hfinish.bind fun finished _ => ?_
  exact (spares_harmless_job (harmless_tool harmless_splitCleanup)).bind fun _ _ => trivial

/-- A loop over members harms nothing if no member does. -/
theorem spares_extractEach {extract : ArchiveEntry → Job Bool} {entries : List ArchiveEntry}
    (h : ∀ entry ∈ entries, f.job.Spares (fun _ => True) (extract entry)) :
    f.job.Spares (fun _ => True) (extractEach extract entries) := by
  induction entries with
  | nil => trivial
  | cons entry rest ih =>
    refine Watch.Spares.bind (h entry (List.mem_cons_self ..)) fun done _ => ?_
    have hrest := ih fun e he => h e (List.mem_cons_of_mem _ he)
    exact hrest.bind fun _ _ => trivial

/-- The members of an archive that are not stored do not have the archive for their output. -/
structure MembersApart (f : FileWatch) (opts : ToolOptions) (outputDir : CString) (stored : Nat)
    (entries : List ArchiveEntry) : Prop where
  temporaries : ∀ entry ∈ entries, f.TemporariesClear opts outputDir entry
  clear : ∀ entry ∈ entries, entryMatchesFilter opts.matchFilter entry = true →
    entry.isDir = true ∨ entry.method ≠ stored ∨ entry.hasSplitSubstream = true →
      f.Clear opts outputDir entry

theorem spares_handleZip {codec : Option CodecService} {listing : Option (List ArchiveEntry)}
    (harchive : f.KnowsArchive archivePath) (hdiscard : ¬f.leads opts.platform.discard)
    (hmembers : ∀ entries ∈ listing, MembersApart f opts outputDir zipMethodStore entries) :
    f.job.Spares (fun _ => True) (handleZipFile codec opts archivePath outputDir listing) := by
  cases listing with
  | none => trivial
  | some entries =>
    have hapart := hmembers entries rfl
    dsimp only [handleZipFile]
    split
    · trivial
    split
    · trivial
    have heach : f.job.Spares (fun _ => True)
        (extractEach (zipExtractEntry codec opts archivePath outputDir) entries) := by
      apply spares_extractEach
      intro entry he
      by_cases hmatch : entryMatchesFilter opts.matchFilter entry = true
      · refine ends_zipExtractEntry (R := fun _ => False) hdiscard (hapart.temporaries entry he)
          (fun path _ hleads hsame => absurd hsame (harchive.same path hleads)) fun h => Or.inl ?_
        exact hapart.clear entry he hmatch (h.imp_right Or.inl)
      · unfold zipExtractEntry
        rw [if_pos (by simpa using hmatch)]
        trivial
    exact heach.bind fun _ _ => trivial

theorem spares_sevenZipEntries {codec : Option CodecService} {entries : List ArchiveEntry} {n : Nat}
    (hn : entries.length = n) (harchive : f.KnowsArchive archivePath)
    (hdiscard : ¬f.leads opts.platform.discard)
    (hapart : MembersApart f opts outputDir sevenZipMethodCopy entries) :
    f.job.Spares (fun _ => True)
      (handleSevenZipEntries codec opts archivePath outputDir entries) := by
  induction n using Nat.strong_induction_on generalizing entries with
  | _ n ih =>
    cases entries with
    | nil =>
      rw [handleSevenZipEntries]
      trivial
    | cons entry rest =>
      have hhead := List.mem_cons_self (a := entry) (l := rest)
      have hsub : ∀ entries, (∀ e ∈ entries, e ∈ entry::rest) →
          MembersApart f opts outputDir sevenZipMethodCopy entries := fun entries hsub =>
        ⟨fun e he => hapart.temporaries e (hsub e he),fun e he => hapart.clear e (hsub e he)⟩
      rw [List.length_cons] at hn
      rw [handleSevenZipEntries]
      split
      · next hsplit =>
        extract_lets group
        have hgroup : GroupApart f opts outputDir group := by
          intro e he hmatch
          rcases List.mem_cons.mp he with rfl | he
          · exact hapart.clear e hhead hmatch (Or.inr (Or.inr hsplit))
          · have hsame := List.mem_takeWhile_imp he
            simp only [sameSplitFolder,decide_eq_true_eq] at hsame
            have hmem := List.mem_cons_of_mem entry ((List.takeWhile_subset _) he)
            exact hapart.clear e hmem hmatch (Or.inr (Or.inr hsame.2.1))
        refine Watch.Spares.bind (show f.job.Spares (fun _ => True) _ from ?_) fun done _ => ?_
        · cases codec with
          | none => trivial
          | some service => exact spares_splitGroup hdiscard hgroup
        have hlength := (List.dropWhile_suffix (l := rest) (sameSplitFolder entry)).length_le
        have hrest := ih _ (by omega) rfl (hsub (rest.dropWhile (sameSplitFolder entry))
          fun e he => List.mem_cons_of_mem _ ((List.dropWhile_suffix _).subset he))
        exact hrest.bind fun _ _ => trivial
      · have hentry : f.job.Spares (fun _ => True)
            (sevenZipExtractEntry codec opts archivePath outputDir entry) := by
          by_cases hmatch : entryMatchesFilter opts.matchFilter entry = true
          · refine ends_sevenZipExtractEntry (R := fun _ => False) hdiscard
              (hapart.temporaries entry hhead)
              (fun path _ hleads hsame => absurd hsame (harchive.same path hleads))
              fun h => Or.inl ?_
            exact hapart.clear entry hhead hmatch (h.imp_right Or.inl)
          · unfold sevenZipExtractEntry
            rw [if_pos (by simpa using hmatch)]
            trivial
        refine hentry.bind fun done _ => ?_
        have hrest := ih rest.length (by omega) rfl (hsub rest fun e he => List.mem_cons_of_mem _ he)
        exact hrest.bind fun _ _ => trivial

theorem spares_handleSevenZip {codec : Option CodecService} {archiveLength : Nat}
    {listing : Option (List ArchiveEntry)} (harchive : f.KnowsArchive archivePath)
    (hdiscard : ¬f.leads opts.platform.discard)
    (hmembers : ∀ entries ∈ listing, MembersApart f opts outputDir sevenZipMethodCopy entries) :
    f.job.Spares (fun _ => True)
      (handleSevenZipFile codec opts archivePath archiveLength outputDir listing) := by
  cases listing with
  | none => trivial
  | some entries =>
    dsimp only [handleSevenZipFile]
    split
    · trivial
    split
    · trivial
    split
    · trivial
    · have heach : f.job.Spares (fun _ => True)
          (handleSevenZipEntries codec opts archivePath outputDir entries) :=
        spares_sevenZipEntries rfl harchive hdiscard (hmembers entries rfl)
      exact heach.bind fun _ _ => trivial

end

section

variable {f : FileWatch} {R : Bool → Prop} {opts : ToolOptions} {outputDir archivePath : CString}

/-- A single file is decoded right into its output, unless it is empty. -/
theorem ends_gzipExtractEntry {service : CodecService} {fileLength : Nat} {info : GzipInfo}
    (hdiscard : ¬f.leads opts.platform.discard)
    (h : f.Clear opts outputDir (gzipEntry info) ∨ R true ∧ info.uncompressedSize = 0) :
    f.job.Ends (fun _ => True) R
      (gzipExtractEntry service opts archivePath fileLength outputDir info) := by
  unfold gzipExtractEntry
  split
  · refine Watch.Spares.bind spares_decodeToResult fun e _ => ?_
    split
    · exact ends_tool (ends_writeEmpty (h.imp_right And.left))
    · trivial
  · next hsize =>
    have hclear : f.Clear opts outputDir (gzipEntry info) := by
      rcases h with hclear | ⟨-,hzero⟩
      · exact hclear
      · exact absurd hzero hsize
    exact Watch.Spares.bind (spares_decodeToFile hdiscard hclear) fun _ _ => trivial

end

/-- The extraction of one member of an archive file -/
inductive MemberExtraction
  | zip (codec : Option CodecService) (entry : ArchiveEntry)
  | sevenZip (codec : Option CodecService) (entry : ArchiveEntry)
  | gzip (service : CodecService) (fileLength : Nat) (info : GzipInfo)
  | lha (decoder : LhaDecoder) (service : Option CodecService) (length : Nat)
      (diag : LhaBoardDiag) (entry : ArchiveEntry)

namespace MemberExtraction

def entry : MemberExtraction → ArchiveEntry
  | zip _ entry => entry
  | sevenZip _ entry => entry
  | gzip _ _ info => gzipEntry info
  | lha _ _ _ _ entry => entry

/-- Whether the member is decoded right into its output -/
def InPlace : MemberExtraction → Prop
  | zip _ entry => zipInPlace entry
  | sevenZip _ entry => sevenZipInPlace entry
  | gzip _ _ info => info.uncompressedSize ≠ 0
  | lha _ _ _ _ _ => False

/-- An entry is what its format can give. -/
def Listed : MemberExtraction → Prop
  | lha _ _ _ _ entry => LhaParsed entry
  | _ => True

def program (opts : ToolOptions) (archivePath outputDir : CString) : MemberExtraction → Job Bool
  | zip codec entry => zipExtractEntry codec opts archivePath outputDir entry
  | sevenZip codec entry => sevenZipExtractEntry codec opts archivePath outputDir entry
  | gzip service fileLength info =>
    gzipExtractEntry service opts archivePath fileLength outputDir info
  | lha decoder service length diag entry => do
    let worked ← lhaWorkEntry decoder service opts (.file archivePath length) outputDir diag entry
    pure worked.1

end MemberExtraction

/-- A member that could not be extracted leaves an existing file as it was, if renaming never fails,
unless the member is decoded right into its output and that is the file. -/
theorem failed_member_spares {f : FileWatch} {opts : ToolOptions} {archivePath outputDir : CString}
    (x : MemberExtraction) (hlisted : x.Listed)
    (hrename : ∀ a b, ¬f.possible ⟨.rename a b,false⟩)
    (hdiscard : ¬f.leads opts.platform.discard)
    (htemporaries : f.TemporariesClear opts outputDir x.entry)
    (hplace : x.InPlace → f.Clear opts outputDir x.entry) {log : JobLog}
    (hruns : (x.program opts archivePath outputDir).Runs log false) (hallows : f.job.Allows log) :
    ∀ e ∈ log, ¬f.job.harms e := by
  have hredeems : f.Redeems (· = true) :=
    {result := rfl
     renames := fun a b renamed h => by
      by_contra hnot
      have hfalse : renamed = false := Bool.eq_false_iff.mpr hnot
      exact hrename a b (hfalse ▸ h)}
  have hother : f.Clear opts outputDir x.entry ∨ true = true ∧ ¬x.InPlace := by
    by_cases h : x.InPlace
    · exact Or.inl (hplace h)
    · exact Or.inr ⟨rfl,h⟩
  have hends : f.job.Ends (fun _ => True) (· = true) (x.program opts archivePath outputDir) := by
    cases x with
    | zip codec entry =>
      exact ends_zipExtractEntry hdiscard htemporaries (fun _ _ _ _ => hredeems)
        fun _ => hother
    | sevenZip codec entry =>
      exact ends_sevenZipExtractEntry hdiscard htemporaries (fun _ _ _ _ => hredeems)
        fun _ => hother
    | gzip service fileLength info =>
      apply ends_gzipExtractEntry hdiscard
      exact hother.imp_right fun h => ⟨h.1,not_not.mp h.2⟩
    | lha decoder service length diag entry =>
      have hwork : f.job.Ends (fun _ => True) (fun r => r.1 = true)
          (lhaWorkEntry decoder service opts (.file archivePath length) outputDir diag entry) :=
        ends_lhaWorkEntry hlisted hdiscard htemporaries fun _ _ _ _ _ => hredeems
      exact Watch.ends_bind hwork (fun _ _ => trivial) fun _ hR => hR
  rcases hends.run hruns hallows with ⟨hnone,-⟩ | htrue
  · exact hnone
  · cases htrue

/-- A file with one path, where no renaming and no allocation fails and the same path is known for the
same file -/
def onePath (path : CString) : FileWatch where
  leads p := p = path
  possible
    | ⟨.rename _ _,x⟩ => x = true
    | ⟨.malloc _,x⟩ => x = true
    | ⟨.sameFile a b,x⟩ => a = b → x = true
    | _ => True

/-- The stored member "a", of one byte -/
def storedMember : ArchiveEntry := {name := [0x61],compressedSize := 1,uncompressedSize := 1}

def overwriting : ToolOptions := {overwriteOutputs := true}

theorem storedMember_output {out : ArchiveEntry}
    (h : outputEntry overwriting storedMember = some out) : out = storedMember := by
  have hself : outputEntry overwriting storedMember = some storedMember := rfl
  exact Option.some.inj (h.symm.trans hself)

/-- "o/a" -/
def storedOutput : CString := [0x6f,0x2f,0x61]

theorem storedOutput_temporaries :
    (onePath storedOutput).TemporariesClear overwriting [0x6f] storedMember := by
  intro out hout
  rw [storedMember_output hout]
  have hslots : ∀ slot < 32, siblingPath storedOutput tmpTag slot ≠ storedOutput := by decide
  exact hslots

/-- The temporary of the member cannot be opened, and what has its name is removed. -/
def unopenedLog : JobLog :=
  [⟨.tool (.malloc 4),true⟩,⟨.tool (.pathIsDir storedOutput),false⟩,
   ⟨.tool (.sameFile [0x7a] storedOutput),false⟩,⟨.tool (.malloc 4),true⟩,
   ⟨.tool (.makeDir [0x6f]),MakeDirResult.made⟩,⟨.tool (.openRead [0x7a]),true⟩,
   ⟨.tool (.seek [0x7a] 0),true⟩,⟨.tool (.malloc 19),true⟩,⟨.tool .probeSeed,(0 : Nat)⟩,
   ⟨.tool (.pathExists (siblingPath storedOutput tmpTag 0)),false⟩,
   ⟨.tool (.openWrite (siblingPath storedOutput tmpTag 0)),none⟩,
   ⟨.tool (.remove (siblingPath storedOutput tmpTag 0)),false⟩]

theorem unopenedLog_runs :
    ((MemberExtraction.zip none storedMember).program overwriting [0x7a] [0x6f]).Runs unopenedLog
      false := by
  refine .ask _ ?_
  refine .ask _ ?_
  refine .ask _ ?_
  refine .ask _ ?_
  refine .ask _ ?_
  refine .ask _ ?_
  refine .ask _ ?_
  refine .ask _ ?_
  refine .ask _ ?_
  refine .ask _ ?_
  refine .ask _ ?_
  refine .ask _ ?_
  exact .ret _

/-- An answer that leaves the file whole may stand before a log. -/
theorem allows_spared {f : FileWatch} {e : Answered JobCall JobCall.Answer} {log : JobLog}
    (hpossible : f.job.possible e) (hwhole : f.job.whole e) (hspared : ¬f.job.harms e)
    (h : f.job.Allows log) : f.job.Allows (e::log) :=
  ⟨hpossible,hwhole,fun hh => absurd hh hspared,fun _ => h⟩

theorem failed_member_spares_unopened :
    unopenedLog.Forall fun e => ¬(onePath storedOutput).job.harms e := by
  have hdiscard : overwriting.platform.discard ≠ storedOutput := by decide
  have htmp : siblingPath storedOutput tmpTag 0 ≠ storedOutput := by decide
  have harchive : ([0x7a] : CString) ≠ storedOutput := by decide
  rw [List.forall_iff_forall_mem]
  refine failed_member_spares (MemberExtraction.zip none storedMember) trivial
    (fun a b h => Bool.false_ne_true h) hdiscard storedOutput_temporaries
    (fun h => absurd h.2.1 (by decide)) unopenedLog_runs ?_
  refine allows_spared rfl trivial id ?_
  refine allows_spared trivial (fun _ => rfl) id ?_
  refine allows_spared (fun h => absurd h harchive) trivial id ?_
  refine allows_spared rfl trivial id ?_
  refine allows_spared trivial trivial id ?_
  refine allows_spared trivial trivial id ?_
  refine allows_spared trivial trivial id ?_
  refine allows_spared rfl trivial id ?_
  refine allows_spared trivial trivial id ?_
  refine allows_spared trivial (fun h => absurd h htmp) id ?_
  refine allows_spared trivial trivial (fun h => htmp h.1) ?_
  refine allows_spared trivial trivial htmp ?_
  trivial

/-- The extraction of an archive file as a whole -/
inductive FileExtraction
  | lhaWalk (decoder : LhaDecoder) (service : Option CodecService) (length : Nat)
      (entries : List ArchiveEntry) (walked : Bool)
  | lhaLoop (decoder : LhaDecoder) (service : Option CodecService) (length : Nat)
      (limits : BatchLimits) (entries : List ArchiveEntry)
  | zip (codec : Option CodecService) (listing : Option (List ArchiveEntry))
  | sevenZip (codec : Option CodecService) (length : Nat) (listing : Option (List ArchiveEntry))

namespace FileExtraction

def program (opts : ToolOptions) (archivePath outputDir : CString) :
    FileExtraction → Job EngineEnd
  | lhaWalk decoder service length entries walked =>
    handleLhaFile decoder service opts archivePath length outputDir entries walked
  | lhaLoop decoder service length limits entries => do
    let ok ← lhaCommandLoop decoder service opts (.file archivePath length) outputDir limits entries
    pure ⟨true,ok⟩
  | zip codec listing => handleZipFile codec opts archivePath outputDir listing
  | sevenZip codec length listing =>
    handleSevenZipFile codec opts archivePath length outputDir listing

/-- The archive is not the output of a member that no guard looks at, and its name is no temporary
one of an output. -/
def Apart (f : FileWatch) (opts : ToolOptions) (outputDir : CString) : FileExtraction → Prop
  | lhaWalk _ _ _ entries _ =>
    ∀ entry ∈ entries, LhaParsed entry ∧ f.TemporariesClear opts outputDir entry
  | lhaLoop _ _ _ _ entries =>
    ∀ entry ∈ entries, LhaParsed entry ∧ f.TemporariesClear opts outputDir entry
  | zip _ listing => ∀ entries ∈ listing, MembersApart f opts outputDir zipMethodStore entries
  | sevenZip _ _ listing =>
    ∀ entries ∈ listing, MembersApart f opts outputDir sevenZipMethodCopy entries

end FileExtraction

/-- No run over an archive file opens, renames, replaces or removes the archive itself. The guards
see to this for every member of an LHA archive, and for the stored members of the others. -/
theorem extraction_spares_archive {f : FileWatch} {opts : ToolOptions}
    {archivePath outputDir : CString} (x : FileExtraction) (harchive : f.KnowsArchive archivePath)
    (hdiscard : ¬f.leads opts.platform.discard) (hapart : x.Apart f opts outputDir) {log : JobLog}
    {result : EngineEnd} (hruns : (x.program opts archivePath outputDir).Runs log result)
    (hallows : f.job.Allows log) : ∀ e ∈ log, ¬f.job.harms e := by
  have hspares : f.job.Spares (fun _ => True) (x.program opts archivePath outputDir) := by
    cases x with
    | lhaWalk decoder service length entries walked =>
      refine Watch.ends_step (fun _ _ _ hh => hh) fun (opened : Bool) _ _ => ?_
      cases opened with
      | false => trivial
      | true =>
        exact Watch.Spares.bind (spares_lhaWorkEach harchive hdiscard hapart) fun _ _ => trivial
    | lhaLoop decoder service length limits entries =>
      exact Watch.Spares.bind (spares_lhaCommandLoop harchive hdiscard hapart) fun _ _ => trivial
    | zip codec listing => exact spares_handleZip harchive hdiscard hapart
    | sevenZip codec length listing => exact spares_handleSevenZip harchive hdiscard hapart
  exact (hspares.run hruns hallows).1

/-- The member's output is the archive, and the member is refused. -/
def refusedLog : JobLog :=
  [⟨.tool (.malloc 4),true⟩,⟨.tool (.pathIsDir storedOutput),false⟩,
   ⟨.tool (.sameFile storedOutput storedOutput),true⟩]

theorem refusedLog_runs : ((FileExtraction.zip none (some [storedMember])).program overwriting
    storedOutput [0x6f]).Runs refusedLog ⟨true,false⟩ := by
  refine .ask _ ?_
  refine .ask _ ?_
  refine .ask _ ?_
  exact .ret _

theorem extraction_spares_archive_refused :
    refusedLog.Forall fun e => ¬(onePath storedOutput).job.harms e := by
  have harchive : (onePath storedOutput).KnowsArchive storedOutput := by
    constructor
    · exact fun path hleads hsame => Bool.false_ne_true (hsame hleads.symm)
    · exact fun size h => Bool.false_ne_true h
  have hdiscard : overwriting.platform.discard ≠ storedOutput := by decide
  have hmembers :
      MembersApart (onePath storedOutput) overwriting [0x6f] zipMethodStore [storedMember] := by
    constructor
    · intro entry he
      rw [List.mem_singleton.mp he]
      exact storedOutput_temporaries
    · intro entry he _ hother
      rw [List.mem_singleton.mp he] at hother
      exact absurd hother (by decide)
  have hapart : (FileExtraction.zip none (some [storedMember])).Apart (onePath storedOutput)
      overwriting [0x6f] := by
    intro entries he
    cases he
    exact hmembers
  rw [List.forall_iff_forall_mem]
  refine extraction_spares_archive (FileExtraction.zip none (some [storedMember])) harchive hdiscard
    hapart refusedLog_runs ?_
  refine allows_spared rfl trivial id ?_
  refine allows_spared trivial (fun _ => rfl) id ?_
  refine allows_spared (fun _ => rfl) trivial id ?_
  trivial

end ZZ9K.Archive
