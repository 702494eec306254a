import ZZ9K.Archive.FeedRuns
import ZZ9K.Archive.OutputPaths

namespace ZZ9K.Archive

open ZZ9K.Abi ZZ9K.Host ZZ9K.Framework

/-- What changes no file and reads none: a look for something, a directory made, memory taken -/
def Looks : ToolCall → Prop
  | .pathExists _ | .pathIsDir _ | .makeDir _ | .malloc _ => True
  | _ => False

theorem tool_bind {α β : Type} (p : Tool α) (f : α → Tool β) :
    Job.tool (p >>= f) = Job.tool p >>= fun a => Job.tool (f a) := by
  induction p with
  | ret a => rfl
  | ask c k ih =>
    rw [Ask.ask_bind]
    exact congrArg (Ask.ask _) (funext fun x => ih x)

/-- A part of the tool that only looks leaves a world as it is that does not keep track of that. -/
theorem looks_wp {α : Type} {w : World JobCall JobCall.Answer} {p : Tool α}
    (hw : ∀ v c x, Looks c → w.allowed v ⟨.tool c,x⟩ → w.next v ⟨.tool c,x⟩ = v) (hp : p.All Looks)
    (v : w.State) : w.wp (Job.tool p) (fun _ u => u = v) v := by
  induction p with
  | ret a => exact rfl
  | ask c k ih =>
    intro x hx
    rw [hw v c x hp.1 hx]
    exact ih x (hp.2 x)

theorem looks_ensureParentDirs {dir name : CString} : (ensureParentDirs dir name).All Looks :=
  all_ensureParentDirs (fun _ => trivial) (fun _ _ => trivial) fun _ => trivial

section

variable {inputPath : CString} {content : Bytes} {wanted : Bool} {outputLimit : Nat} {v : Feeding}

theorem feeding_looks (v : Feeding) (c : ToolCall) (x : c.Answer) (h : Looks c) :
    v.next inputPath (.tool c) x = v := by
  cases c <;> first | rfl | cases h

/-- What opening a file for the output leaves -/
def Opening (v : Feeding) (opened : Option OpenedOutput) (u : Feeding) : Prop :=
  ∃ out, u = {v with out := out} ∧ ∀ o, opened = some o → out = some o.file

theorem openWrite_wp {path : CString} (opened : Nat → OpenedOutput)
    (hfile : ∀ file, (opened file).file = file) :
    (tameFeeding inputPath content wanted outputLimit).wp
      (Job.tool (do
        let file ← Tool.openWrite path
        pure (file.map opened))) (Opening v) v := by
  rintro file -
  refine ⟨file,rfl,fun o ho => ?_⟩
  obtain ⟨f,rfl,rfl⟩ := Option.map_eq_some_iff.mp ho
  exact congrArg some (hfile f).symm

theorem openOutputEntry_wp {opts : ToolOptions} {outputDir : CString} {entry : ArchiveEntry} :
    (tameFeeding inputPath content wanted outputLimit).wp (Job.tool (openOutputEntry opts outputDir entry))
      (Opening v) v := by
  have hlooks {α : Type} {p : Tool α} (hp : p.All Looks) :
      (tameFeeding inputPath content wanted outputLimit).wp (Job.tool p) (fun _ u => u = v) v :=
    looks_wp (w := tameFeeding inputPath content wanted outputLimit)
      (fun v c x hc _ => feeding_looks v c x hc) hp v
  have hnone : Opening v none v := ⟨v.out,rfl,nofun⟩
  unfold openOutputEntry openOutput
  split
  · exact openWrite_wp _ fun _ => rfl
  · next out _ =>
    split
    · exact hnone
    · rw [tool_bind,World.wp_bind]
      refine World.wp_mono _ (hlooks (p := joinPath outputDir out.name) ⟨trivial,fun _ => trivial⟩) ?_
      rintro path _ rfl
      cases path with
      | none => exact hnone
      | some path =>
        dsimp only
        rw [tool_bind,World.wp_bind]
        refine World.wp_mono _ (hlooks (all_checkOutput trivial trivial (Ask.all_ret _ false))) ?_
        rintro check _ rfl
        cases check with
        | refuse => exact hnone
        | skip => exact openWrite_wp _ fun _ => rfl
        | dryRun => exact openWrite_wp _ fun _ => rfl
        | proceed =>
          rw [tool_bind,World.wp_bind]
          refine World.wp_mono _ (hlooks looks_ensureParentDirs) ?_
          rintro parents _ rfl
          cases parents with
          | false => exact hnone
          | true => exact openWrite_wp _ fun _ => rfl

variable {σ : Type} {sink : FeedSink σ}

/-- What the sink opens is what its chunks are written to. -/
theorem openSink_wp (s₀ : σ) :
    (tameFeeding inputPath content wanted outputLimit).wp
      (match (sink.output s₀).openFile with
        | none => pure (some none)
        | some openFile => do
          let opened ← Job.tool openFile
          pure (opened.map some))
      (fun r u => ∃ out, u = {v with out := out} ∧ ∀ opened, r = some opened →
        sink.Opened (opened.map OpenedOutput.file) u) v := by
  cases sink with
  | file opts outputDir entry =>
    refine (World.wp_bind _).mpr (World.wp_mono _ openOutputEntry_wp ?_)
    rintro opened _ ⟨out,rfl,hout⟩
    refine ⟨out,rfl,fun r hr => ?_⟩
    obtain ⟨o,ho,rfl⟩ := Option.map_eq_some_iff.mp hr
    exact ⟨rfl,hout o ho⟩
  | callback onChunk =>
    refine ⟨v.out,rfl,fun r hr => ?_⟩
    cases hr
    exact rfl
  | result =>
    refine ⟨v.out,rfl,fun r hr => ?_⟩
    cases hr
    exact rfl

theorem lentHandle_valid {buffer : SharedBuffer}
    (h : buffer.handle ≠ 0 ∧ buffer.handle ≠ invalidHandle) :
    lentHandle buffer = {buffer.handle} := if_pos h

theorem FeedBoard.Lent.live_eq {b : FeedBoard} {input decoded : SharedBuffer} {capacity : Nat}
    (h : b.Lent input decoded capacity) : b.live = lentHandle decoded+lentHandle input := by
  rw [h.live,lentHandle_valid h.decodedValid,lentHandle_valid h.inputValid]
  rfl

/-- A decoding that fed nothing may end, with its session at most begun. -/
theorem FeedBoard.Idle.closing {b : FeedBoard} (h : b.Idle) {whole : Bytes}
    {totalInput outputLimit : Nat} {e : StreamEnd (σ × Bytes)} {decoded input : SharedBuffer}
    (hlive : b.live = lentHandle decoded+lentHandle input) (hresult : e.result = none)
    (hgot : sink.got v e.consumer = [])
    (hboard : v.board = {b with session := if e.session = 0 then none else some e.session}) :
    Closing whole totalInput outputLimit sink e decoded input v := by
  refine ⟨?_,?_,?_,?_,?_,?_,hgot ▸ List.nil_prefix,fun r hr => ?_,?_⟩ <;> (try rw [hboard])
  · show FedInOrder whole totalInput 0 b.pieces
    rw [h.pieces]
    trivial
  · exact h.inside
  · exact h.owned
  · exact hlive
  · show (if e.session = 0 then none else some e.session) = none ∨ b.failed ∨ _
    split
    · exact Or.inl rfl
    · next hs => exact Or.inr (Or.inr ⟨hs,rfl⟩)
  · show b.fetched.length ≤ outputLimit
    rw [h.fetched]
    exact Nat.zero_le _
  · rw [hresult] at hr
    cases hr
  · show b.reads ≤ totalInput+outputLimit
    rw [h.reads]
    exact Nat.zero_le _

theorem FeedJob.Ended.closing {j : FeedJob σ} {e : StreamEnd (σ × Bytes)}
    (h : j.Ended content e v) :
    Closing (j.whole content) j.totalInput j.outputLimit j.sink e j.decoded j.input v := by
  refine ⟨h.kept.order,h.kept.inside,h.kept.owned,h.kept.lent.live_eq,?_,h.limit,h.received,
    h.complete,h.reads⟩
  rcases h.session with ⟨hsession,hopen⟩ | ⟨-,hfailed⟩
  · rw [hsession]
    unfold FeedJob.Open at hopen
    split at hopen
    · exact Or.inl hopen
    · next hs => exact Or.inr (Or.inr ⟨hs,hopen⟩)
  · exact Or.inr (Or.inl hfailed)

/-- A fed decoding is exact from where its input is open. -/
theorem decompressFeed_wp {service : CodecService} {algorithm : Compression} {prefixBytes : Bytes}
    {inputStart inputLength : Nat} (s₀ : σ) (hsep : sink.Separate inputPath)
    (hidle : v.board.Idle) (hlive : v.board.live = 0) (hpos : v.position = inputStart)
    (hwritten : v.written = []) :
    (tameFeeding inputPath content sink.wanted outputLimit).wp
      (decompressFeed service algorithm (prefixBytes.length+inputLength) outputLimit
        (copyFeedFileInputChunk inputPath prefixBytes inputLength) (sink.output s₀))
      (FeedExact (prefixBytes++slice content inputStart inputLength)
        (prefixBytes.length+inputLength) outputLimit sink) v := by
  have hgot : ∀ u : Feeding,u.written = [] → sink.got u (sink.output s₀).consumer = [] := by
    intro u hu
    cases sink <;> first | exact hu | rfl
  unfold decompressFeed allocStreamPair
  refine (World.wp_bind _).mpr (World.wp_mono _ (allocStreamPairLoop_wp hidle hlive) ?_)
  rintro (status | ⟨input,decoded,capacity⟩) _ ⟨b,rfl,hb,hpair⟩
  · -- no pair
    refine (World.wp_bind _).mpr (World.wp_mono _ printSharedDiag_wp ?_)
    rintro _ _ rfl
    refine endStream_wp (hb.closing ?_ rfl (hgot _ hwritten) ?_)
    · exact hpair
    · rw [if_pos rfl,← hb.session]
  · have hlent : b.Lent input decoded capacity := hpair
    have hstop : ∀ (failure : Status),
        (tameFeeding inputPath content sink.wanted outputLimit).wp
          (endStream {session := 0,failure,consumer := (sink.output s₀).consumer} none decoded input)
          (FeedExact (prefixBytes++slice content inputStart inputLength)
            (prefixBytes.length+inputLength) outputLimit sink) {v with board := b} := by
      intro failure
      refine endStream_wp (hb.closing hlent.live_eq rfl (hgot _ hwritten) ?_)
      rw [if_pos rfl,← hb.session]
    have hmalloc : (tameFeeding inputPath content sink.wanted outputLimit).wp
        (if (sink.output s₀).wanted then Job.tool (Tool.malloc capacity) else pure true)
        (fun _ u => u = {v with board := b}) {v with board := b} := by
      split
      · exact fun _ _ => rfl
      · rfl
    refine (World.wp_bind _).mpr (World.wp_mono _ hmalloc ?_)
    rintro got _ rfl
    split
    · exact hstop .ok
    · next desc hdesc =>
      cases got with
      | false => cases hdesc
      | true =>
        rw [if_pos rfl] at hdesc
        obtain rfl := buildStreamBeginDesc_eq hdesc
        rintro ⟨status,begun⟩ -
        simp only [Ask.bind]
        by_cases hs : status = .ok
        · subst hs
          have hbegun : ({v with board := b} : Feeding).next inputPath
              (.codec (.streamBegin algorithm invalidHandle 0 0 outputLimit
                (decompressFlagExpectEnd ||| decompressFlagFeedInput))) (.ok,begun) =
              {v with board := {b with
                session := if begun.session = 0 then none else some begun.session}} := by
            by_cases h0 : begun.session = 0 <;>
              simp [Feeding.next,FeedBoard.next,FeedBoard.answered,h0,← hb.session]
          rw [if_neg (not_not.mpr rfl),hbegun]
          refine (World.wp_bind _).mpr (World.wp_mono _ (openSink_wp s₀) ?_)
          rintro opened _ ⟨out,rfl,hopened⟩
          cases opened with
          | none => exact endStream_wp (hb.closing hlent.live_eq rfl (hgot _ hwritten) rfl)
          | some opened =>
            let j : FeedJob σ := ⟨prefixBytes,inputStart,inputLength,outputLimit,sink,begun.session,
              input,decoded,capacity,opened.map OpenedOutput.file⟩
            have hgoing : j.Going content true j.totalInput 0 (sink.output s₀).consumer
                ⟨{b with session := if begun.session = 0 then none else some begun.session},
                  v.position,out,v.written⟩ := by
              refine ⟨⟨?_,⟨hlent.inputValid,hlent.decodedValid,hlent.live,hlent.pairCapacity⟩,
                hb.inside,hb.owned⟩,rfl,le_rfl,?_,?_,hopened _ rfl,?_,?_,Nat.zero_le _,?_⟩
              · show FedInOrder _ _ 0 b.pieces
                rw [hb.pieces]
                trivial
              · simp [hb.pieces]
              · simp [j,hpos]
              · show _ = b.fetched
                rw [hb.fetched]
                exact hgot _ hwritten
              · simp [hb.fetched]
              · simp [hb.reads]
            refine (World.wp_bind _).mpr (World.wp_mono _ (FeedJob.feed_wp s₀ hsep hgoing) ?_)
            intro e u hended
            exact endStream_wp hended.closing
        · rw [if_pos hs]
          have hbegun : ({v with board := b} : Feeding).next inputPath
              (.codec (.streamBegin algorithm invalidHandle 0 0 outputLimit
                (decompressFlagExpectEnd ||| decompressFlagFeedInput))) (status,begun) =
              {v with board := b} := by
            simp [Feeding.next,FeedBoard.next,FeedBoard.answered,hs]
          rw [hbegun]
          refine (World.wp_bind _).mpr (World.wp_mono _ printSharedDiag_wp ?_)
          rintro _ _ rfl
          exact hstop status

theorem FeedBoard.Idle.exact {whole : Bytes} {totalInput : Nat} {e : DecodeEnd (σ × Bytes)}
    (h : v.board.Idle) (hlive : v.board.live = 0) (hok : e.ok = false)
    (hgot : sink.got v e.consumer = []) : FeedExact whole totalInput outputLimit sink e v := by
  refine ⟨?_,h.inside,?_,hgot ▸ List.nil_prefix,fun ht => ?_,hlive,h.owned,Or.inl h.session,?_⟩
  · rw [h.pieces]
    trivial
  · simp [h.fetched]
  · rw [hok] at ht
    cases ht
  · simp [h.reads]

end

section

variable {σ : Type} {service : CodecService} {algorithm : Compression} {prefixBytes content : Bytes}
  {inputPath : CString} {inputStart inputLength outputLimit : Nat} {sink : FeedSink σ} {s : σ}

end

/-- A service that knows every algorithm, and streams through chunks of 4 KiB -/
def anyService : CodecService := {flags := 0xffffffff,streamChunk := 4096}

/-- A mapped buffer of 8 KiB -/
def wideBuffer (handle : UInt32) : SharedBuffer := {handle,data := 1,length := 8192}

theorem wideBuffer_allowed {meets : Feeding → (c : JobCall) → c.Answer → Prop} {v : Feeding}
    {length alignment : Nat} {flags handle : UInt32} (hhandle : handle ≠ invalidHandle)
    (hlength : length ≤ 8192)
    (hmeets : meets v (.allocShared length alignment flags) (Except.ok (wideBuffer handle))) :
    (feeding [] [0] meets).allowed v
      ⟨.allocShared length alignment flags,Except.ok (wideBuffer handle)⟩ := by
  refine ⟨?_,hmeets⟩
  rintro _ ⟨⟩
  exact ⟨hhandle,hlength⟩

/-- A consumer that takes everything -/
def takeAll : FeedSink Unit := .callback fun _ _ => pure (true,())

end ZZ9K.Archive
