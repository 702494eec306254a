import Mathlib.Algebra.Order.Group.Multiset
import ZZ9K.Archive.Decode

namespace ZZ9K.Archive

open ZZ9K.Abi ZZ9K.Host ZZ9K.Framework

section

variable {σ : Type} {w : World JobCall JobCall.Answer} {session : UInt32}
  {input decoded : SharedBuffer} {totalInput outputLimit : Nat}
  {copyChunk : SharedBuffer → Nat → Nat → Job Bool} {deliver : σ → Nat → Job (Bool × σ)}

/-- What a reading has to bring about in a round of the feed loop, with `rest` bytes of the input
still to go: `Q` where it ends the loop, and else the invariant `I` -/
def AfterRead (Q : StreamEnd σ → w.State → Prop) (I : Bool → Nat → Nat → σ → w.State → Prop)
    (session : UInt32) (rest total : Nat) : ReadPart σ outputLimit total → w.State → Prop
  | .ended e,v => Q e v
  | .going result s _,v =>
    if result.flags &&& decompressResultNeedInput ≠ 0 then I true rest (total+result.bytesWritten) s v
    else if result.bytesWritten = 0 then Q {session,consumer := s} v
    else I false rest (total+result.bytesWritten) s v

/-- What a feeding has to bring about there -/
def AfterFeed (Q : StreamEnd σ → w.State → Prop) (I : Bool → Nat → Nat → σ → w.State → Prop)
    (session : UInt32) (decoded : SharedBuffer) (outputLimit : Nat)
    (deliver : σ → Nat → Job (Bool × σ)) (total : Nat) (s : σ) {needInput : Bool} {left : Nat} :
    FeedPart σ needInput left → w.State → Prop
  | .ended e,v => Q e v
  | .fed rest _,v =>
    w.wp (streamReadPart session decoded outputLimit deliver total s)
      (AfterRead Q I session rest total) v

/-- The feed loop keeps what each of its rounds keeps. -/
theorem feedLoop_wp {Q : StreamEnd σ → w.State → Prop}
    {I : Bool → Nat → Nat → σ → w.State → Prop}
    (hround : ∀ needInput left total s v,I needInput left total s v →
      w.wp (streamFeedPart session input copyChunk totalInput needInput left s)
        (AfterFeed Q I session decoded outputLimit deliver total s) v)
    {n : Nat} {needInput : Bool} {left total : Nat}
    (hn : 2*left+(outputLimit-total)+(if needInput then 0 else 1) = n) {s : σ} {v : w.State}
    (h : I needInput left total s v) :
    w.wp (feedLoop session input decoded totalInput outputLimit copyChunk deliver needInput left
      total s) Q v := by
  induction n using Nat.strong_induction_on generalizing needInput left total s v with
  | _ n ih =>
    rw [feedLoop]
    refine (w.wp_bind).mpr (w.wp_mono (hround needInput left total s v h) ?_)
    intro fed v hfed
    cases fed with
    | ended e => exact hfed
    | fed rest hless =>
      refine (w.wp_bind).mpr (w.wp_mono hfed ?_)
      intro part v hpart
      cases part with
      | ended e => exact hpart
      | going result s hfits =>
        simp only [AfterRead] at hpart
        dsimp only
        split at hpart
        · next hmore =>
          rw [if_pos hmore]
          refine ih _ ?_ rfl hpart
          cases needInput <;> simp at hless hn ⊢ <;> omega
        · next hmore =>
          rw [if_neg hmore]
          split at hpart
          · next h0 =>
            rw [dif_pos h0]
            exact hpart
          · next h0 =>
            rw [dif_neg h0]
            refine ih _ ?_ rfl hpart
            cases needInput <;> simp at hless hn ⊢ <;> omega

end

/-- What there is of a fed decoding on the board, and what is to be said of it: the buffers given
out and not freed, and whether every handle freed was that of such a buffer; the size of the pair
asked for last, which is that of the local chunk buffer, and whether no copy into that exceeded it;
what the tool has put into the buffers; the pieces fed, each with its end mark; the bytes copied
back; the open session, and whether a call on it has failed; and how often it was read. -/
structure FeedBoard where
  live : Multiset UInt32 := 0
  owned : Prop := True
  pairCapacity : Nat := 0
  inside : Prop := True
  memory : UInt32 → Bytes := fun _ => []
  pieces : List (Bytes × Bool) := []
  fetched : Bytes := []
  session : Option UInt32 := none
  failed : Prop := False
  reads : Nat := 0

namespace FeedBoard

variable (b : FeedBoard)

/-- Bytes written over others from `offset` on -/
def overwrite (old : Bytes) (offset : Nat) (data : Bytes) : Bytes :=
  old.take offset++data++old.drop (offset+data.length)

def granted (length : Nat) : Except Status SharedBuffer → FeedBoard
  | .ok buffer => {b with live := buffer.handle ::ₘ b.live,pairCapacity := length}
  | .error _ => b

def answered : CodecRequest → Status × DecompressResult → FeedBoard
  | .streamBegin .., answer =>
    if answer.1 = .ok ∧ answer.2.session ≠ 0 then {b with session := some answer.2.session} else b
  | .streamFeed _ src offset length flags,answer => {b with
      pieces := b.pieces++
        [(slice (b.memory src) offset length,decide (flags = decompressStreamFeedEof))]
      failed := b.failed ∨ answer.1 ≠ .ok}
  | .streamRead ..,answer => {b with reads := b.reads+1,failed := b.failed ∨ answer.1 ≠ .ok}
  | .streamClose session _,_ =>
    {b with session := if b.session = some session then none else b.session}
  | _,_ => b

def next : (c : JobCall) → c.Answer → FeedBoard
  | .allocShared length _ _,answer => b.granted length answer
  | .freeShared handle,_ =>
    {b with live := b.live.erase handle,owned := b.owned ∧ handle ∈ b.live}
  | .store handle offset data,_ =>
    {b with memory := Function.update b.memory handle (overwrite (b.memory handle) offset data)}
  | .load _ _ length,data =>
    {b with inside := b.inside ∧ length ≤ b.pairCapacity,fetched := b.fetched++Subtype.val data}
  | .codec request,answer => b.answered request answer
  | _,_ => b

end FeedBoard

/-- The board, where the input file stands, the file opened for writing last, and what was written
to it -/
structure Feeding where
  board : FeedBoard := {}
  position : Nat := 0
  out : Option Nat := none
  written : Bytes := []

namespace Feeding

variable (inputPath : CString) (v : Feeding)

def seeked (path : CString) (offset : Nat) (done : Bool) : Feeding :=
  if path = inputPath ∧ done then {v with position := offset} else v

def passed (path : CString) (length : Nat) (data : Option Bytes) : Feeding :=
  if path = inputPath ∧ data.isSome then {v with position := v.position+length} else v

def appended (file : Nat) (data : Bytes) (done : Bool) : Feeding :=
  if done ∧ v.out = some file then {v with written := v.written++data} else v

def toolNext : (c : ToolCall) → c.Answer → Feeding
  | .seek path offset,done => v.seeked inputPath path offset done
  | .read path length,data => v.passed inputPath path length data
  | .openWrite _,file => {v with out := file}
  | .write file data,done => v.appended file data done
  | _,_ => v

def next : (c : JobCall) → c.Answer → Feeding
  | .tool c,x => v.toolNext inputPath c x
  | c,x => {v with board := v.board.next c x}

/-- The firmware replies as it likes, with buffers under valid handles and at least as long as asked
for; the input file has the bytes `content`. -/
def Allowed (content : Bytes) : (c : JobCall) → c.Answer → Prop
  | .allocShared length _ _,answer => ∀ buffer : SharedBuffer,answer = Except.ok buffer →
      buffer.handle ≠ invalidHandle ∧ length ≤ buffer.length.toNat
  | .tool (.read path length),answer => path = inputPath → ∀ data : Bytes,answer = some data →
      data = slice content v.position length ∧ data.length = length
  | _,_ => True

/-- No buffer comes under the handle 0, and no reading of output that is to be copied, within the
buffer and the limit, reports more than the pair's capacity. -/
def Tame (wanted : Bool) (outputLimit : Nat) : (c : JobCall) → c.Answer → Prop
  | .allocShared _ _ _,answer => ∀ buffer : SharedBuffer,answer = Except.ok buffer →
      buffer.handle ≠ 0
  | .codec (.streamRead _ _ _ capacity _),answer => wanted = true → Prod.fst answer = .ok →
      (Prod.snd answer).bytesWritten ≤ capacity →
      v.board.fetched.length+(Prod.snd answer).bytesWritten ≤ outputLimit →
      (Prod.snd answer).bytesWritten ≤ v.board.pairCapacity
  | _,_ => True

end Feeding

/-- The surroundings of a fed decoding, where the answers also `meet` something -/
abbrev feeding (inputPath : CString) (content : Bytes)
    (meets : Feeding → (c : JobCall) → c.Answer → Prop) : World JobCall JobCall.Answer where
  State := Feeding
  allowed v e := v.Allowed inputPath content e.1 e.2 ∧ meets v e.1 e.2
  next v e := v.next inputPath e.1 e.2

/-- The pieces are the bytes of `whole` from `offset` on, one behind the other, and just that which
ends where all `total` bytes end is marked as the end. -/
def FedInOrder (whole : Bytes) (total : Nat) : Nat → List (Bytes × Bool) → Prop
  | _,[] => True
  | offset,(piece,eof)::rest => piece ≠ [] ∧ piece <+: whole.drop offset ∧
      (eof = true ↔ offset+piece.length = total) ∧ FedInOrder whole total (offset+piece.length) rest

/-- What takes the decoded bytes: the output file of an entry, a consumer, or nothing -/
inductive FeedSink (σ : Type)
  | file (opts : ToolOptions) (outputDir : CString) (entry : ArchiveEntry)
  | callback (onChunk : σ → Bytes → Tool (Bool × σ))
  | result

namespace FeedSink

variable {σ : Type}

/-- A consumer that remembers what it got -/
def recording (onChunk : σ → Bytes → Tool (Bool × σ)) (s : σ × Bytes) (data : Bytes) :
    Tool (Bool × (σ × Bytes)) := do
  let (taken,state) ← onChunk s.1 data
  pure (taken,(state,s.2++data))

/-- The sink as the function takes it, with a state for the consumer -/
def output (s : σ) : FeedSink σ → FeedOutput (σ × Bytes)
  | file opts outputDir entry =>
    {openFile := some (openOutputEntry opts outputDir entry),onChunk := none,consumer := (s,[])}
  | callback onChunk => {openFile := none,onChunk := some (recording onChunk),consumer := (s,[])}
  | result => {openFile := none,onChunk := none,consumer := (s,[])}

/-- What the sink has got -/
def got (v : Feeding) (s : σ × Bytes) : FeedSink σ → Bytes
  | file .. => v.written
  | callback _ => s.2
  | result => []

def wanted : FeedSink σ → Bool
  | result => false
  | _ => true

/-- The consumer leaves the input file alone, whose stream is the function's own. -/
def Separate (inputPath : CString) : FeedSink σ → Prop
  | callback onChunk => ∀ s data,(onChunk s data).All fun c =>
      (∀ offset,c ≠ .seek inputPath offset) ∧ ∀ length,c ≠ .read inputPath length
  | _ => True

end FeedSink

/-- What is asked of a fed decoding of `total` bytes that begin with `whole` -/
structure FeedExact {σ : Type} (whole : Bytes) (total outputLimit : Nat) (sink : FeedSink σ)
    (e : DecodeEnd (σ × Bytes)) (v : Feeding) : Prop where
  fed : FedInOrder whole total 0 v.board.pieces
  inside : v.board.inside
  limit : v.board.fetched.length ≤ outputLimit
  received : sink.got v e.consumer <+: v.board.fetched
  complete : e.ok = true → sink.got v e.consumer = v.board.fetched ∧
    e.result.bytesWritten ≤ outputLimit ∧
    (sink.wanted = true → v.board.fetched.length = e.result.bytesWritten)
  freed : v.board.live = 0
  owned : v.board.owned
  closed : v.board.session = none ∨ v.board.failed
  ends : v.board.reads ≤ total+outputLimit

/-- The surroundings that are also tame -/
abbrev tameFeeding (inputPath : CString) (content : Bytes) (wanted : Bool) (outputLimit : Nat) :
    World JobCall JobCall.Answer :=
  feeding inputPath content fun v => v.Tame wanted outputLimit

/-- Nothing was fed, fetched or begun yet. -/
structure FeedBoard.Idle (b : FeedBoard) : Prop where
  inside : b.inside
  owned : b.owned
  pieces : b.pieces = []
  fetched : b.fetched = []
  session : b.session = none
  reads : b.reads = 0

/-- The board has given out the two buffers, and nothing else. -/
structure FeedBoard.Lent (b : FeedBoard) (input decoded : SharedBuffer) (capacity : Nat) :
    Prop where
  inputValid : input.handle ≠ 0 ∧ input.handle ≠ invalidHandle
  decodedValid : decoded.handle ≠ 0 ∧ decoded.handle ≠ invalidHandle
  live : b.live = {decoded.handle,input.handle}
  pairCapacity : b.pairCapacity = capacity

/-- What the allocation of the pair leaves -/
def FeedBoard.AfterPair (b : FeedBoard) : Except Status (SharedBuffer × SharedBuffer × Nat) → Prop
  | .ok (input,decoded,capacity) => b.Lent input decoded capacity
  | .error _ => b.live = 0

section

variable {inputPath : CString} {content : Bytes} {wanted : Bool} {outputLimit : Nat} {v : Feeding}

theorem allocStreamPairLoop_wp {flags : UInt32} {capacity : Nat} (hidle : v.board.Idle)
    (hlive : v.board.live = 0) :
    (tameFeeding inputPath content wanted outputLimit).wp (allocStreamPairLoop flags capacity)
      (fun r u => ∃ b : FeedBoard,u = {v with board := b} ∧ b.Idle ∧ b.AfterPair r) v := by
  induction capacity using Nat.strong_induction_on generalizing v with
  | _ capacity ih =>
    have hless : archiveStreamMinChunk ≤ capacity → capacity/2 < capacity := by
      intro hle
      have hmin : 0 < archiveStreamMinChunk := by decide
      exact Nat.div_lt_self (by omega) (by decide)
    rw [allocStreamPairLoop]
    split
    · next hle =>
      rintro (status | input) hx
      · -- the first buffer is refused: a smaller pair, or the end
        simp only [Ask.bind]
        split
        · exact ih _ (hless hle) hidle hlive
        · exact ⟨v.board,rfl,hidle,hlive⟩
      · obtain ⟨hvalid,-⟩ := hx.1 input rfl
        have hzero := hx.2 input rfl
        rintro (status | decoded) hy
        · -- the second is refused: the first goes back
          have hback : ∀ b : FeedBoard,b.Idle → b.live = {input.handle} →
              (tameFeeding inputPath content wanted outputLimit).wp (do
                Job.freeShared input.handle
                if pairShrinkRetry status capacity then allocStreamPairLoop flags (capacity/2)
                else pure (.error status))
                (fun r u => ∃ b : FeedBoard,u = {v with board := b} ∧ b.Idle ∧ b.AfterPair r)
                {v with board := b} := by
            intro b hb hone
            rw [Job.freeShared,if_neg hvalid]
            intro x _
            have hfreed : (b.live.erase input.handle) = 0 := by simp [hone]
            have howned : b.owned ∧ input.handle ∈ b.live := ⟨hb.owned,by simp [hone]⟩
            have hidle' : FeedBoard.Idle {b with
                live := b.live.erase input.handle,owned := b.owned ∧ input.handle ∈ b.live} :=
              ⟨hb.inside,howned,hb.pieces,hb.fetched,hb.session,hb.reads⟩
            split
            · exact ih _ (hless hle) (v := {v with board := _}) hidle' hfreed
            · exact ⟨_,rfl,hidle',hfreed⟩
          exact hback _ ⟨hidle.inside,hidle.owned,hidle.pieces,hidle.fetched,hidle.session,
            hidle.reads⟩ (by simp [FeedBoard.next,FeedBoard.granted,Feeding.next,hlive])
        · obtain ⟨hvalid',-⟩ := hy.1 decoded rfl
          have hzero' := hy.2 decoded rfl
          refine ⟨_,rfl,⟨hidle.inside,hidle.owned,hidle.pieces,hidle.fetched,hidle.session,
            hidle.reads⟩,⟨hzero,hvalid⟩,⟨hzero',hvalid'⟩,?_,rfl⟩
          simp [FeedBoard.next,FeedBoard.granted,Feeding.next,hlive]
    · exact ⟨v.board,rfl,hidle,hlive⟩

theorem printSharedDiag_wp : (tameFeeding inputPath content wanted outputLimit).wp printSharedDiag
    (fun _ u => u = v) v := by
  rintro ⟨status,heap⟩ -
  simp only [Ask.bind]
  by_cases hs : status = .ok
  · rw [if_pos hs]
    exact fun x _ => rfl
  · rw [if_neg hs]
    exact rfl

/-- A slice of two parts one behind the other -/
theorem slice_of_append (p q : Bytes) (offset length : Nat) :
    slice (p++q) offset length = slice p offset length++
      slice q (offset-p.length) (length-(slice p offset length).length) := by
  unfold slice
  rw [List.drop_append,List.take_append]
  congr 2
  simp
  omega

/-- The board but for what the tool has put into the buffers -/
def FeedBoard.stored (b : FeedBoard) (memory : UInt32 → Bytes) : FeedBoard := {b with memory}

theorem sharedCopyTo_wp {buffer : SharedBuffer} {data : Bytes} :
    (tameFeeding inputPath content wanted outputLimit).wp (sharedCopyTo buffer 0 data)
      (fun done u => ∃ memory,u = {v with board := v.board.stored memory} ∧
        (done = true → data <+: memory buffer.handle)) v := by
  unfold sharedCopyTo
  split
  · intro x _
    refine ⟨_,rfl,fun _ => ?_⟩
    rw [Function.update_self]
    exact List.prefix_append _ _
  · exact ⟨v.board.memory,rfl,nofun⟩

theorem next_read_none (path : CString) (length : Nat) :
    v.next inputPath (.tool (.read path length)) (none : Option Bytes) = v := by
  simp [Feeding.next,Feeding.toolNext,Feeding.passed]

theorem next_read_some (length : Nat) (data : Bytes) :
    v.next inputPath (.tool (.read inputPath length)) (some data : Option Bytes) =
      {v with position := v.position+length} := by
  simp [Feeding.next,Feeding.toolNext,Feeding.passed]

theorem overwrite_prefix {old part data : Bytes} (h : part <+: old) :
    part++data <+: FeedBoard.overwrite old part.length data := by
  obtain ⟨rest,rfl⟩ := h
  rw [FeedBoard.overwrite,List.take_left]
  exact List.prefix_append _ _

/-- What a copy of `length` bytes from `offset` on of the prefix and the input file leaves: the
bytes stand at the start of the buffer, and the file is read on to behind them. -/
structure Copied (prefixBytes content : Bytes) (inputStart inputLength offset length : Nat)
    (input : SharedBuffer) (memory : UInt32 → Bytes) (position : Nat) : Prop where
  nonempty : 0 < length
  position : position = inputStart+(offset+length-prefixBytes.length)
  stored : slice (prefixBytes++slice content inputStart inputLength) offset length <+:
    memory input.handle
  full : (slice (prefixBytes++slice content inputStart inputLength) offset length).length = length

theorem copyFeedFileInputChunk_wp {prefixBytes : Bytes} {inputStart inputLength offset length : Nat}
    (input : SharedBuffer) (hlength : offset+length ≤ prefixBytes.length+inputLength)
    (hpos : v.position = inputStart+(offset-prefixBytes.length)) :
    (tameFeeding inputPath content wanted outputLimit).wp
      (copyFeedFileInputChunk inputPath prefixBytes inputLength input offset length)
      (fun copied u => ∃ memory position,
        u = {v with board := v.board.stored memory,position := position} ∧ (copied = true →
          Copied prefixBytes content inputStart inputLength offset length input memory position))
      v := by
  unfold copyFeedFileInputChunk
  extract_lets total remaining part
  have hremaining : length ≠ 0 → remaining = length := by
    intro _
    simp only [remaining,total]
    split <;> omega
  have hpart : part = slice prefixBytes offset remaining := rfl
  clear_value remaining part
  split
  · exact ⟨v.board.memory,v.position,rfl,nofun⟩
  · next hfits =>
    have h0 : length ≠ 0 := fun h0 => hfits (Or.inl h0)
    obtain rfl := hremaining h0
    have hpartLength : part.length = min remaining (prefixBytes.length-offset) := by
      simp [hpart,slice]
    -- the part of the prefix, if the piece begins in it
    have hfirst : (tameFeeding inputPath content wanted outputLimit).wp
        (if offset < prefixBytes.length then sharedCopyTo input 0 part else pure true)
        (fun done u => ∃ memory,u = {v with board := v.board.stored memory} ∧
          (done = true → part <+: memory input.handle)) v := by
      split
      · exact sharedCopyTo_wp
      · next hbehind =>
        refine ⟨v.board.memory,rfl,fun _ => ?_⟩
        have hnil : part = [] := List.eq_nil_of_length_eq_zero (by omega)
        rw [hnil]
        exact List.nil_prefix
    have hwhole := slice_of_append prefixBytes (slice content inputStart inputLength) offset remaining
    refine (World.wp_bind _).mpr (World.wp_mono _ hfirst ?_)
    rintro first _ ⟨memory,rfl,hstored⟩
    cases first with
    | false => exact ⟨memory,v.position,rfl,nofun⟩
    | true =>
      have hhere := hstored rfl
      rw [if_neg (by decide)]
      by_cases hall : part.length = remaining
      · rw [if_pos hall]
        have hslice : slice (prefixBytes++slice content inputStart inputLength) offset remaining =
            part := by
          rw [hwhole,← hpart,hall,Nat.sub_self,
            slice_zero,List.append_nil]
        refine ⟨memory,v.position,rfl,fun _ => ⟨by omega,?_,hslice ▸ hhere,hslice ▸ hall⟩⟩
        rw [hpos]
        omega
      · rw [if_neg hall]
        rintro (_ | data) hread
        · exact ⟨memory,v.position,next_read_none ..,nofun⟩
        · obtain ⟨hdata,hlen⟩ := hread.1 rfl data rfl
          have hslice : slice (prefixBytes++slice content inputStart inputLength) offset remaining =
              part++data := by
            rw [hwhole,← hpart,slice_slice _ (by omega),
              hdata]
            congr 2
            exact hpos.symm
          intro x _
          dsimp only
          rw [next_read_some]
          refine ⟨_,_,rfl,fun _ => ⟨by omega,?_,?_,?_⟩⟩
          · dsimp only
            omega
          · rw [hslice,Function.update_self]
            exact overwrite_prefix hhere
          · rw [hslice,List.length_append,hlen]
            omega

/-- What leaves the input file alone leaves the board and the file's position as they are. -/
theorem tool_wp {α : Type} {p : Tool α}
    (hp : p.All fun c => (∀ offset,c ≠ .seek inputPath offset) ∧ ∀ length,c ≠ .read inputPath length)
    (v : Feeding) : (tameFeeding inputPath content wanted outputLimit).wp (Job.tool p)
      (fun _ u => u.board = v.board ∧ u.position = v.position) v := by
  induction p generalizing v with
  | ret a => exact ⟨rfl,rfl⟩
  | ask c k ih =>
    intro x hx
    have hstep : (v.next inputPath (.tool c) x).board = v.board ∧
        (v.next inputPath (.tool c) x).position = v.position := by
      obtain ⟨⟨hseek,hread⟩,-⟩ := hp
      cases c with
      | seek path offset =>
        have hne : path ≠ inputPath := fun h => hseek offset (h ▸ rfl)
        simp [Feeding.next,Feeding.toolNext,Feeding.seeked,hne]
      | read path length =>
        have hne : path ≠ inputPath := fun h => hread length (h ▸ rfl)
        simp [Feeding.next,Feeding.toolNext,Feeding.passed,hne]
      | write file data =>
        simp only [Feeding.next,Feeding.toolNext,Feeding.appended]
        split <;> exact ⟨rfl,rfl⟩
      | _ => exact ⟨rfl,rfl⟩
    refine World.wp_mono _ (ih x (hp.2 x) _) ?_
    rintro _ u ⟨hboard,hposition⟩
    exact ⟨hboard.trans hstep.1,hposition.trans hstep.2⟩

variable {σ : Type} {sink : FeedSink σ} {file : Option Nat} {s : σ × Bytes}

/-- The file that the chunks are written to is the sink's, or there is none. -/
def FeedSink.Opened (file : Option Nat) (v : Feeding) : FeedSink σ → Prop
  | .file .. => file.isSome ∧ v.out = file
  | _ => file = none

/-- What giving a chunk of `length` bytes to the sink leaves -/
structure Delivered (sink : FeedSink σ) (file : Option Nat) (v : Feeding) (length : Nat)
    (r : Bool × (σ × Bytes)) (u : Feeding) : Prop where
  kept : u.board = {v.board with inside := u.board.inside,fetched := u.board.fetched}
  position : u.position = v.position
  inside : u.board.inside
  received : sink.got u r.2 <+: u.board.fetched
  size : u.board.fetched.length ≤ v.board.fetched.length+length
  complete : r.1 = true → sink.got u r.2 = u.board.fetched ∧
    u.board.fetched.length = v.board.fetched.length+if sink.wanted then length else 0
  opened : sink.Opened file u

theorem recording_wp {onChunk : σ → Bytes → Tool (Bool × σ)}
    (hsep : (FeedSink.callback onChunk).Separate inputPath) (data : Bytes) :
    (tameFeeding inputPath content wanted outputLimit).wp (Job.tool (FeedSink.recording onChunk s data))
      (fun r u => u.board = v.board ∧ u.position = v.position ∧ r.2.2 = s.2++data) v := by
  have hall : (FeedSink.recording onChunk s data).All fun c =>
      (∀ offset,c ≠ .seek inputPath offset) ∧ ∀ length,c ≠ .read inputPath length :=
    Ask.all_bind (hsep s.1 data) fun _ => trivial
  have hgot : ∀ (p : Tool (Bool × σ)) (v : Feeding),(tameFeeding inputPath content wanted outputLimit).wp
      (Job.tool (p >>= fun (taken,state) => pure (taken,(state,s.2++data))))
      (fun r _ => r.2.2 = s.2++data) v := by
    intro p
    induction p with
    | ret a => exact fun v => rfl
    | ask c k ih => exact fun v x _ => ih x _
  refine World.wp_mono _ (World.wp_and _ (tool_wp hall v) (hgot (onChunk s.1 data) v)) ?_
  exact fun r u h => ⟨h.1.1,h.1.2,h.2⟩

/-- The state once a chunk is fetched -/
def Feeding.fetch (v : Feeding) (data : Bytes) : Feeding := {v with
  board := {v.board with
    inside := v.board.inside ∧ data.length ≤ v.board.pairCapacity
    fetched := v.board.fetched++data}}

theorem next_load {handle : UInt32} {offset length : Nat} (data : {data : Bytes // data.length = length}) :
    v.next inputPath (.load handle offset length) data = v.fetch data.val := by
  simp [Feeding.next,FeedBoard.next,Feeding.fetch,data.property]

theorem next_write {f : Nat} {data : Bytes} (hout : v.out = some f) :
    v.next inputPath (.tool (.write f data)) true = {v with written := v.written++data} := by
  simp [Feeding.next,Feeding.toolNext,Feeding.appended,hout]

theorem next_write_false {f : Nat} {data : Bytes} :
    v.next inputPath (.tool (.write f data)) false = v := by
  simp [Feeding.next,Feeding.toolNext,Feeding.appended]

theorem deliverChunk_wp {decoded : SharedBuffer} {length : Nat} (s₀ : σ)
    (hsep : sink.Separate inputPath) (hin : v.board.inside)
    (hopened : sink.Opened file v) (hgot : sink.got v s = v.board.fetched)
    (hlength : sink.wanted = true → length ≤ v.board.pairCapacity) :
    (tameFeeding inputPath content wanted outputLimit).wp
      (deliverChunk decoded file (sink.output s₀).onChunk s length)
      (Delivered sink file v length) v := by
  have hfail : Delivered sink file v length (false,s) v :=
    ⟨rfl,rfl,hin,hgot ▸ List.prefix_refl _,Nat.le_add_right ..,nofun,hopened⟩
  have hsize : ∀ data : {data : Bytes // data.length = length},
      (v.fetch data.val).board.fetched.length = v.board.fetched.length+length := by
    intro data
    rw [Feeding.fetch,List.length_append,data.property]
  unfold deliverChunk
  cases sink with
  | result =>
    obtain rfl : file = none := hopened
    exact ⟨rfl,rfl,hin,hgot ▸ List.prefix_refl _,Nat.le_add_right ..,fun _ => ⟨hgot,rfl⟩,rfl⟩
  | file opts outputDir entry =>
    obtain ⟨hsome,hout⟩ := hopened
    obtain ⟨f,rfl⟩ := Option.isSome_iff_exists.mp hsome
    have hwritten : v.written = v.board.fetched := hgot
    rw [if_neg (by simp)]
    unfold sharedCopyFrom
    split
    · intro data _
      have hinside : (v.fetch data.val).board.inside :=
        ⟨hin,data.property.trans_le (hlength rfl)⟩
      dsimp only
      rw [next_load data]
      rintro written -
      dsimp only
      cases written with
      | false =>
        rw [next_write_false]
        have hpart : v.written <+: v.board.fetched++data.val := by
          rw [hwritten]
          exact List.prefix_append _ _
        exact ⟨rfl,rfl,hinside,hpart,(hsize data).le,nofun,rfl,hout⟩
      | true =>
        rw [next_write (show (v.fetch data.val).out = some f from hout)]
        have hall : v.written++data.val = v.board.fetched++data.val := by rw [hwritten]
        exact ⟨rfl,rfl,hinside,hall ▸ List.prefix_refl _,(hsize data).le,
          fun _ => ⟨hall,hsize data⟩,rfl,hout⟩
    · exact hfail
  | callback onChunk =>
    obtain rfl : file = none := hopened
    have hconsumer : s.2 = v.board.fetched := hgot
    rw [if_neg (by simp [FeedSink.output])]
    unfold sharedCopyFrom
    split
    · intro data _
      have hinside : (v.fetch data.val).board.inside :=
        ⟨hin,data.property.trans_le (hlength rfl)⟩
      dsimp only
      rw [next_load data]
      refine World.wp_mono _ (recording_wp (v := v.fetch data.val) (s := s) hsep data.val) ?_
      rintro r u ⟨hboard,hposition,hr⟩
      have hall : r.2.2 = u.board.fetched := by
        rw [hr,hboard,hconsumer]
        rfl
      refine ⟨?_,hposition,hboard ▸ hinside,hall ▸ List.prefix_refl _,?_,fun _ => ⟨hall,?_⟩,rfl⟩
      · rw [hboard]
        rfl
      · rw [hboard]
        exact (hsize data).le
      · rw [hboard]
        exact hsize data
    · exact hfail

theorem FedInOrder.append {whole : Bytes} {total : Nat} {pieces : List (Bytes × Bool)}
    {offset : Nat} (h : FedInOrder whole total offset pieces) {piece : Bytes} {eof : Bool}
    (hne : piece ≠ [])
    (hpiece : piece <+: whole.drop (offset+(pieces.map fun p => p.1.length).sum))
    (heof : eof = true ↔ offset+(pieces.map fun p => p.1.length).sum+piece.length = total) :
    FedInOrder whole total offset (pieces++[(piece,eof)]) := by
  induction pieces generalizing offset with
  | nil => exact ⟨hne,by simpa using hpiece,by simpa using heof,trivial⟩
  | cons p pieces ih =>
    obtain ⟨hne',hpiece',heof',hrest⟩ := h
    refine ⟨hne',hpiece',heof',ih hrest ?_ ?_⟩
    · rwa [List.map_cons,List.sum_cons,← Nat.add_assoc] at hpiece
    · rwa [List.map_cons,List.sum_cons,← Nat.add_assoc] at heof

/-- What stays as it is in a feed loop -/
structure FeedJob (σ : Type) where
  prefixBytes : Bytes
  inputStart : Nat
  inputLength : Nat
  outputLimit : Nat
  sink : FeedSink σ
  session : UInt32
  input : SharedBuffer
  decoded : SharedBuffer
  pairCapacity : Nat
  file : Option Nat

namespace FeedJob

variable (j : FeedJob σ)

def totalInput : Nat := j.prefixBytes.length+j.inputLength

def whole (content : Bytes) : Bytes := j.prefixBytes++slice content j.inputStart j.inputLength

/-- What holds all through the loop, but for the session -/
structure Kept (content : Bytes) (v : Feeding) : Prop where
  order : FedInOrder (j.whole content) j.totalInput 0 v.board.pieces
  lent : v.board.Lent j.input j.decoded j.pairCapacity
  inside : v.board.inside
  owned : v.board.owned

/-- The session is the one that was begun, if it got a number. -/
def Open (v : Feeding) : Prop :=
  v.board.session = if j.session = 0 then none else some j.session

/-- What holds where the loop has `left` bytes still to feed and has read `total` -/
structure Going (content : Bytes) (needInput : Bool) (left total : Nat) (s : σ × Bytes)
    (v : Feeding) : Prop where
  kept : j.Kept content v
  session : j.Open v
  left_le : left ≤ j.totalInput
  upto : (v.board.pieces.map fun p => p.1.length).sum = j.totalInput-left
  position : v.position = j.inputStart+(j.totalInput-left-j.prefixBytes.length)
  opened : j.sink.Opened j.file v
  got : j.sink.got v s = v.board.fetched
  size : v.board.fetched.length = if j.sink.wanted then total else 0
  limit : total ≤ j.outputLimit
  reads : v.board.reads+(if needInput then 0 else 1)+left+(j.outputLimit-total) ≤
    j.totalInput+j.outputLimit

/-- What holds where the loop has ended -/
structure Ended (content : Bytes) (e : StreamEnd (σ × Bytes)) (v : Feeding) : Prop where
  kept : j.Kept content v
  session : e.session = j.session ∧ j.Open v ∨ e.session = 0 ∧ v.board.failed
  limit : v.board.fetched.length ≤ j.outputLimit
  received : j.sink.got v e.consumer <+: v.board.fetched
  complete : ∀ result,e.result = some result → j.sink.got v e.consumer = v.board.fetched ∧
    result.bytesWritten ≤ j.outputLimit ∧
    (j.sink.wanted = true → v.board.fetched.length = result.bytesWritten)
  reads : v.board.reads ≤ j.totalInput+j.outputLimit

variable {j} {needInput : Bool} {left total : Nat}

theorem Going.size_le (h : j.Going content needInput left total s v) :
    v.board.fetched.length ≤ j.outputLimit := by
  have hsize := h.size
  have hlimit := h.limit
  split at hsize <;> omega

theorem Kept.of_eq {content : Bytes} {u : Feeding} (h : j.Kept content v)
    (hpieces : u.board.pieces = v.board.pieces) (hlive : u.board.live = v.board.live)
    (hcapacity : u.board.pairCapacity = v.board.pairCapacity) (hinside : u.board.inside)
    (howned : u.board.owned) : j.Kept content u :=
  ⟨hpieces ▸ h.order,⟨h.lent.inputValid,h.lent.decodedValid,hlive ▸ h.lent.live,
    hcapacity ▸ h.lent.pairCapacity⟩,hinside,howned⟩

/-- The loop may end without a result anywhere. -/
theorem Going.stop (h : j.Going content needInput left total s v) :
    j.Ended content {session := j.session,consumer := s} v := by
  have hreads := h.reads
  exact ⟨h.kept,Or.inl ⟨rfl,h.session⟩,h.size_le,h.got ▸ List.prefix_refl _,nofun,by omega⟩

/-- The state once a reading was answered -/
def readAnswered (v : Feeding) (status : Status) : Feeding := {v with
  board := {v.board with reads := v.board.reads+1,failed := v.board.failed ∨ status ≠ .ok}}

/-- A reading that is answered OK may end the loop, or something else goes wrong behind it. -/
theorem Going.stopRead (h : j.Going content false left total s v) (status : Status) :
    j.Ended content {session := j.session,consumer := s} (readAnswered v status) := by
  have hreads := h.reads
  have hkept : j.Kept content (readAnswered v status) :=
    h.kept.of_eq rfl rfl rfl h.kept.inside h.kept.owned
  refine ⟨hkept,Or.inl ⟨rfl,h.session⟩,h.size_le,?_,nofun,?_⟩
  · have hgot : j.sink.got (readAnswered v status) s = v.board.fetched := by
      rw [← h.got]
      cases j.sink <;> rfl
    exact hgot ▸ List.prefix_refl _
  · simp only [readAnswered]
    simp at hreads
    omega

/-- What is delivered behind a reading, with what the loop has then read -/
theorem Going.delivered {bytesWritten : Nat} (h : j.Going content false left total s v)
    {r : Bool × (σ × Bytes)} {u : Feeding}
    (hd : Delivered j.sink j.file (readAnswered v .ok) bytesWritten r u)
    (hfits : total+bytesWritten ≤ j.outputLimit) :
    j.Ended content {session := j.session,consumer := r.2} u ∧ (r.1 = true →
      (∀ result : DecompressResult,result.bytesWritten = total+bytesWritten →
        j.Ended content {session := j.session,result := some result,consumer := r.2} u) ∧
      j.Going content true left (total+bytesWritten) r.2 u ∧
      (bytesWritten ≠ 0 → j.Going content false left (total+bytesWritten) r.2 u)) := by
  have hreads := h.reads
  simp only [Bool.false_eq_true,if_false] at hreads
  have hboard := hd.kept
  have hlive : u.board.live = v.board.live := by rw [hboard]; rfl
  have hpieces : u.board.pieces = v.board.pieces := by rw [hboard]; rfl
  have hcapacity : u.board.pairCapacity = v.board.pairCapacity := by rw [hboard]; rfl
  have howned : u.board.owned := by rw [hboard]; exact h.kept.owned
  have hsession : u.board.session = v.board.session := by rw [hboard]; rfl
  have hcount : u.board.reads = v.board.reads+1 := by rw [hboard]; rfl
  have hkept : j.Kept content u := h.kept.of_eq hpieces hlive hcapacity hd.inside howned
  have hopen : j.Open u := hsession.trans h.session
  have hsize : u.board.fetched.length ≤ j.outputLimit := by
    have hle := hd.size
    have hbefore : (readAnswered v .ok).board.fetched.length =
      if j.sink.wanted then total else 0 := h.size
    rw [hbefore] at hle
    split at hle <;> omega
  refine ⟨⟨hkept,Or.inl ⟨rfl,hopen⟩,hsize,hd.received,nofun,by omega⟩,fun hok => ?_⟩
  obtain ⟨hgot,hlength⟩ := hd.complete hok
  have hnow : u.board.fetched.length = if j.sink.wanted then total+bytesWritten else 0 := by
    have hbefore : (readAnswered v .ok).board.fetched.length =
      if j.sink.wanted then total else 0 := h.size
    rw [hlength,hbefore]
    split <;> simp
  have hgoing : ∀ needInput : Bool,(needInput = false → bytesWritten ≠ 0) →
      j.Going content needInput left (total+bytesWritten) r.2 u := by
    intro needInput hprogress
    refine ⟨hkept,hopen,h.left_le,hpieces ▸ h.upto,hd.position.trans h.position,hd.opened,hgot,hnow,
      hfits,?_⟩
    rw [hcount]
    cases needInput with
    | true =>
      simp only [if_true]
      omega
    | false =>
      have hne := hprogress rfl
      simp only [Bool.false_eq_true,if_false]
      omega
  refine ⟨fun result hresult => ?_,hgoing true nofun,fun hne => hgoing false fun _ => hne⟩
  refine ⟨hkept,Or.inl ⟨rfl,hopen⟩,hsize,hd.received,?_,by omega⟩
  rintro _ ⟨⟩
  refine ⟨hgot,by omega,fun hwanted => ?_⟩
  rw [hnow,if_pos hwanted,hresult]

theorem streamReadPart_wp (s₀ : σ) (hsep : j.sink.Separate inputPath)
    (h : j.Going content false left total s v) :
    (tameFeeding inputPath content j.sink.wanted j.outputLimit).wp
      (streamReadPart j.session j.decoded j.outputLimit
        (deliverChunk j.decoded j.file (j.sink.output s₀).onChunk) total s)
      (AfterRead (w := tameFeeding inputPath content j.sink.wanted j.outputLimit) (j.Ended content)
        (j.Going content) j.session left total) v := by
  unfold streamReadPart
  split
  · exact h.stop
  · next desc hdesc =>
    obtain ⟨rfl,-⟩ := buildStreamReadDesc_eq hdesc
    rintro ⟨status,result⟩ hx
    have hnext : v.next inputPath (.codec (.streamRead j.session j.decoded.handle 0
        j.decoded.length.toNat 0)) (status,result) = readAnswered v status := rfl
    simp only [Ask.bind]
    by_cases hs : status = .ok
    · rw [if_neg (not_not.mpr hs)]
      subst hs
      split
      · exact h.stopRead .ok
      · next hfits =>
        have hlimit : total+result.bytesWritten ≤ j.outputLimit := by
          have hle := h.limit
          omega
        have hgot : j.sink.got (readAnswered v .ok) s = v.board.fetched := by
          rw [← h.got]
          cases j.sink <;> rfl
        have hopened : j.sink.Opened j.file (readAnswered v .ok) := by
          have ho := h.opened
          cases hk : j.sink <;> rw [hk] at ho <;> exact ho
        have hdeliver : (tameFeeding inputPath content j.sink.wanted j.outputLimit).wp
            (if result.bytesWritten = 0 then pure (true,s)
              else deliverChunk j.decoded j.file (j.sink.output s₀).onChunk s result.bytesWritten)
            (Delivered j.sink j.file (readAnswered v .ok) result.bytesWritten)
            (readAnswered v .ok) := by
          split
          · next h0 =>
            refine ⟨rfl,rfl,h.kept.inside,hgot ▸ List.prefix_refl _,Nat.le_add_right ..,
              fun _ => ⟨hgot,?_⟩,hopened⟩
            rw [h0]
            split <;> rfl
          · exact deliverChunk_wp s₀ hsep h.kept.inside hopened hgot fun hwanted =>
              hx.2 hwanted rfl (Nat.not_lt.mp fun hlt => hfits (Or.inl hlt)) (by
                rw [h.size,if_pos hwanted]
                exact hlimit)
        refine (World.wp_bind _).mpr (World.wp_mono _ hdeliver ?_)
        rintro ⟨delivered,s'⟩ u hd
        obtain ⟨hstop,hgo⟩ := h.delivered hd hlimit
        cases delivered with
        | false => exact hstop
        | true =>
          obtain ⟨hend,hmore,hprogress⟩ := hgo rfl
          rw [if_neg (by simp)]
          split
          · exact hend _ rfl
          · simp only [AfterRead,World.wp_ret,Ask.pure_eq]
            split
            · exact hmore
            · split
              · exact hstop
              · next hne => exact hprogress hne
    · rw [if_pos hs]
      refine (World.wp_bind _).mpr (World.wp_mono _ (printSharedDiag_wp (v := readAnswered v status)) ?_)
      rintro _ _ rfl
      have hended := h.stopRead status
      exact ⟨hended.kept,Or.inr ⟨rfl,Or.inr hs⟩,hended.limit,hended.received,(by simp),hended.reads⟩

/-- The state once a piece of the input was fed, from the start of the input buffer -/
def fedPiece (v : Feeding) (piece : Bytes) (eof : Bool) (status : Status) : Feeding := {v with
  board := {v.board with
    pieces := v.board.pieces++[(piece,eof)]
    failed := v.board.failed ∨ status ≠ .ok}}

/-- The state between the copy of a piece and its being fed -/
theorem Going.copied (h : j.Going content true left total s v) {length : Nat} (hle : length ≤ left)
    (memory : UInt32 → Bytes) (position : Nat) :
    j.Ended content {session := j.session,consumer := s}
      {v with board := v.board.stored memory,position := position} ∧
    (Copied j.prefixBytes content j.inputStart j.inputLength (j.totalInput-left) length j.input
      memory position → ∀ (eof : Bool) (status : Status),(eof = true ↔ length = left) →
      let u := fedPiece {v with board := v.board.stored memory,position := position}
        (slice (memory j.input.handle) 0 length) eof status
      (status ≠ .ok → j.Ended content {session := 0,failure := status,consumer := s} u) ∧
      (status = .ok → j.Going content false (left-length) total s u)) := by
  have hreads := h.reads
  have hleft := h.left_le
  have hgot : ∀ u : Feeding,u.written = v.written → j.sink.got u s = v.board.fetched := by
    intro u hu
    rw [← h.got]
    cases j.sink <;> first | exact hu | rfl
  have hkept : j.Kept content {v with board := v.board.stored memory,position := position} :=
    h.kept.of_eq rfl rfl rfl h.kept.inside h.kept.owned
  refine ⟨⟨hkept,Or.inl ⟨rfl,h.session⟩,h.size_le,hgot _ rfl ▸ List.prefix_refl _,(by simp),?_⟩,?_⟩
  · show v.board.reads ≤ _
    omega
  intro hcopied eof status heof
  have hpiece : slice (memory j.input.handle) 0 length =
      slice (j.whole content) (j.totalInput-left) length := by
    have hlen : (slice (j.whole content) (j.totalInput-left) length).length = length := hcopied.full
    have hstored : slice (j.whole content) (j.totalInput-left) length <+: memory j.input.handle :=
      hcopied.stored
    obtain ⟨rest,hrest⟩ := hstored
    rw [← hrest,slice,List.drop_zero,List.take_left' hlen]
  have hlength : (slice (memory j.input.handle) 0 length).length = length := by
    rw [hpiece]
    exact hcopied.full
  have hpos := hcopied.nonempty
  have hupto := h.upto
  have horder : FedInOrder (j.whole content) j.totalInput 0
      (v.board.pieces++[(slice (memory j.input.handle) 0 length,eof)]) := by
    refine h.kept.order.append (List.ne_nil_of_length_pos (by omega)) ?_ ?_
    · rw [hupto,Nat.zero_add,hpiece]
      exact List.take_prefix _ _
    · rw [heof,hupto,hlength]
      omega
  extract_lets u
  have hkept' : j.Kept content u :=
    ⟨horder,⟨h.kept.lent.inputValid,h.kept.lent.decodedValid,h.kept.lent.live,
      h.kept.lent.pairCapacity⟩,h.kept.inside,h.kept.owned⟩
  constructor
  · intro hs
    refine ⟨hkept',Or.inr ⟨rfl,Or.inr hs⟩,h.size_le,hgot u rfl ▸ List.prefix_refl _,(by simp),?_⟩
    show v.board.reads ≤ _
    omega
  · intro hs
    refine ⟨hkept',h.session,by omega,?_,?_,?_,hgot u rfl,h.size,h.limit,?_⟩
    · simp only [u,fedPiece,FeedBoard.stored,List.map_append,List.sum_append,List.map_singleton,
        List.sum_singleton,hupto,hlength]
      omega
    · have hposition : u.position = _ := hcopied.position
      rw [hposition]
      omega
    · have ho := h.opened
      cases hk : j.sink <;> rw [hk] at ho <;> exact ho
    · show v.board.reads+_+_+_ ≤ _
      simp only [if_true,Bool.false_eq_true,if_false] at hreads ⊢
      omega

theorem streamFeedPart_wp {needInput : Bool} (s₀ : σ) (hsep : j.sink.Separate inputPath)
    (h : j.Going content needInput left total s v) :
    (tameFeeding inputPath content j.sink.wanted j.outputLimit).wp
      (streamFeedPart j.session j.input
        (copyFeedFileInputChunk inputPath j.prefixBytes j.inputLength) j.totalInput needInput left s)
      (AfterFeed (w := tameFeeding inputPath content j.sink.wanted j.outputLimit) (j.Ended content)
        (j.Going content) j.session j.decoded j.outputLimit
        (deliverChunk j.decoded j.file (j.sink.output s₀).onChunk) total s) v := by
  unfold streamFeedPart
  split
  · next hneed =>
    subst hneed
    exact streamReadPart_wp s₀ hsep h
  · next hneed =>
    obtain rfl : needInput = true := by simpa using hneed
    split
    · exact h.stop
    · next hleft =>
      extract_lets feedLen feedFlags
      have hle : feedLen ≤ left := by
        simp only [feedLen]
        split <;> omega
      have hleftLe := h.left_le
      have hroom : j.totalInput-left+feedLen ≤ j.prefixBytes.length+j.inputLength := by
        have hwhole : j.totalInput = j.prefixBytes.length+j.inputLength := rfl
        omega
      refine (World.wp_bind _).mpr
        (World.wp_mono _ (copyFeedFileInputChunk_wp j.input hroom h.position) ?_)
      rintro copied _ ⟨memory,position,rfl,hcopied⟩
      obtain ⟨hstop,hgo⟩ := h.copied hle memory position
      split
      · exact hstop
      · next desc hdesc =>
        cases copied with
        | false => cases hdesc
        | true =>
          rw [if_pos rfl] at hdesc
          obtain rfl := buildStreamFeedDesc_eq hdesc
          have heof : decide (feedFlags = decompressStreamFeedEof) = true ↔ feedLen = left := by
            simp only [feedFlags,decide_eq_true_eq]
            split
            · next heq => simp [heq]
            · next hne => simp [hne,decompressStreamFeedEof]
          rintro ⟨status,result⟩ -
          obtain ⟨hfail,hfed⟩ := hgo (hcopied rfl) _ status heof
          simp only [Ask.bind]
          by_cases hs : status = .ok
          · rw [if_neg (not_not.mpr hs)]
            exact streamReadPart_wp s₀ hsep (hfed hs)
          · rw [if_pos hs]
            refine (World.wp_bind _).mpr (World.wp_mono _ printSharedDiag_wp ?_)
            rintro _ _ rfl
            exact hfail hs

/-- The feed loop, from its start to its end -/
theorem feed_wp (s₀ : σ) (hsep : j.sink.Separate inputPath)
    (h : j.Going content true j.totalInput 0 s v) :
    (tameFeeding inputPath content j.sink.wanted j.outputLimit).wp
      (feedLoop j.session j.input j.decoded j.totalInput j.outputLimit
        (copyFeedFileInputChunk inputPath j.prefixBytes j.inputLength)
        (deliverChunk j.decoded j.file (j.sink.output s₀).onChunk) true j.totalInput 0 s)
      (j.Ended content) v :=
  feedLoop_wp (w := tameFeeding inputPath content j.sink.wanted j.outputLimit) (I := j.Going content)
    (fun _ _ _ _ _ hgoing => streamFeedPart_wp s₀ hsep hgoing) rfl h

end FeedJob

/-- The handle of a buffer that the end of a decoding frees -/
def lentHandle (buffer : SharedBuffer) : Multiset UInt32 :=
  if buffer.handle ≠ 0 ∧ buffer.handle ≠ invalidHandle then {buffer.handle} else 0

/-- What there is to be said where a decoding comes to its end -/
structure Closing (whole : Bytes) (totalInput outputLimit : Nat) (sink : FeedSink σ)
    (e : StreamEnd (σ × Bytes)) (decoded input : SharedBuffer) (v : Feeding) : Prop where
  order : FedInOrder whole totalInput 0 v.board.pieces
  inside : v.board.inside
  owned : v.board.owned
  live : v.board.live = lentHandle decoded+lentHandle input
  session : v.board.session = none ∨ v.board.failed ∨
    (e.session ≠ 0 ∧ v.board.session = some e.session)
  limit : v.board.fetched.length ≤ outputLimit
  received : sink.got v e.consumer <+: v.board.fetched
  complete : ∀ result,e.result = some result → sink.got v e.consumer = v.board.fetched ∧
    result.bytesWritten ≤ outputLimit ∧
    (sink.wanted = true → v.board.fetched.length = result.bytesWritten)
  reads : v.board.reads ≤ totalInput+outputLimit

/-- Freeing one of the buffers at the end -/
theorem releaseShared_wp {buffer : SharedBuffer} {rest : Multiset UInt32}
    (hlive : v.board.live = lentHandle buffer+rest) (howned : v.board.owned) :
    (tameFeeding inputPath content wanted outputLimit).wp (releaseShared buffer.handle)
      (fun _ u => ∃ owned : Prop,u = {v with board := {v.board with live := rest,owned := owned}} ∧
        owned) v := by
  unfold releaseShared
  split
  · next hvalid =>
    rw [Job.freeShared,if_neg hvalid.2]
    rw [lentHandle,if_pos hvalid,Multiset.singleton_add] at hlive
    intro x _
    refine ⟨v.board.owned ∧ buffer.handle ∈ v.board.live,?_,howned,?_⟩
    · have hrest : v.board.live.erase buffer.handle = rest := by
        rw [hlive,Multiset.erase_cons_head]
      simp only [Feeding.next,FeedBoard.next,hrest]
    · rw [hlive]
      exact Multiset.mem_cons_self ..
  · next hvalid =>
    rw [lentHandle,if_neg hvalid,zero_add] at hlive
    exact ⟨v.board.owned,by rw [← hlive],howned⟩

theorem closeOpened_wp (opened : Option OpenedOutput) (w : Feeding) :
    (tameFeeding inputPath content wanted outputLimit).wp (match opened with
      | none => pure true
      | some output => Job.tool (Tool.close output.file)) (fun _ u => u = w) w := by
  cases opened with
  | none => rfl
  | some output => exact fun closed _ => rfl

theorem endStream_wp {whole : Bytes} {totalInput : Nat} {e : StreamEnd (σ × Bytes)}
    {opened : Option OpenedOutput} {decoded input : SharedBuffer}
    (h : Closing whole totalInput outputLimit sink e decoded input v) :
    (tameFeeding inputPath content wanted outputLimit).wp (endStream e opened decoded input)
      (FeedExact whole totalInput outputLimit sink) v := by
  unfold endStream
  -- the session is closed where it is still there
  have hclose : (tameFeeding inputPath content wanted outputLimit).wp
      (if e.session ≠ 0 then Job.codec (.streamClose e.session 0) else pure (.ok,{}))
      (fun _ u => ∃ session,u = {v with board := {v.board with session := session}} ∧
        (session = none ∨ v.board.failed)) v := by
    split
    · next hs =>
      intro x _
      refine ⟨if v.board.session = some e.session then none else v.board.session,rfl,?_⟩
      rcases h.session with hnone | hfailed | ⟨-,hopen⟩
      · exact Or.inl (by simp [hnone])
      · exact Or.inr hfailed
      · exact Or.inl (if_pos hopen)
    · next hs =>
      refine ⟨v.board.session,rfl,?_⟩
      rcases h.session with hnone | hfailed | ⟨hne,-⟩
      · exact Or.inl hnone
      · exact Or.inr hfailed
      · exact absurd hne hs
  refine (World.wp_bind _).mpr (World.wp_mono _ hclose ?_)
  rintro _ _ ⟨session,rfl,hsession⟩
  generalize hw : ({v with board := {v.board with session := session}} : Feeding) = w
  refine (World.wp_bind _).mpr (World.wp_mono _ (closeOpened_wp opened w) ?_)
  rintro closed _ rfl
  subst hw
  refine (World.wp_bind _).mpr ((World.wp_bind _).mpr
    (World.wp_mono _ (releaseShared_wp h.live h.owned) ?_))
  rintro _ _ ⟨owned,rfl,howned⟩
  refine World.wp_mono _ (releaseShared_wp (add_zero _).symm howned) ?_
  rintro _ _ ⟨owned',rfl,howned'⟩
  have hgot : ∀ u : Feeding,u.written = v.written →
      sink.got u e.consumer = sink.got v e.consumer := by
    intro u hu
    cases sink <;> first | exact hu | rfl
  refine ⟨h.order,h.inside,h.limit,?_,?_,rfl,howned',hsession,h.reads⟩
  · exact (hgot _ rfl).symm ▸ h.received
  · intro hok
    rw [Bool.and_eq_true] at hok
    obtain ⟨result,hresult⟩ := Option.isSome_iff_exists.mp hok.1
    obtain ⟨hall,hlimit,hlength⟩ := h.complete result hresult
    exact ⟨(hgot _ rfl).trans hall,by simpa [hresult] using hlimit,
      fun hwanted => by simpa [hresult] using hlength hwanted⟩

end

end ZZ9K.Archive
