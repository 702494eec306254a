import Mathlib.Algebra.BigOperators.Group.Finset.Basic
import ZZ9K.Picture.FeedStaging
import ZZ9K.Picture.TileBounds

namespace ZZ9K.Picture

open Framework Host

/-- Each feed shows the board the bytes after those that were taken before, and all that are left where
it says so. -/
def FedInTurn (source : List UInt8) : Nat → List Fed → Prop
  | _,[] => True
  | taken,f::fs =>
    f.data <+: source.drop taken ∧ (f.eof = true → f.data = source.drop taken) ∧
      f.taken ≤ f.data.length ∧ FedInTurn source (taken+f.taken) fs

/-- How many bytes were taken -/
def takenBy (fed : List Fed) : Nat := (fed.map Fed.taken).sum

theorem FedInTurn.append {source : List UInt8} {fed : List Fed} {f : Fed} {taken : Nat}
    (h : FedInTurn source taken fed)
    (hstarts : f.data <+: source.drop (taken+takenBy fed))
    (heof : f.eof = true → f.data = source.drop (taken+takenBy fed))
    (htaken : f.taken ≤ f.data.length) : FedInTurn source taken (fed++[f]) := by
  induction fed generalizing taken with
  | nil =>
    rw [takenBy,List.map_nil,List.sum_nil,Nat.add_zero] at hstarts heof
    exact ⟨hstarts,heof,htaken,trivial⟩
  | cons g fed ih =>
    obtain ⟨hg,hgeof,hgtaken,hrest⟩ := h
    have hsum : taken+takenBy (g::fed) = taken+g.taken+takenBy fed := by
      rw [takenBy,List.map_cons,List.sum_cons,takenBy,Nat.add_assoc]
    rw [hsum] at hstarts heof
    exact ⟨hg,hgeof,hgtaken,ih hrest hstarts heof⟩

/-- What holds of a stream at every point of its run -/
structure Streaming (source : List UInt8) (target : Target) (st : FeedState) : Prop where
  fed : FedInTurn source 0 st.fed
  taken_le : takenBy st.fed ≤ source.length
  tiles : ∀ r ∈ st.tiles, TileInside r target
  target : SameTarget target st.target

/-- What holds of it between the rounds: the bytes that wait and those that are left are what follows the
bytes that were taken. -/
structure Feeding (env : FeedEnv) (source : List UInt8) (target : Target) (st : FeedState) : Prop
    extends Streaming source target st where
  waiting : staged st.memory env.staging st.buffered++st.unread = source.drop (takenBy st.fed)
  buffered_le : st.buffered ≤ env.staging.length.toNat
  eof : st.eof = true → st.unread = []

section

variable {env : FeedEnv} {source : List UInt8} {target : Target} {st : FeedState}
  {layout : TileLayout}

/-- The bytes that wait and those that are left -/
def FeedState.remaining (st : FeedState) : Nat := st.buffered+st.unread.length

theorem takenBy_append (fed : List Fed) (f : Fed) : takenBy (fed++[f]) = takenBy fed+f.taken := by
  rw [takenBy,takenBy,List.map_append,List.sum_append,List.map_singleton,List.sum_singleton]

/-- What a round has left, where it goes on: it has taken bytes, or it has written some, or the buffer has
room and the source has more. -/
structure RoundDone (env : FeedEnv) (source : List UInt8) (target : Target) (st : FeedState)
    (next : Next) (st' : FeedState) : Prop where
  feeding : Feeding env source target st'
  turn_eq : st'.turn = st.turn+1
  progress : (st'.finalState = .complete ∧ next = .leave) ∨ st'.remaining < st.remaining ∨
    (env.turns st.turn).result.bytesWritten ≠ 0 ∨
    (st'.remaining = st.remaining ∧ st'.eof = st.eof ∧ st'.buffered = st.buffered ∧
      st.eof = false ∧ st.buffered < env.staging.length.toNat ∧ next = .leave)

/-- After a feed was shown its bytes -/
theorem Streaming.shown (h : Feeding env source target st) {taken : Nat}
    (htaken : taken ≤ st.buffered) {fed : List Fed}
    (hfed : fed = st.fed++[⟨staged st.memory env.staging st.buffered,st.eof,taken⟩]) :
    FedInTurn source 0 fed ∧ takenBy fed = takenBy st.fed+taken ∧ takenBy fed ≤ source.length := by
  have hwaiting := h.waiting
  have hlength : st.buffered+st.unread.length = source.length-takenBy st.fed := by
    rw [← List.length_drop,← hwaiting,List.length_append,staged_length]
  have hle := h.taken_le
  subst hfed
  rw [takenBy_append]
  refine ⟨h.fed.append ?_ ?_ ?_,rfl,show takenBy st.fed+taken ≤ source.length by omega⟩
  · rw [Nat.zero_add,← hwaiting]
    exact List.prefix_append _ _
  · intro heof
    rw [Nat.zero_add,← hwaiting,h.eof heof,List.append_nil]
  · rw [staged_length]
    exact htaken

/-- The end of a round, after its bytes were taken and its tile -/
theorem roundEnd_done {st' : FeedState} (h : Feeding env source target st')
    (hturn : st'.turn = st.turn+1) {r : SessionResult} (hr : r = (env.turns st.turn).result)
    (hbuffered : st'.buffered+r.bytesConsumed.toNat = st.buffered)
    (hunread : st'.unread = st.unread) (heof : st'.eof = st.eof) (hstate : r.state ≠ .complete) :
    ∃ next, roundEnd env r st' = (next,st') ∧ (next = .failed ∨ RoundDone env source target st next st') := by
  have hremaining : st'.remaining+r.bytesConsumed.toNat = st.remaining := by
    rw [FeedState.remaining,FeedState.remaining,hunread]
    omega
  rw [roundEnd]
  by_cases hfatal : noProgressIsFatal r st'.buffered env.staging.length.toNat st'.eof = true
  · rw [if_pos hfatal]
    exact ⟨.failed,rfl,.inl rfl⟩
  rw [if_neg hfatal]
  by_cases hprogress : madeProgress r = true
  · have hmoved : st'.remaining < st.remaining ∨ (env.turns st.turn).result.bytesWritten ≠ 0 := by
      rw [madeProgress,decide_eq_true_eq] at hprogress
      rcases hprogress with hconsumed | hwritten | hcomplete
      · left
        have hpos : 0 < r.bytesConsumed.toNat :=
          Nat.pos_of_ne_zero fun hzero => hconsumed (UInt32.toNat_inj.mp hzero)
        omega
      · exact .inr (hr ▸ hwritten)
      · exact absurd hcomplete hstate
    split_ifs
    · exact ⟨.leave,rfl,.inr ⟨h,hturn,.inr (hmoved.imp_right .inl)⟩⟩
    · exact ⟨.again,rfl,.inr ⟨h,hturn,.inr (hmoved.imp_right .inl)⟩⟩
  · rw [Bool.not_eq_true] at hprogress
    simp only [noProgressIsFatal,hprogress,Bool.not_false,Bool.true_and,Bool.or_eq_true,
      decide_eq_true_eq,not_or,Bool.not_eq_true,Nat.not_le] at hfatal
    have hconsumed : r.bytesConsumed.toNat = 0 := by
      rw [madeProgress,decide_eq_false_iff_not,not_or,not_not] at hprogress
      rw [hprogress.1]
      rfl
    rw [if_pos (.inr ⟨by rw [hprogress]; rfl,by rw [hfatal.1]; rfl⟩)]
    refine ⟨.leave,rfl,.inr ⟨h,hturn,.inr (.inr (.inr ⟨?_,heof,?_,?_,?_,rfl⟩))⟩⟩
    · omega
    · omega
    · rw [← heof]
      exact hfatal.1
    · omega

/-- What a caller of the loops sees to: the target was prepared for the layout of the tile buffer, and
where tiles go straight to the pixels of the object, those that pass the checks there lie inside. -/
structure Ready (env : FeedEnv) (layout : TileLayout) (target : Target) : Prop where
  prepared : Prepared layout target
  stride_eq : env.tileStride = layout.pitch
  tile_length : ∀ n, (env.turns n).tile.length = layout.rows.toNat*layout.pitch.toNat
  direct : ∀ n, (env.turns n).result.state = .tileReady →
    DirectInside layout target (env.turns n).result

theorem TileInside.of_same {r : SessionResult} {target' : Target} (h : TileInside r target')
    (hsame : SameTarget target target') : TileInside r target := by
  obtain ⟨hw,hh,hright,hbottom,hrows⟩ := h
  rw [hsame.eq] at hright hbottom hrows
  exact ⟨hw,hh,hright,hbottom,hrows⟩

theorem DirectInside.of_same {r : SessionResult} {target' : Target}
    (h : DirectInside layout target r) (hsame : SameTarget target target') :
    DirectInside layout target' r := by
  intro pixels' hlegacy hlut8 hdirect hformat hrgb htaken
  rw [hsame.eq] at hlegacy hlut8 hformat
  rcases hsame.direct_eq with ⟨-,hnone⟩ | ⟨p,p',hp,hp',hshape,-⟩
  · rw [hnone] at hdirect
    cases hdirect
  · obtain rfl := Option.some.inj (hp'.symm.trans hdirect)
    rw [hshape] at hrgb htaken
    rw [hsame.eq]
    exact h p hlegacy hlut8 hp hformat hrgb htaken

/-- A round shows the board the bytes that wait, goes outside of no area, and gets on or leaves the loop to
read more. -/
theorem feedTurn_spec (hready : Ready env layout target) (h : Feeding env source target st) :
    ∃ next st', feedTurn env st = .ok (next,st') ∧ Streaming source target st' ∧
      (next = .failed ∨ RoundDone env source target st next st') := by
  rw [feedTurn]
  by_cases hdesc : env.session = 0 ∨ env.staging.handle = invalidHandle ∨
      (st.buffered = 0 ∧ (!st.eof) = true)
  · rw [if_pos hdesc]
    exact ⟨.failed,st,rfl,h.toStreaming,.inl rfl⟩
  rw [if_neg hdesc]
  dsimp only
  by_cases hbad : (env.turns st.turn).status ≠ 0 ∨
      st.buffered < (env.turns st.turn).result.bytesConsumed.toNat
  · rw [if_pos hbad]
    obtain ⟨hfed,-,hle⟩ := Streaming.shown h (Nat.zero_le _) rfl
    exact ⟨.failed,_,rfl,⟨hfed,hle,h.tiles,h.target⟩,.inl rfl⟩
  rw [if_neg hbad]
  rw [not_or,Nat.not_lt] at hbad
  generalize hresult : (env.turns st.turn).result = r at hbad ⊢
  obtain ⟨hfed,htaken,hle⟩ := Streaming.shown h hbad.2 rfl
  -- The bytes behind those that were consumed have moved to the front, if there are any.
  generalize hmove : (if r.bytesConsumed ≠ 0 ∧ st.buffered-r.bytesConsumed.toNat ≠ 0 then
    Media.sharedMove env.staging 0 r.bytesConsumed (st.buffered-r.bytesConsumed.toNat).toUInt32
      st.memory else (true,st.memory)) = moved
  obtain ⟨ok,memory⟩ := moved
  have hstaged : ok = true → staged memory env.staging (st.buffered-r.bytesConsumed.toNat) =
      (staged st.memory env.staging st.buffered).drop r.bytesConsumed.toNat := by
    intro hok
    have hsum : r.bytesConsumed.toNat+(st.buffered-r.bytesConsumed.toNat) = st.buffered := by omega
    split_ifs at hmove with hmust
    · have hmoved := staged_move (by rw [hsum]; exact h.buffered_le) hmove hok
      rwa [hsum] at hmoved
    · obtain ⟨-,rfl⟩ := Prod.mk.inj hmove
      rw [not_and_or,not_not,not_not] at hmust
      rcases hmust with hzero | hzero
      · have hnat : r.bytesConsumed.toNat = 0 := by rw [hzero]; rfl
        rw [hnat,Nat.sub_zero,List.drop_zero]
      · rw [hzero,List.drop_eq_nil_of_le (by rw [staged_length]; omega)]
        rfl
  cases ok with
  | false => exact ⟨.failed,_,rfl,⟨hfed,hle,h.tiles,h.target⟩,.inl rfl⟩
  | true =>
  simp only [Bool.not_true,Bool.false_eq_true,if_false]
  -- The state after the bytes were taken, whatever becomes of the tile
  have hfeeding : ∀ target' tiles, SameTarget target target' → (∀ r' ∈ tiles, TileInside r' target) →
      Feeding env source target {st with
        turn := st.turn+1,
        fed := st.fed++[⟨staged st.memory env.staging st.buffered,st.eof,r.bytesConsumed.toNat⟩],
        buffered := st.buffered-r.bytesConsumed.toNat,memory := memory,target := target',
        tiles := tiles} := by
    intro target' tiles htarget htiles
    refine ⟨⟨hfed,hle,htiles,htarget⟩,?_,Nat.le_trans (Nat.sub_le _ _) h.buffered_le,h.eof⟩
    dsimp only
    rw [htaken,← List.drop_drop,← h.waiting,hstaged rfl,
      List.drop_append_of_le_length (by rw [staged_length]; exact hbad.2)]
  have hsum : st.buffered-r.bytesConsumed.toNat+r.bytesConsumed.toNat = st.buffered :=
    Nat.sub_add_cancel hbad.2
  have hsame := hfeeding st.target st.tiles h.target h.tiles
  cases hstate : r.state with
  | needInput =>
    obtain ⟨next,hend,hdone⟩ := roundEnd_done hsame rfl hresult.symm hsum rfl rfl
      (by rw [hstate]; exact nofun)
    dsimp only
    rw [hend]
    exact ⟨next,_,rfl,hsame.toStreaming,hdone⟩
  | headerReady =>
    obtain ⟨next,hend,hdone⟩ := roundEnd_done hsame rfl hresult.symm hsum rfl rfl
      (by rw [hstate]; exact nofun)
    dsimp only
    rw [hend]
    exact ⟨next,_,rfl,hsame.toStreaming,hdone⟩
  | complete =>
    exact ⟨.leave,_,rfl,⟨hfed,hle,h.tiles,h.target⟩,
      .inr ⟨⟨⟨hfed,hle,h.tiles,h.target⟩,hsame.waiting,hsame.buffered_le,h.eof⟩,rfl,.inl ⟨rfl,rfl⟩⟩⟩
  | other state => exact ⟨.failed,_,rfl,hsame.toStreaming,.inl rfl⟩
  | tileReady =>
    have hdirect := (hready.direct st.turn (by rw [hresult,hstate])).of_same h.target
    obtain ⟨ok,target',heq,hafter,hinside⟩ := copyTileToDatatype_done
      (hready.prepared.of_same h.target) (hready.tile_length st.turn) hdirect
    rw [← hready.stride_eq] at heq
    have htarget := h.target.trans hafter
    dsimp only
    rw [heq]
    cases ok with
    | false => exact ⟨.failed,_,rfl,⟨hfed,hle,h.tiles,htarget⟩,.inl rfl⟩
    | true =>
    simp only [bind,Except.bind,pure,Except.pure,Bool.not_true,Bool.false_eq_true,if_false]
    have htiles : ∀ r' ∈ st.tiles++[r], TileInside r' target := by
      intro r' hr'
      rcases List.mem_append.mp hr' with hr' | hr'
      · exact h.tiles r' hr'
      · obtain rfl := List.mem_singleton.mp hr'
        exact hresult ▸ (hinside rfl).of_same h.target
    have htaken := hfeeding target' (st.tiles++[r]) htarget htiles
    by_cases hlast : env.codec = .png ∧ st.eof = true ∧ st.buffered-r.bytesConsumed.toNat = 0 ∧
        r.flags &&& 2 = 0
    · rw [if_pos hlast]
      exact ⟨.leave,_,rfl,⟨hfed,hle,htiles,htarget⟩,
        .inr ⟨⟨⟨hfed,hle,htiles,htarget⟩,htaken.waiting,htaken.buffered_le,h.eof⟩,rfl,.inl ⟨rfl,rfl⟩⟩⟩
    · obtain ⟨next,hend,hdone⟩ := roundEnd_done htaken rfl hresult.symm hsum rfl rfl
        (by rw [hstate]; exact nofun)
      rw [if_neg hlast,hend]
      exact ⟨next,_,rfl,htaken.toStreaming,hdone⟩

/-- How many bytes the replies before a turn say are written -/
def writtenBefore (env : FeedEnv) (turn : Nat) : Nat :=
  ∑ n ∈ Finset.range turn, (env.turns n).result.bytesWritten.toNat

theorem writtenBefore_succ (env : FeedEnv) (turn : Nat) : writtenBefore env (turn+1) =
    writtenBefore env turn+(env.turns turn).result.bytesWritten.toNat :=
  Finset.sum_range_succ _ turn

/-- With fuel enough the loops come to an end. -/
def FeedEnds (env : FeedEnv) (source : List UInt8) (target : Target) (phase : Phase) (st : FeedState) :
    Prop :=
  ∃ ok st' bound, Streaming source target st' ∧
    ∀ fuel, bound ≤ fuel → feedLoops env fuel phase st = .ok (ok,st')

theorem Streaming.ends_now {phase : Phase} {st' : FeedState} (h : Streaming source target st')
    (ok : Bool) (heq : ∀ fuel, feedLoops env (fuel+1) phase st = .ok (ok,st')) :
    FeedEnds env source target phase st := by
  refine ⟨ok,st',1,h,fun fuel hfuel => ?_⟩
  obtain ⟨n,rfl⟩ := Nat.exists_eq_add_of_le' hfuel
  exact heq n

theorem FeedEnds.next {phase phase' : Phase} {st' : FeedState}
    (heq : ∀ fuel, feedLoops env (fuel+1) phase st = feedLoops env fuel phase' st')
    (h : FeedEnds env source target phase' st') : FeedEnds env source target phase st := by
  obtain ⟨ok,st'',bound,hstreaming,hends⟩ := h
  refine ⟨ok,st'',bound+1,hstreaming,fun fuel hfuel => ?_⟩
  obtain ⟨n,rfl⟩ := Nat.exists_eq_add_of_le' (Nat.le_trans (Nat.le_add_left 1 bound) hfuel)
  rw [heq]
  exact hends n (by omega)

/-- What the outer loop does: it ends, or the buffer is full or has all that was left. -/
theorem outer_step (h : Feeding env source target st) : FeedEnds env source target .outer st ∨
    ∃ st', Feeding env source target st' ∧ st'.turn = st.turn ∧ st'.remaining = st.remaining ∧
      (st'.eof = true ∨ st'.buffered = env.staging.length.toNat) ∧
      ∀ fuel, feedLoops env (fuel+1) .outer st = feedLoops env fuel .inner st' := by
  by_cases hcomplete : st.finalState = .complete
  · exact .inl (h.toStreaming.ends_now true fun fuel => by rw [feedLoops,if_pos hcomplete])
  obtain ⟨ok,st',heq,hsame,hdone⟩ := fillStaging_spec h.eof h.waiting
  have hstreaming : Streaming source target st' := by
    rw [hsame]
    exact ⟨h.fed,h.taken_le,h.tiles,h.target⟩
  have hloops : ∀ fuel, feedLoops env (fuel+1) .outer st =
      if !ok then .ok (false,st') else if st'.buffered = 0 ∧ st'.eof then
        let st' := {st' with emptyEofFeeds := st'.emptyEofFeeds+1}
        if env.drainLimit < st'.emptyEofFeeds then .ok (false,st') else feedLoops env fuel .inner st'
      else feedLoops env fuel .inner st' := by
    intro fuel
    rw [feedLoops,if_neg hcomplete,heq]
    rfl
  cases ok with
  | false => exact .inl (hstreaming.ends_now false hloops)
  | true =>
  obtain ⟨hle,hfilled,heof,hwaiting⟩ := hdone rfl
  have hfed : st'.fed = st.fed := by rw [hsame]
  have hturn : st'.turn = st.turn := by rw [hsame]
  have hfeeding : Feeding env source target st' := ⟨hstreaming,hfed ▸ hwaiting,hle,heof⟩
  have hremaining : st'.remaining = st.remaining := by
    have hlen := congrArg List.length (hwaiting.trans h.waiting.symm)
    simpa [FeedState.remaining] using hlen
  by_cases hempty : st'.buffered = 0 ∧ st'.eof = true
  · by_cases hlimit : env.drainLimit < st'.emptyEofFeeds+1
    · have hstreaming' : Streaming source target {st' with emptyEofFeeds := st'.emptyEofFeeds+1} :=
        ⟨hstreaming.fed,hstreaming.taken_le,hstreaming.tiles,hstreaming.target⟩
      refine .inl (hstreaming'.ends_now false fun fuel => ?_)
      rw [hloops]
      exact (if_pos hempty).trans (if_pos hlimit)
    · refine .inr ⟨{st' with emptyEofFeeds := st'.emptyEofFeeds+1},
        ⟨⟨hstreaming.fed,hstreaming.taken_le,hstreaming.tiles,hstreaming.target⟩,
          hfeeding.waiting,hle,heof⟩,hturn,hremaining,hfilled,fun fuel => ?_⟩
      rw [hloops]
      exact (if_pos hempty).trans (if_neg hlimit)
  · refine .inr ⟨st',hfeeding,hturn,hremaining,hfilled,fun fuel => ?_⟩
    rw [hloops]
    exact if_neg hempty

/-- What has to be done before the replies write something again: the bytes that are left, each with the
turn that takes it and the way to it -/
def patience (env : FeedEnv) : Phase → FeedState → Nat
  | .outer,st => 3*st.remaining+1
  | .inner,st =>
    if st.eof = true ∨ st.buffered = env.staging.length.toNat then 3*st.remaining
    else 3*st.remaining+2

/-- One step of the loops: they end, or patience gets less, or the reply has written bytes. -/
theorem feedLoops_step (hready : Ready env layout target) (h : Feeding env source target st)
    (phase : Phase) : FeedEnds env source target phase st ∨
    ∃ phase' st', Feeding env source target st' ∧
      (∀ fuel, feedLoops env (fuel+1) phase st = feedLoops env fuel phase' st') ∧
      writtenBefore env st.turn ≤ writtenBefore env st'.turn ∧
      (patience env phase' st' < patience env phase st ∨
        writtenBefore env st.turn < writtenBefore env st'.turn) := by
  cases phase with
  | outer =>
    rcases outer_step h with hends | ⟨st',hfeeding,hturn,hremaining,hfilled,hloops⟩
    · exact .inl hends
    refine .inr ⟨.inner,st',hfeeding,hloops,by rw [hturn],.inl ?_⟩
    rw [patience,patience,if_pos hfilled,hremaining]
    exact Nat.lt_succ_self _
  | inner =>
    obtain ⟨next,st',heq,hstreaming,hdone⟩ := feedTurn_spec hready h
    rcases hdone with hfailed | hdone
    · refine .inl (hstreaming.ends_now false fun fuel => ?_)
      rw [feedLoops,heq,hfailed]
      rfl
    have hwritten : writtenBefore env st'.turn =
        writtenBefore env st.turn+(env.turns st.turn).result.bytesWritten.toNat := by
      rw [hdone.turn_eq,writtenBefore_succ]
    have hmore : (env.turns st.turn).result.bytesWritten ≠ 0 →
        writtenBefore env st.turn < writtenBefore env st'.turn := by
      intro hne
      have hpos : 0 < (env.turns st.turn).result.bytesWritten.toNat :=
        Nat.pos_of_ne_zero fun hzero => hne (UInt32.toNat_inj.mp hzero)
      omega
    cases next with
    | failed =>
      refine .inl (hstreaming.ends_now false fun fuel => ?_)
      rw [feedLoops,heq]
      rfl
    | again =>
      refine .inr ⟨.inner,st',hdone.feeding,fun fuel => by rw [feedLoops,heq]; rfl,by omega,?_⟩
      rcases hdone.progress with ⟨-,hleave⟩ | hless | hne | ⟨-,-,-,-,-,hleave⟩
      · cases hleave
      · left
        simp only [patience]
        split_ifs <;> omega
      · exact .inr (hmore hne)
      · cases hleave
    | leave =>
      have hloops : ∀ fuel, feedLoops env (fuel+1) .inner st = feedLoops env fuel .outer st' :=
        fun fuel => by rw [feedLoops,heq]; rfl
      rcases hdone.progress with ⟨hcomplete,-⟩ | hless | hne | ⟨hsame,-,-,heof,hroom,-⟩
      · refine .inl (FeedEnds.next hloops (hstreaming.ends_now true fun fuel => ?_))
        rw [feedLoops,if_pos hcomplete]
      · refine .inr ⟨.outer,st',hdone.feeding,hloops,by omega,.inl ?_⟩
        simp only [patience]
        split_ifs <;> omega
      · exact .inr ⟨.outer,st',hdone.feeding,hloops,by omega,.inr (hmore hne)⟩
      · refine .inr ⟨.outer,st',hdone.feeding,hloops,by omega,.inl ?_⟩
        have hnot : ¬ (st.eof = true ∨ st.buffered = env.staging.length.toNat) := by
          rw [heof]
          exact fun h => h.elim Bool.false_ne_true (Nat.ne_of_lt hroom)
        rw [patience,patience,if_neg hnot,hsame]
        exact Nat.lt_succ_self _

/-- The loops come to an end where the replies write only so many bytes: by induction on the bytes that
may still be written, and then on patience. -/
theorem feedLoops_ends (hready : Ready env layout target) {total : Nat}
    (hwritten : ∀ turn, writtenBefore env turn ≤ total) (left : Nat) (phase : Phase)
    (h : Feeding env source target st) (hleft : total ≤ writtenBefore env st.turn+left) :
    FeedEnds env source target phase st := by
  induction left using Nat.strong_induction_on generalizing phase st with
  | _ left ihLeft =>
  induction hpatience : patience env phase st using Nat.strong_induction_on
    generalizing phase st with
  | _ p ihPatience =>
  rcases feedLoops_step hready h phase with hends | ⟨phase',st',hfeeding,hloops,hle,hless⟩
  · exact hends
  apply FeedEnds.next hloops
  rcases hless with hless | hmore
  · exact ihPatience _ (hpatience ▸ hless) phase' hfeeding (by omega) rfl
  · have hbound := hwritten st'.turn
    exact ihLeft (total-writtenBefore env st'.turn) (by omega) phase' hfeeding (by omega)

end

end ZZ9K.Picture
