import ZZ9K.Surface.PngFeed

namespace ZZ9K.Surface

open ZZ9K.Abi ZZ9K.Host ZZ9K.Framework
open ZZ9K.Archive (sharedRangeFits)

/-- A feed as it reaches the firmware: its descriptor, the bytes it presents and how many of them
the firmware reports as consumed -/
structure PngFed where
  desc : SessionFeedDesc
  data : List UInt8
  taken : Nat

/-- The file, the staging buffer and the firmware: where the file is read next, the staged bytes,
how much the firmware may still write, and the feeds it got -/
structure PngBoard where
  position : Nat
  memory : Nat → UInt8
  budget : Nat
  feeds : List PngFed

namespace PngBoard

/-- Memory with some bytes stored in it -/
def storedAt (memory : Nat → UInt8) (offset : Nat) (data : List UInt8) : Nat → UInt8 := fun x =>
  if offset ≤ x then data.getD (x-offset) (memory x) else memory x

/-- The bytes that a descriptor presents -/
def presented (b : PngBoard) (desc : SessionFeedDesc) : List UInt8 :=
  (List.range desc.srcLength).map fun i => b.memory (desc.srcOffset+i)

/-- The board after a feed that was answered -/
def fed (b : PngBoard) (desc : SessionFeedDesc) : Except Status ImageSessionResult → PngBoard
  | .error _ => {b with feeds := b.feeds++[⟨desc,b.presented desc,0⟩]}
  | .ok result => {b with
      budget := b.budget-result.bytesWritten.toNat
      feeds := b.feeds++[⟨desc,b.presented desc,
        if result.bytesConsumed.toNat ≤ desc.srcLength then result.bytesConsumed.toNat else 0⟩]}

end PngBoard

/-- A file, and a firmware that replies what it likes, as long as the bytes it reports as written
have a finite total -/
abbrev pngWorld (file : List UInt8) : World PngCall PngAnswer where
  State := PngBoard
  allowed b
    | ⟨.read _,got⟩ => got.val <+: file.drop b.position
    | ⟨.feed _,.ok result⟩ => result.bytesWritten.toNat ≤ b.budget
    | _ => True
  next b
    | ⟨.read _,got⟩ => {b with position := b.position+got.val.length}
    | ⟨.store offset data,_⟩ => {b with memory := PngBoard.storedAt b.memory offset data}
    | ⟨.move dst src length,_⟩ => {b with memory := sharedMoved b.memory dst src length}
    | ⟨.feed desc,answer⟩ => b.fed desc answer

/-- A feed that presents the bytes of the file from `consumed` on, flagged where they reach its
end -/
structure PngFed.Presents (file : List UInt8) (length room consumed : Nat) (f : PngFed) : Prop where
  offset : f.desc.srcOffset = 0
  room : f.desc.srcLength ≤ room
  size : f.data.length = f.desc.srcLength
  data : f.data <+: file.drop consumed
  eof : f.desc.eof = true ↔ consumed+f.desc.srcLength = length
  taken : f.taken ≤ f.data.length

/-- Feeds in order, each of the bytes that follow those consumed before it -/
def FedInTurn (file : List UInt8) (length room : Nat) : Nat → List PngFed → Nat → Prop
  | consumed,[],total => consumed = total
  | consumed,f::rest,total =>
    f.Presents file length room consumed ∧
      FedInTurn file length room (consumed+f.taken) rest total

section

variable {file : List UInt8} {length room : Nat}

theorem FedInTurn.append {consumed total : Nat} {feeds : List PngFed} {f : PngFed}
    (h : FedInTurn file length room consumed feeds total)
    (hf : f.Presents file length room total) :
    FedInTurn file length room consumed (feeds++[f]) (total+f.taken) := by
  induction feeds generalizing consumed with
  | nil =>
    obtain rfl : consumed = total := h
    exact ⟨hf,rfl⟩
  | cons g rest ih => exact ⟨h.1,ih h.2⟩

/-- The bytes reported as consumed are those of the file, in its order. -/
theorem FedInTurn.consumed_prefix {consumed total : Nat} {feeds : List PngFed}
    (h : FedInTurn file length room consumed feeds total) :
    (feeds.flatMap fun f => f.data.take f.taken) <+: file.drop consumed := by
  induction feeds generalizing consumed with
  | nil => exact List.nil_prefix
  | cons f rest ih =>
    obtain ⟨hf,hrest⟩ := h
    have htaken := hf.taken
    obtain ⟨after,hafter⟩ := hf.data
    have htail := ih hrest
    rw [List.flatMap_cons,← hafter]
    rw [← List.drop_drop,← hafter,List.drop_append_of_le_length htaken] at htail
    conv_rhs => rw [← List.take_append_drop f.taken f.data]
    rw [List.append_assoc]
    exact (List.prefix_append_right_inj _).mpr htail

end

/-- The staged bytes are those of the file between what is consumed and what is read. -/
structure PngStaged (file : List UInt8) (length capacity consumed : Nat) (s : PngFeedState)
    (b : PngBoard) : Prop where
  position : b.position = s.fileOffset
  offset : s.fileOffset ≤ length
  span : consumed+s.buffered = s.fileOffset
  room : s.buffered ≤ capacity
  bytes : ∀ i, i < s.buffered → file[consumed+i]? = some (b.memory i)

theorem movedForward_of_lt (memory : Nat → UInt8) {dst src : Nat} (h : dst < src) (n x : Nat) :
    movedForward memory dst src n x =
      if dst ≤ x ∧ x < dst+n then memory (src+(x-dst)) else memory x := by
  induction n generalizing x with
  | zero =>
    rw [movedForward,if_neg (by omega)]
  | succ n ih =>
    rw [movedForward]
    by_cases hx : x = dst+n
    · subst hx
      rw [Function.update_self,ih,if_neg (by omega),if_pos (by omega),Nat.add_sub_cancel_left]
    · rw [Function.update_of_ne hx,ih]
      have hsame : (dst ≤ x ∧ x < dst+n) ↔ dst ≤ x ∧ x < dst+(n+1) := by omega
      simp only [hsame]

/-- What a refill of the staging buffer leaves as it is: the firmware's side -/
structure SameFirmware (b b' : PngBoard) : Prop where
  budget : b'.budget = b.budget
  feeds : b'.feeds = b.feeds

theorem SameFirmware.refl (b : PngBoard) : SameFirmware b b := ⟨rfl,rfl⟩

theorem SameFirmware.trans {a b c : PngBoard} (h : SameFirmware a b) (h' : SameFirmware b c) :
    SameFirmware a c :=
  ⟨h'.budget.trans h.budget,h'.feeds.trans h.feeds⟩

/-- A chunk is being read behind `offset` staged bytes: so many bytes of it are there. -/
structure ChunkRead (file : List UInt8) (consumed offset copied : Nat) (b : PngBoard) : Prop where
  position : b.position = consumed+offset+copied
  bytes : ∀ i, i < offset+copied → file[consumed+i]? = some (b.memory i)

section

variable {file : List UInt8} {staging : SharedBuffer} {consumed : Nat}

/-- The next bytes of the file, stored behind the staged ones -/
theorem ChunkRead.next {offset copied : Nat} {b : PngBoard} {got : List UInt8}
    (h : ChunkRead file consumed offset copied b) (hgot : got <+: file.drop b.position) :
    ChunkRead file consumed offset (copied+got.length)
      {b with
        position := b.position+got.length
        memory := PngBoard.storedAt b.memory (offset+copied) got} := by
  refine ⟨?_,fun i hi => ?_⟩
  · dsimp only
    rw [h.position,Nat.add_assoc]
  dsimp only [PngBoard.storedAt]
  by_cases hold : i < offset+copied
  · rw [if_neg (by omega)]
    exact h.bytes i hold
  · rw [if_pos (by omega)]
    have hlt : i-(offset+copied) < got.length := by omega
    obtain ⟨rest,hrest⟩ := hgot
    have hfile : file[b.position+(i-(offset+copied))]? = some got[i-(offset+copied)] := by
      rw [← List.getElem?_drop,← hrest,List.getElem?_append_left hlt,
        List.getElem?_eq_getElem hlt]
    have hplace : b.position+(i-(offset+copied)) = consumed+i := by
      rw [h.position]
      omega
    rw [hplace] at hfile
    rw [hfile,List.getD_eq_getElem _ _ hlt]

theorem pngReadChunkToShared_wp {offset length copied : Nat} {b : PngBoard}
    (h : ChunkRead file consumed offset copied b) (hcopied : copied ≤ length) :
    (pngWorld file).wp (pngReadChunkToShared staging offset length copied)
      (fun read b' => SameFirmware b b' ∧
        (read = true → ChunkRead file consumed offset length b')) b := by
  induction hn : length-copied using Nat.strong_induction_on generalizing copied b with
  | _ n ih =>
    rw [pngReadChunkToShared]
    by_cases hmore : copied < length
    · rw [dif_pos hmore]
      intro got hgot
      dsimp only
      by_cases hnone : got.val.length = 0
      · rw [dif_pos hnone]
        exact ⟨⟨rfl,rfl⟩,nofun⟩
      rw [dif_neg hnone,pngCopyTo]
      by_cases hfits : sharedRangeFits staging (offset+copied) got.val.length
      · rw [if_pos hfits]
        intro stored _
        have hwant : got.val.length ≤ length-copied := by
          refine got.property.trans ?_
          split_ifs <;> omega
        have hsame : SameFirmware b ((pngWorld file).next
            ((pngWorld file).next b ⟨.read _,got⟩) ⟨.store (offset+copied) got.val,stored⟩) :=
          ⟨rfl,rfl⟩
        refine (pngWorld file).wp_mono (ih _ ?_ (h.next hgot) ?_ rfl) fun read b' hb => ?_
        · omega
        · omega
        · exact ⟨hsame.trans hb.1,hb.2⟩
      · rw [if_neg hfits]
        exact ⟨⟨rfl,rfl⟩,nofun⟩
    · rw [dif_neg hmore]
      obtain rfl : copied = length := by omega
      exact ⟨.refl b,fun _ => h⟩

/-- What is left to read and to decode: every round of the loops lessens it. -/
def pngLeft (length : Nat) (s : PngFeedState) (b : PngBoard) : Nat :=
  2*(length-s.fileOffset)+s.buffered+b.budget

/-- A refill reads up to the capacity or the end of the file, and stages what it reads. -/
theorem pngFillStaging_wp {input : PngInput} {s : PngFeedState} {b : PngBoard}
    (h : PngStaged file input.length.toNat (pngFeedCapacity input staging) consumed s b) :
    (pngWorld file).wp (pngFillStaging input staging s)
      (fun r b' => SameFirmware b b' ∧ ∀ s', r = some s' →
        PngStaged file input.length.toNat (pngFeedCapacity input staging) consumed s' b' ∧
        (s'.fileOffset = input.length.toNat ∨ s'.buffered = pngFeedCapacity input staging) ∧
        pngLeft input.length.toNat s' b' ≤ pngLeft input.length.toNat s b) b := by
  have hoffset := h.offset
  have hroom := h.room
  have hspan := h.span
  rw [pngFillStaging]
  dsimp only
  by_cases hbad : pngFeedCapacity input staging = 0 ∨ input.length.toNat < s.fileOffset ∨
      pngFeedCapacity input staging < s.buffered
  · rw [if_pos hbad]
    exact ⟨.refl b,nofun⟩
  rw [if_neg hbad]
  by_cases hnone : input.length.toNat-s.fileOffset = 0 ∨
      pngFeedCapacity input staging-s.buffered = 0
  · rw [if_pos hnone]
    refine ⟨.refl b,?_⟩
    rintro s' ⟨⟩
    exact ⟨h,by omega,Nat.le_refl _⟩
  · rw [if_neg hnone]
    generalize hwant : (if input.length.toNat-s.fileOffset < pngFeedCapacity input staging-s.buffered
      then input.length.toNat-s.fileOffset else pngFeedCapacity input staging-s.buffered) = want
    have hread : ChunkRead file consumed s.buffered 0 b :=
      ⟨by rw [h.position,hspan,Nat.add_zero],h.bytes⟩
    rw [World.wp_bind]
    refine (pngWorld file).wp_mono (pngReadChunkToShared_wp hread (Nat.zero_le want)) ?_
    rintro read b' ⟨hsame,hdone⟩
    cases read with
    | false => exact ⟨hsame,nofun⟩
    | true =>
      obtain ⟨hposition,hbytes⟩ := hdone rfl
      refine ⟨hsame,?_⟩
      rintro s' ⟨⟩
      have hfull : s.fileOffset+want = input.length.toNat ∨
          s.buffered+want = pngFeedCapacity input staging := by
        rw [← hwant]
        split_ifs <;> omega
      have hfits : s.fileOffset+want ≤ input.length.toNat ∧
          s.buffered+want ≤ pngFeedCapacity input staging := by
        rw [← hwant]
        split_ifs <;> omega
      refine ⟨⟨by rw [hposition,hspan],hfits.1,?_,hfits.2,hbytes⟩,hfull,?_⟩
      · dsimp only
        omega
      · rw [pngLeft,pngLeft,hsame.budget]
        dsimp only
        omega

/-- What the staging buffer presents is what the firmware has to get next. -/
theorem PngStaged.presents {length capacity room : Nat} {s : PngFeedState} {b : PngBoard}
    (h : PngStaged file length capacity consumed s b) (hroom : capacity ≤ room)
    (desc : SessionFeedDesc) (hoffset : desc.srcOffset = 0) (hlength : desc.srcLength = s.buffered)
    (heof : desc.eof = true ↔ s.fileOffset = length) {taken : Nat} (htaken : taken ≤ s.buffered) :
    PngFed.Presents file length room consumed ⟨desc,b.presented desc,taken⟩ := by
  have hsize : (b.presented desc).length = desc.srcLength := by
    rw [PngBoard.presented,List.length_map,List.length_range]
  refine ⟨hoffset,?_,hsize,?_,?_,?_⟩
  · exact (hlength.trans_le h.room).trans hroom
  · rw [List.prefix_iff_eq_take,hsize,hlength]
    apply List.ext_getElem?
    intro i
    by_cases hi : i < s.buffered
    · have hfile := h.bytes i hi
      rw [List.getElem?_take_of_lt hi,List.getElem?_drop,hfile]
      simp [PngBoard.presented,hlength,hoffset,hi]
    · have hout := Nat.le_of_not_lt hi
      rw [List.getElem?_eq_none (hsize.trans_le (hlength.trans_le hout)),
        List.getElem?_take_eq_none hout]
  · rw [heof,← h.span,hlength]
  · exact htaken.trans (hlength.symm.trans hsize.symm).le

/-- Bytes that the firmware has taken are removed from the front, by moving up the others. -/
theorem PngStaged.consume {length capacity : Nat} {s : PngFeedState} {b b' : PngBoard}
    (h : PngStaged file length capacity consumed s b) {taken : Nat} (htaken : taken ≤ s.buffered)
    (hposition : b'.position = b.position)
    (hmemory : ∀ i, i < s.buffered-taken → b'.memory i = b.memory (taken+i)) (feeds : Nat) :
    PngStaged file length capacity (consumed+taken)
      {s with feeds,buffered := s.buffered-taken} b' := by
  have hspan := h.span
  refine ⟨hposition.trans h.position,h.offset,?_,(Nat.sub_le _ _).trans h.room,fun i hi => ?_⟩
  · dsimp only
    omega
  · dsimp only at hi
    rw [hmemory i hi,Nat.add_assoc]
    exact h.bytes (taken+i) (by omega)

/-- The staging buffer and the feeds so far -/
def Feeding (file : List UInt8) (length capacity room : Nat) (s : PngFeedState) (b : PngBoard) :
    Prop :=
  ∃ consumed, PngStaged file length capacity consumed s b ∧
    FedInTurn file length room 0 b.feeds consumed

/-- Whatever happened, the feeds were in turn. -/
def InTurn (file : List UInt8) (length room : Nat) (b : PngBoard) : Prop :=
  ∃ consumed, FedInTurn file length room 0 b.feeds consumed

/-- How the inner loop may end, with `left` at its beginning -/
def RoundEnded (file : List UInt8) (length capacity room left : Nat) :
    PngRoundEnd → PngBoard → Prop
  | .failed,b => InTurn file length room b
  | .stopped _,b => InTurn file length room b
  | .complete result,b => InTurn file length room b ∧ result.state = sessionComplete
  | .refill s,b => Feeding file length capacity room s b ∧ pngLeft length s b < left

/-- The invariant of the inner loop, with `left` at its beginning: as long as nothing was consumed or
written, the staging buffer is as full as then. -/
structure InnerInvariant (file : List UInt8) (length capacity room left : Nat) (eof : Bool)
    (s : PngFeedState) (b : PngBoard) : Prop where
  feeding : Feeding file length capacity room s b
  atEnd : eof = true ↔ s.fileOffset = length
  less : pngLeft length s b ≤ left
  full : pngLeft length s b = left → eof = false → s.buffered = capacity

/-- The bytes behind those taken are moved to the front. -/
theorem pngCompact_wp (taken rest : Nat) (b : PngBoard) :
    (pngWorld file).wp (pngCompact staging taken rest)
      (fun moved b' => b'.position = b.position ∧ SameFirmware b b' ∧
        (moved = true → ∀ i, i < rest → b'.memory i = b.memory (taken+i))) b := by
  rw [pngCompact]
  by_cases hneeded : taken ≠ 0 ∧ rest ≠ 0
  · rw [if_pos hneeded,pngMove]
    by_cases hrefused : ¬sharedRangeFits staging 0 rest ∨ ¬sharedRangeFits staging taken rest
    · rw [if_pos hrefused]
      exact ⟨rfl,.refl b,nofun⟩
    rw [if_neg hrefused,if_neg (by omega)]
    intro _ _
    refine ⟨rfl,⟨rfl,rfl⟩,fun _ i hi => ?_⟩
    have hpos : 0 < taken := Nat.pos_of_ne_zero hneeded.1
    dsimp only
    rw [sharedMoved,if_pos hpos,movedForward_of_lt _ hpos,if_pos (by omega),Nat.sub_zero]
  · rw [if_neg hneeded]
    refine ⟨rfl,.refl b,fun _ i hi => ?_⟩
    obtain rfl : taken = 0 := by omega
    rw [Nat.zero_add]

/-- Without progress the firmware has taken and written nothing; with progress less is left. -/
theorem pngMadeProgress_iff {result : ImageSessionResult} (h : result.state ≠ sessionComplete) :
    pngMadeProgress result = true ↔
      0 < result.bytesConsumed.toNat+result.bytesWritten.toNat := by
  simp only [pngMadeProgress,h,or_false,decide_eq_true_eq]
  rw [ne_eq,ne_eq,← UInt32.toNat_inj,← UInt32.toNat_inj,UInt32.toNat_zero]
  omega

/-- After the firmware has taken a feed, the loop goes on only where less is left. -/
theorem pngFed_wp {input : PngInput} {length capacity room left : Nat} {eof : Bool}
    {s : PngFeedState} {b b₀ : PngBoard} {result : ImageSessionResult}
    (h : InnerInvariant file length capacity room left eof s b₀)
    (hstaged : PngStaged file length capacity consumed s b)
    (hfed : FedInTurn file length room 0 b.feeds (consumed+
      if result.bytesConsumed.toNat ≤ s.buffered then result.bytesConsumed.toNat else 0))
    (hbudget : b.budget+result.bytesWritten.toNat = b₀.budget) :
    (pngWorld file).wp (pngFed input staging capacity eof s result)
      ((pngWorld file).lessened (InnerInvariant file length capacity room left eof)
        (RoundEnded file length capacity room left) (pngLeft length) (pngLeft length s b₀)) b := by
  rw [pngFed]
  dsimp only
  by_cases hstop : s.feeds+1 = 1 ∧ pngShouldStopAfter input pngStepFirstFeed = true
  · rw [if_pos hstop]
    exact ⟨_,hfed⟩
  rw [if_neg hstop]
  by_cases hbeyond : s.buffered < result.bytesConsumed.toNat
  · rw [if_pos hbeyond]
    exact ⟨_,hfed⟩
  rw [if_neg hbeyond]
  rw [if_pos (Nat.le_of_not_lt hbeyond)] at hfed
  rw [World.wp_bind]
  refine (pngWorld file).wp_mono (pngCompact_wp _ _ b) ?_
  rintro moved b' ⟨hposition,hsame,hmoved⟩
  rw [← hsame.feeds] at hfed
  cases moved with
  | false => exact ⟨_,hfed⟩
  | true =>
    have hnext := hstaged.consume (Nat.le_of_not_lt hbeyond) hposition (hmoved rfl) (s.feeds+1)
    have hleft : pngLeft length
        {s with feeds := s.feeds+1,buffered := s.buffered-result.bytesConsumed.toNat} b'+
        (result.bytesConsumed.toNat+result.bytesWritten.toNat) = pngLeft length s b₀ := by
      rw [pngLeft,pngLeft,hsame.budget,← hbudget]
      dsimp only
      omega
    have hless := h.less
    rw [if_neg (by simp)]
    by_cases hcomplete : result.state = sessionComplete
    · rw [if_pos hcomplete]
      exact ⟨⟨_,hfed⟩,hcomplete⟩
    rw [if_neg hcomplete]
    by_cases hstate : result.state ≠ sessionNeedInput ∧ result.state ≠ sessionHeaderReady
    · rw [if_pos hstate]
      exact ⟨_,hfed⟩
    rw [if_neg hstate]
    have hprogress := pngMadeProgress_iff hcomplete
    by_cases hfatal : pngNoProgressIsFatal result (s.buffered-result.bytesConsumed.toNat) capacity
        eof = true
    · rw [if_pos hfatal]
      exact ⟨_,hfed⟩
    rw [if_neg hfatal]
    -- without progress the buffer was not full: a refill or a feed before has lessened what is left
    have hlessened : pngMadeProgress result = false → pngLeft length s b₀ < left := by
      intro hnone
      have hzero := mt hprogress.mpr (by simp [hnone])
      have hconsumed : result.bytesConsumed.toNat = 0 := by omega
      simp only [pngNoProgressIsFatal,hnone,hconsumed,Nat.sub_zero] at hfatal
      refine Nat.lt_of_le_of_ne hless fun heq => ?_
      cases heof : eof with
      | true => simp [heof] at hfatal
      | false =>
        have hfull := h.full heq heof
        simp [heof,hfull] at hfatal
    by_cases hrefill : s.buffered-result.bytesConsumed.toNat = 0 ∨
        (¬pngMadeProgress result = true ∧ ¬eof = true)
    · rw [if_pos hrefill]
      refine ⟨⟨_,hnext,hfed⟩,?_⟩
      cases hmade : pngMadeProgress result with
      | true =>
        have hsome := hprogress.mp hmade
        omega
      | false =>
        have hlt := hlessened hmade
        omega
    · rw [if_neg hrefill]
      have hmade : pngMadeProgress result = true := by
        cases hmade : pngMadeProgress result with
        | true => rfl
        | false =>
          cases heof : eof with
          | false => simp [hmade,heof] at hrefill
          | true => simp [pngNoProgressIsFatal,hmade,heof] at hfatal
      have hsome := hprogress.mp hmade
      refine ⟨⟨⟨_,hnext,hfed⟩,h.atEnd,?_,?_⟩,?_⟩
      · omega
      · intro heq
        omega
      · omega

theorem pngFeedRound_wp (input : PngInput) (staging : SharedBuffer) (session : UInt32)
    {length capacity room left : Nat} {eof : Bool} {s : PngFeedState} {b : PngBoard} (hroom : capacity ≤ room)
    (h : InnerInvariant file length capacity room left eof s b) :
    (pngWorld file).wp (pngFeedRound input staging session capacity eof s)
      ((pngWorld file).lessened (InnerInvariant file length capacity room left eof)
        (RoundEnded file length capacity room left) (pngLeft length) (pngLeft length s b)) b := by
  obtain ⟨consumed,hstaged,hfed⟩ := h.feeding
  rw [pngFeedRound,buildSessionFeedDesc]
  by_cases hbad : session = 0 ∨ staging.handle = invalidHandle ∨ (s.buffered = 0 ∧ ¬eof)
  · rw [if_pos hbad]
    exact ⟨consumed,hfed⟩
  rw [if_neg hbad]
  intro answer hanswer
  cases answer with
  | error status =>
    have hpresents := hstaged.presents hroom ⟨session,staging.handle,0,s.buffered,eof⟩ rfl rfl
      h.atEnd (Nat.zero_le _)
    exact ⟨_,hfed.append hpresents⟩
  | ok result =>
    have htaken : (if result.bytesConsumed.toNat ≤ s.buffered then result.bytesConsumed.toNat
        else 0) ≤ s.buffered := by
      split_ifs <;> omega
    have hpresents := hstaged.presents hroom ⟨session,staging.handle,0,s.buffered,eof⟩ rfl rfl
      h.atEnd htaken
    have hwritten : result.bytesWritten.toNat ≤ b.budget := hanswer
    refine pngFed_wp h ?_ (hfed.append hpresents) (Nat.sub_add_cancel hwritten)
    exact ⟨hstaged.position,hstaged.offset,hstaged.span,hstaged.room,hstaged.bytes⟩

/-- How `zz9k_png_feed_stream` may end -/
def StreamEnded (file : List UInt8) (length room : Nat) : Option PngEnd → PngBoard → Prop
  | none,_ => False
  | some .failed,b => InTurn file length room b
  | some (.done stopped result),b =>
    InTurn file length room b ∧ (stopped = false → result.state = sessionComplete)

theorem pngFeedCapacity_le (input : PngInput) (staging : SharedBuffer) :
    pngFeedCapacity input staging ≤ staging.length.toNat := by
  rw [pngFeedCapacity]
  split_ifs with h
  · exact (UInt32.lt_iff_toNat_lt.mp h.2).le
  · exact Nat.le_refl _

/-- A round of the outer loop ends the stream or leaves less. -/
theorem pngStreamRound_wp {input : PngInput} {session : UInt32} {fuel : Nat} {s : PngFeedState}
    {b : PngBoard}
    (h : Feeding file input.length.toNat (pngFeedCapacity input staging) staging.length.toNat s b)
    (hfuel : pngLeft input.length.toNat s b < fuel) :
    (pngWorld file).wp (pngStreamRound input staging session fuel s)
      ((pngWorld file).lessened
        (Feeding file input.length.toNat (pngFeedCapacity input staging) staging.length.toNat)
        (StreamEnded file input.length.toNat staging.length.toNat) (pngLeft input.length.toNat)
        (pngLeft input.length.toNat s b)) b := by
  obtain ⟨consumed,hstaged,hfed⟩ := h
  rw [pngStreamRound,World.wp_bind]
  refine (pngWorld file).wp_mono (pngFillStaging_wp hstaged) ?_
  rintro filled b₁ ⟨hsame,hfilled⟩
  rw [← hsame.feeds] at hfed
  cases filled with
  | none => exact ⟨_,hfed⟩
  | some s₁ =>
    obtain ⟨hstaged₁,hfull,hless⟩ := hfilled s₁ rfl
    dsimp only
    by_cases hdrained : (s₁.buffered = 0 ∧
        (decide (s₁.fileOffset = input.length.toNat)) = true) ∧ input.height+8 < s₁.emptyEofFeeds
    · rw [if_pos hdrained]
      exact ⟨_,hfed⟩
    rw [if_neg hdrained,World.wp_bind]
    generalize hcounted : (if s₁.buffered = 0 ∧
      (decide (s₁.fileOffset = input.length.toNat)) = true then
        {s₁ with emptyEofFeeds := s₁.emptyEofFeeds+1} else s₁) = s₂
    have hoffset : s₂.fileOffset = s₁.fileOffset := by
      rw [← hcounted]
      split_ifs <;> rfl
    have hbuffered : s₂.buffered = s₁.buffered := by
      rw [← hcounted]
      split_ifs <;> rfl
    have hleft : pngLeft input.length.toNat s₂ b₁ = pngLeft input.length.toNat s₁ b₁ := by
      rw [pngLeft,pngLeft,hoffset,hbuffered]
    have hinner : InnerInvariant file input.length.toNat (pngFeedCapacity input staging)
        staging.length.toNat (pngLeft input.length.toNat s₂ b₁)
        (decide (s₁.fileOffset = input.length.toNat)) s₂ b₁ := by
      refine ⟨⟨consumed,?_,hfed⟩,?_,Nat.le_refl _,fun _ hnot => ?_⟩
      · exact ⟨hstaged₁.position.trans hoffset.symm,hoffset.trans_le hstaged₁.offset,
          by rw [hbuffered,hoffset,hstaged₁.span],hbuffered.trans_le hstaged₁.room,
          fun i hi => hstaged₁.bytes i (hbuffered ▸ hi)⟩
      · rw [hoffset,decide_eq_true_eq]
      · rw [hbuffered]
        exact hfull.resolve_left (of_decide_eq_false hnot)
    have hspent : pngLeft input.length.toNat s₂ b₁ < fuel := by omega
    refine (pngWorld file).wp_mono (World.wp_iterate_total _ (fun s v hs =>
      pngFeedRound_wp input staging session (pngFeedCapacity_le input staging) hs) hinner hspent) ?_
    rintro r b' ⟨ended,rfl,hended⟩
    cases ended with
    | failed => exact hended
    | stopped result => exact ⟨hended,nofun⟩
    | complete result => exact ⟨hended.1,fun _ => hended.2⟩
    | refill s' => exact ⟨hended.1,by have := hended.2; omega⟩

/-- The board at the start: the file is at its beginning, and nothing is fed. -/
def PngBoard.fresh (memory : Nat → UInt8) (budget : Nat) : PngBoard := ⟨0,memory,budget,[]⟩

theorem pngFeedStream_wp (input : PngInput) (staging : SharedBuffer) (session : UInt32)
    (memory : Nat → UInt8) {budget fuel : Nat} (hfuel : 2*input.length.toNat+budget < fuel) :
    (pngWorld file).wp (pngFeedStream input staging session fuel)
      (fun r b => StreamEnded file input.length.toNat staging.length.toNat r b)
      (.fresh memory budget) := by
  have hstart : Feeding file input.length.toNat (pngFeedCapacity input staging)
      staging.length.toNat {} (.fresh memory budget) := by
    refine ⟨0,⟨rfl,Nat.zero_le _,rfl,Nat.zero_le _,?_⟩,rfl⟩
    exact fun i hi => absurd hi (Nat.not_lt_zero i)
  have hspent : pngLeft input.length.toNat {} (.fresh memory budget) < fuel := hfuel
  let I := fun s b => Feeding file input.length.toNat (pngFeedCapacity input staging)
    staging.length.toNat s b ∧ pngLeft input.length.toNat s b < fuel
  have hround : ∀ s b, I s b → (pngWorld file).wp (pngStreamRound input staging session fuel s)
      ((pngWorld file).lessened I (StreamEnded file input.length.toNat staging.length.toNat)
        (pngLeft input.length.toNat) (pngLeft input.length.toNat s b)) b := by
    rintro s b ⟨hfeeding,hleft⟩
    refine (pngWorld file).wp_mono (pngStreamRound_wp hfeeding hleft) fun r b' hr => ?_
    cases r with
    | inl ended => exact hr
    | inr s' => exact ⟨⟨hr.1,hr.2.trans hleft⟩,hr.2⟩
  rw [pngFeedStream,World.wp_bind]
  refine (pngWorld file).wp_mono
    (World.wp_iterate_total _ hround ⟨hstart,hspent⟩ hspent) ?_
  rintro r b ⟨ended,rfl,hended⟩
  exact hended

/-- An access to the staging buffer within its length -/
def StagingInside (length : Nat) : PngCall → Prop
  | .store offset data => offset+data.length ≤ length
  | .move dst src n => dst+n ≤ length ∧ src+n ≤ length
  | _ => True

theorem fits_inside {offset n : Nat} (h : sharedRangeFits staging offset n = true) :
    offset+n ≤ staging.length.toNat := by
  rw [sharedRangeFits,decide_eq_true_eq] at h
  exact h.2.2

theorem all_pngReadChunkToShared (offset length copied : Nat) :
    (pngReadChunkToShared staging offset length copied).All
      (StagingInside staging.length.toNat) := by
  induction hn : length-copied using Nat.strong_induction_on generalizing copied with
  | _ n ih =>
    rw [pngReadChunkToShared]
    by_cases hmore : copied < length
    · rw [dif_pos hmore]
      refine ⟨trivial,fun got => ?_⟩
      dsimp only
      by_cases hnone : got.val.length = 0
      · rw [dif_pos hnone]
        trivial
      rw [dif_neg hnone,pngCopyTo]
      by_cases hfits : sharedRangeFits staging (offset+copied) got.val.length
      · rw [if_pos hfits]
        exact ⟨fits_inside hfits,fun _ => ih _ (by omega) _ rfl⟩
      · rw [if_neg hfits]
        trivial
    · rw [dif_neg hmore]
      trivial

theorem all_pngFillStaging (input : PngInput) (s : PngFeedState) :
    (pngFillStaging input staging s).All (StagingInside staging.length.toNat) := by
  rw [pngFillStaging]
  dsimp only
  split_ifs
  · trivial
  · trivial
  all_goals
    refine Ask.all_bind (all_pngReadChunkToShared _ _ _) fun read => ?_
    cases read <;> trivial

theorem all_pngCompact (taken rest : Nat) :
    (pngCompact staging taken rest).All (StagingInside staging.length.toNat) := by
  rw [pngCompact,pngMove]
  split_ifs with hneeded hrefused hnothing
  · trivial
  · trivial
  · rw [not_or,not_not,not_not] at hrefused
    exact ⟨⟨fits_inside hrefused.1,fits_inside hrefused.2⟩,fun _ => trivial⟩
  · trivial

theorem all_pngFeedRound (input : PngInput) (session : UInt32) (capacity : Nat) (eof : Bool)
    (s : PngFeedState) : (pngFeedRound input staging session capacity eof s).All
      (StagingInside staging.length.toNat) := by
  rw [pngFeedRound]
  cases buildSessionFeedDesc session staging.handle 0 s.buffered eof with
  | none => trivial
  | some desc =>
    refine ⟨trivial,fun answer => ?_⟩
    cases answer with
    | error status => trivial
    | ok result =>
      dsimp only
      rw [pngFed]
      dsimp only
      split_ifs
      · trivial
      · trivial
      all_goals
        refine Ask.all_bind (all_pngCompact _ _) fun moved => ?_
        split_ifs <;> trivial

/-- The feeder never leaves the staging buffer. -/
theorem all_pngFeedStream (input : PngInput) (session : UInt32) (fuel : Nat) :
    (pngFeedStream input staging session fuel).All (StagingInside staging.length.toNat) := by
  refine Ask.all_bind (Ask.all_iterate (fun s => ?_) fuel _) fun _ => trivial
  refine Ask.all_bind (all_pngFillStaging input s) fun filled => ?_
  cases filled with
  | none => trivial
  | some s =>
    dsimp only
    split_ifs
    · trivial
    all_goals
      refine Ask.all_bind (Ask.all_iterate (all_pngFeedRound input session _ _) fuel _) fun r => ?_
      rcases r with _ | _ | _ | _ | _ <;> trivial

/-- The feeder ends, with every feed the bytes that follow those consumed, flagged where they reach
the end of the file; and it succeeds without a stop only on a complete image. -/
theorem pngFeedStream_feeds {input : PngInput} {session : UInt32} {memory : Nat → UInt8}
    {budget fuel : Nat} (hfuel : 2*input.length.toNat+budget < fuel)
    {log : List (Answered PngCall PngAnswer)} {r : Option PngEnd}
    (hruns : Ask.Runs (pngFeedStream input staging session fuel) log r)
    (hanswers : (pngWorld file).Allows (.fresh memory budget) log) :
    (∃ total, FedInTurn file input.length.toNat staging.length.toNat 0
        ((pngWorld file).after (.fresh memory budget) log).feeds total) ∧
      (((pngWorld file).after (.fresh memory budget) log).feeds.flatMap
        fun f => f.data.take f.taken) <+: file ∧
      (∀ e ∈ log, StagingInside staging.length.toNat e.1) ∧
      r ≠ none ∧ ∀ result, r = some (.done false result) → result.state = sessionComplete := by
  have hended := World.wp_sound _
    (pngFeedStream_wp input staging session memory hfuel) hruns hanswers
  have hinside := (all_pngFeedStream input session fuel).log hruns
  have hturns : InTurn file input.length.toNat staging.length.toNat
      ((pngWorld file).after (.fresh memory budget) log) →
      (((pngWorld file).after (.fresh memory budget) log).feeds.flatMap
        fun f => f.data.take f.taken) <+: file := fun ⟨_,h⟩ => h.consumed_prefix
  rcases r with _ | _ | ⟨stopped,result⟩
  · exact hended.elim
  · exact ⟨hended,hturns hended,hinside,nofun,nofun⟩
  · refine ⟨hended.1,hturns hended.1,hinside,nofun,?_⟩
    rintro _ ⟨⟩
    exact hended.2 rfl

end

/-- A file of two bytes, a staging buffer for it, and a firmware that takes both at once -/
def twoBytes : PngInput := {length := 2,height := 1,stopAfterStep := 0,chunkBytes := 0}

def twoBytesStaging : SharedBuffer := {handle := 3,data := 64,length := 4}

def twoBytesLog : List (Answered PngCall PngAnswer) :=
  [⟨.read 2,⟨[1,2],by decide⟩⟩,⟨.store 0 [1,2],()⟩,
    ⟨.feed ⟨7,3,0,2,true⟩,.ok ⟨sessionComplete,2,5⟩⟩]

theorem pngFeedStream_feeds_twoBytes :
    ([⟨⟨7,3,0,2,true⟩,[1,2],2⟩] : List PngFed).flatMap (fun f => f.data.take f.taken) <+: [1,2] ∧
      ∀ e ∈ twoBytesLog, StagingInside 4 e.1 := by
  have hread : Ask.Runs (pngReadChunkToShared twoBytesStaging 0 2 0)
      [⟨.read 2,⟨[1,2],by decide⟩⟩,⟨.store 0 [1,2],()⟩] true := by
    rw [pngReadChunkToShared,dif_pos (by decide)]
    apply Ask.Runs.ask
    rw [dif_neg (by decide)]
    apply Ask.Runs.ask
    rw [pngReadChunkToShared,dif_neg (by decide)]
    exact .ret _
  have hfill : Ask.Runs (pngFillStaging twoBytes twoBytesStaging {})
      [⟨.read 2,⟨[1,2],by decide⟩⟩,⟨.store 0 [1,2],()⟩]
      (some {fileOffset := 2,buffered := 2}) := by
    rw [pngFillStaging]
    exact Ask.runs_bind.mpr ⟨true,_,[],hread,.ret _,rfl⟩
  have hround : Ask.Runs (pngStreamRound twoBytes twoBytesStaging 7 10 {}) twoBytesLog
      (.inl (some (.done false ⟨sessionComplete,2,5⟩))) := by
    refine Ask.runs_bind.mpr ⟨_,_,_,hfill,?_,rfl⟩
    refine Ask.runs_bind.mpr ⟨some (.complete ⟨sessionComplete,2,5⟩),
      [⟨.feed ⟨7,3,0,2,true⟩,.ok ⟨sessionComplete,2,5⟩⟩],[],?_,.ret _,rfl⟩
    exact Ask.runs_ask.mpr ⟨_,_,rfl,.ret _⟩
  have hruns : Ask.Runs (pngFeedStream twoBytes twoBytesStaging 7 10) twoBytesLog
      (some (.done false ⟨sessionComplete,2,5⟩)) := by
    refine Ask.runs_bind.mpr ⟨some (some (.done false ⟨sessionComplete,2,5⟩)),_,[],?_,.ret _,
      (List.append_nil _).symm⟩
    exact Ask.runs_bind.mpr ⟨_,_,[],hround,.ret _,(List.append_nil _).symm⟩
  have hanswers : (pngWorld [1,2]).Allows (.fresh (fun _ => 9) 5) twoBytesLog :=
    ⟨List.prefix_refl _,trivial,Nat.le_refl _,trivial⟩
  obtain ⟨_,hturns,hinside,_⟩ := pngFeedStream_feeds (by decide) hruns hanswers
  exact ⟨hturns,hinside⟩

end ZZ9K.Surface
