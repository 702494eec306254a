import ZZ9K.Archive.TarCount

namespace ZZ9K.Archive

open ZZ9K.Framework ZZ9K.Framework.Reading

/-- What one round of the count does with an archive, if it does not read beside it -/
def countTarRound (data : Bytes) (s : TarCount) : Option (Option Nat ⊕ TarCount) :=
  onBuffer data (countTarRoundAt data.length s)

/-- The header the count is at gives a size that takes the 32-bit sum for its end past 2^32. -/
def TarCount.Wraps (data : Bytes) (s : TarCount) : Prop :=
  s.pos+512 ≤ data.length ∧ tarHeaderEmpty (slice data s.pos tarBlock) = false ∧
  ∃ entry, tarEntryFromHeader (slice data s.pos tarBlock) 0 = some entry ∧
    2^32 ≤ s.pos+512+entry.uncompressedSize

/-- Where the count comes to before it meets such a header, or with it -/
inductive TarCount.Reached (data : Bytes) : TarCount → Prop
  | start : Reached data {}
  | next {s t : TarCount} (h : Reached data s) (hfits : ¬s.Wraps data)
      (hround : countTarRound data s = some (.inr t)) : Reached data t

/-- From here the count ends as if all were well, or reads beside the archive. -/
inductive TarCount.Strays (data : Bytes) : TarCount → Prop
  | ends {s : TarCount} {n : Nat} (h : countTarRound data s = some (.inl (some n))) : Strays data s
  | beside {s : TarCount} (h : countTarRound data s = none) : Strays data s
  | next {s t : TarCount} (hround : countTarRound data s = some (.inr t)) (h : Strays data t) :
      Strays data s

/-- Counting and listing an archive agree, and neither reads beside it. -/
structure TarCountAgrees (data : Bytes) : Prop where
  agree : ∀ n,
    (∃ fuel, onBuffer data (countTarEntriesAt data.length fuel) = some (some (some n))) ↔
    ∃ entries, onBuffer data (tarListAt data.length n) = some (some entries) ∧ entries.length = n
  countInside : ∀ fuel, onBuffer data (countTarEntriesAt data.length fuel) ≠ none
  listInside : ∀ capacity, onBuffer data (tarListAt data.length capacity) ≠ none

/-- The count and the listing are at the same place with the same things pending. -/
structure TarCount.Follows (s : TarCount) (p : TarPending) : Prop where
  size : s.pendingSize = p.size
  skip : s.pendingSkip = p.skip
  name : p.skip = true → p.name = []
  small : ∀ size,p.size = some size → size < 2^31

theorem parseDecimalLoop_le {field : Bytes} {out size : Nat} (hout : out ≤ 0x7fffffff)
    (h : parseDecimalLoop field out = some size) : size ≤ 0x7fffffff := by
  induction field generalizing out with
  | nil =>
    cases h
    exact hout
  | cons c field ih =>
    rw [parseDecimalLoop] at h
    split_ifs at h with hbad hbig
    exact ih (by omega) h

/-- A size that a PAX header gives is below 2^31. -/
theorem tarPaxRecord_small {value : Bytes} {info out : TarPaxInfo}
    (hi : ∀ size,info.size = some size → size < 2^31) (h : tarPaxRecord value info = some out) :
    ∀ size,out.size = some size → size < 2^31 := by
  unfold tarPaxRecord at h
  dsimp only at h
  split_ifs at h with hpath hlong hsize
  · cases h
    exact hi
  · obtain ⟨size,hvalue,hout⟩ := Option.bind_eq_some_iff.mp h
    rw [parseDecimal] at hvalue
    split_ifs at hvalue
    rw [← Option.some.inj hout]
    intro given hg
    cases hg
    have hle := parseDecimalLoop_le (Nat.zero_le _) hvalue
    omega
  · cases h
    exact hi

theorem tarParsePaxInfo_small {field : Bytes} {out : TarPaxInfo}
    (h : tarParsePaxInfo field {} = some out) : ∀ size,out.size = some size → size < 2^31 :=
  tarParsePaxInfo_keeps (I := fun info => ∀ size,info.size = some size → size < 2^31)
    (fun _ _ _ => tarPaxRecord_small) _ (Nat.le_refl _) (by intro size hs; cases hs) h

section

variable {data : Bytes} {s t : TarCount} {p q : TarPending} {entry : ArchiveEntry}

@[simp] theorem TarCount.afterPax_pos (s : TarCount) (pax : TarPaxInfo) :
    (s.afterPax pax).pos = s.pos := by
  unfold TarCount.afterPax
  cases pax.path <;> cases pax.size <;> rfl

@[simp] theorem TarCount.afterPax_entries (s : TarCount) (pax : TarPaxInfo) :
    (s.afterPax pax).entries = s.entries := by
  unfold TarCount.afterPax
  cases pax.path <;> cases pax.size <;> rfl

theorem TarPending.afterPax_size (p : TarPending) (pax : TarPaxInfo) :
    (p.afterPax pax).size = pax.size.or p.size := by
  unfold TarPending.afterPax
  cases pax.path with
  | none => cases pax.size <;> rfl
  | some path =>
    obtain ⟨path,skip⟩ := path
    cases skip <;> cases pax.size <;> rfl

theorem TarCount.Follows.afterPax (h : s.Follows p) {pax : TarPaxInfo}
    (hpax : ∀ size,pax.size = some size → size < 2^31) :
    (s.afterPax pax).Follows (p.afterPax pax) := by
  obtain ⟨hsize,hskip,hname,hsmall⟩ := h
  refine ⟨?_,?_,TarPending.afterPax_skip hname,?_⟩
  · unfold TarCount.afterPax TarPending.afterPax
    cases pax.path with
    | none => cases pax.size <;> simp [hsize]
    | some path =>
      obtain ⟨path,skip⟩ := path
      cases skip <;> cases pax.size <;> simp [hsize]
  · unfold TarCount.afterPax TarPending.afterPax
    cases pax.path with
    | none => cases pax.size <;> simp [hskip]
    | some path =>
      obtain ⟨path,skip⟩ := path
      cases skip <;> cases pax.size <;> simp
  · intro size hgiven
    rw [TarPending.afterPax_size] at hgiven
    cases hp : pax.size with
    | none =>
      rw [hp] at hgiven
      exact hsmall size hgiven
    | some given =>
      rw [hp] at hgiven
      exact hpax size (hp.trans hgiven)

/-- A round of the listing that meets an entry takes the count this far. -/
def TarCount.past (s : TarCount) (entry : ArchiveEntry) (q : TarPending) : TarCount where
  pos := tarNext s.pos entry
  entries := if entry.isSkipped then s.entries else u32 (s.entries+1)
  pendingSize := q.size
  pendingSkip := q.skip

/-- Without a wrap the end of a round is where the listing goes on. -/
theorem next_past {member : ArchiveEntry} {size : Nat} (hpendingSize : t.pendingSize = q.size)
    (hpendingSkip : t.pendingSkip = q.skip) (hpos : t.pos = s.pos) (hentries : t.entries = s.entries)
    (hskipped : member.isSkipped = entry.isSkipped) (hsize : size = entry.uncompressedSize)
    (hinside : s.pos+512+entry.uncompressedSize < 2^31) :
    t.next member size = s.past entry q := by
  have hblocks : u32 (size+511) = size+511 := u32_of_lt (by omega)
  have hnext : u32 (t.pos+(512+u32 (size+511)/512*512)) = tarNext s.pos entry := by
    rw [hblocks,u32_of_lt (by omega),hpos,hsize]
    rfl
  unfold TarCount.next TarCount.past
  rw [hnext,hpendingSize,hpendingSkip,hentries,hskipped]

/-- What the listing makes of a member before its size: it may be skipped or renamed, and nothing
but a size is left pending. -/
theorem tarListEntry_plain (hL : entry.isGnuLongName = false) (hX : entry.isPaxHeader = false) :
    ∃ e r, tarListEntry data entry p = some (e,r) ∧
      e.isSkipped = (if p.skip then {entry with flags := entry.flags ||| tarFlagSkip}
        else entry).isSkipped ∧
      e.uncompressedSize = entry.uncompressedSize ∧ e.dataOffset = entry.dataOffset ∧
      e.isGnuLongName = false ∧ e.isPaxHeader = false ∧ r.size = p.size ∧ r.skip = false := by
  unfold tarListEntry
  simp only [hL,hX,Bool.false_eq_true,if_false]
  split_ifs with hskip hname
  · exact ⟨_,_,rfl,rfl,rfl,rfl,isGnuLongName_skip.trans hL,isPaxHeader_skip.trans hX,rfl,rfl⟩
  · exact ⟨_,_,rfl,rfl,rfl,rfl,hL,hX,rfl,Bool.eq_false_iff.mpr hskip⟩
  · exact ⟨_,_,rfl,rfl,rfl,rfl,hL,hX,rfl,Bool.eq_false_iff.mpr hskip⟩

/-- What a round of the count does with the record it meets, told by the listing's. -/
def TarCount.along (s : TarCount) : Option (ArchiveEntry × TarPending) → Option Nat ⊕ TarCount
  | none => .inl none
  | some (entry,q) => .inr (s.past entry q)

/-- Where the listing is, and no wrap is met, the count does with the record what the listing does. -/
theorem countTarRound_follows (hlength : data.length < 2^31) (h : s.Follows p)
    (hroom : s.pos+512 ≤ data.length) (hfits : ¬s.Wraps data) :
    countTarRound data s =
      some (if tarHeaderEmpty (slice data s.pos tarBlock) then .inl (some s.entries)
        else s.along (tarListRecord data s.pos p)) := by
  have hpos : u32 (s.pos+512) = s.pos+512 := u32_of_lt (by omega)
  unfold countTarRound countTarRoundAt
  rw [hpos,if_pos hroom,onBuffer_bind,tarHeaderEmptyAt_eq hroom,Option.bind_some]
  cases hempty : tarHeaderEmpty (slice data s.pos tarBlock) with
  | true => rfl
  | false =>
    rw [if_neg (by decide),if_neg (by decide),onBuffer_bind,tarEntryFromHeaderAt_eq hroom,
      Option.bind_some]
    unfold tarListRecord
    cases hheader : tarEntryFromHeader (slice data s.pos tarBlock) (s.pos+512) with
    | none => rfl
    | some candidate =>
      have hoffset := tarEntryFromHeader_dataOffset hheader
      have hflags := (tarEntryFromHeader_flags hheader).1
      have hnowrap : s.pos+512+candidate.uncompressedSize < 2^32 := by
        by_contra hwrap
        rw [tarEntryFromHeader_offset] at hheader
        obtain ⟨c,hc,hce⟩ := Option.map_eq_some_iff.mp hheader
        refine hfits ⟨hroom,hempty,c,hc,?_⟩
        rw [← hce] at hwrap
        exact Nat.le_of_not_lt hwrap
      simp only [Option.bind_eq_bind,Option.bind_some,u32_of_lt hnowrap]
      by_cases hinside : data.length < s.pos+512+candidate.uncompressedSize
      · have hrange : tarInRange data candidate = false := by
          simp only [tarInRange,hoffset,decide_eq_false_iff_not]
          omega
        rw [if_pos hinside,if_pos hrange]
        rfl
      have hrange : tarInRange data candidate = true := by
        simp only [tarInRange,hoffset,decide_eq_true_eq]
        omega
      rw [if_neg hinside,hrange,if_neg (show ¬true = false by decide)]
      have hbytes : candidate.dataOffset+candidate.uncompressedSize ≤ data.length := by
        rw [hoffset]
        omega
      cases hX : candidate.isPaxHeader with
      | true =>
        have hL : candidate.isGnuLongName = false := by
          by_contra hL
          exact absurd (hflags (by simpa using hL)).1 (by simp [hX])
        have hentry : tarListEntry data candidate p =
            (tarParsePaxInfo (tarData data candidate) {}).map fun pax =>
              (candidate,p.afterPax pax) := by
          simp [tarListEntry,hL,hX]
        rw [if_pos rfl,onBuffer_bind,tarParsePaxInfoAt_eq hbytes,hentry]
        change (some (tarParsePaxInfo (tarData data candidate) {})).bind _ = _
        cases hpax : tarParsePaxInfo (tarData data candidate) {} with
        | none => rfl
        | some pax =>
          have hfollows := h.afterPax (tarParsePaxInfo_small hpax)
          have hnext : (s.afterPax pax).next candidate candidate.uncompressedSize =
              s.past candidate (p.afterPax pax) :=
            next_past hfollows.size hfollows.skip (s.afterPax_pos pax) (s.afterPax_entries pax)
              rfl rfl (by omega)
          simp only [Option.map_some,Option.bind_some,tarPendingSize_fields (p := p.afterPax pax)
            (show (candidate.isGnuLongName || candidate.isPaxHeader) = true by simp [hX]),hrange]
          exact congrArg (fun t => some (Sum.inr t)) hnext
      | false =>
        rw [if_neg (by decide)]
        cases hL : candidate.isGnuLongName with
        | true =>
          have hentry : tarListEntry data candidate p =
              (tarCopyDataName (tarData data candidate)).map fun r =>
                (candidate,{p with name := r.1,skip := r.2}) := by
            simp [tarListEntry,hL]
          rw [if_pos rfl,onBuffer_bind,tarCopyDataNameAt_eq hbytes,hentry]
          change (some (tarCopyDataName (tarData data candidate))).bind _ = _
          cases tarCopyDataName (tarData data candidate) with
          | none => rfl
          | some name =>
            obtain ⟨name,skip⟩ := name
            have hnext : TarCount.next {s with pendingSkip := skip} candidate
                candidate.uncompressedSize = s.past candidate {p with name,skip} :=
              next_past h.size rfl rfl rfl rfl rfl (by omega)
            simp only [Option.map_some,Option.bind_some,tarPendingSize_fields
              (p := {p with name,skip}) (show (candidate.isGnuLongName || candidate.isPaxHeader) =
                true by simp [hL]),hrange]
            exact congrArg (fun t => some (Sum.inr t)) hnext
        | false =>
          obtain ⟨e,r,hentry,hskipped,hsize,hplace,heL,heX,hrsize,hrskip⟩ :=
            @tarListEntry_plain data p candidate hL hX
          rw [if_neg (by decide),hentry]
          simp only [Option.bind_some,h.skip]
          have hplain : ¬(e.isGnuLongName ∨ e.isPaxHeader) := by simp [heL,heX]
          unfold tarPendingSize
          rw [if_neg hplain,hrsize,h.size]
          cases hpending : p.size with
          | none =>
            have herange : tarInRange data e = true := by
              rw [← hrange,tarInRange,tarInRange,hsize,hplace]
            have hnext := @next_past s {pos := s.pos,entries := s.entries} r e _ _
              (hpending.symm.trans hrsize.symm) hrskip.symm rfl rfl hskipped.symm hsize.symm
              (by omega)
            simp only [herange]
            exact congrArg (fun t => some (Sum.inr t)) hnext
          | some size =>
            have hsmall := h.small size hpending
            have hsum : u32 (s.pos+512+size) = s.pos+512+size := u32_of_lt (by omega)
            have herange : tarInRange data {e with compressedSize := size,uncompressedSize := size} =
                !decide (data.length < s.pos+512+size) := by
              rw [tarInRange,hplace,hoffset,← decide_not]
              refine decide_eq_decide.mpr ?_
              dsimp only
              omega
            simp only [herange,hsum]
            by_cases hbeside : data.length < s.pos+512+size
            · simp only [hbeside,decide_true,if_true]
              rfl
            · simp only [hbeside,decide_false,if_false]
              have hnext := @next_past s {pos := s.pos,entries := s.entries}
                {r with size := none} {e with compressedSize := size,uncompressedSize := size} _ _
                rfl hrskip.symm rfl rfl hskipped.symm rfl
                (show s.pos+512+size < 2^31 by omega)
              exact congrArg (fun t => some (Sum.inr t)) hnext

theorem countTarRound_over (hlength : data.length < 2^31) (hpos : s.pos ≤ data.length+511)
    (h : data.length < s.pos+512) : countTarRound data s = some (.inl (some s.entries)) := by
  have hsum : u32 (s.pos+512) = s.pos+512 := u32_of_lt (by omega)
  unfold countTarRound countTarRoundAt
  rw [hsum,if_neg (Nat.not_le_of_lt h)]
  rfl

theorem startMember_pending_size (entry : ArchiveEntry) (p : TarPending) :
    (TarStream.startMember entry p).2.size = p.size := by
  unfold TarStream.startMember
  split_ifs <;> rfl

theorem tarPendingSize_pending_size {size : Nat} (h : (tarPendingSize entry p).2.size = some size) :
    p.size = some size := by
  unfold tarPendingSize at h
  split_ifs at h
  · exact h
  · cases hp : p.size with
    | none => simp [hp] at h
    | some pending => simp [hp] at h

/-- What a record leaves pending, it leaves pending in both. -/
theorem TarCount.Follows.past {pos : Nat} (h : s.Follows p)
    (hrecord : tarListRecord data pos p = some (entry,q)) : (s.past entry q).Follows q := by
  obtain ⟨candidate,hread⟩ := tarListRecord_read hrecord
  refine ⟨rfl,rfl,hread.skip h.name,?_⟩
  cases hL : candidate.isGnuLongName with
  | true =>
    obtain ⟨-,name,skip,-,rfl⟩ := hread.longName hL
    exact h.small
  | false =>
    cases hX : candidate.isPaxHeader with
    | true =>
      obtain ⟨-,info,hinfo,rfl⟩ := hread.pax hL hX
      exact (h.afterPax (tarParsePaxInfo_small hinfo)).small
    | false =>
      have hmember := hread.member hL hX h.name
      intro size hsize
      have hpending := @tarPendingSize_pending_size (TarStream.startMember candidate p).2
        (TarStream.startMember candidate p).1 size (by rw [hmember]; exact hsize)
      rw [startMember_pending_size] at hpending
      exact h.small size hpending

/-- One round of the listing that meets an entry, whatever the room for entries -/
theorem tarListLoop_past {pos : Nat} (hroom : pos+512 ≤ data.length)
    (hfilled : tarHeaderEmpty (slice data pos tarBlock) = false)
    (hrecord : tarListRecord data pos p = some (entry,q)) (capacity : Nat)
    (acc : List ArchiveEntry) :
    (if acc.length ≤ capacity then tarListLoop data capacity pos p acc else none) =
      if (if entry.isSkipped then acc else acc++[entry]).length ≤ capacity then
        tarListLoop data capacity (tarNext pos entry) q
          (if entry.isSkipped then acc else acc++[entry]) else none := by
  by_cases hcapacity : acc.length ≤ capacity
  · rw [if_pos hcapacity,tarListLoop,dif_pos hroom,hfilled,if_neg (by decide),hrecord]
    cases hskip : entry.isSkipped with
    | true =>
      rw [if_pos rfl,if_pos hcapacity]
      simp only [hskip,if_true]
    | false =>
      simp only [hskip,Bool.false_eq_true,if_false,List.length_append,List.length_singleton]
      by_cases hfull : capacity ≤ acc.length
      · rw [if_pos hfull,if_neg (by omega)]
      · rw [if_neg hfull,if_pos (by omega)]
  · have hlonger : acc.length ≤ (if entry.isSkipped then acc else acc++[entry]).length := by
      split_ifs
      · exact Nat.le_refl _
      · rw [List.length_append]
        exact Nat.le_add_right _ _
    rw [if_neg hcapacity,if_neg (by omega)]

/-- The count has met the same records as the listing, which has so far found `acc`. -/
structure TarCount.InStep (data : Bytes) (s : TarCount) (p : TarPending)
    (acc : List ArchiveEntry) : Prop where
  follows : s.Follows p
  place : s.pos ≤ data.length+511
  entries : s.entries = acc.length
  blocks : 512*acc.length ≤ s.pos
  listing : ∀ capacity,tarListLoop data capacity 0 {} [] =
    if acc.length ≤ capacity then tarListLoop data capacity s.pos p acc else none

theorem TarCount.InStep.past {acc : List ArchiveEntry} (hlength : data.length < 2^31)
    (h : s.InStep data p acc) (hroom : s.pos+512 ≤ data.length)
    (hfilled : tarHeaderEmpty (slice data s.pos tarBlock) = false)
    (hrecord : tarListRecord data s.pos p = some (entry,q)) :
    (s.past entry q).InStep data q (if entry.isSkipped then acc else acc++[entry]) := by
  obtain ⟨candidate,hread⟩ := tarListRecord_read hrecord
  have hinside := hread.inside
  have hblocks := h.blocks
  have hentries := h.entries
  rw [hread.offset] at hinside
  refine ⟨h.follows.past hrecord,?_,?_,?_,?_⟩
  · simp only [TarCount.past,tarNext]
    omega
  · simp only [TarCount.past,hentries]
    cases entry.isSkipped with
    | true => rfl
    | false =>
      simp only [Bool.false_eq_true,if_false,List.length_append,List.length_singleton]
      exact u32_of_lt (by omega)
  · simp only [TarCount.past,tarNext]
    cases entry.isSkipped with
    | true =>
      simp only [if_true]
      omega
    | false =>
      simp only [Bool.false_eq_true,if_false,List.length_append,List.length_singleton]
      omega
  · intro capacity
    rw [h.listing capacity]
    exact tarListLoop_past hroom hfilled hrecord capacity acc

/-- A round that goes on has met an entry. -/
theorem TarCount.InStep.goesOn {acc : List ArchiveEntry} (hlength : data.length < 2^31)
    (h : s.InStep data p acc) (hfits : ¬s.Wraps data)
    (hround : countTarRound data s = some (.inr t)) :
    s.pos+512 ≤ data.length ∧ s.pos+512 ≤ t.pos ∧ ∃ q acc, t.InStep data q acc := by
  by_cases hroom : s.pos+512 ≤ data.length
  · rw [countTarRound_follows hlength h.follows hroom hfits] at hround
    cases hempty : tarHeaderEmpty (slice data s.pos tarBlock) with
    | true =>
      rw [hempty] at hround
      cases hround
    | false =>
      rw [hempty,if_neg (by decide)] at hround
      cases hrecord : tarListRecord data s.pos p with
      | none =>
        rw [hrecord] at hround
        cases hround
      | some r =>
        obtain ⟨entry,q⟩ := r
        rw [hrecord] at hround
        cases hround
        exact ⟨hroom,Nat.add_le_add_left (Nat.le_add_right _ _) _,q,_,
          h.past hlength hroom hempty hrecord⟩
  · rw [countTarRound_over hlength h.place (by omega)] at hround
    cases hround

theorem TarCount.Reached.inStep (hlength : data.length < 2^31) (h : TarCount.Reached data s) :
    ∃ p acc, s.InStep data p acc := by
  induction h with
  | start =>
    refine ⟨{},[],⟨⟨rfl,rfl,(nomatch ·),by intro size h; cases h⟩,Nat.zero_le _,rfl,
      Nat.zero_le _,fun capacity => ?_⟩⟩
    rw [if_pos (show ([] : List ArchiveEntry).length ≤ capacity from Nat.zero_le _)]
  | next h hfits hround ih =>
    obtain ⟨p,acc,hstep⟩ := ih
    exact (hstep.goesOn hlength hfits hround).2.2

/-- A header that wraps fails the listing. -/
theorem TarCount.Wraps.fails (hlength : data.length < 2^31) (h : s.Wraps data) (capacity : Nat)
    (acc : List ArchiveEntry) : tarListLoop data capacity s.pos p acc = none := by
  obtain ⟨hroom,hfilled,candidate,hheader,hwrap⟩ := h
  have hrecord : tarListRecord data s.pos p = none := by
    have hrange : tarInRange data {candidate with dataOffset := s.pos+512} = false := by
      rw [tarInRange]
      refine decide_eq_false ?_
      dsimp only
      omega
    unfold tarListRecord
    rw [tarEntryFromHeader_offset,hheader]
    simp [hrange]
  rw [tarListLoop,dif_pos hroom,hfilled,if_neg (by decide),hrecord]

theorem TarCount.Reached.fails (hlength : data.length < 2^31) (h : TarCount.Reached data s)
    (hwraps : s.Wraps data) (capacity : Nat) : tarListLoop data capacity 0 {} [] = none := by
  obtain ⟨p,acc,hstep⟩ := h.inStep hlength
  rw [hstep.listing capacity,hwraps.fails hlength capacity acc,ite_self]

/-- The count from a place it comes to, by its rounds -/
def countTarFrom (data : Bytes) (fuel : Nat) (s : TarCount) : Option (Option (Option Nat)) :=
  onBuffer data (Ask.iterate (countTarRoundAt data.length) fuel s)

theorem countTarFrom_succ (fuel : Nat) (s : TarCount) :
    countTarFrom data (fuel+1) s = (countTarRound data s).bind fun
      | .inl c => some (some c)
      | .inr t => countTarFrom data fuel t := by
  rw [countTarFrom,onBuffer_iterate,countTarRound]
  cases onBuffer data (countTarRoundAt data.length s) with
  | none => rfl
  | some r => cases r <;> rfl

theorem countTarFrom_round (hround : countTarRound data s = some (.inr t)) (fuel : Nat) :
    countTarFrom data (fuel+1) s = countTarFrom data fuel t := by
  rw [countTarFrom_succ,hround]
  rfl

theorem TarCount.Reached.from (h : TarCount.Reached data s) :
    ∃ rounds, ∀ fuel, countTarFrom data (rounds+fuel) {} = countTarFrom data fuel s := by
  induction h with
  | start => exact ⟨0,fun fuel => by rw [Nat.zero_add]⟩
  | next h hfits hround ih =>
    obtain ⟨rounds,hrounds⟩ := ih
    refine ⟨rounds+1,fun fuel => ?_⟩
    rw [Nat.add_assoc,hrounds,Nat.add_comm 1 fuel,countTarFrom_round hround]

/-- The count strays from a place just when it ends well from there or reads beside the archive. -/
theorem strays_iff (s : TarCount) : TarCount.Strays data s ↔
    (∃ fuel, countTarFrom data fuel s = none) ∨
      ∃ fuel n, countTarFrom data fuel s = some (some (some n)) := by
  constructor
  · intro h
    induction h with
    | @ends s n h =>
      refine .inr ⟨1,n,?_⟩
      rw [countTarFrom_succ,h]
      rfl
    | @beside s h =>
      refine .inl ⟨1,?_⟩
      rw [countTarFrom_succ,h]
      rfl
    | next hround h ih =>
      rcases ih with ⟨fuel,hnone⟩ | ⟨fuel,n,hsome⟩
      · exact .inl ⟨fuel+1,(countTarFrom_round hround fuel).trans hnone⟩
      · exact .inr ⟨fuel+1,n,(countTarFrom_round hround fuel).trans hsome⟩
  · have hgo : ∀ fuel s,(countTarFrom data fuel s = none ∨
        ∃ n, countTarFrom data fuel s = some (some (some n))) → TarCount.Strays data s := by
      intro fuel
      induction fuel with
      | zero =>
        rintro s (h | ⟨n,h⟩)
        · cases h
        · cases h
      | succ fuel ih =>
        intro s h
        rw [countTarFrom_succ] at h
        cases hround : countTarRound data s with
        | none => exact .beside hround
        | some r =>
          rw [hround] at h
          cases r with
          | inl c =>
            rcases h with h | ⟨n,h⟩
            · cases h
            · cases h
              exact .ends hround
          | inr t => exact .next hround (ih t h)
    rintro (⟨fuel,h⟩ | ⟨fuel,n,h⟩)
    · exact hgo fuel s (.inl h)
    · exact hgo fuel s (.inr ⟨n,h⟩)

theorem countTarFrom_done {c : Option Nat} (h : countTarRound data s = some (.inl c)) :
    (∀ fuel, countTarFrom data fuel s ≠ none) ∧
    ∀ n, (∃ fuel, countTarFrom data fuel s = some (some (some n))) ↔ c = some n := by
  have hsucc : ∀ fuel,countTarFrom data (fuel+1) s = some (some c) := by
    intro fuel
    rw [countTarFrom_succ,h]
    rfl
  constructor
  · intro fuel
    cases fuel with
    | zero => exact fun h => nomatch h
    | succ fuel =>
      rw [hsucc]
      exact fun h => nomatch h
  · intro n
    constructor
    · rintro ⟨fuel,hend⟩
      cases fuel with
      | zero => cases hend
      | succ fuel =>
        rw [hsucc] at hend
        exact Option.some.inj (Option.some.inj hend)
    · rintro rfl
      exact ⟨1,hsucc 0⟩

/-- The count from a place it comes to and the whole listing agree -/
def TarCount.Agrees (data : Bytes) (s : TarCount) : Prop :=
  (∀ fuel, countTarFrom data fuel s ≠ none) ∧
  ∀ n, (∃ fuel, countTarFrom data fuel s = some (some (some n))) ↔
    ∃ entries, tarListLoop data n 0 {} [] = some entries ∧ entries.length = n

theorem TarCount.InStep.ends {acc : List ArchiveEntry} (h : s.InStep data p acc)
    (hround : countTarRound data s = some (.inl (some s.entries)))
    (hlisting : ∀ capacity, tarListLoop data capacity s.pos p acc = some acc) : s.Agrees data := by
  obtain ⟨hinside,hdone⟩ := countTarFrom_done hround
  refine ⟨hinside,fun n => ?_⟩
  rw [hdone,h.listing,hlisting,h.entries,Option.some.injEq]
  constructor
  · rintro rfl
    exact ⟨acc,if_pos (Nat.le_refl _),rfl⟩
  · rintro ⟨entries,hentries,hn⟩
    split_ifs at hentries
    rw [Option.some.inj hentries,hn]

theorem TarCount.InStep.failing {acc : List ArchiveEntry} (h : s.InStep data p acc)
    (hround : countTarRound data s = some (.inl none))
    (hlisting : ∀ capacity, tarListLoop data capacity s.pos p acc = none) : s.Agrees data := by
  obtain ⟨hinside,hdone⟩ := countTarFrom_done hround
  refine ⟨hinside,fun n => ?_⟩
  rw [hdone,h.listing,hlisting,ite_self]
  simp

/-- What holds from the next place holds from this one. -/
theorem TarCount.Agrees.back (hround : countTarRound data s = some (.inr t))
    (h : t.Agrees data) : s.Agrees data := by
  obtain ⟨hinside,hagree⟩ := h
  constructor
  · intro fuel
    cases fuel with
    | zero => exact fun h => nomatch h
    | succ fuel =>
      rw [countTarFrom_round hround]
      exact hinside fuel
  · intro n
    rw [← hagree n]
    constructor
    · rintro ⟨fuel,hend⟩
      cases fuel with
      | zero => cases hend
      | succ fuel => exact ⟨fuel,(countTarFrom_round hround fuel).symm.trans hend⟩
    · rintro ⟨fuel,hend⟩
      exact ⟨fuel+1,(countTarFrom_round hround fuel).trans hend⟩

/-- Where no header that wraps leads the count astray, it agrees with the listing from every place
it comes to. The listing moves on in every round, and with it the count. -/
theorem TarCount.Reached.agrees (hlength : data.length < 2^31)
    (hstrays : ∀ w,TarCount.Reached data w → w.Wraps data → ¬w.Strays data) (n : Nat)
    (hn : data.length+512-s.pos ≤ n) (h : TarCount.Reached data s) : s.Agrees data := by
  induction n generalizing s with
  | zero =>
    obtain ⟨p,acc,hstep⟩ := h.inStep hlength
    have hplace := hstep.place
    omega
  | succ n ih =>
    obtain ⟨p,acc,hstep⟩ := h.inStep hlength
    by_cases hwraps : s.Wraps data
    · have hkept := (strays_iff s).not.mp (hstrays s h hwraps)
      rw [not_or] at hkept
      refine ⟨fun fuel hnone => hkept.1 ⟨fuel,hnone⟩,fun n => ?_⟩
      rw [h.fails hlength hwraps n]
      exact ⟨fun ⟨fuel,hend⟩ => absurd ⟨fuel,n,hend⟩ hkept.2,fun ⟨_,h,_⟩ => nomatch h⟩
    by_cases hroom : s.pos+512 ≤ data.length
    · have hround := countTarRound_follows hlength hstep.follows hroom hwraps
      cases hempty : tarHeaderEmpty (slice data s.pos tarBlock) with
      | true =>
        rw [hempty,if_pos rfl] at hround
        refine hstep.ends hround fun capacity => ?_
        rw [tarListLoop,dif_pos hroom,hempty,if_pos rfl]
      | false =>
        rw [hempty,if_neg (by decide)] at hround
        cases hrecord : tarListRecord data s.pos p with
        | none =>
          rw [hrecord] at hround
          refine hstep.failing hround fun capacity => ?_
          rw [tarListLoop,dif_pos hroom,hempty,if_neg (by decide),hrecord]
        | some r =>
          obtain ⟨entry,q⟩ := r
          rw [hrecord] at hround
          have hround : countTarRound data s = some (.inr (s.past entry q)) := hround
          have hon := hstep.goesOn hlength hwraps hround
          exact (ih (by omega) (h.next hwraps hround)).back hround
    · refine hstep.ends (countTarRound_over hlength hstep.place (by omega)) fun capacity => ?_
      rw [tarListLoop,dif_neg hroom]

/-- A file of one header, whose size field is 37777777777 -/
def wrappingTar : Bytes :=
  [0x61]++List.replicate 123 0++0x33::List.replicate 10 0x37++List.replicate 13 0++
    [0x30,0x30,0x31,0x37,0x35,0x32,0,0x20,0x30]++List.replicate 355 0

theorem wrappingTar_length : wrappingTar.length = 512 := by decide +kernel

end

end ZZ9K.Archive
