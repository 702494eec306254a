import ZZ9K.Abi.Image
import ZZ9K.Framework.Overflow
import ZZ9K.Host.Aperture

namespace ZZ9K.Archive

open ZZ9K.Abi ZZ9K.Framework ZZ9K.Host

def batchArenaMagic : UInt32 := 0x5a424154
def batchArenaVersion : UInt16 := 1
def batchModeTest : UInt32 := 0
def batchModeExtract : UInt32 := 1
def batchHeaderSize : UInt32 := 48
def batchDescSize : UInt32 := 32
def batchResultSize : UInt32 := 16
def batchMemberLimit : UInt32 := 1024

/-- `ZZ9KBatchLayout` -/
structure BatchLayout where
  mode : UInt32
  memberCapacity : UInt32
  descOffset : UInt32
  blobOffset : UInt32
  blobCapacity : UInt32
  outputOffset : UInt32
  outputCapacity : UInt32
  resultOffset : UInt32
  totalSize : UInt32

/-- `ZZ9KBatchParsedHeader` -/
structure BatchParsedHeader where
  mode : UInt32
  memberCount : UInt32
  descOffset : UInt32
  blobOffset : UInt32
  blobLength : UInt32
  outputOffset : UInt32
  outputCapacity : UInt32
  resultOffset : UInt32
  deriving DecidableEq

/-- `zz9k_batch_align16` -/
def batchAlign16 (value : UInt32) : UInt32 := (value+15) &&& ~~~15

/-- `zz9k_batch_range_ok` -/
def batchRangeOk (total offset length : UInt32) : Bool :=
  offset ≤ total ∧ length ≤ total-offset

/-- `zz9k_batch_ranges_overlap` -/
def batchRangesOverlap (aOff aLen bOff bLen : UInt32) : Bool :=
  let aEnd := aOff.toUInt64+aLen.toUInt64
  let bEnd := bOff.toUInt64+bLen.toUInt64
  ¬(aEnd ≤ bOff.toUInt64 ∨ bEnd ≤ aOff.toUInt64)

/-- `zz9k_batch_layout_init` -/
def batchLayoutInit (mode memberCapacity blobCapacity outputCapacity : UInt32) :
    Option BatchLayout :=
  if memberCapacity = 0 ∨ batchMemberLimit < memberCapacity ∨ blobCapacity = 0 ∨
      0x10000000 < blobCapacity ∨ 0x10000000 < outputCapacity ∨
      (mode ≠ batchModeTest ∧ mode ≠ batchModeExtract) ∨
      (mode = batchModeTest ∧ outputCapacity ≠ 0) ∨
      (mode = batchModeExtract ∧ outputCapacity = 0) then none
  else
    let blobOffset := batchAlign16 (batchHeaderSize+memberCapacity*batchDescSize)
    let cursor := batchAlign16 (blobOffset+blobCapacity)
    let extract := mode = batchModeExtract
    let resultOffset := if extract then batchAlign16 (cursor+outputCapacity) else cursor
    some {
      mode
      memberCapacity
      descOffset := batchHeaderSize
      blobOffset
      blobCapacity
      outputOffset := if extract then cursor else 0
      outputCapacity := if extract then outputCapacity else 0
      resultOffset
      totalSize := resultOffset+memberCapacity*batchResultSize }

/-- `zz9k_batch_write_header` -/
def batchWriteHeader (header : Image) (layout : BatchLayout) (memberCount blobLength : UInt32) :
    Image :=
  ((((((((((header.clear 0 48).setBe32 0 batchArenaMagic).setBe16 4 batchArenaVersion).setBe16 6
    layout.mode.toUInt16).setBe32 8 memberCount).setBe32 12 layout.descOffset).setBe32 16
    layout.blobOffset).setBe32 20 blobLength).setBe32 24 layout.outputOffset).setBe32 28
    layout.outputCapacity).setBe32 32 layout.resultOffset

/-- The fields of a header, before they are checked -/
def batchHeaderFields (arena : Image) : BatchParsedHeader where
  mode := (arena.be16 6).toUInt32
  memberCount := arena.be32 8
  descOffset := arena.be32 12
  blobOffset := arena.be32 16
  blobLength := arena.be32 20
  outputOffset := arena.be32 24
  outputCapacity := arena.be32 28
  resultOffset := arena.be32 32

/-- `zz9k_batch_parse_header` -/
def batchParseHeader (arena : Image) (arenaLength : UInt32) : Except Status BatchParsedHeader :=
  if arenaLength < batchHeaderSize then .error .badRequest
  else if arena.be32 0 ≠ batchArenaMagic then .error .badRequest
  else if arena.be16 4 ≠ batchArenaVersion then .error .unsupported
  else
    let h := batchHeaderFields arena
    let descLen := h.memberCount*batchDescSize
    let resultLen := h.memberCount*batchResultSize
    if h.mode ≠ batchModeTest ∧ h.mode ≠ batchModeExtract then .error .badRequest
    else if h.memberCount = 0 ∨ batchMemberLimit < h.memberCount then .error .badRequest
    else if ¬batchRangeOk arenaLength h.descOffset descLen ∨
        ¬batchRangeOk arenaLength h.blobOffset h.blobLength ∨
        ¬batchRangeOk arenaLength h.resultOffset resultLen then .error .badRequest
    else if h.mode = batchModeExtract ∧
        ¬batchRangeOk arenaLength h.outputOffset h.outputCapacity then .error .badRequest
    else if batchRangesOverlap 0 batchHeaderSize h.descOffset descLen ∨
        batchRangesOverlap 0 batchHeaderSize h.blobOffset h.blobLength ∨
        batchRangesOverlap 0 batchHeaderSize h.resultOffset resultLen ∨
        batchRangesOverlap h.descOffset descLen h.blobOffset h.blobLength ∨
        batchRangesOverlap h.descOffset descLen h.resultOffset resultLen ∨
        batchRangesOverlap h.blobOffset h.blobLength h.resultOffset resultLen ∨
        (h.mode = batchModeExtract ∧
          (batchRangesOverlap 0 batchHeaderSize h.outputOffset h.outputCapacity ∨
            batchRangesOverlap h.descOffset descLen h.outputOffset h.outputCapacity ∨
            batchRangesOverlap h.blobOffset h.blobLength h.outputOffset h.outputCapacity ∨
            batchRangesOverlap h.resultOffset resultLen h.outputOffset h.outputCapacity)) then
      .error .badRequest
    else .ok h

/-- `zz9k_batch_align16` on numbers -/
def align16 (n : Nat) : Nat := (n+15)/16*16

theorem batchAlign16_toNat {value : UInt32} (h : value.toNat+15 < 2^32) :
    (batchAlign16 value).toNat = align16 value.toNat := by
  have hadd : (value+15).toNat = value.toNat+15 := by
    rw [UInt32.toNat_add]
    exact Nat.mod_eq_of_lt h
  rw [batchAlign16,align16,and_not_toNat (k := 4) (by decide),hadd,show 2^4 = 16 by rfl]

theorem le_align16 (n : Nat) : n ≤ align16 n ∧ align16 n < n+16 := by
  unfold align16
  omega

/-- A range is accepted when it lies inside the arena. -/
theorem batchRangeOk_iff {total offset length : UInt32} : batchRangeOk total offset length = true ↔
    offset.toNat+length.toNat ≤ total.toNat := by
  simp only [batchRangeOk,decide_eq_true_eq,UInt32.le_iff_toNat_le]
  constructor
  · rintro ⟨ho,hl⟩
    rw [UInt32.toNat_sub_of_le _ _ (UInt32.le_iff_toNat_le.mpr ho)] at hl
    omega
  · intro h
    have ho : offset.toNat ≤ total.toNat := by omega
    rw [UInt32.toNat_sub_of_le _ _ (UInt32.le_iff_toNat_le.mpr ho)]
    omega

/-- The overlap test is exact on the ends of the ranges. -/
theorem batchRangesOverlap_eq_false {aOff aLen bOff bLen : UInt32} :
    batchRangesOverlap aOff aLen bOff bLen = false ↔
      aOff.toNat+aLen.toNat ≤ bOff.toNat ∨ bOff.toNat+bLen.toNat ≤ aOff.toNat := by
  have end_toNat (o l : UInt32) : (o.toUInt64+l.toUInt64).toNat = o.toNat+l.toNat := by
    have ho := o.toNat_lt
    have hl := l.toNat_lt
    rw [UInt64.toNat_add,UInt32.toNat_toUInt64,UInt32.toNat_toUInt64]
    exact Nat.mod_eq_of_lt (by omega)
  simp only [batchRangesOverlap,decide_eq_false_iff_not,not_not,UInt64.le_iff_toNat_le,end_toNat,
    UInt32.toNat_toUInt64]

/-- The arena an accepted layout describes, computed on numbers: nothing wraps. -/
structure BatchLayout.Exact (layout : BatchLayout) : Prop where
  mode : layout.mode = batchModeTest ∨ layout.mode = batchModeExtract
  memberCapacity : layout.memberCapacity.toNat ≤ 1024
  descOffset : layout.descOffset.toNat = 48
  blobOffset : layout.blobOffset.toNat = align16 (48+layout.memberCapacity.toNat*32)
  outputOffset : layout.outputOffset.toNat = if layout.mode = batchModeExtract then
      align16 (layout.blobOffset.toNat+layout.blobCapacity.toNat)
    else 0
  resultOffset : layout.resultOffset.toNat = if layout.mode = batchModeExtract then
      align16 (layout.outputOffset.toNat+layout.outputCapacity.toNat)
    else align16 (layout.blobOffset.toNat+layout.blobCapacity.toNat)
  totalSize : layout.totalSize.toNat = layout.resultOffset.toNat+layout.memberCapacity.toNat*16

theorem batchMember_toNat {count : UInt32} (h : count.toNat ≤ 1024) :
    (count*batchDescSize).toNat = count.toNat*32 ∧
      (count*batchResultSize).toNat = count.toNat*16 := by
  rw [UInt32.toNat_mul,UInt32.toNat_mul]
  exact ⟨Nat.mod_eq_of_lt (by simp [batchDescSize]; omega),
    Nat.mod_eq_of_lt (by simp [batchResultSize]; omega)⟩

theorem batchLayoutInit_exact {mode memberCapacity blobCapacity outputCapacity : UInt32}
    {layout : BatchLayout}
    (h : batchLayoutInit mode memberCapacity blobCapacity outputCapacity = some layout) :
    layout.Exact := by
  unfold batchLayoutInit at h
  dsimp only at h
  by_cases hbad : memberCapacity = 0 ∨ batchMemberLimit < memberCapacity ∨ blobCapacity = 0 ∨
      0x10000000 < blobCapacity ∨ 0x10000000 < outputCapacity ∨
      (mode ≠ batchModeTest ∧ mode ≠ batchModeExtract) ∨
      (mode = batchModeTest ∧ outputCapacity ≠ 0) ∨ (mode = batchModeExtract ∧ outputCapacity = 0)
  · rw [if_pos hbad] at h
    cases h
  rw [if_neg hbad] at h
  simp only [not_or,UInt32.not_lt,UInt32.le_iff_toNat_le] at hbad
  obtain ⟨_,hmembers,_,hblob,houtput,hmode,_⟩ := hbad
  have hmembers : memberCapacity.toNat ≤ 1024 := hmembers
  have hblob : blobCapacity.toNat ≤ 0x10000000 := hblob
  have houtput : outputCapacity.toNat ≤ 0x10000000 := houtput
  obtain ⟨hdescs,hresults⟩ := batchMember_toNat hmembers
  have hfirst : (batchHeaderSize+memberCapacity*batchDescSize).toNat =
      48+memberCapacity.toNat*32 := by
    rw [UInt32.toNat_add,hdescs]
    exact Nat.mod_eq_of_lt (by simp [batchHeaderSize]; omega)
  have hblobOffset : (batchAlign16 (batchHeaderSize+memberCapacity*batchDescSize)).toNat =
      align16 (48+memberCapacity.toNat*32) := by
    rw [batchAlign16_toNat (by omega),hfirst]
  generalize batchAlign16 (batchHeaderSize+memberCapacity*batchDescSize) = blobOffset at h hblobOffset
  have hb := (le_align16 (48+memberCapacity.toNat*32)).2
  have hsum : (blobOffset+blobCapacity).toNat = blobOffset.toNat+blobCapacity.toNat := by
    rw [UInt32.toNat_add]
    exact Nat.mod_eq_of_lt (by omega)
  have hcursor : (batchAlign16 (blobOffset+blobCapacity)).toNat =
      align16 (blobOffset.toNat+blobCapacity.toNat) := by
    rw [batchAlign16_toNat (by omega),hsum]
  generalize batchAlign16 (blobOffset+blobCapacity) = cursor at h hcursor
  have hc := (le_align16 (blobOffset.toNat+blobCapacity.toNat)).2
  have hsum' : (cursor+outputCapacity).toNat = cursor.toNat+outputCapacity.toNat := by
    rw [UInt32.toNat_add]
    exact Nat.mod_eq_of_lt (by omega)
  have hend : (batchAlign16 (cursor+outputCapacity)).toNat =
      align16 (cursor.toNat+outputCapacity.toNat) := by
    rw [batchAlign16_toNat (by omega),hsum']
  generalize batchAlign16 (cursor+outputCapacity) = last at h hend
  have he := (le_align16 (cursor.toNat+outputCapacity.toNat)).2
  have htotal (offset : UInt32) (ho : offset.toNat < 2^31) :
      (offset+memberCapacity*batchResultSize).toNat =
        offset.toNat+memberCapacity.toNat*16 := by
    rw [UInt32.toNat_add,hresults]
    exact Nat.mod_eq_of_lt (by omega)
  obtain rfl := Option.some.inj h
  by_cases hm : mode = batchModeExtract
  · refine ⟨Or.inr hm,hmembers,rfl,hblobOffset,?_,?_,?_⟩
    · simpa [hm] using hcursor
    · simpa [hm] using hend
    · simpa [hm] using htotal last (by omega)
  · have ht : mode = batchModeTest := by
      by_contra ht
      exact hmode ⟨ht,hm⟩
    refine ⟨Or.inl ht,hmembers,rfl,hblobOffset,?_,?_,?_⟩
    · simp [hm]
    · simpa [hm] using hcursor
    · simpa [hm] using htotal cursor (by omega)

theorem batchLayoutInit_capacity {mode memberCapacity blobCapacity outputCapacity : UInt32}
    {layout : BatchLayout}
    (h : batchLayoutInit mode memberCapacity blobCapacity outputCapacity = some layout) :
    layout.mode = mode ∧ layout.memberCapacity = memberCapacity ∧
      layout.blobCapacity = blobCapacity ∧ layout.outputCapacity = outputCapacity := by
  unfold batchLayoutInit at h
  split at h
  · cases h
  · rename_i hbad
    cases h
    refine ⟨rfl,rfl,rfl,?_⟩
    by_cases hx : mode = batchModeExtract
    · simp [hx]
    · simp only [not_or,not_and,not_not] at hbad
      obtain ⟨_,_,_,_,_,hmode,houtput,_⟩ := hbad
      have ht : mode = batchModeTest := by
        by_contra ht
        exact hx (hmode ht)
      simp [hx,houtput ht]

/-- The parts of an arena by offset and length: header, descriptor table, blob, result table and,
in EXTRACT mode, the output region -/
def BatchParsedHeader.ranges (h : BatchParsedHeader) : List (Nat × Nat) :=
  [(0,48),(h.descOffset.toNat,h.memberCount.toNat*32),(h.blobOffset.toNat,h.blobLength.toNat),
    (h.resultOffset.toNat,h.memberCount.toNat*16)] ++
  if h.mode = batchModeExtract then [(h.outputOffset.toNat,h.outputCapacity.toNat)] else []

/-- The same as sets of bytes -/
def BatchParsedHeader.regions (h : BatchParsedHeader) : List (Set Nat) :=
  h.ranges.map fun r => Set.Ico r.1 (r.1+r.2)

/-- One range ends before the other begins. -/
def Apart (a b : Nat × Nat) : Prop := a.1+a.2 ≤ b.1 ∨ b.1+b.2 ≤ a.1

theorem Apart.disjoint {a b : Nat × Nat} (h : Apart a b) :
    Disjoint (Set.Ico a.1 (a.1+a.2)) (Set.Ico b.1 (b.1+b.2)) := by
  rw [Set.Ico_disjoint_Ico]
  rcases h with h | h
  · exact (min_le_left _ _).trans (h.trans (le_max_right _ _))
  · exact (min_le_right _ _).trans (h.trans (le_max_left _ _))

/-- What the validator establishes about a header -/
structure BatchParsedHeader.Sound (h : BatchParsedHeader) (arenaLength : Nat) : Prop where
  mode : h.mode = batchModeTest ∨ h.mode = batchModeExtract
  memberCount : 1 ≤ h.memberCount.toNat ∧ h.memberCount.toNat ≤ 1024
  inside : ∀ r ∈ h.ranges, r.1+r.2 ≤ arenaLength
  apart : h.ranges.Pairwise Apart

theorem batchRangesOverlap_iff {aOff aLen bOff bLen : UInt32} :
    batchRangesOverlap aOff aLen bOff bLen = true ↔
      ¬Apart (aOff.toNat,aLen.toNat) (bOff.toNat,bLen.toNat) := by
  have h := @batchRangesOverlap_eq_false aOff aLen bOff bLen
  rw [← Bool.not_eq_false,h]
  rfl

/-- A header is accepted exactly when it is sound. -/
theorem batchParseHeader_eq_ok {arena : Image} {arenaLength : UInt32} {h : BatchParsedHeader} :
    batchParseHeader arena arenaLength = .ok h ↔ 48 ≤ arenaLength.toNat ∧
      arena.be32 0 = batchArenaMagic ∧ arena.be16 4 = batchArenaVersion ∧
      h = batchHeaderFields arena ∧ h.Sound arenaLength.toNat := by
  unfold batchParseHeader
  dsimp only
  by_cases hlen : arenaLength < batchHeaderSize
  · rw [if_pos hlen]
    have hshort : ¬48 ≤ arenaLength.toNat := Nat.not_le.mpr (UInt32.lt_iff_toNat_lt.mp hlen)
    simp [hshort]
  have hlong : 48 ≤ arenaLength.toNat := UInt32.le_iff_toNat_le.mp (UInt32.not_lt.mp hlen)
  rw [if_neg hlen]
  by_cases hmagic : arena.be32 0 = batchArenaMagic
  swap
  · simp [hmagic]
  by_cases hversion : arena.be16 4 = batchArenaVersion
  swap
  · simp [hmagic,hversion]
  rw [if_neg (not_not_intro hmagic),if_neg (not_not_intro hversion)]
  simp only [hlong,hmagic,hversion,true_and]
  generalize batchHeaderFields arena = f
  by_cases hmode : f.mode ≠ batchModeTest ∧ f.mode ≠ batchModeExtract
  · rw [if_pos hmode]
    constructor
    · exact fun h => nomatch h
    · rintro ⟨rfl,hs⟩
      exact absurd hs.mode (by simpa using hmode)
  rw [if_neg hmode]
  by_cases hcount : f.memberCount = 0 ∨ batchMemberLimit < f.memberCount
  · rw [if_pos hcount]
    constructor
    · exact fun h => nomatch h
    · rintro ⟨rfl,hs⟩
      obtain ⟨h1,h2⟩ := hs.memberCount
      rcases hcount with h0 | hmany
      · simp [h0] at h1
      · have hmany : 1024 < h.memberCount.toNat := UInt32.lt_iff_toNat_lt.mp hmany
        omega
  rw [if_neg hcount]
  have hmode : f.mode = batchModeTest ∨ f.mode = batchModeExtract := by
    by_contra hno
    exact hmode (not_or.mp hno)
  obtain ⟨hpos,hmany⟩ := not_or.mp hcount
  have hmany : f.memberCount.toNat ≤ 1024 := UInt32.le_iff_toNat_le.mp (UInt32.not_lt.mp hmany)
  have hpos : 1 ≤ f.memberCount.toNat := by
    apply Nat.one_le_iff_ne_zero.mpr
    exact fun h0 => hpos (UInt32.toNat_inj.mp h0)
  obtain ⟨hdescs,hresults⟩ := batchMember_toNat hmany
  have hsize : batchHeaderSize.toNat = 48 := rfl
  simp only [batchRangeOk_iff,hdescs,hresults]
  have hinside : (∀ r ∈ f.ranges, r.1+r.2 ≤ arenaLength.toNat) ↔
      f.descOffset.toNat+f.memberCount.toNat*32 ≤ arenaLength.toNat ∧
      f.blobOffset.toNat+f.blobLength.toNat ≤ arenaLength.toNat ∧
      f.resultOffset.toNat+f.memberCount.toNat*16 ≤ arenaLength.toNat ∧
      (f.mode = batchModeExtract →
        f.outputOffset.toNat+f.outputCapacity.toNat ≤ arenaLength.toNat) := by
    by_cases hx : f.mode = batchModeExtract <;> simp [BatchParsedHeader.ranges,hx,hlong]
  by_cases hranges : ¬f.descOffset.toNat+f.memberCount.toNat*32 ≤ arenaLength.toNat ∨
      ¬f.blobOffset.toNat+f.blobLength.toNat ≤ arenaLength.toNat ∨
      ¬f.resultOffset.toNat+f.memberCount.toNat*16 ≤ arenaLength.toNat
  · rw [if_pos hranges]
    constructor
    · exact fun h => nomatch h
    · rintro ⟨rfl,hs⟩
      have hin := hinside.mp hs.inside
      omega
  rw [if_neg hranges]
  by_cases houtput : f.mode = batchModeExtract ∧
      ¬f.outputOffset.toNat+f.outputCapacity.toNat ≤ arenaLength.toNat
  · rw [if_pos houtput]
    constructor
    · exact fun h => nomatch h
    · rintro ⟨rfl,hs⟩
      exact absurd ((hinside.mp hs.inside).2.2.2 houtput.1) houtput.2
  rw [if_neg houtput]
  have hinside := hinside.mpr ⟨by omega,by omega,by omega,fun hx => by
    by_contra hno
    exact houtput ⟨hx,hno⟩⟩
  split
  · rename_i hoverlap
    simp only [batchRangesOverlap_iff,hdescs,hresults,UInt32.toNat_zero,hsize] at hoverlap
    constructor
    · exact fun h => nomatch h
    · rintro ⟨rfl,hs⟩
      have hapart := hs.apart
      by_cases hx : h.mode = batchModeExtract
      all_goals
        simp [BatchParsedHeader.ranges,hx] at hapart
        simp [hapart,hx] at hoverlap
  · rename_i hoverlap
    simp only [batchRangesOverlap_iff,hdescs,hresults,UInt32.toNat_zero,hsize] at hoverlap
    constructor
    · rintro ⟨rfl⟩
      refine ⟨rfl,hmode,⟨hpos,hmany⟩,hinside,?_⟩
      simp only [not_or,not_not,not_and] at hoverlap
      by_cases hx : h.mode = batchModeExtract
      all_goals simp [BatchParsedHeader.ranges,hx,hoverlap]
    · rintro ⟨rfl,_⟩
      rfl

/-- The header that a layout and a chunk call for -/
def BatchLayout.header (layout : BatchLayout) (memberCount blobLength : UInt32) :
    BatchParsedHeader where
  mode := layout.mode
  memberCount
  descOffset := layout.descOffset
  blobOffset := layout.blobOffset
  blobLength
  outputOffset := layout.outputOffset
  outputCapacity := layout.outputCapacity
  resultOffset := layout.resultOffset

/-- What is written is what is read. -/
theorem batchWriteHeader_read (header : Image) {layout : BatchLayout} (hl : layout.Exact)
    (memberCount blobLength : UInt32) :
    let arena := batchWriteHeader header layout memberCount blobLength
    arena.be32 0 = batchArenaMagic ∧ arena.be16 4 = batchArenaVersion ∧
      batchHeaderFields arena = layout.header memberCount blobLength := by
  have hmode : layout.mode.toUInt16.toUInt32 = layout.mode := by
    rcases hl.mode with h | h <;> rw [h] <;> rfl
  unfold batchWriteHeader batchHeaderFields BatchLayout.header
  simp (disch := omega) only [Image.be32_setBe32_of_disjoint,Image.be32_setBe16_of_disjoint,
    Image.be16_setBe32_of_disjoint,Image.be16_setBe16_of_disjoint,Image.be32_setBe32,
    Image.be16_setBe16,hmode,and_self]

/-- The parts of an exact layout follow one another. -/
theorem BatchLayout.Exact.sound {layout : BatchLayout} (hl : layout.Exact)
    {memberCount blobLength : UInt32} (hm : 1 ≤ memberCount.toNat)
    (hm' : memberCount ≤ layout.memberCapacity) (hb : blobLength ≤ layout.blobCapacity) :
    (layout.header memberCount blobLength).Sound layout.totalSize.toNat := by
  rw [UInt32.le_iff_toNat_le] at hm' hb
  have hcap := hl.memberCapacity
  have hdesc := hl.descOffset
  have hblob := hl.blobOffset
  have hout := hl.outputOffset
  have hres := hl.resultOffset
  have htotal := hl.totalSize
  have h1 := (le_align16 (48+layout.memberCapacity.toNat*32)).1
  have h2 := (le_align16 (layout.blobOffset.toNat+layout.blobCapacity.toNat)).1
  have h3 := (le_align16 (layout.outputOffset.toNat+layout.outputCapacity.toNat)).1
  refine ⟨hl.mode,⟨hm,hm'.trans hcap⟩,?_,?_⟩
  all_goals
    by_cases hx : layout.mode = batchModeExtract
    · rw [if_pos hx] at hout hres
      simp [BatchParsedHeader.ranges,BatchLayout.header,hx,Apart]
      omega
    · rw [if_neg hx] at hres
      simp [BatchParsedHeader.ranges,BatchLayout.header,hx,Apart]
      omega

/-- Whatever the arena's writer lays out its parser accepts as written, and whatever the parser
accepts is laid out without overlap inside the arena. -/
theorem batch_arena_agrees :
    (∀ mode memberCapacity blobCapacity outputCapacity layout,
      batchLayoutInit mode memberCapacity blobCapacity outputCapacity = some layout →
      (layout.mode = mode ∧ layout.memberCapacity = memberCapacity ∧
        layout.blobCapacity = blobCapacity ∧ layout.outputCapacity = outputCapacity) ∧
      layout.Exact ∧ ∀ (header : Image) (memberCount blobLength : UInt32),
        1 ≤ memberCount → memberCount ≤ memberCapacity → blobLength ≤ blobCapacity →
        batchParseHeader (batchWriteHeader header layout memberCount blobLength)
          layout.totalSize = .ok (layout.header memberCount blobLength)) ∧
    ∀ (arena : Image) (arenaLength : UInt32) (h : BatchParsedHeader),
      batchParseHeader arena arenaLength = .ok h →
      h.regions.Pairwise Disjoint ∧ ∀ r ∈ h.regions, r ⊆ Set.Ico 0 arenaLength.toNat := by
  constructor
  · intro mode memberCapacity blobCapacity outputCapacity layout hinit
    have hl := batchLayoutInit_exact hinit
    have hcapacity := batchLayoutInit_capacity hinit
    refine ⟨hcapacity,hl,fun header memberCount blobLength hm hm' hb => ?_⟩
    obtain ⟨_,hmembers,hblobs,_⟩ := hcapacity
    rw [← hmembers] at hm'
    rw [← hblobs] at hb
    have hsound := hl.sound (UInt32.le_iff_toNat_le.mp hm) hm' hb
    obtain ⟨hmagic,hversion,hfields⟩ := batchWriteHeader_read header hl memberCount blobLength
    have hlong : 48 ≤ layout.totalSize.toNat := hsound.inside (0,48) (by simp [BatchParsedHeader.ranges])
    exact batchParseHeader_eq_ok.mpr ⟨hlong,hmagic,hversion,hfields.symm,hsound⟩
  · intro arena arenaLength h hok
    obtain ⟨_,_,_,_,hsound⟩ := batchParseHeader_eq_ok.mp hok
    constructor
    · rw [BatchParsedHeader.regions,List.pairwise_map]
      exact hsound.apart.imp Apart.disjoint
    · intro r hr
      obtain ⟨x,hx,rfl⟩ := List.mem_map.mp hr
      have hin := hsound.inside x hx
      exact Set.Ico_subset_Ico (Nat.zero_le _) hin

/-- An arena to extract up to eight members in, with three in it -/
theorem batch_arena_agrees_extract : ∃ layout, batchLayoutInit 1 8 4096 8192 = some layout ∧
    ∃ h, batchParseHeader (batchWriteHeader (fun _ => 0) layout 3 100) layout.totalSize = .ok h ∧
      h.regions.Pairwise Disjoint := by
  have hinit := Option.some_get (x := batchLayoutInit 1 8 4096 8192) (by decide)
  obtain ⟨_,_,hok⟩ := batch_arena_agrees.1 _ _ _ _ _ hinit.symm
  have hparse := hok (fun _ => 0) 3 100 (by decide) (by decide) (by decide)
  exact ⟨_,hinit.symm,_,hparse,(batch_arena_agrees.2 _ _ _ hparse).1⟩

end ZZ9K.Archive
