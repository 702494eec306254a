import Mathlib.Data.List.GetD
import ZZ9K.Archive.SevenZipHeader

namespace ZZ9K.Archive

open ZZ9K.Framework ZZ9K.Framework.Parse

/-- The bit of a vector that stands at `base` of a header, as `zz9k_archive_7z_bit_is_set` sees it -/
def headerBit (data : Bytes) (base bit : Nat) : Bool :=
  (data.getD (base+bit/8) 0).toNat &&& (0x80 >>> (bit%8)) ≠ 0

/-- Which of so many bits from `bit` on are set -/
def headerBits (data : Bytes) (base left bit : Nat) : List Bool :=
  (List.range' bit left).map (headerBit data base)

/-- Which of so many digests that stand at `pos` are defined -/
def digestMarks (data : Bytes) (itemCount pos : Nat) : List Bool :=
  if data.getD pos 0 = 0 then headerBits data (pos+1) itemCount 0 else List.replicate itemCount true

theorem headerBits_succ (data : Bytes) (base left bit : Nat) :
    headerBits data base (left+1) bit = headerBit data base bit::headerBits data base left (bit+1) := by
  simp [headerBits,List.range'_succ]

theorem headerBits_add (data : Bytes) (base m n bit : Nat) : headerBits data base (m+n) bit =
    headerBits data base m bit++headerBits data base n (bit+m) := by
  rw [headerBits,headerBits,headerBits,← List.map_append,List.range'_append_1]

theorem headerBits_length (data : Bytes) (base left bit : Nat) :
    (headerBits data base left bit).length = left := by simp [headerBits]

theorem sevenZipFits_iff {size pos length : Nat} :
    sevenZipFits size pos length = true ↔ pos+length ≤ size := by
  simp [sevenZipFits]
  omega

theorem not_sevenZipFits_iff {size pos length : Nat} :
    sevenZipFits size pos length = false ↔ size < pos+length := by
  rw [← Bool.not_eq_true,sevenZipFits_iff,Nat.not_le]

section

variable {data : Bytes} {pos : Nat}

theorem sevenZipReadByte_meets (hpos : pos ≤ data.length) : (sevenZipReadByte data.length).Meets data
    (fun b pos' => b = data.getD pos 0 ∧ pos' = pos+1) pos := by
  refine meets_bind (meets_position hpos ?_)
  split
  · exact meets_fail hpos
  · rename_i hlt
    have hlt : pos < data.length := Nat.not_le.mp hlt
    refine meets_bind (meets_peek hpos hlt (meets_bind (meets_advance hlt ?_)))
    apply meets_pure hlt
    exact ⟨(List.getD_eq_getElem data 0 hlt).symm,rfl⟩

theorem sevenZipSkip_meets (hpos : pos ≤ data.length) (length : Nat) :
    (sevenZipSkip data.length length).Meets data (fun _ _ => True) pos := by
  refine meets_bind (meets_position hpos ?_)
  split
  · exact meets_fail hpos
  · rename_i hfits
    rw [not_or,Bool.not_eq_false,sevenZipFits_iff] at hfits
    exact meets_advance hfits.2 trivial

theorem sevenZipReadNumberLoop_meets (first : Nat) (left out : Nat) (hpos : pos ≤ data.length) :
    (sevenZipReadNumberLoop data.length first left out).Meets data (fun _ _ => True) pos := by
  induction left generalizing out pos with
  | zero => exact meets_pure hpos trivial
  | succ left ih =>
    rw [sevenZipReadNumberLoop]
    split
    · exact meets_pure hpos trivial
    · refine meets_bind ((sevenZipReadByte_meets hpos).mono ?_)
      intro b pos' _ hlen _
      exact ih _ hlen

theorem sevenZipReadNumber_meets (hpos : pos ≤ data.length) :
    (sevenZipReadNumber data.length).Meets data (fun _ pos' => pos < pos') pos := by
  refine meets_bind ((sevenZipReadByte_meets hpos).mono ?_)
  rintro first _ _ hlen ⟨_,rfl⟩
  split
  · exact meets_pure hlen (Nat.lt_succ_self pos)
  · apply (sevenZipReadNumberLoop_meets first.toNat 8 0 hlen).mono
    intro n pos' hle _ _
    exact hle

theorem sevenZipSkipProperty_meets (hpos : pos ≤ data.length) :
    (sevenZipSkipProperty data.length).Meets data (fun _ pos' => pos < pos') pos := by
  refine meets_bind ((sevenZipReadNumber_meets hpos).mono ?_)
  intro length pos' _ hlen hlt
  apply (sevenZipSkip_meets hlen length).mono
  intro _ pos'' hle _ _
  exact Nat.lt_of_lt_of_le hlt hle

theorem yields_peek_getD {i : Nat} (hi : i < data.length) :
    (peek i : HeaderParse UInt8).Yields data pos (data.getD i 0) pos :=
  yields_peek (by rw [List.getD_eq_getElem data 0 hi,List.getElem?_eq_getElem hi])

theorem sevenZipBitIsSet_yields {base bit : Nat} (hbit : base+bit/8 < data.length) :
    (sevenZipBitIsSet base bit).Yields data pos (headerBit data base bit) pos :=
  (yields_peek_getD hbit).bind rfl

theorem sevenZipCountBitsLoop_yields {base : Nat} (left bit : Nat)
    (hbits : base+(bit+left+7)/8 ≤ data.length) : (sevenZipCountBitsLoop base left bit).Yields data pos
      ((headerBits data base left bit).count true) pos := by
  induction left generalizing bit with
  | zero => rfl
  | succ left ih =>
    apply (sevenZipBitIsSet_yields (by omega)).bind
    apply (ih (bit+1) (by omega)).bind
    rw [yields_pure,headerBits_succ,List.count_cons,Nat.add_comm]
    simp

theorem sevenZipCountBits_yields {base bitCount : Nat} (hbits : base+(bitCount+7)/8 ≤ data.length) :
    (sevenZipCountBits base bitCount).Yields data pos
      ((headerBits data base bitCount 0).count true) pos :=
  sevenZipCountBitsLoop_yields bitCount 0 (by omega)

/-- The number of four bytes at a place of a header, the low byte first -/
def headerLe32 (data : Bytes) (o : Nat) : Nat :=
  (data.getD o 0).toNat+2^8*(data.getD (o+1) 0).toNat+2^16*(data.getD (o+2) 0).toNat+
    2^24*(data.getD (o+3) 0).toNat

theorem sevenZipGetLe32_yields {o : Nat} (ho : o+4 ≤ data.length) :
    (sevenZipGetLe32 o).Yields data pos (headerLe32 data o) pos := by
  apply (yields_peek_getD (by omega)).bind
  apply (yields_peek_getD (by omega)).bind
  apply (yields_peek_getD (by omega)).bind
  exact (yields_peek_getD (by omega)).bind rfl

/-- Which digests the loop finds defined -/
def digestMarksFrom (data : Bytes) (definedBits : Option Nat) (left i : Nat) : List Bool :=
  match definedBits with
  | none => List.replicate left true
  | some base => headerBits data base left i

theorem sevenZipIsDefined_yields {definedBits : Option Nat} {mark : Bool} {marks : List Bool}
    {left i : Nat} (hmark : digestMarksFrom data definedBits (left+1) i = mark::marks)
    (hbits : ∀ base ∈ definedBits,base+(i+left+8)/8 ≤ data.length) :
    (sevenZipIsDefined definedBits i).Yields data pos mark pos := by
  cases definedBits with
  | none =>
    cases hmark
    rfl
  | some base =>
    obtain ⟨rfl,_⟩ := List.cons.inj ((headerBits_succ data base left i).symm.trans hmark)
    have hlen := hbits base rfl
    exact sevenZipBitIsSet_yields (by omega)

theorem sevenZipReadDigestsLoop_meets (definedBits : Option Nat) (left i : Nat)
    (hpos : pos+4*(digestMarksFrom data definedBits left i).count true ≤ data.length)
    (hbits : ∀ base ∈ definedBits,base+(i+left+7)/8 ≤ data.length) :
    (sevenZipReadDigestsLoop definedBits left i).Meets data
      (fun ds pos' => ds.map Option.isSome = digestMarksFrom data definedBits left i ∧
        pos' = pos+4*(digestMarksFrom data definedBits left i).count true) pos := by
  induction left generalizing i pos with
  | zero =>
    have hempty : digestMarksFrom data definedBits 0 i = [] := by cases definedBits <;> rfl
    rw [hempty] at hpos ⊢
    exact meets_pure (by omega) ⟨rfl,rfl⟩
  | succ left ih =>
    obtain ⟨mark,hmark⟩ : ∃ mark,digestMarksFrom data definedBits (left+1) i =
        mark::digestMarksFrom data definedBits left (i+1) := by
      cases definedBits with
      | none => exact ⟨true,rfl⟩
      | some base => exact ⟨_,headerBits_succ data base left i⟩
    rw [hmark,List.count_cons] at hpos ⊢
    apply (sevenZipIsDefined_yields hmark hbits).meets_bind (Nat.le_refl _)
    have hbits' : ∀ base ∈ definedBits,base+(i+1+left+7)/8 ≤ data.length := by
      intro base hbase
      have hlen := hbits base hbase
      rwa [show i+1+left = i+(left+1) by omega]
    cases mark with
    | false =>
      refine meets_bind (meets_pure (by omega) ?_)
      refine meets_bind ((ih (i+1) (by simpa using hpos) hbits').mono ?_)
      rintro ds _ _ hlen ⟨hds,rfl⟩
      refine meets_pure hlen ⟨?_,by simp⟩
      rw [List.map_cons,hds]
      rfl
    | true =>
      simp only [beq_self_eq_true,if_true] at hpos ⊢
      refine meets_bind (meets_bind (meets_position (by omega) ?_))
      apply (sevenZipGetLe32_yields (by omega)).meets_bind (Nat.le_refl _)
      refine meets_bind (meets_advance (by omega) (meets_pure (by omega) ?_))
      refine meets_bind ((ih (i+1) (by omega) hbits').mono ?_)
      rintro ds _ _ hlen ⟨hds,rfl⟩
      refine meets_pure hlen ⟨?_,by omega⟩
      rw [List.map_cons,hds]
      rfl

theorem sevenZipReadDigests_meets (itemCount : Nat) (hpos : pos ≤ data.length) :
    (sevenZipReadDigests data.length itemCount).Meets data
      (fun ds pos' => ds.map Option.isSome = digestMarks data itemCount pos ∧
        pos' = pos+1+(if data.getD pos 0 = 0 then (itemCount+7)/8 else 0)+
          4*(digestMarks data itemCount pos).count true) pos := by
  refine meets_bind ((sevenZipReadByte_meets hpos).mono ?_)
  rintro allDefined _ _ hlen ⟨hall,rfl⟩
  rw [← hall]
  refine meets_bind (meets_position hlen ?_)
  split
  · exact meets_fail hlen
  · rename_i hfits
    by_cases hdefined : allDefined = 0
    · -- the bits stand behind the byte, and the digests behind the bits
      have hmarks : digestMarks data itemCount pos = headerBits data (pos+1) itemCount 0 := by
        rw [digestMarks,← hall,if_pos hdefined]
      have hbits : pos+1+(itemCount+7)/8 ≤ data.length := by
        simpa [hdefined,sevenZipFits_iff] using hfits
      rw [hmarks,if_pos hdefined,if_pos hdefined,if_pos hdefined]
      refine meets_bind ((sevenZipCountBits_yields hbits).meets_bind (Nat.le_refl _) ?_)
      refine meets_bind (meets_advance hbits (meets_pure hbits ?_))
      refine meets_bind (meets_position hbits ?_)
      split
      · exact meets_fail hbits
      · rename_i hroom
        rw [not_or,Bool.not_eq_false,sevenZipFits_iff] at hroom
        refine sevenZipReadDigestsLoop_meets (some (pos+1)) itemCount 0 ?_ ?_
        · have hle := hroom.2
          rwa [Nat.mul_comm] at hle
        · rintro base ⟨⟩
          omega
    · have hmarks : digestMarks data itemCount pos = List.replicate itemCount true := by
        rw [digestMarks,← hall,if_neg hdefined]
      rw [hmarks,if_neg hdefined,if_neg hdefined,if_neg hdefined,Nat.add_zero]
      refine meets_bind (meets_pure hlen (meets_bind (meets_position hlen ?_)))
      split
      · exact meets_fail hlen
      · rename_i hroom
        rw [not_or,Bool.not_eq_false,sevenZipFits_iff] at hroom
        refine sevenZipReadDigestsLoop_meets none itemCount 0 ?_ nofun
        have hle := hroom.2
        simpa [digestMarksFrom,Nat.mul_comm] using hle

theorem sevenZipCountsLoop_meets (left before : Nat) (hpos : pos ≤ data.length) :
    (sevenZipCountsLoop data.length left before).Meets data (fun counts _ => counts.length = left)
      pos := by
  induction left generalizing before pos with
  | zero => exact meets_pure hpos rfl
  | succ left ih =>
    refine meets_bind ((sevenZipReadNumber_meets hpos).mono ?_)
    intro count _ _ hlen _
    split
    · exact meets_fail hlen
    · refine meets_bind ((ih (before+count) hlen).mono ?_)
      intro counts _ _ hlen hcounts
      apply meets_pure hlen
      rw [List.length_cons,hcounts]

theorem sevenZipFolderSizesLoop_meets (unpackSize left total : Nat) (hpos : pos ≤ data.length) :
    (sevenZipFolderSizesLoop data.length unpackSize left total).Meets data (fun _ _ => True) pos := by
  induction left generalizing total pos with
  | zero => exact meets_pure hpos trivial
  | succ left ih =>
    refine meets_bind ((sevenZipReadNumber_meets hpos).mono ?_)
    intro substreamSize _ _ hlen _
    split
    · exact meets_fail hlen
    · refine meets_bind ((ih (total+substreamSize) hlen).mono ?_)
      intro _ _ _ hlen _
      exact meets_pure hlen trivial

theorem sevenZipSizesLoop_meets (folders : List (SevenZipStream × Nat)) (hpos : pos ≤ data.length) :
    (sevenZipSizesLoop data.length folders).Meets data (fun _ _ => True) pos := by
  induction folders generalizing pos with
  | nil => exact meets_pure hpos trivial
  | cons folder folders ih =>
    refine meets_bind ((sevenZipFolderSizesLoop_meets _ _ 0 hpos).mono ?_)
    intro _ _ _ hlen _
    refine meets_bind ((ih hlen).mono ?_)
    intro _ _ _ hlen _
    exact meets_pure hlen trivial

/-- A round moves the cursor, and there is a count for each folder before and after. -/
theorem sevenZipSubstreamsRound_meets {folders : List SevenZipStream} {sub : SevenZipSubstreams}
    (hcounts : sub.counts.length = folders.length) (hpos : pos ≤ data.length) :
    (sevenZipSubstreamsRound data.length folders sub).Meets data
      (fun r pos' => (r.elim id id).counts.length = folders.length ∧ pos < pos') pos := by
  refine meets_bind ((sevenZipReadNumber_meets hpos).mono ?_)
  intro type pos' _ hlen hlt
  split
  · split
    · exact meets_pure hlen ⟨hcounts,hlt⟩
    · split
      · exact meets_fail hlen
      · exact meets_pure hlen ⟨hcounts,hlt⟩
  split
  · split
    · exact meets_fail hlen
    · refine meets_bind ((sevenZipCountsLoop_meets _ 0 hlen).mono ?_)
      intro counts pos'' hle hlen hread
      exact meets_pure hlen ⟨hread,Nat.lt_of_lt_of_le hlt hle⟩
  split
  · split
    · exact meets_fail hlen
    · refine meets_bind ((sevenZipSizesLoop_meets _ hlen).mono ?_)
      intro sizes pos'' hle hlen _
      exact meets_pure hlen ⟨hcounts,Nat.lt_of_lt_of_le hlt hle⟩
  split
  · split
    · exact meets_fail hlen
    · refine meets_bind ((sevenZipReadDigests_meets _ hlen).mono ?_)
      intro digests pos'' hle hlen _
      exact meets_pure hlen ⟨hcounts,Nat.lt_of_lt_of_le hlt hle⟩
  · exact meets_fail hlen

theorem sevenZipSubstreamsLoop_meets {folders : List SevenZipStream} {sub : SevenZipSubstreams}
    (hcounts : sub.counts.length = folders.length) (hpos : pos ≤ data.length) {fuel : Nat}
    (hfuel : data.length-pos < fuel) :
    (Parse.loop (sevenZipSubstreamsRound data.length folders) fuel sub).Meets data
      (fun sub pos' => sub.counts.length = folders.length ∧ pos < pos') pos := by
  refine meets_loop (I := fun sub pos' => sub.counts.length = folders.length ∧ pos ≤ pos' ∧
    pos' ≤ data.length) ?_ hfuel ⟨hcounts,Nat.le_refl _,hpos⟩
  rintro sub p ⟨hcounts,hle,hp⟩
  apply (sevenZipSubstreamsRound_meets hcounts hp).mono
  intro r p' _ hp' hr
  cases r with
  | inl sub => exact ⟨hr.1,Nat.lt_of_le_of_lt hle hr.2⟩
  | inr sub => exact ⟨⟨hr.1,by omega,hp'⟩,hr.2⟩

end

end ZZ9K.Archive
