import Mathlib.Data.List.TakeWhile
import ZZ9K.Archive.SevenZipFormat

namespace ZZ9K.Archive

open ZZ9K.Framework ZZ9K.Framework.Parse

/-- A folder and its substreams, each with its size and, if it has one, its checksum. A checksum of
the folder is that of its one substream. -/
structure DividedFolder where
  folder : SevenZipStream
  parts : List (Nat × Option Nat)
  unpackSize_le : folder.unpackSize ≤ 0x7fffffff
  sizes_sum : parts ≠ [] → (parts.map Prod.fst).sum = folder.unpackSize
  crc_lt : ∀ part ∈ parts,∀ crc ∈ part.2,crc < 2^32
  crc_own : parts.length = 1 → folder.crc.isSome = true → ∀ part ∈ parts,part.2 = folder.crc

namespace DividedFolder

/-- The folder has one substream, and its checksum is known from the folder. -/
def known (f : DividedFolder) : Bool := f.parts.length = 1 ∧ f.folder.crc.isSome = true

def crcs (f : DividedFolder) : List (Option Nat) := f.parts.map Prod.snd

/-- The checksums for which the format has digests -/
def unknownCrcs (f : DividedFolder) : List (Option Nat) := if f.known then [] else f.crcs

/-- The sizes that the format writes: the last one follows from the others. -/
def storedSizes (f : DividedFolder) : List Nat := (f.parts.map Prod.fst).dropLast

end DividedFolder

def substreamCount (division : List DividedFolder) : Nat :=
  (division.map fun f => f.parts.length).sum

/-- Whether the checksums are left out, all given, or given with a bit for each -/
inductive DigestsForm
  | absent
  | allDefined
  | bits

/-- The bytes that the format may write for checksums -/
inductive WritesDigests : DigestsForm → List (Option Nat) → Bytes → Prop
  | absent {digests : List (Option Nat)} :
    (∀ digest ∈ digests,digest = none) → WritesDigests .absent digests []
  | allDefined {digests : List (Option Nat)} {mark : UInt8} :
    (∀ digest ∈ digests,digest.isSome = true) → mark ≠ 0 →
      WritesDigests .allDefined digests (0x0a::mark::digestBytes digests)
  | bits {digests : List (Option Nat)} :
    WritesDigests .bits digests (0x0a::0::(bitVector (digests.map Option.isSome)++digestBytes digests))

/-- The bytes for how many substreams the folders have: none, if each has one -/
def WritesCounts (division : List DividedFolder) (bytes : Bytes) : Prop :=
  (∀ f ∈ division,f.parts.length = 1) ∧ bytes = [] ∨
    ∃ numbers,WritesNumbers (division.map fun f => f.parts.length) numbers ∧ bytes = 0x0d::numbers

/-- The bytes for the sizes: none, if no size has to be written -/
def WritesSizes (division : List DividedFolder) (bytes : Bytes) : Prop :=
  (∀ f ∈ division,f.storedSizes = []) ∧ bytes = [] ∨
    ∃ numbers,WritesNumbers (division.flatMap DividedFolder.storedSizes) numbers ∧
      bytes = 0x09::numbers

/-- A section that the format may write for the substreams of folders -/
def WritesSubstreams (form : DigestsForm) (division : List DividedFolder) (bytes : Bytes) : Prop :=
  ∃ counts sizes digests,WritesCounts division counts ∧ WritesSizes division sizes ∧
    WritesDigests form (division.flatMap DividedFolder.unknownCrcs) digests ∧
    bytes = counts++(sizes++(digests++[0x00]))

/-- The digests of the section stand where the parser looks for them: one for each substream. -/
def DigestsAligned (division : List DividedFolder) : DigestsForm → Prop
  | .absent => True
  | .allDefined => ∀ f ∈ division,f.known = false
  | .bits => ((division.flatMap DividedFolder.unknownCrcs).length+7)/8 = (substreamCount division+7)/8 ∧
    ∀ f ∈ division.dropWhile (! ·.known),∀ digest ∈ f.unknownCrcs,digest = none

namespace DividedFolder

@[simp] theorem crcs_length (f : DividedFolder) : f.crcs.length = f.parts.length := by simp [crcs]

theorem known_iff {f : DividedFolder} :
    f.known = true ↔ f.parts.length = 1 ∧ f.folder.crc.isSome = true := by simp [known]

theorem crcs_of_known {f : DividedFolder} (h : f.known = true) : f.crcs = [f.folder.crc] := by
  obtain ⟨hone,hcrc⟩ := known_iff.mp h
  obtain ⟨part,hpart⟩ := List.length_eq_one_iff.mp hone
  have hown := f.crc_own hone hcrc part (by simp [hpart])
  simp [crcs,hpart,hown]

/-- The checksum that a substream gets, with its digest -/
def crcWith (f : DividedFolder) (digest : Option Nat) : Option Nat :=
  if digest.isSome then digest else if f.parts.length = 1 then f.folder.crc else none

theorem crcWith_of_unknown {f : DividedFolder} (h : f.known = false) (digest : Option Nat) :
    f.crcWith digest = digest := by
  cases digest with
  | some crc => rfl
  | none =>
    have hnot : ¬ (f.parts.length = 1 ∧ f.folder.crc.isSome = true) := by
      rw [← known_iff,h]
      decide
    rw [crcWith,if_neg (by decide)]
    split
    · rename_i hone
      rw [not_and,Bool.not_eq_true,Option.isSome_eq_false_iff,Option.isNone_iff_eq_none] at hnot
      exact hnot hone
    · rfl

end DividedFolder

/-- The checksums that the substreams get, with a digest for each -/
def crcsWith : List DividedFolder → List (Option Nat) → List (Option Nat)
  | [],_ => []
  | f::fs,digests =>
    (digests.take f.parts.length).map f.crcWith++crcsWith fs (digests.drop f.parts.length)

@[simp] theorem substreamCount_cons (f : DividedFolder) (fs : List DividedFolder) :
    substreamCount (f::fs) = f.parts.length+substreamCount fs := by simp [substreamCount]

/-- Without any digest the checksums are right if none is stored. -/
theorem crcsWith_none {division : List DividedFolder}
    (h : ∀ f ∈ division,∀ digest ∈ f.unknownCrcs,digest = none) :
    crcsWith division (List.replicate (substreamCount division) none) =
      division.flatMap DividedFolder.crcs := by
  induction division with
  | nil => rfl
  | cons f fs ih =>
    rw [crcsWith,substreamCount_cons,List.take_replicate,List.drop_replicate,
      Nat.min_eq_left (Nat.le_add_right _ _),Nat.add_sub_cancel_left,
      ih fun f hf => h f (List.mem_cons_of_mem _ hf),List.map_replicate,List.flatMap_cons]
    congr 1
    cases hknown : f.known with
    | true =>
      obtain ⟨hone,_⟩ := DividedFolder.known_iff.mp hknown
      rw [DividedFolder.crcs_of_known hknown,hone,DividedFolder.crcWith,if_neg (by decide),
        if_pos hone]
      rfl
    | false =>
      have hnone := h f List.mem_cons_self
      rw [DividedFolder.unknownCrcs,if_neg (by simp [hknown])] at hnone
      rw [DividedFolder.crcWith_of_unknown hknown]
      exact (List.eq_replicate_iff.mpr ⟨f.crcs_length,hnone⟩).symm

/-- A list that is itself moved on, with nothing behind it, has nothing in it. -/
theorem all_none_of_shift {xs : List (Option Nat)} {d k : Nat} (hd : 0 < d)
    (h : ((xs++List.replicate k none).drop d).take xs.length = xs) : ∀ x ∈ xs,x = none := by
  have hget : ∀ left i,xs.length-i ≤ left → ∀ x,xs[i]? = some x → x = none := by
    intro left
    induction left with
    | zero =>
      intro i hi x hx
      have hlt := (List.getElem?_eq_some_iff.mp hx).1
      omega
    | succ left ih =>
      intro i hi x hx
      have hlt := (List.getElem?_eq_some_iff.mp hx).1
      rw [← h,List.getElem?_take_of_lt hlt,List.getElem?_drop] at hx
      by_cases hin : d+i < xs.length
      · rw [List.getElem?_append_left hin] at hx
        exact ih (d+i) (by omega) x hx
      · rw [List.getElem?_append_right (Nat.not_lt.mp hin)] at hx
        exact List.eq_of_mem_replicate (List.mem_of_getElem? hx)
  intro x hx
  obtain ⟨i,hi⟩ := List.mem_iff_getElem?.mp hx
  exact hget (xs.length-i) i (Nat.le_refl _) x hi

/-- Where the digests stand behind their places, the checksums are right only if none is defined. -/
theorem none_of_crcsWith_shift {division : List DividedFolder} {d k : Nat} (hd : 0 < d)
    (hlen : substreamCount division+d = (division.flatMap DividedFolder.unknownCrcs).length+k)
    (h : crcsWith division ((division.flatMap DividedFolder.unknownCrcs++List.replicate k none).drop d) =
      division.flatMap DividedFolder.crcs) :
    ∀ digest ∈ division.flatMap DividedFolder.unknownCrcs,digest = none := by
  induction division generalizing d with
  | nil => exact nofun
  | cons f fs ih =>
    rw [crcsWith,List.flatMap_cons] at h
    rw [substreamCount_cons,List.flatMap_cons,List.length_append] at hlen
    rw [List.flatMap_cons,List.append_assoc] at h
    rw [List.flatMap_cons]
    obtain ⟨hfront,hback⟩ := List.append_inj h (by
      rw [List.length_map,List.length_take,f.crcs_length]
      simp only [List.length_drop,List.length_append,List.length_replicate]
      omega)
    cases hknown : f.known with
    | true =>
      obtain ⟨hone,_⟩ := DividedFolder.known_iff.mp hknown
      have hempty : f.unknownCrcs = [] := by rw [DividedFolder.unknownCrcs,if_pos hknown]
      rw [hempty,List.nil_append,hone,List.drop_drop] at hback
      rw [hempty,List.length_nil,hone] at hlen
      rw [hempty,List.nil_append]
      exact ih (Nat.succ_pos d) (by omega) hback
    | false =>
      have hall : f.unknownCrcs = f.crcs := by
        rw [DividedFolder.unknownCrcs,if_neg (by simp [hknown])]
      rw [hall,f.crcs_length] at hlen
      rw [hall,List.drop_drop,Nat.add_comm,← List.drop_drop,← f.crcs_length,List.drop_left] at hback
      have hrest := ih hd (by omega) hback
      have hnone := List.eq_replicate_iff.mpr ⟨rfl,hrest⟩
      rw [hall,hnone,List.replicate_append_replicate,← f.crcs_length] at hfront
      rw [show f.crcWith = id from funext (DividedFolder.crcWith_of_unknown hknown),List.map_id] at hfront
      have hown := all_none_of_shift hd hfront
      intro digest hdigest
      rw [hall] at hdigest
      rcases List.mem_append.mp hdigest with hmem | hmem
      · exact hown digest hmem
      · exact hrest digest hmem

/-- With the stored digests in front and nothing behind, the checksums are right just if nothing is
defined from the first folder on whose checksum is known. -/
theorem crcsWith_stored_iff {division : List DividedFolder} {k : Nat}
    (hlen : substreamCount division = (division.flatMap DividedFolder.unknownCrcs).length+k) :
    crcsWith division (division.flatMap DividedFolder.unknownCrcs++List.replicate k none) =
        division.flatMap DividedFolder.crcs ↔
      ∀ f ∈ division.dropWhile (! ·.known),∀ digest ∈ f.unknownCrcs,digest = none := by
  induction division with
  | nil => simp [crcsWith]
  | cons f fs ih =>
    rw [substreamCount_cons,List.flatMap_cons,List.length_append] at hlen
    cases hknown : f.known with
    | true =>
      obtain ⟨hone,_⟩ := DividedFolder.known_iff.mp hknown
      have hempty : f.unknownCrcs = [] := by rw [DividedFolder.unknownCrcs,if_pos hknown]
      rw [List.dropWhile_cons_of_neg (by simp [hknown])]
      constructor
      · intro h
        rw [crcsWith,List.flatMap_cons,List.flatMap_cons,hempty,List.nil_append,hone] at h
        rw [hempty,List.length_nil,hone] at hlen
        obtain ⟨_,hback⟩ := List.append_inj h (by
          rw [List.length_map,List.length_take,f.crcs_length,hone]
          simp only [List.length_append,List.length_replicate]
          omega)
        have hrest := none_of_crcsWith_shift (d := 1) Nat.one_pos (by omega) hback
        rintro g hg digest hdigest
        rcases List.mem_cons.mp hg with rfl | hg
        · rw [hempty] at hdigest
          cases hdigest
        · exact hrest digest (List.mem_flatMap.mpr ⟨g,hg,hdigest⟩)
      · intro h
        have hnone : (f::fs).flatMap DividedFolder.unknownCrcs =
            List.replicate ((f::fs).flatMap DividedFolder.unknownCrcs).length none := by
          refine List.eq_replicate_iff.mpr ⟨rfl,?_⟩
          intro digest hdigest
          obtain ⟨g,hg,hmem⟩ := List.mem_flatMap.mp hdigest
          exact h g hg digest hmem
        have hcount : ((f::fs).flatMap DividedFolder.unknownCrcs).length+k =
            substreamCount (f::fs) := by
          rw [List.flatMap_cons,List.length_append,substreamCount_cons]
          omega
        rw [hnone,List.replicate_append_replicate,hcount]
        exact crcsWith_none h
    | false =>
      have hall : f.unknownCrcs = f.crcs := by
        rw [DividedFolder.unknownCrcs,if_neg (by simp [hknown])]
      rw [List.dropWhile_cons_of_pos (by simp [hknown]),crcsWith,List.flatMap_cons,List.flatMap_cons,
        hall,List.append_assoc,← f.crcs_length,List.take_left,List.drop_left,
        show f.crcWith = id from funext (DividedFolder.crcWith_of_unknown hknown),List.map_id,
        List.append_cancel_left_eq]
      rw [hall,f.crcs_length] at hlen
      exact ih (by omega)

/-- There is a digest for each substream but those of the folders with a known checksum. -/
theorem unknownCrcs_length_le (division : List DividedFolder) :
    (division.flatMap DividedFolder.unknownCrcs).length ≤ substreamCount division := by
  induction division with
  | nil => exact Nat.le_refl 0
  | cons f fs ih =>
    rw [List.flatMap_cons,List.length_append,substreamCount_cons]
    have hf : f.unknownCrcs.length ≤ f.parts.length := by
      unfold DividedFolder.unknownCrcs
      split <;> simp
    omega

theorem unknownCrcs_length_eq_iff (division : List DividedFolder) :
    (division.flatMap DividedFolder.unknownCrcs).length = substreamCount division ↔
      ∀ f ∈ division,f.known = false := by
  induction division with
  | nil => simp [substreamCount]
  | cons f fs ih =>
    have hle := unknownCrcs_length_le fs
    rw [List.flatMap_cons,List.length_append,substreamCount_cons,List.forall_mem_cons,← ih]
    cases hknown : f.known with
    | true =>
      obtain ⟨hone,_⟩ := DividedFolder.known_iff.mp hknown
      rw [DividedFolder.unknownCrcs,if_pos hknown,List.length_nil]
      refine iff_of_false (by omega) ?_
      rintro ⟨⟨⟩,_⟩
    | false =>
      rw [DividedFolder.unknownCrcs,if_neg (by simp [hknown]),f.crcs_length]
      simp

theorem dropWhile_of_unknown {division : List DividedFolder} (h : ∀ f ∈ division,f.known = false) :
    division.dropWhile (! ·.known) = [] := by
  rw [List.dropWhile_eq_nil_iff]
  intro f hf
  rw [h f hf]
  rfl

theorem unknownCrcs_lt {division : List DividedFolder} :
    ∀ digest ∈ division.flatMap DividedFolder.unknownCrcs,∀ crc ∈ digest,crc < 2^32 := by
  intro digest hdigest crc hcrc
  obtain ⟨f,hf,hmem⟩ := List.mem_flatMap.mp hdigest
  unfold DividedFolder.unknownCrcs at hmem
  split at hmem
  · cases hmem
  · obtain ⟨part,hpart,rfl⟩ := List.mem_map.mp hmem
    exact f.crc_lt part hpart crc hcrc

/-- A folder is flattened if its sizes are those of its bytes. -/
theorem sevenZipFlattenFolder_crcs (f : DividedFolder) {substreams : List (Nat × Option Nat)}
    {total : Nat} (h : total+(substreams.map Prod.fst).sum = f.folder.unpackSize) :
    ∃ streams,sevenZipFlattenFolder f.folder f.parts.length substreams total = some streams ∧
      streams.map SevenZipStream.crc = substreams.map fun s => f.crcWith s.2 := by
  induction substreams generalizing total with
  | nil =>
    refine ⟨[],?_,rfl⟩
    rw [sevenZipFlattenFolder,if_pos (by simpa using h)]
  | cons s substreams ih =>
    obtain ⟨substreamSize,digest⟩ := s
    rw [List.map_cons,List.sum_cons] at h
    rw [← Nat.add_assoc] at h
    obtain ⟨streams,hstreams,hcrcs⟩ := ih h
    refine ⟨f.folder.substream f.parts.length total substreamSize digest::streams,?_,?_⟩
    · rw [sevenZipFlattenFolder,if_neg (by omega),hstreams]
      rfl
    · rw [List.map_cons,List.map_cons,hcrcs]
      rfl

theorem sevenZipFlattenLoop_crcs {division : List DividedFolder} {digests : List (Option Nat)}
    (hparts : ∀ f ∈ division,f.parts ≠ []) (hlen : digests.length = substreamCount division) :
    ∃ streams,sevenZipFlattenLoop (division.map fun f => (f.folder,f.parts.length))
        ((division.flatMap fun f => f.parts.map Prod.fst).zip digests) = some streams ∧
      streams.map SevenZipStream.crc = crcsWith division digests := by
  induction division generalizing digests with
  | nil => exact ⟨[],rfl,rfl⟩
  | cons f fs ih =>
    rw [substreamCount_cons] at hlen
    have hsizes : (f.parts.map Prod.fst).length = f.parts.length := List.length_map ..
    have hdigests : (digests.take f.parts.length).length = f.parts.length := by
      rw [List.length_take]
      omega
    have hpos : f.parts.length ≠ 0 := fun h => hparts f List.mem_cons_self (List.length_eq_zero_iff.mp h)
    have hzip : ((f::fs).flatMap fun f => f.parts.map Prod.fst).zip digests =
        (f.parts.map Prod.fst).zip (digests.take f.parts.length)++
          (fs.flatMap fun f => f.parts.map Prod.fst).zip (digests.drop f.parts.length) := by
      rw [List.flatMap_cons,← List.zip_append (by rw [hsizes,hdigests]),List.take_append_drop]
    have hfirst : ((f.parts.map Prod.fst).zip (digests.take f.parts.length)).length =
        f.parts.length := by
      rw [List.length_zip,hsizes,hdigests,Nat.min_self]
    have hsum : 0+(((f.parts.map Prod.fst).zip (digests.take f.parts.length)).map Prod.fst).sum =
        f.folder.unpackSize := by
      rw [List.map_fst_zip (by rw [hsizes,hdigests]),Nat.zero_add]
      exact f.sizes_sum (hparts f List.mem_cons_self)
    obtain ⟨streams,hstreams,hcrcs⟩ := sevenZipFlattenFolder_crcs f hsum
    have hleft : (digests.drop f.parts.length).length = substreamCount fs := by
      rw [List.length_drop]
      omega
    obtain ⟨rest,hrest,hrestCrcs⟩ := ih (fun f hf => hparts f (List.mem_cons_of_mem _ hf)) hleft
    refine ⟨streams++rest,?_,?_⟩
    · rw [hzip,List.map_cons,sevenZipFlattenLoop,if_neg (by
        rw [List.length_append,hfirst]
        omega),List.take_left' hfirst,List.drop_left' hfirst,hstreams,hrest]
      rfl
    · rw [List.map_append,hcrcs,hrestCrcs,crcsWith]
      congr 1
      have hle : (digests.take f.parts.length).length ≤ (f.parts.map Prod.fst).length := by
        rw [hsizes,hdigests]
      conv_rhs => rw [← List.map_snd_zip hle]
      rw [List.map_map]
      rfl

section

variable {data : Bytes} {pos : Nat}

theorem writesNumber_one {n : Nat} (h : n < 128) : WritesNumber n [n.toUInt8] :=
  ⟨0,by decide,by simpa using h,by simp [numberBytes,littleEndian]⟩

theorem sevenZipCountsLoop_yields_iff {counts : List Nat} {bytes : Bytes}
    (hwrites : WritesNumbers counts bytes) (h : StandsAt data pos bytes) {before : Nat}
    (hbefore : before ≤ sevenZipMaxStreams) {read : List Nat} {pos' : Nat} :
    (sevenZipCountsLoop data.length counts.length before).Yields data pos read pos' ↔
      ((∀ count ∈ counts,count ≠ 0) ∧ before+counts.sum ≤ sevenZipMaxStreams) ∧
        read = counts ∧ pos' = pos+bytes.length := by
  induction hwrites generalizing before pos read pos' with
  | nil => simp [sevenZipCountsLoop,yields_pure,hbefore]
  | @cons count counts b bs hcount hcounts ih =>
    rw [List.length_cons,sevenZipCountsLoop,(sevenZipReadNumber_yields hcount h.left).bind_iff,
      List.sum_cons]
    by_cases hbad : count = 0 ∨ sevenZipMaxStreams < count ∨ sevenZipMaxStreams < before+count
    · rw [if_pos hbad]
      refine iff_of_false not_yields_fail ?_
      rintro ⟨⟨hne,hsum⟩,_⟩
      have hzero := hne count List.mem_cons_self
      omega
    · have hbefore' : before+count ≤ sevenZipMaxStreams := by omega
      rw [if_neg hbad,yields_bind]
      constructor
      · rintro ⟨rest,p,hrest,hpure⟩
        obtain ⟨⟨hne,hsum⟩,rfl,rfl⟩ := (ih h.right hbefore').mp hrest
        obtain ⟨rfl,rfl⟩ := yields_pure.mp hpure
        refine ⟨⟨?_,by omega⟩,rfl,by rw [List.length_append,Nat.add_assoc]⟩
        intro c hc
        rcases List.mem_cons.mp hc with rfl | hc
        · exact fun hzero => hbad (Or.inl hzero)
        · exact hne c hc
      · rintro ⟨⟨hne,hsum⟩,rfl,rfl⟩
        refine ⟨counts,pos+b.length+bs.length,?_,?_⟩
        · exact (ih h.right hbefore').mpr
            ⟨⟨fun c hc => hne c (List.mem_cons_of_mem _ hc),by omega⟩,rfl,rfl⟩
        · exact yields_pure.mpr ⟨rfl,by rw [List.length_append,Nat.add_assoc]⟩

/-- The sizes that stand there and what is left for the last substream are the sizes of a folder. -/
theorem sevenZipFolderSizesLoop_yields {sizes : List Nat} {bytes : Bytes}
    (hwrites : WritesNumbers sizes bytes) (h : StandsAt data pos bytes) {unpackSize total last : Nat}
    (hsum : total+sizes.sum+last = unpackSize) (hunpack : unpackSize ≤ 0x7fffffff) :
    (sevenZipFolderSizesLoop data.length unpackSize sizes.length total).Yields data pos
      (sizes++[last]) (pos+bytes.length) := by
  induction hwrites generalizing total pos with
  | nil =>
    refine yields_pure.mpr ⟨?_,rfl⟩
    rw [List.sum_nil] at hsum
    rw [List.nil_append,show unpackSize-total = last by omega]
  | @cons n ns b bs hn hns ih =>
    rw [List.sum_cons] at hsum
    apply (sevenZipReadNumber_yields hn h.left).bind
    rw [if_neg (by omega)]
    apply (ih h.right (by omega)).bind
    exact yields_pure.mpr ⟨rfl,by rw [List.length_append,Nat.add_assoc]⟩

theorem WritesNumbers.append {xs ys : List Nat} {bytes : Bytes} (h : WritesNumbers (xs++ys) bytes) :
    ∃ left right,WritesNumbers xs left ∧ WritesNumbers ys right ∧ bytes = left++right := by
  induction xs generalizing bytes with
  | nil => exact ⟨[],bytes,.nil,h,rfl⟩
  | cons x xs ih =>
    cases h with
    | cons hx hrest =>
      obtain ⟨left,right,hleft,hright,rfl⟩ := ih hrest
      exact ⟨_,right,.cons hx hleft,hright,(List.append_assoc ..).symm⟩

theorem sevenZipSizesLoop_yields {division : List DividedFolder} {bytes : Bytes}
    (hwrites : WritesNumbers (division.flatMap DividedFolder.storedSizes) bytes)
    (h : StandsAt data pos bytes) (hparts : ∀ f ∈ division,f.parts ≠ []) :
    (sevenZipSizesLoop data.length (division.map fun f => (f.folder,f.parts.length))).Yields data pos
      (division.flatMap fun f => f.parts.map Prod.fst) (pos+bytes.length) := by
  induction division generalizing pos bytes with
  | nil =>
    cases hwrites
    exact yields_pure.mpr ⟨rfl,rfl⟩
  | cons f fs ih =>
    rw [List.flatMap_cons] at hwrites
    obtain ⟨left,right,hleft,hright,rfl⟩ := hwrites.append
    have hne : f.parts.map Prod.fst ≠ [] := by
      rw [Ne,List.map_eq_nil_iff]
      exact hparts f List.mem_cons_self
    have hstored : f.storedSizes++[(f.parts.map Prod.fst).getLast hne] = f.parts.map Prod.fst :=
      List.dropLast_append_getLast hne
    have hsum : 0+f.storedSizes.sum+(f.parts.map Prod.fst).getLast hne = f.folder.unpackSize := by
      rw [← f.sizes_sum (hparts f List.mem_cons_self)]
      conv_rhs => rw [← hstored]
      simp
    have hlength : f.storedSizes.length = f.parts.length-1 := by simp [DividedFolder.storedSizes]
    have hfolder := sevenZipFolderSizesLoop_yields hleft h.left hsum f.unpackSize_le
    rw [hlength,hstored] at hfolder
    apply hfolder.bind
    apply (ih hright h.right fun f hf => hparts f (List.mem_cons_of_mem _ hf)).bind
    exact yields_pure.mpr ⟨rfl,by rw [List.length_append,Nat.add_assoc]⟩

/-- From here on the parser ends the section at `stop`, and the substreams get their own checksums. -/
def FlattensRight (data : Bytes) (division : List DividedFolder) (fuel : Nat)
    (sub : SevenZipSubstreams) (pos stop : Nat) : Prop :=
  ∃ r streams,(Parse.loop (sevenZipSubstreamsRound data.length (division.map DividedFolder.folder)) fuel
      sub).Yields data pos r stop ∧
    sevenZipFlattenSubstreams (division.map DividedFolder.folder) r.counts (r.sizes.getD []) r.digests =
      some streams ∧
    streams.map SevenZipStream.crc = division.flatMap DividedFolder.crcs

/-- What the parser has read of a section: the sizes are known, if they have to be. -/
structure SubstreamsRead (division : List DividedFolder) (sub : SevenZipSubstreams) : Prop where
  counts : sub.counts = division.map fun f => f.parts.length
  sizes : sub.sizes = none ∧ (∀ f ∈ division,f.parts.length = 1) ∨
    sub.sizes = some (division.flatMap fun f => f.parts.map Prod.fst)

variable {division : List DividedFolder} {sub : SevenZipSubstreams} {fuel stop : Nat}

theorem unpackSizes_of_single (h : ∀ f ∈ division,f.parts.length = 1) :
    (division.map DividedFolder.folder).map SevenZipStream.unpackSize =
      division.flatMap fun f => f.parts.map Prod.fst := by
  induction division with
  | nil => rfl
  | cons f fs ih =>
    rw [List.map_cons,List.map_cons,List.flatMap_cons,ih fun f hf => h f (List.mem_cons_of_mem _ hf)]
    obtain ⟨part,hpart⟩ := List.length_eq_one_iff.mp (h f List.mem_cons_self)
    have hsum := f.sizes_sum (by simp [hpart])
    simp [hpart] at hsum ⊢
    exact hsum.symm

/-- At the end of the section, the digests that were read decide. -/
theorem flattensRight_end_iff (h : StandsAt data pos [0x00]) (hread : SubstreamsRead division sub)
    (hparts : ∀ f ∈ division,f.parts ≠ [])
    (hlen : (sub.digests.getD (List.replicate (substreamCount division) none)).length =
      substreamCount division) :
    FlattensRight data division (fuel+1) sub pos stop ↔ stop = pos+1 ∧
      (substreamCount division ≠ 0 ∧ substreamCount division ≤ sevenZipMaxStreams) ∧
      crcsWith division (sub.digests.getD (List.replicate (substreamCount division) none)) =
        division.flatMap DividedFolder.crcs := by
  have hround : (sevenZipSubstreamsRound data.length (division.map DividedFolder.folder) sub).Yields data
      pos (.inl {sub with sizes := some (division.flatMap fun f => f.parts.map Prod.fst)}) (pos+1) := by
    apply (sevenZipReadNumber_yields (writesNumber_one (n := 0) (by decide)) h).bind
    have hend : 0 = sevenZipIdEnd := rfl
    rw [if_pos hend]
    rcases hread.sizes with ⟨hnone,hone⟩ | hsome
    · have hall : ¬ sub.counts.all (· = 1) = false := by
        rw [hread.counts]
        simpa using hone
      rw [if_neg (by simp [hnone]),if_neg hall,unpackSizes_of_single hone]
      rfl
    · rw [if_pos (by simp [hsome]),← hsome]
      rfl
  have hcount : sub.counts.sum = substreamCount division := by rw [hread.counts,substreamCount]
  obtain ⟨streams,hstreams,hcrcs⟩ := sevenZipFlattenLoop_crcs hparts hlen
  have hflatten : ∀ sizes,sizes = (division.flatMap fun f => f.parts.map Prod.fst) →
      sevenZipFlattenSubstreams (division.map DividedFolder.folder) sub.counts sizes sub.digests =
        if substreamCount division = 0 ∨ sevenZipMaxStreams < substreamCount division then none
        else some streams := by
    rintro _ rfl
    rw [sevenZipFlattenSubstreams,hcount,hread.counts,List.zip_map',hstreams]
  constructor
  · rintro ⟨r,streams',hr,hsome,hright⟩
    obtain ⟨rfl,rfl⟩ := hround.loop_inl_iff.mp hr
    have hsome := (hflatten _ rfl).symm.trans hsome
    split at hsome
    · cases hsome
    · rename_i hfew
      cases hsome
      rw [not_or,Nat.not_lt] at hfew
      exact ⟨rfl,hfew,hcrcs.symm.trans hright⟩
  · rintro ⟨rfl,hfew,hright⟩
    exact ⟨_,streams,hround.loop_inl_iff.mpr ⟨rfl,rfl⟩,(hflatten _ rfl).trans (if_neg (by omega)),
      hcrcs.trans hright⟩

/-- The counts of a section are read if each folder has a substream and there are not too many. -/
theorem flattensRight_counts {bytes : Bytes} (hwrites : WritesCounts division bytes)
    (h : StandsAt data pos bytes) (hfuel : data.length-pos < fuel) (stop : Nat) :
    ∃ fuel',data.length-(pos+bytes.length) < fuel' ∧
      (FlattensRight data division fuel
          {counts := List.replicate (division.map DividedFolder.folder).length 1} pos stop →
        (∀ f ∈ division,f.parts ≠ []) ∧ FlattensRight data division fuel'
          {counts := division.map fun f => f.parts.length} (pos+bytes.length) stop) ∧
      ((∀ f ∈ division,f.parts ≠ []) → substreamCount division ≤ sevenZipMaxStreams →
        FlattensRight data division fuel'
          {counts := division.map fun f => f.parts.length} (pos+bytes.length) stop →
        FlattensRight data division fuel
          {counts := List.replicate (division.map DividedFolder.folder).length 1} pos stop) := by
  rcases hwrites with ⟨hone,rfl⟩ | ⟨numbers,hnumbers,rfl⟩
  · have hcounts : List.replicate (division.map DividedFolder.folder).length 1 =
        division.map fun f => f.parts.length := by
      symm
      rw [List.eq_replicate_iff]
      simpa using hone
    have hparts : ∀ f ∈ division,f.parts ≠ [] := fun f hf he => by simpa [he] using hone f hf
    rw [hcounts]
    exact ⟨fuel,hfuel,fun hright => ⟨hparts,hright⟩,fun _ _ hright => hright⟩
  · obtain ⟨fuel,rfl⟩ : ∃ n,fuel = n+1 := ⟨fuel-1,by omega⟩
    have hnum : sevenZipIdNumUnpackStream ≠ sevenZipIdEnd := by decide
    have hround : ∀ r p,(sevenZipSubstreamsRound data.length (division.map DividedFolder.folder)
          {counts := List.replicate (division.map DividedFolder.folder).length 1}).Yields data pos r p ↔
        ((∀ f ∈ division,f.parts ≠ []) ∧ substreamCount division ≤ sevenZipMaxStreams) ∧
          r = .inr {counts := division.map fun f => f.parts.length} ∧
          p = pos+(0x0d::numbers).length := by
      intro r p
      rw [sevenZipSubstreamsRound,(sevenZipReadNumber_yields (n := sevenZipIdNumUnpackStream)
        (writesNumber_one (by decide)) h.first).bind_iff,if_neg hnum,if_pos rfl,if_neg (by simp),
        yields_bind]
      have hparts : (∀ count ∈ division.map fun f => f.parts.length,count ≠ 0) ↔
          ∀ f ∈ division,f.parts ≠ [] := by simp
      rw [List.length_map]
      have hlength : (division.map fun f => f.parts.length).length = division.length :=
        List.length_map ..
      constructor
      · rintro ⟨counts,p',hcounts,hpure⟩
        rw [← hlength] at hcounts
        obtain ⟨⟨hne,hfew⟩,rfl,rfl⟩ :=
          (sevenZipCountsLoop_yields_iff hnumbers h.tail (Nat.zero_le _)).mp hcounts
        obtain ⟨rfl,rfl⟩ := yields_pure.mp hpure
        rw [Nat.zero_add] at hfew
        exact ⟨⟨hparts.mp hne,hfew⟩,rfl,by rw [List.length_cons,Nat.add_assoc,Nat.add_comm 1]⟩
      · rintro ⟨⟨hne,hfew⟩,rfl,rfl⟩
        refine ⟨division.map fun f => f.parts.length,pos+1+numbers.length,?_,?_⟩
        · rw [← hlength]
          exact (sevenZipCountsLoop_yields_iff hnumbers h.tail (Nat.zero_le _)).mpr
            ⟨⟨hparts.mpr hne,by rwa [Nat.zero_add]⟩,rfl,rfl⟩
        · exact yields_pure.mpr ⟨rfl,by rw [List.length_cons,Nat.add_assoc,Nat.add_comm 1]⟩
    have hlt := h.lt
    refine ⟨fuel,?_,?_,?_⟩
    · rw [List.length_cons]
      omega
    · rintro ⟨r,streams,hr,hflatten⟩
      obtain ⟨_,p,hfirst,hrest⟩ := yields_bind.mp hr
      obtain ⟨⟨hne,_⟩,rfl,rfl⟩ := (hround _ _).mp hfirst
      exact ⟨hne,r,streams,hrest,hflatten⟩
    · rintro hne hfew ⟨r,streams,hr,hflatten⟩
      exact ⟨r,streams,((hround _ _).mpr ⟨⟨hne,hfew⟩,rfl,rfl⟩).loop_inr_iff.mpr hr,hflatten⟩

/-- The sizes of a section are read. -/
theorem flattensRight_sizes {bytes : Bytes} (hwrites : WritesSizes division bytes)
    (hparts : ∀ f ∈ division,f.parts ≠ []) (h : StandsAt data pos bytes)
    (hfuel : data.length-pos < fuel) (stop : Nat) : ∃ fuel' sub,data.length-(pos+bytes.length) < fuel' ∧
      SubstreamsRead division sub ∧ sub.digests = none ∧
      (FlattensRight data division fuel {counts := division.map fun f => f.parts.length} pos stop ↔
        FlattensRight data division fuel' sub (pos+bytes.length) stop) := by
  rcases hwrites with ⟨hnone,rfl⟩ | ⟨numbers,hnumbers,rfl⟩
  · have hone : ∀ f ∈ division,f.parts.length = 1 := by
      intro f hf
      have hlen := congrArg List.length (hnone f hf)
      have hne := List.length_pos_iff.mpr (hparts f hf)
      simp [DividedFolder.storedSizes] at hlen
      omega
    exact ⟨fuel,_,hfuel,⟨rfl,Or.inl ⟨rfl,hone⟩⟩,rfl,Iff.rfl⟩
  · obtain ⟨fuel,rfl⟩ : ∃ n,fuel = n+1 := ⟨fuel-1,by omega⟩
    have hend : sevenZipIdSize ≠ sevenZipIdEnd := by decide
    have hnum : sevenZipIdSize ≠ sevenZipIdNumUnpackStream := by decide
    have hround : (sevenZipSubstreamsRound data.length (division.map DividedFolder.folder)
        {counts := division.map fun f => f.parts.length}).Yields data pos
          (.inr ⟨division.map fun f => f.parts.length,
            some (division.flatMap fun f => f.parts.map Prod.fst),none⟩)
          (pos+(0x09::numbers).length) := by
      apply (sevenZipReadNumber_yields (n := sevenZipIdSize) (writesNumber_one (by decide))
        h.first).bind
      rw [if_neg hend,if_neg hnum,if_pos rfl,if_neg (by simp),List.zip_map']
      apply (sevenZipSizesLoop_yields hnumbers h.tail hparts).bind
      exact yields_pure.mpr ⟨rfl,by rw [List.length_cons,Nat.add_assoc,Nat.add_comm 1]⟩
    have hlt := h.lt
    refine ⟨fuel,⟨_,some (division.flatMap fun f => f.parts.map Prod.fst),none⟩,?_,
      ⟨rfl,Or.inr rfl⟩,rfl,?_⟩
    · rw [List.length_cons]
      omega
    · unfold FlattensRight
      simp only [hround.loop_inr_iff]

/-- Digests are read for all substreams, whatever is known. -/
theorem flattensRight_crc_iff {bytes : Bytes} (h : StandsAt data pos (0x0a::bytes))
    (hread : SubstreamsRead division sub) (hdigests : sub.digests = none) :
    FlattensRight data division (fuel+1) sub pos stop ↔ ∃ digests pos',
      (sevenZipReadDigests data.length (substreamCount division)).Yields data (pos+1) digests pos' ∧
      FlattensRight data division fuel {sub with digests := some digests} pos' stop := by
  have hend : sevenZipIdCrc ≠ sevenZipIdEnd := by decide
  have hnum : sevenZipIdCrc ≠ sevenZipIdNumUnpackStream := by decide
  have hsize : sevenZipIdCrc ≠ sevenZipIdSize := by decide
  have hcount : sub.counts.sum = substreamCount division := by rw [hread.counts,substreamCount]
  have hround : ∀ r p,(sevenZipSubstreamsRound data.length (division.map DividedFolder.folder)
      sub).Yields data pos r p ↔ ∃ digests,
        (sevenZipReadDigests data.length (substreamCount division)).Yields data (pos+1) digests p ∧
          r = .inr {sub with digests := some digests} := by
    intro r p
    rw [sevenZipSubstreamsRound,(sevenZipReadNumber_yields (n := sevenZipIdCrc)
      (writesNumber_one (by decide)) h.first).bind_iff,if_neg hend,if_neg hnum,if_neg hsize,if_pos rfl,
      if_neg (by simp [hdigests]),yields_bind,hcount]
    constructor
    · rintro ⟨digests,p',hy,hpure⟩
      obtain ⟨rfl,rfl⟩ := yields_pure.mp hpure
      exact ⟨digests,hy,rfl⟩
    · rintro ⟨digests,hy,rfl⟩
      exact ⟨digests,p,hy,yields_pure.mpr ⟨rfl,rfl⟩⟩
  constructor
  · rintro ⟨r,streams,hr,hflatten⟩
    obtain ⟨_,p,hfirst,hrest⟩ := yields_bind.mp hr
    obtain ⟨digests,hy,rfl⟩ := (hround _ _).mp hfirst
    exact ⟨digests,p,hy,r,streams,hrest,hflatten⟩
  · rintro ⟨digests,p,hy,r,streams,hr,hflatten⟩
    exact ⟨r,streams,((hround _ _).mpr ⟨digests,hy,rfl⟩).loop_inr_iff.mpr hr,hflatten⟩

/-- Behind where the parser goes on, the section has at least one more byte. -/
theorem FlattensRight.lt (h : FlattensRight data division fuel sub pos stop)
    (hread : SubstreamsRead division sub) (hpos : pos ≤ data.length) (hfuel : data.length-pos < fuel) :
    pos < stop := by
  obtain ⟨r,streams,hr,_⟩ := h
  have hcounts : sub.counts.length = (division.map DividedFolder.folder).length := by
    rw [hread.counts,List.length_map,List.length_map]
  exact ((sevenZipSubstreamsLoop_meets hcounts hpos hfuel).yields hr).1.2

theorem count_isSome_append_none (xs : List (Option Nat)) (k : Nat) :
    ((xs++List.replicate k none).map Option.isSome).count true =
      (xs.map Option.isSome).count true := by simp [List.count_replicate]

theorem digestBytes_append_none (xs : List (Option Nat)) (k : Nat) :
    digestBytes (xs++List.replicate k none) = digestBytes xs := by
  induction k with
  | zero => simp
  | succ k ih =>
    rw [List.replicate_succ',← List.append_assoc,digestBytes,List.flatMap_append]
    simp [digestBytes]

/-- The digests of a section are read where they stand, filled up at the end, if the marks are. -/
theorem flattensRight_stored_iff {mark : UInt8} {bits : Bytes} {k : Nat}
    (hlen : substreamCount division = (division.flatMap DividedFolder.unknownCrcs).length+k)
    (h : StandsAt data pos (0x0a::mark::(bits++
      digestBytes (division.flatMap DividedFolder.unknownCrcs))++[0x00]))
    (hbits : bits.length = if mark = 0 then (substreamCount division+7)/8 else 0)
    (hmarks : digestMarks data (substreamCount division) (pos+1) =
      (division.flatMap DividedFolder.unknownCrcs++List.replicate k none).map Option.isSome)
    (hread : SubstreamsRead division sub) (hdigests : sub.digests = none)
    (hparts : ∀ f ∈ division,f.parts ≠ []) (hfuel : data.length-pos < fuel) :
    FlattensRight data division fuel sub pos
        (pos+(0x0a::mark::(bits++digestBytes (division.flatMap DividedFolder.unknownCrcs))).length+1) ↔
      (substreamCount division ≠ 0 ∧ substreamCount division ≤ sevenZipMaxStreams) ∧
        ∀ f ∈ division.dropWhile (! ·.known),∀ digest ∈ f.unknownCrcs,digest = none := by
  have hlt : pos < data.length := h.lt
  have hall := h.length_le (Nat.le_of_lt hlt)
  rw [List.length_append,List.length_singleton] at hall
  obtain ⟨fuel,rfl⟩ : ∃ n,fuel = n+2 := ⟨fuel-2,by simp at hall; omega⟩
  have hfilled : (division.flatMap DividedFolder.unknownCrcs++List.replicate k none).length =
      substreamCount division := by rw [List.length_append,List.length_replicate,hlen]
  have hcrcs : ∀ digest ∈ division.flatMap DividedFolder.unknownCrcs++List.replicate k none,
      ∀ crc ∈ digest,crc < 2^32 := by
    intro digest hdigest
    rcases List.mem_append.mp hdigest with hmem | hmem
    · exact unknownCrcs_lt digest hmem
    · rw [List.eq_of_mem_replicate hmem]
      exact nofun
  have hstands : StandsAt data (pos+1) (mark::(bits++
      digestBytes (division.flatMap DividedFolder.unknownCrcs++List.replicate k none))) := by
    rw [digestBytes_append_none]
    exact h.left.tail
  rw [← hfilled] at hbits hmarks
  have hend : pos+1+1+bits.length+(digestBytes
      (division.flatMap DividedFolder.unknownCrcs++List.replicate k none)).length =
        pos+(0x0a::mark::(bits++digestBytes (division.flatMap DividedFolder.unknownCrcs))).length := by
    rw [digestBytes_append_none,List.length_cons,List.length_cons,List.length_append]
    omega
  have hlast := h.right
  rw [← hend] at hlast ⊢
  have hcount : ((division.flatMap DividedFolder.unknownCrcs++List.replicate k none).map
      Option.isSome).count true ≤ substreamCount division := by
    rw [← hfilled,← List.length_map Option.isSome]
    exact List.count_le_length
  have hreadAll : SubstreamsRead division
      {sub with digests := some (division.flatMap DividedFolder.unknownCrcs++List.replicate k none)} :=
    ⟨hread.counts,hread.sizes⟩
  rw [flattensRight_crc_iff h.left hread hdigests]
  constructor
  · rintro ⟨digests,p,hy,hrest⟩
    rw [← hfilled] at hy
    obtain ⟨_,rfl,rfl⟩ := (sevenZipReadDigests_yields_iff hstands hbits hmarks hcrcs).mp hy
    obtain ⟨_,hfew,hright⟩ := (flattensRight_end_iff hlast hreadAll hparts hfilled).mp hrest
    exact ⟨hfew,(crcsWith_stored_iff hlen).mp hright⟩
  · rintro ⟨hfew,hnone⟩
    refine ⟨_,_,?_,(flattensRight_end_iff hlast hreadAll hparts hfilled).mpr
      ⟨rfl,hfew,(crcsWith_stored_iff hlen).mpr hnone⟩⟩
    rw [← hfilled]
    refine (sevenZipReadDigests_yields_iff hstands hbits hmarks hcrcs).mpr ⟨?_,rfl,rfl⟩
    have hmax : sevenZipMaxStreams = 65535 := rfl
    omega

/-- The parser reads past as many digests as there are substreams. -/
theorem FlattensRight.digests_lt {bytes : Bytes} (h : StandsAt data pos (0x0a::bytes))
    (hread : SubstreamsRead division sub) (hdigests : sub.digests = none)
    (hfuel : data.length-pos < fuel) (hright : FlattensRight data division fuel sub pos stop) :
    pos+1+1+(if data.getD (pos+1) 0 = 0 then (substreamCount division+7)/8 else 0)+
      4*(digestMarks data (substreamCount division) (pos+1)).count true < stop := by
  obtain ⟨fuel,rfl⟩ : ∃ n,fuel = n+1 := ⟨fuel-1,by omega⟩
  obtain ⟨digests,p,hy,hrest⟩ := (flattensRight_crc_iff h hread hdigests).mp hright
  obtain ⟨⟨_,hp⟩,hle,hlen⟩ := (sevenZipReadDigests_meets _ h.lt).yields hy
  rw [← hp]
  exact hrest.lt ⟨hread.counts,hread.sizes⟩ hlen (by omega)

/-- The digests of a section and its end -/
theorem flattensRight_digests_iff {form : DigestsForm} {bytes : Bytes}
    (hwrites : WritesDigests form (division.flatMap DividedFolder.unknownCrcs) bytes)
    (h : StandsAt data pos (bytes++[0x00])) (hread : SubstreamsRead division sub)
    (hdigests : sub.digests = none) (hparts : ∀ f ∈ division,f.parts ≠ [])
    (hfuel : data.length-pos < fuel) :
    FlattensRight data division fuel sub pos (pos+bytes.length+1) ↔
      (substreamCount division ≠ 0 ∧ substreamCount division ≤ sevenZipMaxStreams) ∧
        DigestsAligned division form := by
  have hle := unknownCrcs_length_le division
  cases hwrites with
  | absent hnone =>
    obtain ⟨fuel,rfl⟩ : ∃ n,fuel = n+1 := ⟨fuel-1,by omega⟩
    have hcrcs : crcsWith division (List.replicate (substreamCount division) none) =
        division.flatMap DividedFolder.crcs :=
      crcsWith_none fun f hf digest hd => hnone digest (List.mem_flatMap.mpr ⟨f,hf,hd⟩)
    rw [flattensRight_end_iff h hread hparts (by simp [hdigests]),hdigests,Option.getD_none,hcrcs]
    simp [DigestsAligned]
  | @allDefined _ mark hsome hmark =>
    have hbyte : data.getD (pos+1) 0 = mark := h.left.tail.getD (i := 0) (by simp)
    by_cases hall : ∀ f ∈ division,f.known = false
    · have hlen := (unknownCrcs_length_eq_iff division).mpr hall
      have hmarks : digestMarks data (substreamCount division) (pos+1) =
          (division.flatMap DividedFolder.unknownCrcs++List.replicate 0 none).map Option.isSome := by
        rw [digestMarks,hbyte,if_neg hmark,List.replicate_zero,List.append_nil,← hlen]
        refine (List.eq_replicate_iff.mpr ⟨List.length_map ..,?_⟩).symm
        intro b hb
        obtain ⟨digest,hdigest,rfl⟩ := List.mem_map.mp hb
        exact hsome digest hdigest
      have hstands : StandsAt data pos (0x0a::mark::([]++
        digestBytes (division.flatMap DividedFolder.unknownCrcs))++[0x00]) := h
      refine (flattensRight_stored_iff hlen.symm hstands (by simp [hmark]) hmarks hread hdigests hparts
        hfuel).trans ?_
      rw [dropWhile_of_unknown hall]
      exact and_congr_right fun _ => iff_of_true (by simp) hall
    · refine iff_of_false ?_ fun he => hall he.2
      intro hright
      have hlt := hright.digests_lt h.left hread hdigests hfuel
      rw [digestMarks,hbyte,if_neg hmark,if_neg hmark,List.count_replicate_self,List.length_cons,
        List.length_cons,digestBytes_length] at hlt
      have hcount := List.count_le_length (a := true)
        (l := (division.flatMap DividedFolder.unknownCrcs).map Option.isSome)
      rw [List.length_map] at hcount
      exact hall ((unknownCrcs_length_eq_iff division).mp (by omega))
  | bits =>
    have hbyte : data.getD (pos+1) 0 = 0 := h.left.tail.getD (i := 0) (by simp)
    have hvector : StandsAt data (pos+1+1) (bitVector ((division.flatMap
      DividedFolder.unknownCrcs).map Option.isSome)) := h.left.tail.tail.left
    by_cases hbytes : (substreamCount division+7)/8 =
        ((division.flatMap DividedFolder.unknownCrcs).length+7)/8
    · have hlen : substreamCount division = (division.flatMap DividedFolder.unknownCrcs).length+
          (substreamCount division-(division.flatMap DividedFolder.unknownCrcs).length) := by omega
      have hmarks : digestMarks data (substreamCount division) (pos+1) =
          (division.flatMap DividedFolder.unknownCrcs++List.replicate (substreamCount division-
            (division.flatMap DividedFolder.unknownCrcs).length) none).map Option.isSome := by
        rw [digestMarks,if_pos hbyte,headerBits_bitVector hvector (by rwa [List.length_map])
          (by rwa [List.length_map]),List.length_map,List.map_append,List.map_replicate]
        rfl
      rw [flattensRight_stored_iff hlen h (by simp [hbytes]) hmarks hread hdigests hparts hfuel]
      exact and_congr_right fun _ => (and_iff_right hbytes.symm).symm
    · refine iff_of_false ?_ fun he => hbytes he.2.1.symm
      intro hright
      have hlt := hright.digests_lt h.left hread hdigests hfuel
      -- the bits that are read begin with those that are written
      have hfront := headerBits_bitVector hvector (Nat.le_refl _) rfl
      rw [Nat.sub_self,List.replicate_zero,List.append_nil,List.length_map] at hfront
      have hsplit := headerBits_add data (pos+1+1) (division.flatMap DividedFolder.unknownCrcs).length
        (substreamCount division-(division.flatMap DividedFolder.unknownCrcs).length) 0
      rw [Nat.add_sub_cancel' hle,hfront] at hsplit
      rw [digestMarks,if_pos hbyte,if_pos hbyte,hsplit,List.count_append,List.length_cons,
        List.length_cons,List.length_append,bitVector_length,digestBytes_length,List.length_map] at hlt
      omega

theorem sevenZipParseSubstreamsInfo_flattens_iff {table : SevenZipStreams}
    (hfolders : table.streams = division.map DividedFolder.folder) :
    (∃ table',(sevenZipParseSubstreamsInfo data.length fuel table).Yields data pos table' stop ∧
        table'.streams.map SevenZipStream.crc = division.flatMap DividedFolder.crcs) ↔
      FlattensRight data division fuel
        {counts := List.replicate (division.map DividedFolder.folder).length 1} pos stop := by
  constructor
  · rintro ⟨table',hy,hcrcs⟩
    obtain ⟨r,p,hr,hrest⟩ := yields_bind.mp hy
    rw [hfolders] at hr hrest
    cases hflatten : sevenZipFlattenSubstreams (division.map DividedFolder.folder) r.counts
        (r.sizes.getD []) r.digests with
    | none =>
      rw [hflatten] at hrest
      exact absurd hrest not_yields_fail
    | some streams =>
      rw [hflatten] at hrest
      obtain ⟨rfl,rfl⟩ := yields_pure.mp hrest
      exact ⟨r,streams,hr,hflatten,hcrcs⟩
  · rintro ⟨r,streams,hr,hflatten,hcrcs⟩
    refine ⟨⟨streams,table.divisions++[(table.streams,r.counts)]⟩,?_,hcrcs⟩
    rw [sevenZipParseSubstreamsInfo,hfolders]
    apply hr.bind
    rw [hflatten]
    rfl

/-- A section for the substreams of folders is read to its end, and each substream gets its own
checksum, just if each folder has a substream and there are not too many of them, and if the digests
stand where they would stand without the checksums that are known. -/
theorem sevenZipParseSubstreamsInfo_digests_iff {table : SevenZipStreams} {form : DigestsForm}
    {bytes : Bytes} (hfolders : table.streams = division.map DividedFolder.folder)
    (hwrites : WritesSubstreams form division bytes) (h : StandsAt data pos bytes)
    (hfuel : data.length < fuel) :
    (∃ table',(sevenZipParseSubstreamsInfo data.length fuel table).Yields data pos table'
          (pos+bytes.length) ∧
        table'.streams.map SevenZipStream.crc = division.flatMap DividedFolder.crcs) ↔
      (∀ f ∈ division,f.parts ≠ []) ∧
        (substreamCount division ≠ 0 ∧ substreamCount division ≤ sevenZipMaxStreams) ∧
        DigestsAligned division form := by
  rw [sevenZipParseSubstreamsInfo_flattens_iff hfolders]
  obtain ⟨counts,sizes,digests,hcounts,hsizes,hdigests,rfl⟩ := hwrites
  have hend : pos+(counts++(sizes++(digests++[0x00]))).length =
      pos+counts.length+sizes.length+digests.length+1 := by
    simp only [List.length_append,List.length_singleton]
    omega
  rw [hend]
  obtain ⟨fuel',hfuel',hread,hback⟩ := flattensRight_counts hcounts h.left
    (by omega : data.length-pos < fuel) (pos+counts.length+sizes.length+digests.length+1)
  have hrest : (∀ f ∈ division,f.parts ≠ []) →
      (FlattensRight data division fuel' {counts := division.map fun f => f.parts.length}
          (pos+counts.length) (pos+counts.length+sizes.length+digests.length+1) ↔
        (substreamCount division ≠ 0 ∧ substreamCount division ≤ sevenZipMaxStreams) ∧
          DigestsAligned division form) := by
    intro hparts
    obtain ⟨fuel'',sub,hfuel'',hsub,hnone,hiff⟩ := flattensRight_sizes hsizes hparts h.right.left
      hfuel' (pos+counts.length+sizes.length+digests.length+1)
    exact hiff.trans (flattensRight_digests_iff hdigests h.right.right hsub hnone hparts hfuel'')
  constructor
  · intro hright
    obtain ⟨hparts,hright⟩ := hread hright
    exact ⟨hparts,(hrest hparts).mp hright⟩
  · rintro ⟨hparts,hfew,haligned⟩
    exact hback hparts hfew.2 ((hrest hparts).mpr ⟨hfew,haligned⟩)

end

/-- A folder of two files -/
def twoFiles : DividedFolder where
  folder := {unpackSize := 3}
  parts := [(1,some 5),(2,none)]
  unpackSize_le := by decide
  sizes_sum := fun _ => rfl
  crc_lt := by simp
  crc_own := nofun

/-- A folder of one file, with a checksum -/
def oneFile : DividedFolder where
  folder := {unpackSize := 4,crc := some 7}
  parts := [(4,some 7)]
  unpackSize_le := by decide
  sizes_sum := fun _ => rfl
  crc_lt := by simp
  crc_own := by simp

/-- The section where the folder of two files is the first -/
def twoAndOne : Bytes := [0x0d,2,1,0x09,1,0x0a,0,0x80,5,0,0,0,0]

/-- The section where it is the second -/
def oneAndTwo : Bytes := [0x0d,1,2,0x09,1,0x0a,0,0x80,5,0,0,0,0]

theorem twoAndOne_writes : WritesSubstreams .bits [twoFiles,oneFile] twoAndOne := by
  refine ⟨[0x0d,2,1],[0x09,1],[0x0a,0,0x80,5,0,0,0],Or.inr ⟨[2,1],?_,rfl⟩,Or.inr ⟨[1],?_,rfl⟩,.bits,
    rfl⟩
  · exact .cons (writesNumber_one (by decide)) (.cons (writesNumber_one (by decide)) .nil)
  · exact .cons (writesNumber_one (by decide)) .nil

theorem oneAndTwo_writes : WritesSubstreams .bits [oneFile,twoFiles] oneAndTwo := by
  refine ⟨[0x0d,1,2],[0x09,1],[0x0a,0,0x80,5,0,0,0],Or.inr ⟨[1,2],?_,rfl⟩,Or.inr ⟨[1],?_,rfl⟩,.bits,
    rfl⟩
  · exact .cons (writesNumber_one (by decide)) (.cons (writesNumber_one (by decide)) .nil)
  · exact .cons (writesNumber_one (by decide)) .nil

/-- Behind the folder of two files the known checksum moves no digest. -/
theorem sevenZipParseSubstreamsInfo_twoAndOne :
    ∃ table',(sevenZipParseSubstreamsInfo twoAndOne.length 14
        {streams := [twoFiles.folder,oneFile.folder]}).Yields twoAndOne 0 table' 13 ∧
      table'.streams.map SevenZipStream.crc = [some 5,none,some 7] :=
  (sevenZipParseSubstreamsInfo_digests_iff rfl twoAndOne_writes ⟨[],rfl⟩ (by decide)).mpr
    ⟨by decide,by decide,rfl,by decide⟩

/-- In front of it the first file gets the digest of the second, and the second gets none. -/
theorem sevenZipParseSubstreamsInfo_oneAndTwo :
    ¬ ∀ (data bytes : Bytes) (pos fuel : Nat) (table : SevenZipStreams) (division : List DividedFolder)
      (form : DigestsForm),table.streams = division.map DividedFolder.folder →
      WritesSubstreams form division bytes → StandsAt data pos bytes → data.length < fuel →
      ∃ table',(sevenZipParseSubstreamsInfo data.length fuel table).Yields data pos table'
          (pos+bytes.length) ∧
        table'.streams.map SevenZipStream.crc = division.flatMap DividedFolder.crcs := by
  intro h
  obtain ⟨table',hy,hcrcs⟩ := h oneAndTwo oneAndTwo 0 14
    {streams := [oneFile.folder,twoFiles.folder]} [oneFile,twoFiles] .bits rfl oneAndTwo_writes
    ⟨[],rfl⟩ (by decide)
  have hrun : (sevenZipParseSubstreamsInfo oneAndTwo.length 14
      {streams := [oneFile.folder,twoFiles.folder]}).Yields oneAndTwo 0
        ⟨[oneFile.folder.substream 1 0 4 (some 5),twoFiles.folder.substream 2 0 1 none,
          twoFiles.folder.substream 2 1 2 none],
          [([oneFile.folder,twoFiles.folder],[1,2])]⟩ 13 := rfl
  obtain ⟨rfl,_⟩ := hrun.iff_eq.mp hy
  exact absurd hcrcs (by decide)

end ZZ9K.Archive
