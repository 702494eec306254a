import Mathlib.Tactic.IntervalCases
import Mathlib.Tactic.Ring
import ZZ9K.Archive.SevenZipReads

namespace ZZ9K.Archive

open ZZ9K.Framework ZZ9K.Framework.Parse

/-- The bytes of a number, the low one first -/
def littleEndian : Nat → Nat → Bytes
  | 0,_ => []
  | k+1,n => n.toUInt8::littleEndian k (n/256)

/-- A number as the format writes it with `k` bytes behind the first, which has as many of its high
bits set and the high bits of the number in the low ones -/
def numberBytes (k n : Nat) : Bytes := (256-2^(8-k)+n/2^(8*k)).toUInt8::littleEndian k n

/-- The bytes that the format may write for a number -/
def WritesNumber (n : Nat) (bytes : Bytes) : Prop :=
  ∃ k,k ≤ 8 ∧ n < 2^(8*k+(7-k)) ∧ bytes = numberBytes k n

/-- The bytes for numbers one after the other -/
inductive WritesNumbers : List Nat → Bytes → Prop
  | nil : WritesNumbers [] []
  | cons {n : Nat} {ns : List Nat} {b bs : Bytes} :
    WritesNumber n b → WritesNumbers ns bs → WritesNumbers (n::ns) (b++bs)

/-- Eight bits as a byte, the first one the highest -/
def bitsByte (marks : List Bool) : Nat :=
  (List.range 8).foldl (fun v j => 2*v+(marks.getD j false).toNat) 0

/-- Bits as the format writes them, the last byte filled up with zeros -/
def bitVector (marks : List Bool) : Bytes :=
  (List.range ((marks.length+7)/8)).map fun i => (bitsByte (marks.drop (8*i))).toUInt8

/-- The digests that are defined -/
def digestBytes (digests : List (Option Nat)) : Bytes :=
  digests.flatMap fun digest => digest.elim [] (littleEndian 4)

@[simp] theorem littleEndian_length (k n : Nat) : (littleEndian k n).length = k := by
  induction k generalizing n with
  | zero => rfl
  | succ k ih => simp [littleEndian,ih]

@[simp] theorem numberBytes_length (k n : Nat) : (numberBytes k n).length = k+1 := by
  simp [numberBytes]

@[simp] theorem bitVector_length (marks : List Bool) :
    (bitVector marks).length = (marks.length+7)/8 := by simp [bitVector]

theorem digestBytes_length (digests : List (Option Nat)) :
    (digestBytes digests).length = 4*(digests.map Option.isSome).count true := by
  induction digests with
  | nil => rfl
  | cons digest digests ih =>
    cases digest with
    | none => simpa [digestBytes] using ih
    | some crc =>
      simp [digestBytes] at ih ⊢
      omega

/-- What the first byte of a number says: the bits that say how many bytes are behind it, and the
first that says that it is no more -/
theorem first_set : ∀ k < 9,∀ h < 2^(7-k),∀ i < k,(256-2^(8-k)+h) &&& (0x80 >>> i) ≠ 0 := by
  decide +kernel

theorem first_clear : ∀ k < 8,∀ h < 2^(7-k),(256-2^(8-k)+h) &&& (0x80 >>> k) = 0 ∧
    (256-2^(8-k)+h) &&& (0x80 >>> k-1) = h := by decide +kernel

theorem first_lt : ∀ k < 9,∀ h < 2^(7-k),256-2^(8-k)+h < 256 := by decide +kernel

theorem mod_two_pow_byte (n i : Nat) :
    n%2^(8*i) ||| (n/2^(8*i)%256) <<< (8*i) = n%2^(8*(i+1)) := by
  rw [Nat.or_comm,← Nat.shiftLeft_add_eq_or_of_lt (Nat.mod_lt _ (Nat.two_pow_pos _)),Nat.shiftLeft_eq,
    Nat.mul_add,Nat.pow_add,Nat.mod_mul]
  norm_num
  ring

/-- The bytes stand at a place of the header. -/
def StandsAt (data : Bytes) (pos : Nat) (bytes : Bytes) : Prop := bytes <+: data.drop pos

section

variable {data : Bytes} {pos : Nat}

theorem StandsAt.head {b : UInt8} {bytes : Bytes} (h : StandsAt data pos (b::bytes)) :
    data[pos]? = some b := by
  obtain ⟨rest,hrest⟩ := h
  rw [← Nat.add_zero pos,← List.getElem?_drop,← hrest]
  rfl

theorem StandsAt.first {b : UInt8} {bytes : Bytes} (h : StandsAt data pos (b::bytes)) :
    StandsAt data pos [b] := (List.prefix_append [b] bytes).trans h

theorem StandsAt.tail {b : UInt8} {bytes : Bytes} (h : StandsAt data pos (b::bytes)) :
    StandsAt data (pos+1) bytes := by
  obtain ⟨rest,hrest⟩ := h
  refine ⟨rest,?_⟩
  rw [← List.drop_drop,← hrest]
  rfl

theorem StandsAt.left {xs ys : Bytes} (h : StandsAt data pos (xs++ys)) : StandsAt data pos xs :=
  (List.prefix_append xs ys).trans h

theorem StandsAt.right {xs ys : Bytes} (h : StandsAt data pos (xs++ys)) :
    StandsAt data (pos+xs.length) ys := by
  obtain ⟨rest,hrest⟩ := h
  refine ⟨rest,?_⟩
  rw [← List.drop_drop,← hrest,List.append_assoc,List.drop_left]

theorem StandsAt.length_le {bytes : Bytes} (h : StandsAt data pos bytes) (hpos : pos ≤ data.length) :
    pos+bytes.length ≤ data.length := by
  have hle := List.IsPrefix.length_le h
  rw [List.length_drop] at hle
  omega

theorem StandsAt.getD {bytes : Bytes} (h : StandsAt data pos bytes) {i : Nat} (hi : i < bytes.length) :
    data.getD (pos+i) 0 = bytes[i] := by
  obtain ⟨rest,hrest⟩ := h
  rw [List.getD_eq_getElem?_getD,← List.getElem?_drop,← hrest,List.getElem?_append_left hi,
    List.getElem?_eq_getElem hi,Option.getD_some]

theorem StandsAt.lt {b : UInt8} {bytes : Bytes} (h : StandsAt data pos (b::bytes)) :
    pos < data.length := (List.getElem?_eq_some_iff.mp h.head).1

theorem sevenZipReadByte_yields {b : UInt8} {bytes : Bytes} (h : StandsAt data pos (b::bytes)) :
    (sevenZipReadByte data.length).Yields data pos b (pos+1) := by
  apply yields_position.bind
  rw [if_neg (Nat.not_le.mpr h.lt)]
  exact (yields_peek h.head).bind (yields_advance.bind rfl)

/-- The loop that reads a number, from the `i`-th byte behind the first on -/
theorem sevenZipReadNumberLoop_yields {k n : Nat} (hk : k ≤ 8) (hn : n < 2^(8*k+(7-k)))
    (left : Nat) {i : Nat} (hleft : left+i = 8) (hi : i ≤ k)
    (h : StandsAt data pos (littleEndian (k-i) (n/2^(8*i)))) :
    (sevenZipReadNumberLoop data.length (256-2^(8-k)+n/2^(8*k)) left (n%2^(8*i))).Yields data pos n
      (pos+(k-i)) := by
  have hhigh : n/2^(8*k) < 2^(7-k) := by
    rw [Nat.div_lt_iff_lt_mul (Nat.two_pow_pos _),← Nat.pow_add,Nat.add_comm]
    exact hn
  induction left generalizing i pos with
  | zero =>
    obtain rfl : i = 8 := by omega
    obtain rfl : k = 8 := by omega
    exact yields_pure.mpr ⟨(Nat.mod_eq_of_lt hn).symm,rfl⟩
  | succ left ih =>
    rw [sevenZipReadNumberLoop]
    have hindex : 7-left = i := by omega
    simp only [hindex]
    by_cases hik : i = k
    · subst hik
      obtain ⟨hclear,hlow⟩ := first_clear i (by omega) _ hhigh
      rw [if_pos hclear,hlow]
      refine yields_pure.mpr ⟨?_,by omega⟩
      rw [Nat.or_comm,← Nat.shiftLeft_add_eq_or_of_lt (Nat.mod_lt _ (Nat.two_pow_pos _)),
        Nat.shiftLeft_eq,Nat.div_add_mod']
    · rw [if_neg (first_set k (by omega) _ hhigh i (by omega))]
      obtain ⟨d,hd⟩ : ∃ d,k-i = d+1 := ⟨k-i-1,by omega⟩
      rw [hd,littleEndian] at h
      apply (sevenZipReadByte_yields h).bind
      have hpow : 2^(8*i)*256 = 2^(8*(i+1)) := by rw [Nat.mul_add,Nat.pow_add]
      have hrest := h.tail
      rw [Nat.div_div_eq_div_mul,hpow] at hrest
      have hbyte : (n/2^(8*i)).toUInt8.toNat = n/2^(8*i)%256 := by simp
      rw [hbyte,mod_two_pow_byte]
      rw [show d = k-(i+1) by omega] at hrest
      have hnext := ih (by omega) (by omega) hrest
      rwa [show pos+1+(k-(i+1)) = pos+(k-i) by omega] at hnext

theorem sevenZipReadNumber_yields {n : Nat} {bytes : Bytes} (hn : WritesNumber n bytes)
    (h : StandsAt data pos bytes) :
    (sevenZipReadNumber data.length).Yields data pos n (pos+bytes.length) := by
  obtain ⟨k,hk,hlt,rfl⟩ := hn
  have hhigh : n/2^(8*k) < 2^(7-k) := by
    rw [Nat.div_lt_iff_lt_mul (Nat.two_pow_pos _),← Nat.pow_add,Nat.add_comm]
    exact hlt
  apply (sevenZipReadByte_yields h).bind
  have hfirst : (256-2^(8-k)+n/2^(8*k)).toUInt8.toNat = 256-2^(8-k)+n/2^(8*k) :=
    UInt8.toNat_ofNat_of_lt' (first_lt k (by omega) _ hhigh)
  rw [hfirst,numberBytes_length]
  by_cases hk0 : k = 0
  · subst hk0
    obtain ⟨hclear,_⟩ := first_clear 0 (by omega) _ hhigh
    refine (if_pos hclear).symm ▸ yields_pure.mpr ⟨?_,rfl⟩
    simp
  · have hset := first_set k (by omega) _ hhigh 0 (by omega)
    have hloop := sevenZipReadNumberLoop_yields hk hlt 8 (i := 0) (by omega) (by omega)
      (by simpa using h.tail)
    rw [Nat.mul_zero,Nat.pow_zero,Nat.mod_one,Nat.sub_zero,Nat.add_assoc,Nat.add_comm 1] at hloop
    exact (if_neg hset).symm ▸ hloop

theorem bitsByte_set (marks : List Bool) {j : Nat} (hj : j < 8) :
    decide ((bitsByte marks).toUInt8.toNat &&& (0x80 >>> j) ≠ 0) = marks.getD j false := by
  have hbyte : bitsByte marks = [0,1,2,3,4,5,6,7].foldl
      (fun v j => 2*v+(marks.getD j false).toNat) 0 := rfl
  rw [hbyte]
  simp only [List.foldl]
  generalize hf : (fun i => marks.getD i false) = f
  have hget : ∀ i,marks.getD i false = f i := fun i => by rw [← hf]
  simp only [hget]
  interval_cases j <;> generalize f 0 = b0,f 1 = b1,f 2 = b2,f 3 = b3,f 4 = b4,f 5 = b5,f 6 = b6,
    f 7 = b7 <;> revert b0 b1 b2 b3 b4 b5 b6 b7 <;> decide +kernel

/-- The bits that the format writes are those that are read, and behind them none is set. -/
theorem headerBit_bitVector {marks : List Bool} {bit : Nat} (h : StandsAt data pos (bitVector marks))
    (hbit : bit/8 < (marks.length+7)/8) : headerBit data pos bit = marks.getD bit false := by
  have hlt : bit/8 < (bitVector marks).length := by rwa [bitVector_length]
  have hget : (bitVector marks)[bit/8] = (bitsByte (marks.drop (8*(bit/8)))).toUInt8 := by
    simp [bitVector]
  rw [headerBit,h.getD hlt,hget,bitsByte_set _ (Nat.mod_lt bit (by decide)),
    List.getD_eq_getElem?_getD,List.getElem?_drop,Nat.div_add_mod,← List.getD_eq_getElem?_getD]

theorem headerBits_bitVector {marks : List Bool} {n : Nat} (h : StandsAt data pos (bitVector marks))
    (hlen : marks.length ≤ n) (hbytes : (n+7)/8 = (marks.length+7)/8) :
    headerBits data pos n 0 = marks++List.replicate (n-marks.length) false := by
  apply List.ext_getElem
  · simp [headerBits_length]
    omega
  · intro i hi hi'
    have hin : i < n := by simpa [headerBits_length] using hi
    have hget : (headerBits data pos n 0)[i] = headerBit data pos i := by simp [headerBits]
    rw [hget,headerBit_bitVector h (by omega)]
    by_cases hm : i < marks.length
    · rw [List.getElem_append_left hm,List.getD_eq_getElem _ _ hm]
    · rw [List.getElem_append_right (Nat.not_lt.mp hm),List.getElem_replicate,
        List.getD_eq_default _ _ (Nat.not_lt.mp hm)]

theorem headerLe32_eq {crc : Nat} (hcrc : crc < 2^32) (h : StandsAt data pos (littleEndian 4 crc)) :
    headerLe32 data pos = crc := by
  rw [headerLe32]
  have h0 := h.getD (i := 0) (by simp)
  have h1 := h.getD (i := 1) (by simp)
  have h2 := h.getD (i := 2) (by simp)
  have h3 := h.getD (i := 3) (by simp)
  rw [Nat.add_zero] at h0
  rw [h0,h1,h2,h3]
  simp [littleEndian]
  omega

/-- The loop reads digests whose defined ones stand there. -/
theorem sevenZipReadDigestsLoop_yields {definedBits : Option Nat} {digests : List (Option Nat)}
    {i : Nat} (hmarks : digestMarksFrom data definedBits digests.length i =
      digests.map Option.isSome) (hcrcs : ∀ digest ∈ digests,∀ crc ∈ digest,crc < 2^32)
    (hpos : pos ≤ data.length) (h : StandsAt data pos (digestBytes digests))
    (hbits : ∀ base ∈ definedBits,base+(i+digests.length+7)/8 ≤ data.length) :
    (sevenZipReadDigestsLoop definedBits digests.length i).Yields data pos digests
      (pos+(digestBytes digests).length) := by
  induction digests generalizing i pos with
  | nil => rfl
  | cons digest digests ih =>
    have htail : digestMarksFrom data definedBits digests.length (i+1) =
        digests.map Option.isSome := by
      cases definedBits with
      | none => exact (List.cons.inj hmarks).2
      | some base =>
        rw [List.length_cons] at hmarks
        exact (List.cons.inj ((headerBits_succ data base digests.length i).symm.trans hmarks)).2
    apply (sevenZipIsDefined_yields hmarks hbits).bind
    have hrest : ∀ digest ∈ digests,∀ crc ∈ digest,crc < 2^32 :=
      fun d hd => hcrcs d (List.mem_cons_of_mem _ hd)
    have hbits' : ∀ base ∈ definedBits,base+(i+1+digests.length+7)/8 ≤ data.length := by
      intro base hbase
      have hlen := hbits base hbase
      rwa [show i+1+digests.length = i+(digest::digests).length by rw [List.length_cons]; omega]
    cases digest with
    | none => exact (yields_pure.mpr ⟨rfl,rfl⟩).bind ((ih htail hrest hpos h hbits').bind rfl)
    | some crc =>
      have hcrc : StandsAt data pos (littleEndian 4 crc) := h.left
      have hlen := hcrc.length_le hpos
      rw [littleEndian_length] at hlen
      have hvalue := headerLe32_eq (hcrcs _ List.mem_cons_self crc rfl) hcrc
      have hbehind : StandsAt data (pos+(littleEndian 4 crc).length) (digestBytes digests) := h.right
      have hloop := ih htail hrest hlen hbehind hbits'
      have hend : pos+(digestBytes (some crc::digests)).length =
          pos+4+(digestBytes digests).length := by
        simp [digestBytes]
        omega
      rw [hend]
      refine Yields.bind (?_ : Yields data _ pos (some crc) (pos+4)) (hloop.bind rfl)
      apply yields_position.bind
      apply (sevenZipGetLe32_yields hlen).bind
      rw [hvalue]
      exact yields_advance.bind rfl

/-- Digests are read if as many are marked as defined as there are, and those stand behind. -/
theorem sevenZipReadDigests_yields_iff {digests : List (Option Nat)} {mark : UInt8} {bits : Bytes}
    (h : StandsAt data pos (mark::(bits++digestBytes digests)))
    (hbits : bits.length = if mark = 0 then (digests.length+7)/8 else 0)
    (hmarks : digestMarks data digests.length pos = digests.map Option.isSome)
    (hcrcs : ∀ digest ∈ digests,∀ crc ∈ digest,crc < 2^32) {read : List (Option Nat)} {pos' : Nat} :
    (sevenZipReadDigests data.length digests.length).Yields data pos read pos' ↔
      (digests.map Option.isSome).count true ≤ 0x1fffffff ∧ read = digests ∧
        pos' = pos+1+bits.length+(digestBytes digests).length := by
  have hmark : data.getD pos 0 = mark := h.getD (i := 0) (by simp)
  have hall := h.length_le (Nat.le_of_lt h.lt)
  have hstored := h.tail.right
  rw [List.length_cons,List.length_append,digestBytes_length] at hall
  have hread : ∀ {definedBits : Option Nat},
      digestMarksFrom data definedBits digests.length 0 = digests.map Option.isSome →
      (∀ base ∈ definedBits,base+(0+digests.length+7)/8 ≤ data.length) →
      ((if 0x1fffffff < (digests.map Option.isSome).count true ∨ sevenZipFits data.length
            (pos+1+bits.length) ((digests.map Option.isSome).count true*4) = false then Parse.fail
          else sevenZipReadDigestsLoop definedBits digests.length 0 :
        HeaderParse (List (Option Nat))).Yields data (pos+1+bits.length) read pos' ↔
          (digests.map Option.isSome).count true ≤ 0x1fffffff ∧ read = digests ∧
            pos' = pos+1+bits.length+(digestBytes digests).length) := by
    intro definedBits hmarks hbits
    have hloop := sevenZipReadDigestsLoop_yields hmarks hcrcs (by omega) hstored hbits
    by_cases hmany : 0x1fffffff < (digests.map Option.isSome).count true
    · rw [if_pos (Or.inl hmany)]
      exact iff_of_false not_yields_fail fun he => absurd he.1 (Nat.not_le.mpr hmany)
    · have hfits : ¬ (0x1fffffff < (digests.map Option.isSome).count true ∨ sevenZipFits data.length
          (pos+1+bits.length) ((digests.map Option.isSome).count true*4) = false) := by
        rw [not_sevenZipFits_iff]
        omega
      rw [if_neg hfits,hloop.iff_eq]
      exact (and_iff_right (Nat.not_lt.mp hmany)).symm
  rw [sevenZipReadDigests,(sevenZipReadByte_yields h).bind_iff,yields_position.bind_iff]
  by_cases hzero : mark = 0
  · rw [digestMarks,if_pos (hmark.trans hzero)] at hmarks
    rw [if_pos hzero] at hbits
    have hroom : ¬ (mark = 0 ∧ sevenZipFits data.length (pos+1) ((digests.length+7)/8) = false) := by
      rw [not_sevenZipFits_iff]
      omega
    have hcount : (do
        let count ← sevenZipCountBits (pos+1) digests.length
        Parse.advance ((digests.length+7)/8)
        pure count : HeaderParse Nat).Yields data (pos+1)
          ((digests.map Option.isSome).count true) (pos+1+bits.length) := by
      apply (sevenZipCountBits_yields (by omega)).bind
      rw [hmarks,← hbits]
      exact yields_advance.bind rfl
    rw [if_neg hroom,if_pos hzero,if_pos hzero,hcount.bind_iff,yields_position.bind_iff]
    refine hread hmarks ?_
    rintro base ⟨⟩
    omega
  · rw [digestMarks,if_neg (fun he => hzero (hmark.symm.trans he))] at hmarks
    rw [if_neg hzero] at hbits
    have hroom : ¬ (mark = 0 ∧ sevenZipFits data.length (pos+1) ((digests.length+7)/8) = false) :=
      fun he => hzero he.1
    have hdefined : digests.length = (digests.map Option.isSome).count true := by
      rw [← hmarks,List.count_replicate_self]
    have hpure : (pure digests.length : HeaderParse Nat).Yields data (pos+1)
        ((digests.map Option.isSome).count true) (pos+1+bits.length) :=
      yields_pure.mpr ⟨hdefined.symm,by rw [hbits,Nat.add_zero]⟩
    rw [if_neg hroom,if_neg hzero,if_neg hzero,hpure.bind_iff,yields_position.bind_iff]
    exact hread hmarks (by simp)

end

end ZZ9K.Archive
