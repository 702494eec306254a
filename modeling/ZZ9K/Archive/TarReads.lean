import Mathlib
import ZZ9K.Archive.TarWalk
import ZZ9K.Framework.Reading

namespace ZZ9K.Archive

open ZZ9K.Framework ZZ9K.Framework.Reading

/-- A walk over the bytes of an archive, by their places -/
abbrev TarReading (α : Type) := Reading UInt8 α

/-- One byte -/
abbrev byteAt (i : Nat) : TarReading UInt8 := Ask.ask i Ask.ret

/-- `zz9k_archive_tar_header_empty` -/
def tarHeaderEmptyAt (pos : Nat) : TarReading Bool :=
  scan (fun _ => .inr fun c => if c ≠ 0 then .inl false else .inr ()) (fun _ => true) 512 pos ()

/-- `zz9k_archive_parse_octal` -/
def parseOctalAt (length field : Nat) : TarReading (Option Nat) :=
  scan (fun s => .inr fun c =>
      if c = 0 ∨ c = 32 then .inl (if s.2 then some s.1 else none)
      else if c.toNat < 48 ∨ 55 < c.toNat then .inl none
      else if 0x1fffffff < s.1 then .inl none
      else .inr (s.1*8+digit c,true))
    (fun s => if s.2 then some s.1 else none) length field (0,false)

/-- The loop of `zz9k_archive_parse_base256` -/
def parseBase256At (length field out : Nat) : TarReading (Option Nat) :=
  scan (fun out => if 0x7fffffff >>> 8 < out then .inl none
      else .inr fun c => .inr (out*2^8+c.toNat))
    (fun out => if 0x7fffffff < out then none else some out) length field out

/-- `zz9k_archive_parse_tar_number`, with `zz9k_archive_parse_base256` -/
def parseTarNumberAt (length field : Nat) : TarReading (Option Nat) := do
  let c ← byteAt field
  if c.toNat &&& 0x80 ≠ 0 then
    if c.toNat &&& 0x40 ≠ 0 then return none
    else parseBase256At (length-1) (field+1) (c.toNat &&& 0x3f)
  else parseOctalAt length field

/-- `zz9k_archive_tar_header_checksum_valid` -/
def tarHeaderChecksumValidAt (pos : Nat) : TarReading Bool := do
  let stored ← parseOctalAt 8 (pos+148)
  match stored with
  | none => return false
  | some stored =>
    let before ← readAll 148 pos
    let after ← readAll 356 (pos+156)
    let bytes := before++List.replicate 8 32++after
    return stored = (bytes.map UInt8.toNat).sum ∨ (stored : Int) = (bytes.map signedByte).sum%2^32

/-- `zz9k_archive_tar_name` -/
def tarNameAt (pos : Nat) : TarReading (Option CString) := do
  let name ← readWhile (· ≠ 0) 100 pos
  let fieldPrefix ← readWhile (· ≠ 0) 155 (pos+345)
  if name.length = 0 then return none
  else if fieldPrefix.length ≠ 0 then
    if archiveMaxName ≤ fieldPrefix.length+1+name.length then return none
    else return some (fieldPrefix++slash::name)
  else return copyName name name.length

/-- `zz9k_archive_tar_entry_from_header` -/
def tarEntryFromHeaderAt (pos dataOffset : Nat) : TarReading (Option ArchiveEntry) := do
  let valid ← tarHeaderChecksumValidAt pos
  if !valid then return none
  else
    let name ← tarNameAt pos
    match name with
    | none => return none
    | some name =>
      let size ← parseTarNumberAt 12 (pos+124)
      match size with
      | none => return none
      | some size =>
        let (name,skip) := tarNormalizeName name
        let typeflag ← byteAt (pos+156)
        return some {
          name
          flags := (if skip then tarFlagSkip else 0) ||| tarTypeFlags typeflag
          dataOffset
          compressedSize := size
          uncompressedSize := size
          isDir := typeflag = 0x35 ∨ nameEndsWithSlash name }

/-- `zz9k_archive_tar_copy_data_name` -/
def tarCopyDataNameAt (length offset : Nat) : TarReading (Option (CString × Bool)) :=
  if length = 0 then return none
  else do
    let name ← readWhile (fun c => c ≠ 0 ∧ c ≠ newline) length offset
    if name.length = 0 ∨ archiveMaxName ≤ name.length then return none
    else return some (tarNormalizeName name)

/-- The digits at the head of a record of `zz9k_archive_tar_parse_pax_info` -/
def paxRecordLenAt (length offset : Nat) : TarReading (Option (Nat × Nat)) :=
  scan (fun s => .inr fun c =>
      if isDigit c then
        if 99999 < s.1 then .inl none else .inr (s.1*10+digit c,s.2+1)
      else .inl (some s)) some length offset (0,0)

/-- `zz9k_archive_parse_decimal` -/
def parseDecimalAt (length field : Nat) : TarReading (Option Nat) :=
  if length = 0 then return none
  else scan (fun out => .inr fun c =>
      if isDigit c = false ∨ 0x7fffffff/10 < out then .inl none
      else if 0x7fffffff-out*10 < digit c then .inl none
      else .inr (out*10+digit c)) some length field 0

/-- What `zz9k_archive_tar_parse_pax_info` takes from one record -/
def tarPaxRecordAt (length offset : Nat) (info : TarPaxInfo) : TarReading (Option TarPaxInfo) := do
  let key ← readWhile (· ≠ 0x3d) length offset
  if key = pathKey ∧ key.length+1 < length then
    let pathLength := length-key.length-1
    if archiveMaxName ≤ pathLength then return none
    else
      let path ← readAll pathLength (offset+(key.length+1))
      return some {info with path := some (tarNormalizeName (path.takeWhile (· ≠ 0)))}
  else if key = sizeKey ∧ key.length+1 < length then
    let size ← parseDecimalAt (length-key.length-1) (offset+(key.length+1))
    return size.map fun size => {info with size := some size}
  else return some info

/-- `zz9k_archive_tar_parse_pax_info`, `info` being what earlier records gave -/
def tarParsePaxInfoAt (length offset : Nat) (info : TarPaxInfo) : TarReading (Option TarPaxInfo) :=
  if _h : length = 0 then return some info
  else do
    let record ← paxRecordLenAt length offset
    match record with
    | none => return none
    | some (recordLen,digits) =>
      if digits = 0 ∨ length ≤ digits then return none
      else
        let space ← byteAt (offset+digits)
        if _h : space ≠ 32 ∨ recordLen ≤ digits+1 ∨ length < recordLen then return none
        else
          let last ← byteAt (offset+recordLen-1)
          if last ≠ newline then return none
          else
            let next ← tarPaxRecordAt (recordLen-digits-2) (offset+digits+1) info
            match next with
            | none => return none
            | some info => tarParsePaxInfoAt (length-recordLen) (offset+recordLen) info
termination_by length

section

variable {data : Bytes}

theorem onBuffer_byteAt {i : Nat} (h : i < data.length) :
    onBuffer data (byteAt i) = some (data.getD i 0) := by
  rw [byteAt,onBuffer_ask data h,List.getD_eq_getElem?_getD,List.getElem?_eq_getElem h]
  rfl

theorem onBuffer_one {α : Type} {i : Nat} (h : i < data.length) (f : UInt8 → TarReading α) :
    onBuffer data (byteAt i >>= f) = onBuffer data (f (data.getD i 0)) := by
  rw [onBuffer_bind,onBuffer_byteAt h,Option.bind_some]

theorem tarHeaderEmptyAt_eq {pos : Nat} (h : pos+512 ≤ data.length) :
    onBuffer data (tarHeaderEmptyAt pos) = some (tarHeaderEmpty (slice data pos tarBlock)) := by
  have hslice : slice (slice data pos tarBlock) 0 512 = slice data pos 512 := by
    rw [slice_slice data (show 0+512 ≤ tarBlock from Nat.le_refl 512),Nat.add_zero]
  rw [tarHeaderEmptyAt,onBuffer_scan data _ _ _ _ _ h,tarHeaderEmpty,hslice,slice]
  generalize (data.drop pos).take 512 = bytes
  congr 1
  induction bytes with
  | nil => rfl
  | cons c bytes ih =>
    rw [scanList,List.all_cons,← ih]
    by_cases hc : c = 0
    · simp [hc]
    · simp [hc]

theorem parseOctalAt_eq {length field : Nat} (h : field+length ≤ data.length) :
    onBuffer data (parseOctalAt length field) = some (parseOctal (slice data field length)) := by
  rw [parseOctalAt,onBuffer_scan data _ _ _ _ _ h,parseOctal,slice]
  generalize (data.drop field).take length = bytes
  congr 1
  generalize (0 : Nat) = out
  generalize false = seen
  induction bytes generalizing out seen with
  | nil => rfl
  | cons c bytes ih =>
    have hrest := ih (out*8+digit c) true
    rw [parseOctalLoop,scanList]
    by_cases hend : c = 0 ∨ c = 32
    · simp only [if_pos hend]
    by_cases hbad : c.toNat < 48 ∨ 55 < c.toNat
    · simp only [if_neg hend,if_pos hbad]
    by_cases hbig : 0x1fffffff < out
    · simp only [if_neg hend,if_neg hbad,if_pos hbig]
    simp only [if_neg hend,if_neg hbad,if_neg hbig]
    exact hrest

theorem parseBase256At_eq {length field : Nat} (h : field+length ≤ data.length) (out : Nat) :
    onBuffer data (parseBase256At length field out) =
      some (parseBase256Loop (slice data field length) out) := by
  rw [parseBase256At,onBuffer_scan data _ _ _ _ _ h,slice]
  generalize (data.drop field).take length = bytes
  congr 1
  induction bytes generalizing out with
  | nil => rfl
  | cons c bytes ih =>
    have hrest := ih (out*2^8+c.toNat)
    rw [parseBase256Loop,scanList]
    by_cases hbig : 0x7fffffff >>> 8 < out
    · simp only [if_pos hbig]
    · simp only [if_neg hbig]
      exact hrest

theorem slice_cons {offset length : Nat} (h : offset < data.length) :
    slice data offset (length+1) = data.getD offset 0::slice data (offset+1) length := by
  rw [slice,List.drop_eq_getElem_cons h,List.take_succ_cons,List.getD_eq_getElem?_getD,
    List.getElem?_eq_getElem h]
  rfl

theorem parseTarNumberAt_eq {length field : Nat} (h : field+(length+1) ≤ data.length) :
    onBuffer data (parseTarNumberAt (length+1) field) =
      some (parseTarNumber (slice data field (length+1))) := by
  have hlt : field < data.length := by omega
  have hoctal := parseOctalAt_eq h
  rw [slice_cons hlt] at hoctal ⊢
  unfold parseTarNumberAt
  rw [onBuffer_one hlt,parseTarNumber]
  split_ifs
  · rfl
  · exact parseBase256At_eq (show field+1+length ≤ data.length by omega) _
  · exact hoctal

theorem tarHeaderChecksumValidAt_eq {pos : Nat} (h : pos+512 ≤ data.length) :
    onBuffer data (tarHeaderChecksumValidAt pos) =
      some (tarHeaderChecksumValid (slice data pos tarBlock)) := by
  have hfield : slice (slice data pos tarBlock) 148 8 = slice data (pos+148) 8 :=
    slice_slice data (by decide)
  have hbefore : slice (slice data pos tarBlock) 0 148 = slice data pos 148 :=
    slice_slice data (by decide)
  have hafter : slice (slice data pos tarBlock) 156 356 = slice data (pos+156) 356 :=
    slice_slice data (by decide)
  unfold tarHeaderChecksumValidAt tarHeaderChecksumValid tarChecksumBytes
  rw [onBuffer_bind,parseOctalAt_eq (show pos+148+8 ≤ data.length by omega),hfield,hbefore,hafter,
    Option.bind_some]
  cases parseOctal (slice data (pos+148) 8) with
  | none => rfl
  | some stored =>
    dsimp only
    rw [onBuffer_bind,onBuffer_readAll data (show pos+148 ≤ data.length by omega),
      Option.bind_some,onBuffer_bind,onBuffer_readAll data (show pos+156+356 ≤ data.length by omega),
      Option.bind_some]
    rfl

theorem tarNameAt_eq {pos : Nat} (h : pos+512 ≤ data.length) :
    onBuffer data (tarNameAt pos) = some (tarName (slice data pos tarBlock)) := by
  have hname : slice (slice data pos tarBlock) 0 100 = slice data pos 100 :=
    slice_slice data (by decide)
  have hprefix : slice (slice data pos tarBlock) 345 155 = slice data (pos+345) 155 :=
    slice_slice data (by decide)
  unfold tarNameAt tarName
  rw [onBuffer_bind,onBuffer_readWhile data _ (show pos+100 ≤ data.length by omega),
    Option.bind_some,onBuffer_bind,
    onBuffer_readWhile data _ (show pos+345+155 ≤ data.length by omega),Option.bind_some,hname,
    hprefix]
  unfold slice
  dsimp only
  split_ifs <;> rfl

theorem tarEntryFromHeaderAt_eq {pos : Nat} (h : pos+512 ≤ data.length) (dataOffset : Nat) :
    onBuffer data (tarEntryFromHeaderAt pos dataOffset) =
      some (tarEntryFromHeader (slice data pos tarBlock) dataOffset) := by
  have hnumber : slice (slice data pos tarBlock) 124 12 = slice data (pos+124) 12 :=
    slice_slice data (by decide)
  have htype : (slice data pos tarBlock).getD 156 0 = data.getD (pos+156) 0 := by
    have hbyte := byte_slice data (show 156 < tarBlock by decide) (o := pos)
    exact UInt8.toNat_inj.mp hbyte
  unfold tarEntryFromHeaderAt tarEntryFromHeader
  rw [onBuffer_bind,tarHeaderChecksumValidAt_eq h,Option.bind_some]
  cases tarHeaderChecksumValid (slice data pos tarBlock) with
  | false => rfl
  | true =>
    rw [if_neg (by decide),if_neg (by decide),onBuffer_bind,tarNameAt_eq h,Option.bind_some]
    cases tarName (slice data pos tarBlock) with
    | none => rfl
    | some name =>
      dsimp only
      rw [onBuffer_bind,parseTarNumberAt_eq (show pos+124+(11+1) ≤ data.length by omega),hnumber,
        Option.bind_some]
      cases parseTarNumber (slice data (pos+124) 12) with
      | none => rfl
      | some size =>
        dsimp only
        rw [onBuffer_one (show pos+156 < data.length by omega),htype]
        rfl

theorem tarCopyDataNameAt_eq {length offset : Nat} (h : offset+length ≤ data.length) :
    onBuffer data (tarCopyDataNameAt length offset) =
      some (tarCopyDataName (slice data offset length)) := by
  have hlength : (slice data offset length).length = length := length_slice data h
  unfold tarCopyDataNameAt tarCopyDataName
  rw [hlength]
  by_cases hzero : length = 0
  · rw [if_pos hzero,if_pos (Or.inl hzero)]
    rfl
  · rw [if_neg hzero,onBuffer_bind,onBuffer_readWhile data _ h,Option.bind_some]
    unfold slice
    simp only [hzero,false_or]
    split_ifs <;> rfl

theorem paxRecordLenAt_eq {length offset : Nat} (h : offset+length ≤ data.length) :
    onBuffer data (paxRecordLenAt length offset) =
      some (paxRecordLen (slice data offset length) 0 0) := by
  rw [paxRecordLenAt,onBuffer_scan data _ _ _ _ _ h,slice]
  generalize (data.drop offset).take length = bytes
  congr 1
  have hgo : ∀ record digits,scanList (fun s : Nat × Nat => .inr fun c =>
      if isDigit c then
        if 99999 < s.1 then .inl none else .inr (s.1*10+digit c,s.2+1)
      else .inl (some s)) some bytes (record,digits) = paxRecordLen bytes record digits := by
    induction bytes with
    | nil => exact fun _ _ => rfl
    | cons c bytes ih =>
      intro record digits
      have hrest := ih (record*10+digit c) (digits+1)
      rw [paxRecordLen,scanList]
      cases hc : isDigit c with
      | false => simp only [hc,Bool.false_eq_true,if_false]
      | true =>
        by_cases hbig : 99999 < record
        · simp only [hc,if_true,if_pos hbig]
        · simp only [hc,if_true,if_neg hbig]
          exact hrest
  exact hgo 0 0

theorem parseDecimalAt_eq {length field : Nat} (h : field+length ≤ data.length) :
    onBuffer data (parseDecimalAt length field) = some (parseDecimal (slice data field length)) := by
  have hlength : (slice data field length).length = length := length_slice data h
  unfold parseDecimalAt parseDecimal
  rw [hlength]
  by_cases hzero : length = 0
  · rw [if_pos hzero,if_pos hzero]
    rfl
  rw [if_neg hzero,if_neg hzero,onBuffer_scan data _ _ _ _ _ h,slice]
  generalize (data.drop field).take length = bytes
  congr 1
  generalize (0 : Nat) = out
  induction bytes generalizing out with
  | nil => rfl
  | cons c bytes ih =>
    have hrest := ih (out*10+digit c)
    rw [parseDecimalLoop,scanList]
    by_cases hbad : isDigit c = false ∨ 0x7fffffff/10 < out
    · simp only [if_pos hbad]
    by_cases hbig : 0x7fffffff-out*10 < digit c
    · simp only [if_neg hbad,if_pos hbig]
    simp only [if_neg hbad,if_neg hbig]
    exact hrest

theorem tarPaxRecordAt_eq {length offset : Nat} (h : offset+length ≤ data.length)
    (info : TarPaxInfo) : onBuffer data (tarPaxRecordAt length offset info) =
      some (tarPaxRecord (slice data offset length) info) := by
  have hlength : (slice data offset length).length = length := length_slice data h
  have hrest : ∀ n,n+1 < length → (slice data offset length).drop (n+1) =
      slice data (offset+(n+1)) (length-n-1) := by
    intro n hn
    rw [slice,List.drop_take,List.drop_drop,slice]
    rfl
  have hkey : onBuffer data (readWhile (· ≠ 0x3d) length offset) =
      some ((slice data offset length).takeWhile (· ≠ 0x3d)) := onBuffer_readWhile data _ h
  unfold tarPaxRecordAt tarPaxRecord
  rw [onBuffer_bind,hkey,Option.bind_some,hlength]
  generalize (slice data offset length).takeWhile (· ≠ 0x3d) = key
  dsimp only
  by_cases hpath : key = pathKey ∧ key.length+1 < length
  · have hinside : offset+(key.length+1)+(length-key.length-1) ≤ data.length := by omega
    rw [if_pos hpath,if_pos hpath,hrest _ hpath.2,length_slice data hinside]
    split_ifs with hlong
    · rfl
    · rw [onBuffer_bind,onBuffer_readAll data hinside]
      rfl
  rw [if_neg hpath,if_neg hpath]
  by_cases hsize : key = sizeKey ∧ key.length+1 < length
  · have hinside : offset+(key.length+1)+(length-key.length-1) ≤ data.length := by omega
    rw [if_pos hsize,if_pos hsize,hrest _ hsize.2,onBuffer_bind,parseDecimalAt_eq hinside,
      Option.bind_some]
    cases parseDecimal (slice data (offset+(key.length+1)) (length-key.length-1)) <;> rfl
  · rw [if_neg hsize,if_neg hsize]
    rfl

theorem tarParsePaxInfoAt_eq {length offset : Nat} (h : offset+length ≤ data.length)
    (info : TarPaxInfo) : onBuffer data (tarParsePaxInfoAt length offset info) =
      some (tarParsePaxInfo (slice data offset length) info) := by
  induction length using Nat.strong_induction_on generalizing offset info with
  | _ length ih =>
    have hlength : (slice data offset length).length = length := length_slice data h
    rw [tarParsePaxInfoAt,tarParsePaxInfo,hlength]
    split_ifs with hzero
    · rfl
    rw [onBuffer_bind,paxRecordLenAt_eq h,Option.bind_some]
    cases paxRecordLen (slice data offset length) 0 0 with
    | none => rfl
    | some r =>
      obtain ⟨recordLen,digits⟩ := r
      simp only [Option.bind_eq_bind,Option.bind_some]
      by_cases hdigits : digits = 0 ∨ length ≤ digits
      · rw [if_pos hdigits,dif_pos (by tauto)]
        rfl
      have hplace : offset+digits < data.length := by omega
      have hspace : (data.getD (offset+digits) 0 ≠ 32) ↔
          byte (slice data offset length) digits ≠ 32 := by
        rw [byte_slice data (show digits < length by omega),byte]
        exact not_congr UInt8.toNat_inj.symm
      rw [if_neg hdigits,onBuffer_one hplace]
      by_cases hrecord : data.getD (offset+digits) 0 ≠ 32 ∨ recordLen ≤ digits+1 ∨
          length < recordLen
      · rw [dif_pos hrecord,dif_pos (by tauto)]
        rfl
      have hrecord' : ¬(digits = 0 ∨ length ≤ digits ∨
          byte (slice data offset length) digits ≠ 32 ∨ recordLen ≤ digits+1 ∨
          length < recordLen) := by tauto
      have hbody : slice (slice data offset length) (digits+1) (recordLen-digits-1) =
          slice data (offset+(digits+1)) (recordLen-digits-1) := slice_slice data (by omega)
      have hbodyLength : (slice data (offset+(digits+1)) (recordLen-digits-1)).length =
          recordLen-digits-1 := length_slice data (by omega)
      have hlast : (data.getD (offset+recordLen-1) 0 ≠ newline) ↔
          byte (slice data (offset+(digits+1)) (recordLen-digits-1)) (recordLen-digits-1-1) ≠
            newline.toNat := by
        rw [byte_slice data (show recordLen-digits-1-1 < recordLen-digits-1 by omega),byte,
          show offset+(digits+1)+(recordLen-digits-1-1) = offset+recordLen-1 by omega]
        exact not_congr UInt8.toNat_inj.symm
      have hvalue : (slice data (offset+(digits+1)) (recordLen-digits-1)).take
          (recordLen-digits-1-1) = slice data (offset+digits+1) (recordLen-digits-2) := by
        rw [slice,List.take_take,min_eq_left (by omega)]
        rfl
      rw [dif_neg hrecord,dif_neg hrecord',hbody,hbodyLength,
        onBuffer_one (show offset+recordLen-1 < data.length by omega)]
      by_cases hend : data.getD (offset+recordLen-1) 0 ≠ newline
      · rw [if_pos hend,if_pos (hlast.mp hend)]
        rfl
      have hnext : onBuffer data (tarPaxRecordAt (recordLen-digits-2) (offset+digits+1) info) =
          some (tarPaxRecord (slice data (offset+digits+1) (recordLen-digits-2)) info) :=
        tarPaxRecordAt_eq (by omega) info
      rw [if_neg hend,if_neg (hlast.not.mp hend),hvalue,onBuffer_bind,hnext,Option.bind_some]
      cases tarPaxRecord (slice data (offset+digits+1) (recordLen-digits-2)) info with
      | none => rfl
      | some info =>
        have hdrop : (slice data offset length).drop recordLen =
            slice data (offset+recordLen) (length-recordLen) := by
          rw [slice,List.drop_take,List.drop_drop,slice]
        rw [Option.bind_some,hdrop]
        exact ih (length-recordLen) (by omega) (by omega) info

end

end ZZ9K.Archive
