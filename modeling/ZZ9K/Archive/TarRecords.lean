import ZZ9K.Archive.TarWalk

namespace ZZ9K.Archive

def longNameType : UInt8 := 0x4c
def longLinkType : UInt8 := 0x4b
def paxType : UInt8 := 0x78
def globalType : UInt8 := 0x67

/-- A record of a tar: what its header says, its type letter, and what it gives to the member it
precedes -/
structure TarPart where
  header : ArchiveEntry
  typeflag : UInt8
  name : Option (CString × Bool)
  size : Option Nat

namespace TarPart

/-- A long link name or global attributes: a record beside the members that gives them nothing -/
def isAside (part : TarPart) : Bool := part.typeflag = longLinkType ∨ part.typeflag = globalType

def isMember (part : TarPart) : Bool :=
  part.typeflag ≠ longNameType ∧ part.typeflag ≠ paxType ∧ !part.isAside

end TarPart

/-- The name that the records so far give to the next member: that of the last one with a name since
the last member. The flag says that it is a name to skip. -/
def nameGiven (before : List TarPart) : Option (CString × Bool) :=
  (before.reverse.takeWhile fun part => !part.isMember).findSome? (·.name)

/-- The size that the records so far give to the next member -/
def sizeGiven (before : List TarPart) : Option Nat :=
  (before.reverse.takeWhile fun part => !part.isMember).findSome? (·.size)

/-- The record at `pos` is well formed and gives what its type can give. -/
structure TarPartAt (data : Bytes) (pos : Nat) (part : TarPart) : Prop where
  room : pos+512 ≤ data.length
  filled : tarHeaderEmpty (slice data pos tarBlock) = false
  header : tarEntryFromHeader (slice data pos tarBlock) (pos+512) = some part.header
  typeflag : (slice data pos tarBlock).getD 156 0 = part.typeflag
  inside : tarInRange data part.header = true
  longName : part.typeflag = longNameType →
    part.name = tarCopyDataName (tarData data part.header) ∧ part.name ≠ none ∧ part.size = none
  pax : part.typeflag = paxType → ∃ info,tarParsePaxInfo (tarData data part.header) {} = some info ∧
    part.name = info.path ∧ part.size = info.size
  other : part.typeflag ≠ longNameType → part.typeflag ≠ paxType →
    part.name = none ∧ part.size = none

/-- How many bytes follow the header of a record -/
def TarPart.extent (part : TarPart) (before : List TarPart) : Nat :=
  if part.isMember then (sizeGiven before).getD part.header.uncompressedSize
  else part.header.uncompressedSize

/-- From `pos` on the archive is a sequence of well-formed records, after those before it. -/
inductive TarLaid (data : Bytes) : Nat → List TarPart → List TarPart → Prop
  | closed {pos : Nat} {before : List TarPart} (hroom : pos+512 ≤ data.length)
      (hempty : tarHeaderEmpty (slice data pos tarBlock) = true) : TarLaid data pos before []
  | finished {pos : Nat} {before : List TarPart} (hroom : ¬ pos+512 ≤ data.length) :
      TarLaid data pos before []
  | record {pos : Nat} {before parts : List TarPart} {part : TarPart}
      (hpart : TarPartAt data pos part)
      (hfits : pos+512+part.extent before ≤ data.length)
      (hrest : TarLaid data (pos+(512+(part.extent before+511)/512*512)) (before++[part]) parts) :
      TarLaid data pos before (part::parts)

/-- The entry of a member, if it is listed: with the name and the size that the records before it
give, or else those of its header -/
def TarPart.listed (part : TarPart) (before : List TarPart) : Option ArchiveEntry :=
  if part.isMember = false ∨ part.header.isSkipped then none
  else
    let size := part.extent before
    let entry := {part.header with compressedSize := size,uncompressedSize := size}
    match nameGiven before with
    | none => some entry
    | some (name,skip) => if skip then none else some {entry with name := name}

/-- The entries of all members -/
def tarMembers : List TarPart → List TarPart → List ArchiveEntry
  | _,[] => []
  | before,part::parts => (part.listed before).toList++tarMembers (before++[part]) parts

/-- What the records so far leave pending -/
def pendingOf (before : List TarPart) : TarPending where
  name := match nameGiven before with
    | some (name,false) => name
    | _ => []
  skip := match nameGiven before with
    | some (_,true) => true
    | _ => false
  size := sizeGiven before

theorem TarPart.aside_kind (part : TarPart) (haside : part.isAside = true) :
    part.typeflag ≠ longNameType ∧ part.typeflag ≠ paxType := by
  constructor
  · intro hL
    rw [isAside,hL] at haside
    revert haside
    decide
  · intro hX
    rw [isAside,hX] at haside
    revert haside
    decide

section

variable {data : Bytes} {pos : Nat} {before parts : List TarPart} {part : TarPart}
  {p q : TarPending} {entry : ArchiveEntry}

theorem nameGiven_snoc (before : List TarPart) (part : TarPart) :
    nameGiven (before++[part]) =
      if part.isMember then none else part.name.or (nameGiven before) := by
  unfold nameGiven
  rw [List.reverse_append,List.reverse_singleton,List.singleton_append,List.takeWhile_cons]
  cases part.isMember with
  | true => rfl
  | false =>
    simp only [Bool.not_false,if_true,List.findSome?_cons,Bool.false_eq_true,if_false]
    cases part.name <;> rfl

theorem sizeGiven_snoc (before : List TarPart) (part : TarPart) :
    sizeGiven (before++[part]) =
      if part.isMember then none else part.size.or (sizeGiven before) := by
  unfold sizeGiven
  rw [List.reverse_append,List.reverse_singleton,List.singleton_append,List.takeWhile_cons]
  cases part.isMember with
  | true => rfl
  | false =>
    simp only [Bool.not_false,if_true,List.findSome?_cons,Bool.false_eq_true,if_false]
    cases part.size <;> rfl

/-- The type letter alone decides whether a record announces a name or attributes, and such records
and those beside the members are skipped. -/
theorem tarEntryFromHeader_typeflag {header : Bytes} {offset : Nat}
    (h : tarEntryFromHeader header offset = some entry) :
    entry.isGnuLongName = decide (header.getD 156 0 = longNameType) ∧
    entry.isPaxHeader = decide (header.getD 156 0 = paxType) ∧
    (header.getD 156 0 ∈ [longNameType,paxType,longLinkType,globalType] →
      entry.isSkipped = true) := by
  simp only [tarEntryFromHeader] at h
  split at h
  · cases h
  simp only [Option.bind_eq_bind,Option.bind_eq_some_iff,Option.some.injEq] at h
  obtain ⟨name,-,size,-,rfl⟩ := h
  simp only [ArchiveEntry.isGnuLongName,ArchiveEntry.isPaxHeader,ArchiveEntry.isSkipped]
  generalize header.getD 156 0 = typeflag
  unfold tarTypeFlags longNameType paxType longLinkType globalType
  cases (tarNormalizeName name).2 <;> split_ifs <;> simp_all +decide

namespace TarPartAt

variable (h : TarPartAt data pos part)

include h

theorem isGnuLongName : part.header.isGnuLongName = decide (part.typeflag = longNameType) := by
  rw [(tarEntryFromHeader_typeflag h.header).1,h.typeflag]

theorem isPaxHeader : part.header.isPaxHeader = decide (part.typeflag = paxType) := by
  rw [(tarEntryFromHeader_typeflag h.header).2.1,h.typeflag]

/-- Only members are listed. -/
theorem skipped (hm : part.isMember = false) : part.header.isSkipped = true := by
  apply (tarEntryFromHeader_typeflag h.header).2.2
  rw [h.typeflag]
  unfold TarPart.isMember TarPart.isAside at hm
  simp only [List.mem_cons,List.not_mem_nil,or_false]
  by_contra hne
  simp only [not_or] at hne
  simp [hne.1,hne.2.1,hne.2.2.1,hne.2.2.2] at hm

end TarPartAt

/-- A name to skip is empty, and no other is. -/
def NormalName (given : CString × Bool) : Prop := given.2 = true ↔ given.1 = []

theorem tarNormalizeName_normal (name : CString) : NormalName (tarNormalizeName name) := by
  unfold NormalName tarNormalizeName
  dsimp only
  split
  · simp
  · next hn =>
    rw [not_or] at hn
    simp [hn.1]

theorem tarCopyDataName_normal {field : Bytes} {given : CString × Bool}
    (h : tarCopyDataName field = some given) : NormalName given := by
  unfold tarCopyDataName at h
  dsimp only at h
  split at h
  · cases h
  · rw [← Option.some.inj h]
    exact tarNormalizeName_normal _

theorem tarPaxRecord_normal {value : Bytes} {info out : TarPaxInfo}
    (hi : ∀ given,info.path = some given → NormalName given)
    (h : tarPaxRecord value info = some out) : ∀ given,out.path = some given → NormalName given := by
  unfold tarPaxRecord at h
  dsimp only at h
  split at h
  · split at h
    · cases h
    · rw [← Option.some.inj h]
      intro given hg
      rw [← Option.some.inj hg]
      exact tarNormalizeName_normal _
  · split at h
    · obtain ⟨size,-,hout⟩ := Option.bind_eq_some_iff.mp h
      rw [← Option.some.inj hout]
      exact hi
    · rw [← Option.some.inj h]
      exact hi

theorem tarParsePaxInfo_normal {field : Bytes} {out : TarPaxInfo}
    (h : tarParsePaxInfo field {} = some out) :
    ∀ given,out.path = some given → NormalName given :=
  tarParsePaxInfo_keeps (I := fun info => ∀ given,info.path = some given → NormalName given)
    (fun _ _ _ => tarPaxRecord_normal) _ (Nat.le_refl _) (by intro given hg; cases hg) h

theorem TarPartAt.normal (h : TarPartAt data pos part) :
    ∀ given,part.name = some given → NormalName given := by
  intro given hg
  by_cases hL : part.typeflag = longNameType
  · rw [(h.longName hL).1] at hg
    exact tarCopyDataName_normal hg
  · by_cases hX : part.typeflag = paxType
    · obtain ⟨info,hinfo,hname,-⟩ := h.pax hX
      rw [hname] at hg
      exact tarParsePaxInfo_normal hinfo given hg
    · rw [(h.other hL hX).1] at hg
      cases hg

/-- The names that the records so far give are normal. -/
def NormalNames (before : List TarPart) : Prop :=
  ∀ given,nameGiven before = some given → NormalName given

theorem NormalNames.snoc (hb : NormalNames before) (h : TarPartAt data pos part) :
    NormalNames (before++[part]) := by
  intro given hg
  rw [nameGiven_snoc] at hg
  split at hg
  · cases hg
  · cases hname : part.name with
    | none =>
      rw [hname] at hg
      exact hb given hg
    | some name =>
      rw [hname] at hg
      rw [← Option.some.inj hg]
      exact h.normal name hname

theorem pendingOf_skip (hs : (pendingOf before).skip = true) : (pendingOf before).name = [] := by
  unfold pendingOf at hs ⊢
  dsimp only at hs ⊢
  split at hs
  · next name hname => rw [hname]
  · cases hs

/-- What is pending behind a record that announces a name -/
theorem pendingOf_name {name : CString} {skip : Bool} (hm : part.isMember = false)
    (hname : part.name = some (name,skip)) (hsize : part.size = none)
    (hnormal : NormalName (name,skip)) :
    pendingOf (before++[part]) = {pendingOf before with name,skip} := by
  unfold pendingOf
  rw [nameGiven_snoc,sizeGiven_snoc,hm,hname,hsize]
  cases skip with
  | true =>
    have hempty : name = [] := hnormal.mp rfl
    rw [hempty]
    rfl
  | false => rfl

/-- What is pending behind a record with attributes -/
theorem pendingOf_pax {info : TarPaxInfo} (hm : part.isMember = false)
    (hname : part.name = info.path) (hsize : part.size = info.size) :
    pendingOf (before++[part]) = (pendingOf before).afterPax info := by
  unfold pendingOf TarPending.afterPax
  rw [nameGiven_snoc,sizeGiven_snoc,hm,hname,hsize]
  cases info.path with
  | none => cases info.size <;> rfl
  | some given =>
    obtain ⟨name,skip⟩ := given
    cases skip <;> cases info.size <;> rfl

/-- A record beside the members leaves what is pending. -/
theorem pendingOf_aside (hm : part.isMember = false) (hname : part.name = none)
    (hsize : part.size = none) : pendingOf (before++[part]) = pendingOf before := by
  unfold pendingOf
  rw [nameGiven_snoc,sizeGiven_snoc,hm,hname,hsize]
  rfl

/-- Nothing is pending behind a member. -/
theorem pendingOf_member (hm : part.isMember = true) : pendingOf (before++[part]) = {} := by
  unfold pendingOf
  rw [nameGiven_snoc,sizeGiven_snoc,hm]
  rfl

/-- A record that announces nothing takes the name that is pending. -/
theorem startMember_other (hL : entry.isGnuLongName = false) (hX : entry.isPaxHeader = false)
    (hp : p.skip = true → p.name = []) :
    (TarStream.startMember entry p).2 = {size := p.size} ∧
      (TarStream.startMember entry p).1.isGnuLongName = false ∧
      (TarStream.startMember entry p).1.isPaxHeader = false := by
  obtain ⟨name,skip,size⟩ := p
  unfold TarStream.startMember
  rw [hL,hX,if_neg (by decide)]
  cases skip with
  | true => exact ⟨rfl,isGnuLongName_skip.trans hL,isPaxHeader_skip.trans hX⟩
  | false =>
    rw [if_neg Bool.false_ne_true]
    split_ifs with hname
    · exact ⟨rfl,hL,hX⟩
    · rw [not_not] at hname
      dsimp only at hname
      exact ⟨by rw [hname],hL,hX⟩

theorem startMember_size (entry : ArchiveEntry) (p : TarPending) :
    (TarStream.startMember entry p).1.uncompressedSize = entry.uncompressedSize := by
  unfold TarStream.startMember
  split_ifs <;> rfl

theorem tarPendingSize_size {size : Option Nat} (hL : entry.isGnuLongName = false)
    (hX : entry.isPaxHeader = false) :
    (tarPendingSize entry {size}).1.uncompressedSize = size.getD entry.uncompressedSize := by
  unfold tarPendingSize
  rw [hL,hX,if_neg (by decide)]
  cases size <;> rfl

theorem isSkipped_of_flags {e : ArchiveEntry} (h : e.flags = entry.flags) :
    e.isSkipped = entry.isSkipped := by
  rw [ArchiveEntry.isSkipped,h]
  rfl

theorem tarEntryFromHeader_sizes {header : Bytes} {offset : Nat}
    (h : tarEntryFromHeader header offset = some entry) :
    entry.compressedSize = entry.uncompressedSize := by
  simp only [tarEntryFromHeader] at h
  split at h
  · cases h
  simp only [Option.bind_eq_bind,Option.bind_eq_some_iff,Option.some.injEq] at h
  obtain ⟨name,-,size,-,rfl⟩ := h
  rfl

theorem tarPendingSize_eq {size : Option Nat} (hL : entry.isGnuLongName = false)
    (hX : entry.isPaxHeader = false) (hsame : entry.compressedSize = entry.uncompressedSize) :
    (tarPendingSize entry {size}).1 = {entry with
      compressedSize := size.getD entry.uncompressedSize
      uncompressedSize := size.getD entry.uncompressedSize} := by
  unfold tarPendingSize
  rw [hL,hX,if_neg (by decide)]
  cases size with
  | none =>
    cases entry
    dsimp only at hsame
    rw [hsame]
    rfl
  | some size => rfl

/-- And the size. -/
theorem tarPendingSize_other {size : Option Nat} (hL : entry.isGnuLongName = false)
    (hX : entry.isPaxHeader = false) :
    (tarPendingSize entry {size}) = ((tarPendingSize entry {size}).1,{}) := by
  unfold tarPendingSize
  rw [hL,hX,if_neg (by decide)]
  cases size <;> rfl

namespace TarPartAt

variable (h : TarPartAt data pos part)

include h

theorem fits : pos+512+part.header.uncompressedSize ≤ data.length := by
  have hinside := h.inside
  rw [tarInRange,tarEntryFromHeader_dataOffset h.header] at hinside
  simp only [decide_eq_true_eq] at hinside
  exact hinside.2.2

/-- A record that announces something is read as it is. -/
theorem record_announces (hannounces : part.typeflag = longNameType ∨ part.typeflag = paxType) :
    tarListRecord data pos (pendingOf before) = some (part.header,pendingOf (before++[part])) := by
  have hm : part.isMember = false := by
    unfold TarPart.isMember
    cases hannounces with
    | inl hL => simp [hL]
    | inr hX => simp [hX]
  have hinside := h.inside
  have hkind : (part.header.isGnuLongName || part.header.isPaxHeader) = true := by
    rw [h.isGnuLongName,h.isPaxHeader]
    simpa using hannounces
  have hentry : tarListEntry data part.header (pendingOf before) =
      some (part.header,pendingOf (before++[part])) := by
    unfold tarListEntry
    cases hannounces with
    | inl hL =>
      obtain ⟨hname,hsome,hsize⟩ := h.longName hL
      obtain ⟨⟨name,skip⟩,hgiven⟩ := Option.ne_none_iff_exists'.mp hsome
      rw [h.isGnuLongName,decide_eq_true hL,if_pos rfl,← hname,hgiven,
        pendingOf_name hm hgiven hsize (h.normal _ hgiven)]
      rfl
    | inr hX =>
      obtain ⟨info,hinfo,hname,hsize⟩ := h.pax hX
      have hL : part.typeflag ≠ longNameType := by
        rw [hX]
        decide
      rw [h.isGnuLongName,h.isPaxHeader,decide_eq_false hL,decide_eq_true hX,if_neg Bool.false_ne_true,
        if_pos rfl,hinfo,pendingOf_pax hm hname hsize]
      rfl
  unfold tarListRecord
  rw [h.header]
  simp only [Option.bind_eq_bind,Option.bind_some,hinside,hentry]
  rw [if_neg (by decide)]
  simp only [tarPendingSize_fields hkind,hinside]
  rw [if_neg (by decide)]

/-- Any other record takes the pending name and then the pending size. -/
theorem record_takes (hL : part.typeflag ≠ longNameType) (hX : part.typeflag ≠ paxType)
    (hp : p.skip = true → p.name = []) :
    tarListRecord data pos p =
      let taken := (tarPendingSize (TarStream.startMember part.header p).1 {size := p.size}).1
      if tarInRange data taken = false then none else some (taken,{}) := by
  have hinside := h.inside
  have hisL : part.header.isGnuLongName = false := by
    rw [h.isGnuLongName,decide_eq_false hL]
  have hisX : part.header.isPaxHeader = false := by
    rw [h.isPaxHeader,decide_eq_false hX]
  obtain ⟨hrest,hkindL,hkindX⟩ := startMember_other hisL hisX hp
  unfold tarListRecord
  rw [h.header]
  simp only [Option.bind_eq_bind,Option.bind_some,hinside]
  rw [if_neg (by decide),tarListEntry_member hisL hisX hp]
  simp only [Option.bind_some,hrest]
  rw [tarPendingSize_other hkindL hkindX]

/-- Where a record that takes what is pending is in range, it is read. -/
theorem record_taken (hL : part.typeflag ≠ longNameType) (hX : part.typeflag ≠ paxType)
    (hp : p.skip = true → p.name = []) {size : Nat}
    (hsize : p.size.getD part.header.uncompressedSize = size) (hfits : pos+512+size ≤ data.length) :
    ∃ entry,tarListRecord data pos p = some (entry,{}) ∧ entry.uncompressedSize = size ∧
      entry = (tarPendingSize (TarStream.startMember part.header p).1 {size := p.size}).1 := by
  have hisL : part.header.isGnuLongName = false := by
    rw [h.isGnuLongName,decide_eq_false hL]
  have hisX : part.header.isPaxHeader = false := by
    rw [h.isPaxHeader,decide_eq_false hX]
  obtain ⟨hrest,hkindL,hkindX⟩ := startMember_other hisL hisX hp
  have hoffset : (tarPendingSize (TarStream.startMember part.header p).1
      {size := p.size}).1.dataOffset = pos+512 := by
    rw [tarPendingSize_dataOffset,startMember_dataOffset,tarEntryFromHeader_dataOffset h.header]
  have htaken : (tarPendingSize (TarStream.startMember part.header p).1
      {size := p.size}).1.uncompressedSize = size := by
    rw [← hsize,tarPendingSize_size hkindL hkindX,startMember_size]
  have hrange : tarInRange data (tarPendingSize (TarStream.startMember part.header p).1
      {size := p.size}).1 = true := by
    unfold tarInRange
    rw [hoffset,htaken]
    simp only [decide_eq_true_eq]
    omega
  refine ⟨_,?_,htaken,rfl⟩
  rw [h.record_takes hL hX hp]
  dsimp only
  rw [hrange]
  rfl

/-- A record beside the members, with nothing pending -/
theorem record_aside (haside : part.isAside = true)
    (hfits : pos+512+part.header.uncompressedSize ≤ data.length) :
    tarListRecord data pos {} = some (part.header,{}) := by
  obtain ⟨hL,hX⟩ := part.aside_kind haside
  obtain ⟨entry,hrecord,-,hentry⟩ := h.record_taken hL hX (p := {}) (fun _ => rfl) rfl hfits
  rw [hrecord,hentry]
  have hisL : part.header.isGnuLongName = false := by
    rw [h.isGnuLongName,decide_eq_false hL]
  have hisX : part.header.isPaxHeader = false := by
    rw [h.isPaxHeader,decide_eq_false hX]
  unfold TarStream.startMember tarPendingSize
  simp [hisL,hisX]

/-- A member takes the name and the size that are given to it. -/
theorem record_member (hm : part.isMember = true) (hb : NormalNames before)
    (hfits : pos+512+part.extent before ≤ data.length) :
    ∃ entry,tarListRecord data pos (pendingOf before) = some (entry,{}) ∧
      entry.uncompressedSize = part.extent before ∧
      (if entry.isSkipped then [] else [entry]) = (part.listed before).toList := by
  have hkind : part.typeflag ≠ longNameType ∧ part.typeflag ≠ paxType := by
    unfold TarPart.isMember at hm
    simp at hm
    exact ⟨hm.1,hm.2.1⟩
  have hextent : part.extent before =
      (pendingOf before).size.getD part.header.uncompressedSize := by
    rw [TarPart.extent,if_pos hm]
    rfl
  obtain ⟨entry,hrecord,hsize,hentry⟩ :=
    h.record_taken hkind.1 hkind.2 pendingOf_skip hextent.symm hfits
  refine ⟨entry,hrecord,hsize,?_⟩
  have hisL : part.header.isGnuLongName = false := by
    rw [h.isGnuLongName,decide_eq_false hkind.1]
  have hisX : part.header.isPaxHeader = false := by
    rw [h.isPaxHeader,decide_eq_false hkind.2]
  obtain ⟨-,hkindL,hkindX⟩ := startMember_other hisL hisX (@pendingOf_skip before)
  have hsame : (TarStream.startMember part.header (pendingOf before)).1.compressedSize =
      (TarStream.startMember part.header (pendingOf before)).1.uncompressedSize := by
    rw [startMember_size,← tarEntryFromHeader_sizes h.header]
    unfold TarStream.startMember
    split_ifs <;> rfl
  rw [tarPendingSize_eq hkindL hkindX hsame,startMember_size,← hextent] at hentry
  have hplain : ∀ name size,({part.header with
      name := name
      compressedSize := size
      uncompressedSize := size} : ArchiveEntry).isSkipped = part.header.isSkipped := by
    intro name size
    exact isSkipped_of_flags rfl
  rw [hentry,TarPart.listed,hm]
  cases hgiven : nameGiven before with
  | none =>
    have hstart : (TarStream.startMember part.header (pendingOf before)).1 = part.header := by
      unfold TarStream.startMember pendingOf
      rw [hisL,hisX,hgiven]
      rfl
    rw [hstart,hplain part.header.name]
    cases hs : part.header.isSkipped <;> rfl
  | some given =>
    obtain ⟨name,skip⟩ := given
    cases skip with
    | true =>
      have hstart : (TarStream.startMember part.header (pendingOf before)).1 =
          {part.header with flags := part.header.flags ||| tarFlagSkip} := by
        unfold TarStream.startMember pendingOf
        rw [hisL,hisX,hgiven]
        rfl
      have hskip : ∀ e : ArchiveEntry,e.flags = part.header.flags ||| tarFlagSkip →
          e.isSkipped = true := by
        intro e he
        rw [ArchiveEntry.isSkipped,he,Nat.and_or_distrib_right]
        exact decide_eq_true (Nat.ne_of_gt (lt_of_lt_of_le Nat.one_pos Nat.right_le_or))
      rw [hstart,hskip _ rfl]
      cases part.header.isSkipped <;> rfl
    | false =>
      have hname : name ≠ [] := fun hn => absurd ((hb _ hgiven).mpr hn) Bool.false_ne_true
      have hstart : (TarStream.startMember part.header (pendingOf before)).1 =
          {part.header with name := name} := by
        unfold TarStream.startMember pendingOf
        rw [hisL,hisX,hgiven]
        simp [hname]
      rw [hstart,hplain name]
      cases part.header.isSkipped <;> rfl

end TarPartAt

/-- No name and no size is pending where a record beside the members comes. -/
def AsideClear (before parts : List TarPart) : Prop :=
  ∀ i part,parts[i]? = some part → part.isAside = true →
    nameGiven (before++parts.take i) = none ∧ sizeGiven (before++parts.take i) = none

theorem AsideClear.tail (h : AsideClear before (part::parts)) :
    AsideClear (before++[part]) parts := by
  intro i p hp haside
  have hi := h (i+1) p hp haside
  rwa [List.take_succ_cons,← List.singleton_append,← List.append_assoc] at hi

theorem AsideClear.head (h : AsideClear before (part::parts)) (haside : part.isAside = true) :
    nameGiven before = none ∧ sizeGiven before = none := by
  have h0 := h 0 part rfl haside
  rwa [List.take_zero,List.append_nil] at h0

theorem AsideClear.cons (hhead : part.isAside = true → nameGiven before = none ∧ sizeGiven before = none)
    (h : AsideClear (before++[part]) parts) : AsideClear before (part::parts) := by
  intro i p hp haside
  cases i with
  | zero =>
    cases hp
    rw [List.take_zero,List.append_nil]
    exact hhead haside
  | succ i =>
    rw [List.take_succ_cons,← List.singleton_append,← List.append_assoc]
    exact h i p hp haside

theorem pendingOf_clear (hb : NormalNames before) : pendingOf before = {} ↔
    nameGiven before = none ∧ sizeGiven before = none := by
  constructor
  · intro h
    have hname := congrArg TarPending.name h
    have hskip := congrArg TarPending.skip h
    have hsize := congrArg TarPending.size h
    refine ⟨?_,hsize⟩
    unfold pendingOf at hname hskip
    cases hgiven : nameGiven before with
    | none => rfl
    | some given =>
      obtain ⟨name,skip⟩ := given
      rw [hgiven] at hname hskip
      cases skip with
      | true => cases hskip
      | false => exact absurd ((hb _ hgiven).mpr hname) Bool.false_ne_true
  · rintro ⟨hname,hsize⟩
    unfold pendingOf
    rw [hname,hsize]

theorem TarPart.not_member (haside : part.isAside = true) : part.isMember = false := by
  unfold TarPart.isMember
  rw [haside]
  simp

/-- A record of the sequence is read as the format means it. -/
theorem TarPartAt.record_read (h : TarPartAt data pos part) (hb : NormalNames before)
    (hclear : part.isAside = true → nameGiven before = none ∧ sizeGiven before = none)
    (hfits : pos+512+part.extent before ≤ data.length) :
    ∃ entry,tarListRecord data pos (pendingOf before) =
        some (entry,pendingOf (before++[part])) ∧
      entry.uncompressedSize = part.extent before ∧
      (if entry.isSkipped then [] else [entry]) = (part.listed before).toList := by
  cases hm : part.isMember with
  | true =>
    rw [pendingOf_member hm]
    exact h.record_member hm hb hfits
  | false =>
    have hextent : part.extent before = part.header.uncompressedSize := if_neg (by simp [hm])
    have hlisted : part.listed before = none := if_pos (Or.inl hm)
    refine ⟨part.header,?_,hextent.symm,?_⟩
    · cases haside : part.isAside with
      | true =>
        have hempty := (pendingOf_clear hb).mpr (hclear haside)
        have hkind := part.aside_kind haside
        have hother := h.other hkind.1 hkind.2
        rw [pendingOf_aside hm hother.1 hother.2,hempty]
        exact h.record_aside haside (hextent ▸ hfits)
      | false =>
        apply h.record_announces
        unfold TarPart.isMember at hm
        rw [haside] at hm
        simp at hm
        exact or_iff_not_imp_left.mpr hm
    · rw [h.skipped hm,hlisted]
      rfl

/-- The records beside the members that the walk comes to leave what is pending, and take no size
but their own. -/
def AsideKeeps (data : Bytes) : Prop :=
  ∀ pos p part,TarReaches data pos p → TarPartAt data pos part → part.isAside = true →
    ∀ entry q,tarListRecord data pos p = some (entry,q) → entry = part.header ∧ q = p

/-- A walk over well-formed records with nothing pending at those beside the members lists all
members. -/
theorem tarListLoop_laid {capacity : Nat} (h : TarLaid data pos before parts)
    (hb : NormalNames before) (hclear : AsideClear before parts) (acc : List ArchiveEntry)
    (hcapacity : acc.length+(tarMembers before parts).length ≤ capacity) :
    tarListLoop data capacity pos (pendingOf before) acc = some (acc++tarMembers before parts) := by
  induction h generalizing acc with
  | closed hroom hempty =>
    rw [tarListLoop,dif_pos hroom,if_pos hempty,tarMembers,List.append_nil]
  | finished hroom =>
    rw [tarListLoop,dif_neg hroom,tarMembers,List.append_nil]
  | @record pos before parts part hpart hfits hrest ih =>
    obtain ⟨entry,hrecord,hsize,hlisted⟩ := hpart.record_read hb hclear.head hfits
    have hnext : tarNext pos entry = pos+(512+(part.extent before+511)/512*512) := by
      rw [tarNext,hsize]
    have hfilled : ¬ tarHeaderEmpty (slice data pos tarBlock) = true := by simp [hpart.filled]
    rw [tarMembers,List.length_append,← hlisted] at hcapacity
    rw [tarListLoop,dif_pos hpart.room,if_neg hfilled,hrecord,tarMembers,← hlisted]
    dsimp only
    rw [hnext]
    have htail := ih (hb.snoc hpart) hclear.tail
    cases hskip : entry.isSkipped with
    | true =>
      rw [hskip] at hcapacity
      rw [if_pos rfl,if_pos rfl,List.nil_append]
      exact htail acc (by simpa using hcapacity)
    | false =>
      rw [hskip,if_neg Bool.false_ne_true,List.length_singleton] at hcapacity
      have hroom : ¬ capacity ≤ acc.length := by omega
      rw [if_neg Bool.false_ne_true,if_neg hroom,if_neg Bool.false_ne_true,← List.append_assoc]
      apply htail
      rw [List.length_append,List.length_singleton]
      omega

/-- The walk stands between two records of the sequence, with just what those before it give
pending. -/
theorem TarReaches.laid {all : List TarPart} (h : TarReaches data pos p) (hall : TarLaid data 0 [] all)
    (hclear : AsideClear [] all) : ∃ before parts,TarLaid data pos before parts ∧
      p = pendingOf before ∧ NormalNames before ∧ AsideClear before parts := by
  induction h with
  | start => exact ⟨[],all,hall,rfl,nofun,hclear⟩
  | @record pos p q entry h hroom hfilled hrecord ih =>
    obtain ⟨before,parts,hlaid,rfl,hb,hclear⟩ := ih
    cases hlaid with
    | closed _ hempty =>
      rw [hempty] at hfilled
      cases hfilled
    | finished hroom' => exact absurd hroom hroom'
    | @record _ _ parts part hpart hfits hrest =>
      obtain ⟨entry',hread,hsize,-⟩ := hpart.record_read hb hclear.head hfits
      rw [hrecord] at hread
      cases hread
      refine ⟨before++[part],parts,?_,rfl,hb.snoc hpart,hclear.tail⟩
      rw [tarNext,hsize]
      exact hrest

/-- A walk that gets through and leaves what is pending at the records beside the members has met
nothing pending there. -/
theorem TarLaid.clear {capacity : Nat} (h : TarLaid data pos before parts) (hb : NormalNames before)
    (hreach : TarReaches data pos (pendingOf before)) (hkeeps : AsideKeeps data)
    {acc result : List ArchiveEntry}
    (hlist : tarListLoop data capacity pos (pendingOf before) acc = some result) :
    AsideClear before parts := by
  induction h generalizing acc with
  | closed hroom hempty => exact fun i part hp => nomatch hp
  | finished hroom => exact fun i part hp => nomatch hp
  | @record pos before parts part hpart hfits hrest ih =>
    obtain ⟨entry,q,hrecord,hloop⟩ := tarListLoop_meets hpart.room hpart.filled hlist
    have hhead : part.isAside = true → nameGiven before = none ∧ sizeGiven before = none := by
      intro haside
      have hkind := part.aside_kind haside
      have hsame := (hkeeps pos _ part hreach hpart haside entry q hrecord).2
      rw [hpart.record_takes hkind.1 hkind.2 pendingOf_skip] at hrecord
      dsimp only at hrecord
      split at hrecord
      · cases hrecord
      · cases hrecord
        exact (pendingOf_clear hb).mp hsame.symm
    obtain ⟨entry',hread,hsize,-⟩ := hpart.record_read hb hhead hfits
    have hnext := TarReaches.record hreach hpart.room hpart.filled hrecord
    rw [hrecord] at hread
    cases hread
    rw [tarNext,hsize] at hnext hloop
    exact AsideClear.cons hhead (ih (hb.snoc hpart) hnext hloop)

end

/-- A header block whose name is "x" -/
def tarHeaderBlock (sizeDigit : UInt8) (checksum : Bytes) (typeflag : UInt8) : Bytes :=
  [0x78]++List.replicate 123 0++List.replicate 10 0x30++[sizeDigit,0]++List.replicate 12 0++
    [0x30,0x30]++checksum++[0,0x20,typeflag]++List.replicate 355 0

/-- A long name "ab" -/
def abRecord : Bytes :=
  tarHeaderBlock 0x34 [0x31,0x37,0x33,0x30] longNameType++[0x61,0x62,0,0]++List.replicate 508 0

/-- A long link name of no bytes -/
def linkRecord : Bytes := tarHeaderBlock 0x30 [0x31,0x37,0x32,0x33] longLinkType

/-- A member of no bytes -/
def emptyMember : Bytes := tarHeaderBlock 0x30 [0x31,0x36,0x37,0x30] 0x30

/-- The record at `pos`, read without its attributes -/
def plainPart (data : Bytes) (pos : Nat) (name : Option (CString × Bool)) : TarPart where
  header := (tarEntryFromHeader (slice data pos tarBlock) (pos+512)).getD {}
  typeflag := (slice data pos tarBlock).getD 156 0
  name := name
  size := none

/-- What has to be computed to see such a record -/
def plainPartOk (data : Bytes) (pos : Nat) (name : Option (CString × Bool)) : Bool :=
  let part := plainPart data pos name
  pos+512 ≤ data.length && !tarHeaderEmpty (slice data pos tarBlock) &&
    tarEntryFromHeader (slice data pos tarBlock) (pos+512) = some part.header &&
    tarInRange data part.header && part.typeflag ≠ paxType &&
    if part.typeflag = longNameType then
      name = tarCopyDataName (tarData data part.header) && name ≠ none
    else name = none

theorem plainPart_at {data : Bytes} {pos : Nat} {name : Option (CString × Bool)}
    (h : plainPartOk data pos name = true) : TarPartAt data pos (plainPart data pos name) := by
  unfold plainPartOk at h
  simp only [Bool.and_eq_true,decide_eq_true_eq,Bool.not_eq_true'] at h
  obtain ⟨⟨⟨⟨⟨hroom,hfilled⟩,hheader⟩,hinside⟩,hpax⟩,hname⟩ := h
  refine ⟨hroom,hfilled,hheader,rfl,hinside,?_,fun hX => absurd hX hpax,?_⟩
  · intro hL
    rw [if_pos hL] at hname
    simp only [Bool.and_eq_true,decide_eq_true_eq] at hname
    exact ⟨hname.1,hname.2,rfl⟩
  · intro hL _
    rw [if_neg hL] at hname
    exact ⟨of_decide_eq_true hname,rfl⟩

section

variable {data : Bytes} {parts : List TarPart}

theorem TarLaid.step {pos next n : Nat} {before : List TarPart} {part : TarPart}
    (hpart : TarPartAt data pos part) (hextent : part.extent before = n)
    (hfits : pos+512+n ≤ data.length) (hnext : pos+(512+(n+511)/512*512) = next)
    (hrest : TarLaid data next (before++[part]) parts) : TarLaid data pos before (part::parts) := by
  subst hextent hnext
  exact .record hpart hfits hrest

/-- The listing gives each member the name and the size of the extended headers before it, and no
record beside the members takes any, exactly where none is pending when such a record comes. -/
theorem tarList_attributes {capacity : Nat} (hblocks : data.length%512 = 0)
    (h : TarLaid data 0 [] parts) (hcapacity : (tarMembers [] parts).length ≤ capacity) :
    tarList data capacity = some (tarMembers [] parts) ∧ AsideKeeps data ↔
      AsideClear [] parts := by
  have hb : NormalNames [] := nofun
  have hunfold : tarList data capacity = tarListLoop data capacity 0 (pendingOf []) [] := by
    rw [tarList,if_neg (not_not.mpr hblocks)]
    rfl
  constructor
  · rintro ⟨hlist,hkeeps⟩
    rw [hunfold] at hlist
    exact h.clear hb .start hkeeps hlist
  · intro hclear
    refine ⟨?_,?_⟩
    · rw [hunfold,tarListLoop_laid h hb hclear [] (by simpa using hcapacity),List.nil_append]
    · intro pos p part hreach hpart haside entry q hrecord
      obtain ⟨before,rest,hlaid,rfl,hnormal,hclear⟩ := hreach.laid h hclear
      have hempty : pendingOf before = {} := by
        apply (pendingOf_clear hnormal).mpr
        cases hlaid with
        | closed _ hempty =>
          rw [hpart.filled] at hempty
          cases hempty
        | finished hroom => exact absurd hpart.room hroom
        | @record _ _ rest other hother hfits hrest =>
          apply hclear.head
          have hsame : other.typeflag = part.typeflag := by rw [← hother.typeflag,hpart.typeflag]
          rw [TarPart.isAside,hsame]
          exact haside
      rw [hempty,hpart.record_aside haside hpart.fits] at hrecord
      cases hrecord
      exact ⟨rfl,hempty.symm⟩

end

/-- A member behind its long name -/
theorem tarList_attributes_named : ∃ entry,tarList (abRecord++emptyMember) 1 = some [entry] ∧
    entry.name = [0x61,0x62] ∧ entry.uncompressedSize = 0 := by
  obtain ⟨data,hdata⟩ : ∃ data,data = abRecord++emptyMember := ⟨_,rfl⟩
  obtain ⟨first,hfirst⟩ : ∃ part,part = plainPart data 0 (some ([0x61,0x62],false)) := ⟨_,rfl⟩
  obtain ⟨second,hsecond⟩ : ∃ part,part = plainPart data 1024 none := ⟨_,rfl⟩
  have hat₁ : TarPartAt data 0 first := by
    rw [hfirst]
    apply plainPart_at
    rw [hdata]
    decide +kernel
  have hat₂ : TarPartAt data 1024 second := by
    rw [hsecond]
    apply plainPart_at
    rw [hdata]
    decide +kernel
  have hextent₁ : first.extent [] = 4 := by
    rw [hfirst,hdata]
    decide +kernel
  have hextent₂ : second.extent [first] = 0 := by
    rw [hfirst,hsecond,hdata]
    decide +kernel
  have hlength : data.length = 1536 := by
    rw [hdata]
    decide +kernel
  have hlaid : TarLaid data 0 [] [first,second] := by
    apply TarLaid.step hat₁ hextent₁ (by omega) (show _ = 1024 from rfl)
    apply TarLaid.step hat₂ hextent₂ (by omega) (show _ = 1536 from rfl)
    exact .finished (by omega)
  have hmembers : tarMembers [] [first,second] =
      [{second.header with
        compressedSize := 0
        uncompressedSize := 0
        name := [0x61,0x62]}] := by
    rw [hfirst,hsecond,hdata]
    decide +kernel
  have hclear : AsideClear [] [first,second] := by
    intro i part hp haside
    have hnone : first.isAside = false ∧ second.isAside = false := by
      rw [hfirst,hsecond,hdata]
      decide +kernel
    match i with
    | 0 =>
      cases hp
      rw [hnone.1] at haside
      cases haside
    | 1 =>
      cases hp
      rw [hnone.2] at haside
      cases haside
  have hlist := ((tarList_attributes (by rw [hlength]) hlaid
    (by rw [hmembers])).mpr hclear).1
  rw [hmembers] at hlist
  exact ⟨_,hdata ▸ hlist,rfl,rfl⟩

/-- With a long link name between them the long name does not come to the member. -/
theorem tarList_attributes_lost : ¬ ∀ (data : Bytes) (parts : List TarPart) (capacity : Nat),
    data.length%512 = 0 → TarLaid data 0 [] parts → (tarMembers [] parts).length ≤ capacity →
      tarList data capacity = some (tarMembers [] parts) ∧ AsideKeeps data := by
  intro hall
  obtain ⟨data,hdata⟩ : ∃ data,data = abRecord++linkRecord++emptyMember := ⟨_,rfl⟩
  obtain ⟨first,hfirst⟩ : ∃ part,part = plainPart data 0 (some ([0x61,0x62],false)) := ⟨_,rfl⟩
  obtain ⟨second,hsecond⟩ : ∃ part,part = plainPart data 1024 none := ⟨_,rfl⟩
  obtain ⟨third,hthird⟩ : ∃ part,part = plainPart data 1536 none := ⟨_,rfl⟩
  have hat₁ : TarPartAt data 0 first := by
    rw [hfirst]
    apply plainPart_at
    rw [hdata]
    decide +kernel
  have hat₂ : TarPartAt data 1024 second := by
    rw [hsecond]
    apply plainPart_at
    rw [hdata]
    decide +kernel
  have hat₃ : TarPartAt data 1536 third := by
    rw [hthird]
    apply plainPart_at
    rw [hdata]
    decide +kernel
  have hlength : data.length = 2048 := by
    rw [hdata]
    decide +kernel
  have hextents : first.extent [] = 4 ∧ second.extent [first] = 0 ∧
      third.extent [first,second] = 0 := by
    rw [hfirst,hsecond,hthird,hdata]
    decide +kernel
  have hlaid : TarLaid data 0 [] [first,second,third] := by
    apply TarLaid.step hat₁ hextents.1 (by omega) (show _ = 1024 from rfl)
    apply TarLaid.step hat₂ hextents.2.1 (by omega) (show _ = 1536 from rfl)
    apply TarLaid.step hat₃ hextents.2.2 (by omega) (show _ = 2048 from rfl)
    exact .finished (by omega)
  have hmembers : (tarMembers [] [first,second,third]).map ArchiveEntry.name = [[0x61,0x62]] := by
    rw [hfirst,hsecond,hthird,hdata]
    decide +kernel
  have hcount := congrArg List.length hmembers
  rw [List.length_map] at hcount
  have hlist := (hall data _ 1 (by rw [hlength]) hlaid (Nat.le_of_eq hcount)).1
  have hgot : (tarList data 1).map (·.map ArchiveEntry.name) = some [[0x78]] := by
    rw [hdata]
    decide +kernel
  rw [hlist,Option.map_some,hmembers] at hgot
  exact absurd hgot (by decide)

end ZZ9K.Archive
