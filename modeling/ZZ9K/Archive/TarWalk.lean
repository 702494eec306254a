import ZZ9K.Archive.TarStream

namespace ZZ9K.Archive

/-- The records the walk of `zz9k_archive_tar_list` comes to, with what is pending there -/
inductive TarReaches (data : Bytes) : Nat → TarPending → Prop
  | start : TarReaches data 0 {}
  | record {pos : Nat} {p q : TarPending} {entry : ArchiveEntry} (h : TarReaches data pos p)
      (hroom : pos+512 ≤ data.length) (hfilled : tarHeaderEmpty (slice data pos tarBlock) = false)
      (hrecord : tarListRecord data pos p = some (entry,q)) :
      TarReaches data (tarNext pos entry) q

/-- The walk reads the entry `entry` at `pos`. -/
structure TarMeets (data : Bytes) (pos : Nat) (p : TarPending) (entry : ArchiveEntry)
    (q : TarPending) : Prop where
  reached : TarReaches data pos p
  room : pos+512 ≤ data.length
  filled : tarHeaderEmpty (slice data pos tarBlock) = false
  record : tarListRecord data pos p = some (entry,q)

/-- A long name is followed by NULs only and has no newline in it. -/
def LongNamePlain (field : Bytes) : Prop :=
  newline ∉ field.takeWhile (· ≠ 0) ∧ ∀ c ∈ field.dropWhile (· ≠ 0), c = 0

instance (field : Bytes) : Decidable (LongNamePlain field) :=
  inferInstanceAs (Decidable (_ ∧ _))

/-- Long names are plain and never come while another name is pending. -/
def TarPlain (data : Bytes) : Prop :=
  ∀ pos p entry q, TarMeets data pos p entry q → entry.isGnuLongName →
    p.name = [] ∧ LongNamePlain (tarData data entry)

section

variable {data : Bytes} {pos : Nat} {p q : TarPending} {entry candidate : ArchiveEntry}

theorem isGnuLongName_skip : ({entry with flags := entry.flags ||| tarFlagSkip} :
    ArchiveEntry).isGnuLongName = entry.isGnuLongName := by
  have h : (entry.flags ||| 1) &&& 2 = entry.flags &&& 2 := by
    rw [Nat.and_or_distrib_right]
    exact Nat.or_zero _
  apply decide_eq_decide.mpr
  change (entry.flags ||| 1) &&& 2 ≠ 0 ↔ entry.flags &&& 2 ≠ 0
  rw [h]

theorem isPaxHeader_skip : ({entry with flags := entry.flags ||| tarFlagSkip} :
    ArchiveEntry).isPaxHeader = entry.isPaxHeader := by
  have h : (entry.flags ||| 1) &&& 4 = entry.flags &&& 4 := by
    rw [Nat.and_or_distrib_right]
    exact Nat.or_zero _
  apply decide_eq_decide.mpr
  change (entry.flags ||| 1) &&& 4 ≠ 0 ↔ entry.flags &&& 4 ≠ 0
  rw [h]

/-- A header sets the flags of its type letter: of the two letters that announce something about
the next entry at most one, and such an entry is skipped. -/
theorem tarEntryFromHeader_flags {header : Bytes} {offset : Nat}
    (h : tarEntryFromHeader header offset = some entry) :
    (entry.isGnuLongName = true → entry.isPaxHeader = false ∧ entry.isSkipped = true) ∧
    (entry.isPaxHeader = true → entry.isSkipped = true) := by
  simp only [tarEntryFromHeader] at h
  split at h
  · cases h
  simp only [Option.bind_eq_bind,Option.bind_eq_some_iff,Option.some.injEq] at h
  obtain ⟨name,-,size,-,rfl⟩ := h
  simp only [ArchiveEntry.isGnuLongName,ArchiveEntry.isPaxHeader,ArchiveEntry.isSkipped,
    tarTypeFlags]
  cases (tarNormalizeName name).2 <;> split_ifs <;> decide

theorem tarEntryFromHeader_offset (header : Bytes) (offset : Nat) :
    tarEntryFromHeader header offset =
      (tarEntryFromHeader header 0).map fun e => {e with dataOffset := offset} := by
  simp only [tarEntryFromHeader]
  split
  · rfl
  cases tarName header with
  | none => rfl
  | some name =>
    cases parseTarNumber (slice header 124 12) with
    | none => rfl
    | some size => rfl

theorem tarNormalizeName_skip {name : CString} (h : (tarNormalizeName name).2 = true) :
    (tarNormalizeName name).1 = [] := by
  simp only [tarNormalizeName] at h ⊢
  split
  · rfl
  · next hn =>
    rw [if_neg hn] at h
    cases h

/-- A pending skip and a pending name exclude each other. -/
theorem TarPending.afterPax_skip {pax : TarPaxInfo} (hp : p.skip = true → p.name = [])
    (hs : (p.afterPax pax).skip = true) : (p.afterPax pax).name = [] := by
  revert hs
  unfold afterPax
  cases pax.path with
  | none => cases pax.size <;> exact hp
  | some path =>
    obtain ⟨path,skip⟩ := path
    cases skip with
    | true => cases pax.size <;> exact fun _ => rfl
    | false => cases pax.size <;> exact fun h => nomatch h

theorem tarPendingSize_pending (entry : ArchiveEntry) (p : TarPending) :
    (tarPendingSize entry p).2.name = p.name ∧ (tarPendingSize entry p).2.skip = p.skip := by
  unfold tarPendingSize
  split
  · exact ⟨rfl,rfl⟩
  · split
    · exact ⟨rfl,rfl⟩
    · exact ⟨rfl,rfl⟩

/-- What the walk has read of a record: a name or attributes for the next entry, with the bytes
that give them, or a member, the same as the stream makes of the header. -/
structure TarRead (data : Bytes) (pos : Nat) (p : TarPending) (candidate entry : ArchiveEntry)
    (q : TarPending) : Prop where
  header : tarEntryFromHeader (slice data pos tarBlock) 0 = some candidate
  offset : entry.dataOffset = pos+512
  inside : entry.dataOffset+entry.uncompressedSize ≤ data.length
  longName : candidate.isGnuLongName = true →
    entry = {candidate with dataOffset := pos+512} ∧ ∃ name skip,
      tarCopyDataName (tarData data entry) = some (name,skip) ∧ q = {p with name,skip}
  pax : candidate.isGnuLongName = false → candidate.isPaxHeader = true →
    entry = {candidate with dataOffset := pos+512} ∧ ∃ info,
      tarParsePaxInfo (tarData data entry) {} = some info ∧ q = p.afterPax info
  member : candidate.isGnuLongName = false → candidate.isPaxHeader = false →
    (p.skip = true → p.name = []) →
    (tarPendingSize (TarStream.startMember candidate p).1
      (TarStream.startMember candidate p).2) = ({entry with dataOffset := 0},q)

theorem startMember_offset (o : Nat) :
    TarStream.startMember {entry with dataOffset := o} p =
      ({(TarStream.startMember entry p).1 with dataOffset := o},
        (TarStream.startMember entry p).2) := by
  change (if entry.isGnuLongName ∨ entry.isPaxHeader then _ else _) = _
  unfold TarStream.startMember
  split
  · rfl
  · split
    · rfl
    · split <;> rfl

theorem tarPendingSize_offset (o : Nat) :
    tarPendingSize {entry with dataOffset := o} p =
      ({(tarPendingSize entry p).1 with dataOffset := o},(tarPendingSize entry p).2) := by
  change (if entry.isGnuLongName ∨ entry.isPaxHeader then _ else _) = _
  unfold tarPendingSize
  split
  · rfl
  · split <;> rfl

theorem startMember_dataOffset (entry : ArchiveEntry) (p : TarPending) :
    (TarStream.startMember entry p).1.dataOffset = entry.dataOffset := by
  unfold TarStream.startMember
  split
  · rfl
  · split
    · rfl
    · split <;> rfl

theorem tarListEntry_member (hL : entry.isGnuLongName = false) (hX : entry.isPaxHeader = false)
    (hp : p.skip = true → p.name = []) :
    tarListEntry data entry p = some (TarStream.startMember entry p) := by
  unfold tarListEntry TarStream.startMember
  simp only [hL,hX,Bool.false_eq_true,if_false,or_self]
  split
  · next hskip =>
    have hname := hp hskip
    congr 2
    rw [← hname]
  · split <;> rfl

theorem tarPendingSize_fields (h : (entry.isGnuLongName || entry.isPaxHeader) = true) :
    tarPendingSize entry p = (entry,p) := by
  unfold tarPendingSize
  rw [if_pos (by simpa using h)]

theorem tarEntryFromHeader_dataOffset {header : Bytes} {offset : Nat}
    (h : tarEntryFromHeader header offset = some entry) : entry.dataOffset = offset := by
  rw [tarEntryFromHeader_offset] at h
  obtain ⟨e,-,rfl⟩ := Option.map_eq_some_iff.mp h
  rfl

theorem tarListEntry_dataOffset {e : ArchiveEntry}
    (h : tarListEntry data entry p = some (e,q)) : e.dataOffset = entry.dataOffset := by
  unfold tarListEntry at h
  split at h
  · obtain ⟨_,-,he⟩ := Option.map_eq_some_iff.mp h
    cases he
    rfl
  · split at h
    · obtain ⟨_,-,he⟩ := Option.map_eq_some_iff.mp h
      cases he
      rfl
    · split at h
      · cases h
        rfl
      · split at h <;> cases h <;> rfl

theorem tarPendingSize_dataOffset (entry : ArchiveEntry) (p : TarPending) :
    (tarPendingSize entry p).1.dataOffset = entry.dataOffset := by
  unfold tarPendingSize
  split
  · rfl
  · split <;> rfl

theorem tarListRecord_read (h : tarListRecord data pos p = some (entry,q)) :
    ∃ candidate, TarRead data pos p candidate entry q := by
  simp only [tarListRecord] at h
  rw [tarEntryFromHeader_offset] at h
  cases hheader : tarEntryFromHeader (slice data pos tarBlock) 0 with
  | none => simp [hheader] at h
  | some candidate =>
    simp only [hheader,Option.map_some,Option.bind_eq_bind,Option.bind_some] at h
    obtain ⟨c,hc⟩ : ∃ c, c = {candidate with dataOffset := pos+512} := ⟨_,rfl⟩
    have hcL : c.isGnuLongName = candidate.isGnuLongName := by rw [hc]; rfl
    have hcX : c.isPaxHeader = candidate.isPaxHeader := by rw [hc]; rfl
    rw [← hc] at h
    split at h
    · cases h
    simp only [Option.bind_eq_some_iff] at h
    obtain ⟨⟨e,r⟩,hentry,h⟩ := h
    dsimp only at h
    split at h
    · cases h
    next hinside =>
    have hpair : tarPendingSize e r = (entry,q) := Option.some.inj h
    rw [hpair] at hinside
    simp only [tarInRange,Bool.not_eq_false,decide_eq_true_eq] at hinside
    refine ⟨candidate,hheader,?_,hinside.2.2,?_,?_,?_⟩
    · have hoffset := tarPendingSize_dataOffset e r
      rw [hpair] at hoffset
      rw [hoffset,tarListEntry_dataOffset hentry,hc]
    · intro hL
      rw [hL] at hcL
      simp only [tarListEntry,hcL,if_true] at hentry
      obtain ⟨⟨name,skip⟩,hname,hr⟩ := Option.map_eq_some_iff.mp hentry
      cases hr
      rw [tarPendingSize_fields (by simp [hcL])] at hpair
      cases hpair
      exact ⟨hc,name,skip,hname,rfl⟩
    · intro hL hX
      rw [hL] at hcL
      rw [hX] at hcX
      simp only [tarListEntry,hcL,hcX,Bool.false_eq_true,if_false,if_true] at hentry
      obtain ⟨info,hinfo,hr⟩ := Option.map_eq_some_iff.mp hentry
      cases hr
      rw [tarPendingSize_fields (by simp [hcX])] at hpair
      cases hpair
      exact ⟨hc,info,hinfo,rfl⟩
    · intro hL hX hp
      rw [tarListEntry_member (hcL.trans hL) (hcX.trans hX) hp,hc,startMember_offset] at hentry
      cases hentry
      rw [tarPendingSize_offset] at hpair
      have hzero := tarEntryFromHeader_dataOffset hheader
      generalize hy : tarPendingSize (TarStream.startMember candidate p).1
        (TarStream.startMember candidate p).2 = y at hpair
      have hyzero : y.1.dataOffset = 0 := by
        rw [← hy,tarPendingSize_dataOffset,startMember_dataOffset,hzero]
      obtain ⟨he,hq⟩ := Prod.mk.inj hpair
      have hsame : ({y.1 with dataOffset := 0} : ArchiveEntry) = y.1 := by rw [← hyzero]
      rw [← he,← hq]
      exact Prod.ext hsame.symm rfl

theorem startMember_skip (entry : ArchiveEntry) (hp : p.skip = true → p.name = [])
    (hs : (TarStream.startMember entry p).2.skip = true) :
    (TarStream.startMember entry p).2.name = [] := by
  revert hs
  unfold TarStream.startMember
  split
  · exact hp
  · split
    · exact fun _ => rfl
    · split
      · exact fun _ => rfl
      · exact hp

theorem TarRead.skip (h : TarRead data pos p candidate entry q)
    (hp : p.skip = true → p.name = []) : q.skip = true → q.name = [] := by
  cases hL : candidate.isGnuLongName with
  | true =>
    obtain ⟨-,name,skip,hname,rfl⟩ := h.longName hL
    simp only [tarCopyDataName] at hname
    split at hname
    · cases hname
    · intro hs
      have hnormal := Option.some.inj hname
      have hempty := @tarNormalizeName_skip ((tarData data entry).takeWhile
        fun c => c ≠ 0 ∧ c ≠ newline) (by rw [hnormal]; exact hs)
      rw [hnormal] at hempty
      exact hempty
  | false =>
    cases hX : candidate.isPaxHeader with
    | true =>
      obtain ⟨-,info,-,rfl⟩ := h.pax hL hX
      exact TarPending.afterPax_skip hp
    | false =>
      have hmember := h.member hL hX hp
      have hpending := tarPendingSize_pending (TarStream.startMember candidate p).1
        (TarStream.startMember candidate p).2
      rw [hmember] at hpending
      rw [hpending.1,hpending.2]
      exact startMember_skip candidate hp

/-- Records start at whole blocks within the archive. -/
theorem TarReaches.place (h : TarReaches data pos p) (hblocks : data.length%512 = 0) :
    pos%512 = 0 ∧ pos ≤ data.length ∧ (p.skip = true → p.name = []) := by
  induction h with
  | start => exact ⟨rfl,Nat.zero_le _,fun _ => rfl⟩
  | @record pos p q entry h hroom hfilled hrecord ih =>
    obtain ⟨candidate,hread⟩ := tarListRecord_read hrecord
    have hinside := hread.inside
    rw [hread.offset] at hinside
    refine ⟨?_,?_,hread.skip ih.2.2⟩
    · unfold tarNext
      omega
    · unfold tarNext
      omega

theorem TarMeets.next (h : TarMeets data pos p entry q) :
    TarReaches data (tarNext pos entry) q :=
  .record h.reached h.room h.filled h.record

variable {capacity : Nat} {acc result : List ArchiveEntry}

theorem tarListLoop_onPrefix (h : tarListLoop data capacity pos p acc = some result) :
    acc <+: result := by
  induction pos,p,acc using tarListLoop.induct data capacity with
  | case1 pos p acc hroom hempty =>
    rw [tarListLoop,dif_pos hroom,if_pos hempty] at h
    cases h
    exact List.prefix_rfl
  | case2 pos p acc hroom hempty hrecord =>
    rw [tarListLoop,dif_pos hroom,if_neg hempty,hrecord] at h
    cases h
  | case3 pos p acc hroom hempty entry q hrecord hskip ih =>
    rw [tarListLoop,dif_pos hroom,if_neg hempty,hrecord] at h
    simp only [hskip,if_true] at h
    exact ih h
  | case4 pos p acc hroom hempty entry q hrecord hskip hfull =>
    rw [tarListLoop,dif_pos hroom,if_neg hempty,hrecord] at h
    simp only [hskip,hfull,if_true] at h
    cases h
  | case5 pos p acc hroom hempty entry q hrecord hskip hfull ih =>
    rw [tarListLoop,dif_pos hroom,if_neg hempty,hrecord] at h
    simp only [hskip,hfull] at h
    exact (List.prefix_append acc [entry]).trans (ih h)
  | case6 pos p acc hroom =>
    rw [tarListLoop,dif_neg hroom] at h
    cases h
    exact List.prefix_rfl

/-- What one round of the walk does with the entry it meets. -/
theorem tarListLoop_meets (hroom : pos+512 ≤ data.length)
    (hfilled : tarHeaderEmpty (slice data pos tarBlock) = false)
    (h : tarListLoop data capacity pos p acc = some result) :
    ∃ entry q, tarListRecord data pos p = some (entry,q) ∧
      tarListLoop data capacity (tarNext pos entry) q
        (if entry.isSkipped then acc else acc++[entry]) = some result := by
  rw [tarListLoop,dif_pos hroom,if_neg (by simp [hfilled])] at h
  cases hrecord : tarListRecord data pos p with
  | none => simp [hrecord] at h
  | some x =>
    obtain ⟨entry,q⟩ := x
    refine ⟨entry,q,rfl,?_⟩
    simp only [hrecord] at h
    split at h
    · next hskip =>
      rw [if_pos hskip]
      exact h
    · next hskip =>
      rw [if_neg hskip]
      split at h
      · cases h
      · exact h

end

end ZZ9K.Archive
