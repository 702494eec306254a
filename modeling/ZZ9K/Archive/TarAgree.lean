import ZZ9K.Archive.TarWalk
import Mathlib.Data.List.GetD
import Mathlib.Data.List.TakeWhile

namespace ZZ9K.Archive

section

theorem takeWhile_name {name zeros : Bytes} (hn : ∀ c ∈ name, c ≠ 0)
    (hz : ∀ c ∈ zeros, c = 0) : (name++zeros).takeWhile (· ≠ 0) = name := by
  rw [List.takeWhile_append_of_pos (by simpa using hn)]
  cases zeros with
  | nil => simp
  | cons c zeros =>
    have hc := hz c (List.mem_cons_self ..)
    simp [hc]

theorem getD_zeros {zeros : Bytes} (hz : ∀ c ∈ zeros, c = 0) (i : Nat) : zeros.getD i 0 = 0 := by
  by_cases h : i < zeros.length
  · rw [List.getD_eq_getElem _ _ h]
    exact hz _ (List.getElem_mem h)
  · exact List.getD_eq_default _ _ (by omega)

/-- What one call copies: a string without NUL and what is left of the name, if it fits. -/
theorem consumeLongName_eq (s : TarStream) {name zeros piece : Bytes} (hpiece : piece = name++zeros)
    (hn : ∀ c ∈ name, c ≠ 0) (hz : ∀ c ∈ zeros, c = 0)
    (hfits : s.pending.name.length+name.length < archiveMaxName) :
    (s.consumeLongName piece).pending.name = s.pending.name++name ∧
      (s.consumeLongName piece).pendingNameOverflow = s.pendingNameOverflow := by
  subst hpiece
  simp only [TarStream.consumeLongName]
  generalize hspace : archiveMaxName-1-s.pending.name.length = space
  have hroom : name.length ≤ space := by omega
  constructor
  · congr 1
    obtain ⟨copied,hcopied⟩ : ∃ copied, (if space < (name++zeros).length then space
        else (name++zeros).length) = copied := ⟨_,rfl⟩
    have hle : name.length ≤ copied := by
      rw [← hcopied,List.length_append]
      split <;> omega
    rw [hcopied,List.take_append,List.take_of_length_le hle]
    exact takeWhile_name hn fun c hc => hz c (List.mem_of_mem_take hc)
  · rw [List.getD_append_right _ _ _ _ hroom,getD_zeros hz]
    simp

/-- A piece of a plain long name is collected as the name's own bytes, wherever it is cut. -/
theorem consumeLongName_plain {s : TarStream} {before piece after : Bytes}
    (hplain : LongNamePlain (before++(piece++after)))
    (hfits : ((before++(piece++after)).takeWhile (· ≠ 0)).length < archiveMaxName)
    (hname : s.pending.name = before.takeWhile (· ≠ 0)) :
    (s.consumeLongName piece).pending.name = (before++piece).takeWhile (· ≠ 0) ∧
      (s.consumeLongName piece).pendingNameOverflow = s.pendingNameOverflow := by
  generalize hfield : before++(piece++after) = field at hplain hfits
  obtain ⟨name,hname'⟩ : ∃ name, field.takeWhile (· ≠ 0) = name := ⟨_,rfl⟩
  obtain ⟨zeros,hzeros⟩ : ∃ zeros, field.dropWhile (· ≠ 0) = zeros := ⟨_,rfl⟩
  have hsplit : before++(piece++after) = name++zeros := by
    rw [hfield,← hname',← hzeros,List.takeWhile_append_dropWhile]
  have hn : ∀ c ∈ name, c ≠ 0 := by
    intro c hc
    rw [← hname'] at hc
    simpa using List.mem_takeWhile_imp hc
  have hz : ∀ c ∈ zeros, c = 0 := by
    rw [← hzeros]
    exact hplain.2
  rw [hname'] at hfits
  rcases List.append_eq_append_iff.mp hsplit with ⟨rest,rfl,hrest⟩ | ⟨pad,rfl,hpad⟩
  · -- the name goes on in the piece
    have hbefore : before.takeWhile (· ≠ 0) = before := by
      have h := @takeWhile_name before []
        (fun c hc => hn c (List.mem_append_left _ hc)) (fun c hc => nomatch hc)
      rwa [List.append_nil] at h
    rw [hbefore] at hname
    rw [List.length_append] at hfits
    rcases List.append_eq_append_iff.mp hrest with ⟨more,rfl,-⟩ | ⟨pad,rfl,rfl⟩
    · have hc := @consumeLongName_eq s piece [] piece (List.append_nil piece).symm
        (fun c hc => hn c (List.mem_append_right _ (List.mem_append_left _ hc)))
        (fun c hc => nomatch hc) (by rw [hname]; simp only [List.length_append] at hfits; omega)
      refine ⟨?_,hc.2⟩
      have hwhole := @takeWhile_name (before++piece) [] (fun c hc =>
        hn c (by simp only [List.mem_append] at hc ⊢; tauto)) (fun c hc => nomatch hc)
      rw [List.append_nil] at hwhole
      rw [hc.1,hwhole,hname]
    · have hpadz : ∀ c ∈ pad, c = 0 := fun c hc => hz c (List.mem_append_left _ hc)
      have hc := consumeLongName_eq s rfl (fun c hc => hn c (List.mem_append_right _ hc)) hpadz
        (by rw [hname]; exact hfits)
      refine ⟨?_,hc.2⟩
      rw [hc.1,hname,← List.append_assoc,takeWhile_name hn hpadz]
  · -- the name has ended before
    have hpadz : ∀ c ∈ pad, c = 0 := by
      intro c hc
      exact hz c (by rw [hpad]; exact List.mem_append_left _ hc)
    have hpiecez : ∀ c ∈ piece, c = 0 := by
      intro c hc
      exact hz c (by rw [hpad]; simp [hc])
    rw [takeWhile_name hn hpadz] at hname
    have hc := consumeLongName_eq s (List.nil_append piece).symm (fun c hc => nomatch hc) hpiecez
      (by rw [hname]; exact hfits)
    refine ⟨?_,hc.2⟩
    rw [hc.1,hname,List.append_nil,List.append_assoc,takeWhile_name hn]
    intro c hc
    rcases List.mem_append.mp hc with h | h
    · exact hpadz c h
    · exact hpiecez c h

end

/-- Every output operation of the run succeeds, and no output is the archive. -/
structure TarRun.Succeeds (run : TarRun) : Prop where
  apart : ∀ e, run.aliasesArchive e = false
  writes : ∀ e, run.writeEntry e = true
  opens : ∀ e, run.openStaged e = true
  filled : ∀ e b, run.writeFile e b = true
  closes : ∀ e b, run.closeFile e b = true

/-- What the stream has made of the archive: each member with the bytes written for it -/
def TarStream.report (s : TarStream) : List (CString × Nat × Bool × Bytes) :=
  s.processed.map fun (e,written) => (e.name,e.uncompressedSize,e.isDir,written)

/-- What is to be reported for an entry: its data when it is extracted to a file -/
def tarReportEntry (run : TarRun) (data : Bytes) (entry : ArchiveEntry) :
    CString × Nat × Bool × Bytes :=
  (entry.name,entry.uncompressedSize,entry.isDir,
    if run.command = .extract ∧ entry.isDir = false then tarData data entry else [])

/-- The entries of the listing that match the filter -/
def tarReport (run : TarRun) (data : Bytes) (entries : List ArchiveEntry) :
    List (CString × Nat × Bool × Bytes) :=
  (entries.filter (entryMatchesFilter run.matchFilter)).map (tarReportEntry run data)

section

variable {run : TarRun} {data : Bytes} {pos : Nat} {p q : TarPending}
  {entry candidate : ArchiveEntry} {acc : List ArchiveEntry} {s : TarStream}

/-- How far the report has come with `entry`, of which `n` bytes have been received: either it
has all of it, or its file is open. -/
def Reporting (run : TarRun) (data : Bytes) (listed : List ArchiveEntry) (entry : ArchiveEntry)
    (n : Nat) (s : TarStream) : Prop :=
  (s.file = none ∧ s.report = tarReport run data listed) ∨
  (entry.uncompressedSize ≠ 0 ∧ entry.isGnuLongName = false ∧ entry.isPaxHeader = false ∧
    s.file = some (slice data entry.dataOffset n) ∧
    tarReport run data listed = s.report++[(entry.name,entry.uncompressedSize,entry.isDir,
      tarData data entry)])

/-- The entries listed once `entry` has been met -/
def listedAfter (acc : List ArchiveEntry) (entry : ArchiveEntry) : List ArchiveEntry :=
  if entry.isSkipped then acc else acc++[entry]

/-- The parts of a stream that output does not touch -/
structure SameCourse (s t : TarStream) : Prop where
  header : s.header = t.header
  entry : s.entry = t.entry
  pending : s.pending = t.pending
  overflow : s.pendingNameOverflow = t.pendingNameOverflow
  paxData : s.paxData = t.paxData
  paxCapacity : s.paxCapacity = t.paxCapacity
  remaining : s.entryRemaining = t.entryRemaining
  padding : s.paddingRemaining = t.paddingRemaining
  done : s.done = t.done

theorem tarReport_append (e : ArchiveEntry) : tarReport run data (acc++[e]) =
    tarReport run data acc++
      if entryMatchesFilter run.matchFilter e then [tarReportEntry run data e] else [] := by
  simp only [tarReport,List.filter_append,List.map_append]
  congr 1
  cases h : entryMatchesFilter run.matchFilter e with
  | true => simp [h]
  | false => simp [h]

theorem startOutput_reporting (hrun : run.Succeeds)
    (hentry : s.entry = {entry with dataOffset := 0}) (hfile : s.file = none)
    (hreport : s.report = tarReport run data acc)
    (hkind : entry.isSkipped = false → entry.isGnuLongName = false ∧ entry.isPaxHeader = false)
    (hsafe : entry.isSkipped = false → entryMatchesFilter run.matchFilter entry = true →
      pathIsSafe entry.name = true) :
    ∃ t, s.startOutput run = some t ∧ SameCourse t s ∧
      Reporting run data (listedAfter acc entry) entry 0 t := by
  have hskip : s.entry.isSkipped = entry.isSkipped := by
    rw [hentry]
    rfl
  have hmatch : entryMatchesFilter run.matchFilter s.entry =
      entryMatchesFilter run.matchFilter entry := by
    rw [hentry]
    rfl
  have hsame : SameCourse s s := ⟨rfl,rfl,rfl,rfl,rfl,rfl,rfl,rfl,rfl⟩
  unfold TarStream.startOutput listedAfter
  rw [hskip,hmatch]
  cases hs : entry.isSkipped with
  | true => exact ⟨s,rfl,hsame,Or.inl ⟨hfile,hreport⟩⟩
  | false =>
    simp only [Bool.false_eq_true,if_false]
    cases hm : entryMatchesFilter run.matchFilter entry with
    | false =>
      refine ⟨s,rfl,hsame,Or.inl ⟨hfile,?_⟩⟩
      rw [hreport,tarReport_append,hm]
      simp
    | true =>
      have hname : pathIsSafe s.entry.name = true := by
        rw [hentry]
        exact hsafe hs hm
      have hreported (written : Bytes)
          (hw : written = if run.command = .extract ∧ entry.isDir = false then
            tarData data entry else []) (t : TarStream)
          (ht : t.processed = s.processed++[(s.entry,written)]) :
          t.report = tarReport run data (acc++[entry]) := by
        rw [tarReport_append,hm,if_pos rfl,← hreport,TarStream.report,ht,List.map_append,hentry,hw]
        rfl
      rw [if_neg (by simp),if_neg (by simp [hname])]
      have hdir : s.entry.isDir = entry.isDir := by rw [hentry]
      have hsize : s.entry.uncompressedSize = entry.uncompressedSize := by rw [hentry]
      cases hc : run.command with
      | list =>
        refine ⟨_,rfl,⟨rfl,rfl,rfl,rfl,rfl,rfl,rfl,rfl,rfl⟩,Or.inl ⟨hfile,hreported [] ?_ _ rfl⟩⟩
        rw [if_neg (by simp [hc])]
      | test =>
        refine ⟨_,rfl,⟨rfl,rfl,rfl,rfl,rfl,rfl,rfl,rfl,rfl⟩,Or.inl ⟨hfile,hreported [] ?_ _ rfl⟩⟩
        rw [if_neg (by simp [hc])]
      | extract =>
        dsimp only
        rw [if_neg (by simp [hrun.apart]),hdir,hsize]
        by_cases hplain : entry.isDir = true ∨ entry.uncompressedSize = 0
        · rw [if_pos hplain,if_pos (hrun.writes _)]
          refine ⟨_,rfl,⟨rfl,rfl,rfl,rfl,rfl,rfl,rfl,rfl,rfl⟩,Or.inl ⟨hfile,hreported [] ?_ _ rfl⟩⟩
          rcases hplain with hd | hz
          · simp [hd]
          · simp [tarData,slice,hz]
        · rw [if_neg hplain,if_pos (hrun.opens _)]
          simp only [not_or,Bool.not_eq_true] at hplain
          refine ⟨_,rfl,⟨rfl,rfl,rfl,rfl,rfl,rfl,rfl,rfl,rfl⟩,Or.inr ⟨hplain.2,(hkind hs).1,(hkind hs).2,?_,?_⟩⟩
          · simp [slice]
          · rw [tarReport_append,hm,if_pos rfl,← hreport]
            simp [tarReportEntry,hc,hplain.1,TarStream.report]

theorem TarRead.kind (h : TarRead data pos p candidate entry q)
    (hp : p.skip = true → p.name = []) :
    entry.isGnuLongName = candidate.isGnuLongName ∧ entry.isPaxHeader = candidate.isPaxHeader ∧
      (entry.isSkipped = false → entry.isGnuLongName = false ∧ entry.isPaxHeader = false) := by
  have hflags := tarEntryFromHeader_flags h.header
  cases hL : candidate.isGnuLongName with
  | true =>
    obtain ⟨he,-⟩ := h.longName hL
    have hskip : entry.isSkipped = true := by
      rw [he]
      exact (hflags.1 hL).2
    refine ⟨by rw [he]; exact hL,by rw [he]; rfl,fun hn => ?_⟩
    rw [hskip] at hn
    cases hn
  | false =>
    cases hX : candidate.isPaxHeader with
    | true =>
      obtain ⟨he,-⟩ := h.pax hL hX
      have hskip : entry.isSkipped = true := by
        rw [he]
        exact hflags.2 hX
      refine ⟨by rw [he]; exact hL,by rw [he]; exact hX,fun hn => ?_⟩
      rw [hskip] at hn
      cases hn
    | false =>
      have hmember := h.member hL hX hp
      have hstart : (TarStream.startMember candidate p).1.isGnuLongName = false ∧
          (TarStream.startMember candidate p).1.isPaxHeader = false := by
        unfold TarStream.startMember
        split
        · exact ⟨hL,hX⟩
        · split
          · exact ⟨isGnuLongName_skip.trans hL,isPaxHeader_skip.trans hX⟩
          · split
            · exact ⟨hL,hX⟩
            · exact ⟨hL,hX⟩
      have hsize (e : ArchiveEntry) (r : TarPending) :
          (tarPendingSize e r).1.isGnuLongName = e.isGnuLongName ∧
            (tarPendingSize e r).1.isPaxHeader = e.isPaxHeader := by
        unfold tarPendingSize
        split
        · exact ⟨rfl,rfl⟩
        · split
          · exact ⟨rfl,rfl⟩
          · exact ⟨rfl,rfl⟩
      have hboth := hsize (TarStream.startMember candidate p).1
        (TarStream.startMember candidate p).2
      rw [hmember,hstart.1,hstart.2] at hboth
      exact ⟨hboth.1,hboth.2,fun _ => hboth⟩

/-- The stream makes the same entry of a header as the walk; what a long name or a PAX header
announces is still to come. -/
theorem TarRead.started (h : TarRead data pos p candidate entry q)
    (hp : p.skip = true → p.name = []) :
    tarPendingSize (TarStream.startMember candidate p).1 (TarStream.startMember candidate p).2 =
      ({entry with dataOffset := 0},
        if entry.isGnuLongName = true ∨ entry.isPaxHeader = true then p else q) := by
  obtain ⟨hkL,hkX,-⟩ := h.kind hp
  have hzero := tarEntryFromHeader_dataOffset h.header
  by_cases hannounce : candidate.isGnuLongName = true ∨ candidate.isPaxHeader = true
  · have he : entry = {candidate with dataOffset := pos+512} := by
      cases hL : candidate.isGnuLongName with
      | true => exact (h.longName hL).1
      | false =>
        rw [hL] at hannounce
        exact (h.pax hL (by simpa using hannounce)).1
    have hcandidate : candidate = {entry with dataOffset := 0} := by
      rw [he]
      change candidate = {candidate with dataOffset := 0}
      rw [← hzero]
    have hstart : TarStream.startMember candidate p = (candidate,p) := by
      unfold TarStream.startMember
      rw [if_pos hannounce]
    rw [hstart,hkL,hkX,if_pos hannounce,tarPendingSize_fields (by simpa using hannounce),
      ← hcandidate]
  · have hnone := hannounce
    simp only [not_or,Bool.not_eq_true] at hnone
    rw [hkL,hkX,if_neg hannounce]
    exact h.member hnone.1 hnone.2 hp

variable {capacity : Nat} {result : List ArchiveEntry}

/-- What is pending while the data of `entry` comes in, `n` bytes of it by now -/
def pendingWithin (data : Bytes) (p q : TarPending) (entry : ArchiveEntry) (n : Nat) :
    TarPending :=
  if entry.isGnuLongName then
    {p with name := (slice data entry.dataOffset n).takeWhile (· ≠ 0)}
  else if entry.isPaxHeader then p else q

/-- Between two entries, or within the header at `pos`, when `n` bytes have been consumed -/
structure TarStream.Ready (run : TarRun) (data : Bytes) (capacity : Nat)
    (result : List ArchiveEntry) (pos n : Nat) (p : TarPending) (s : TarStream) : Prop where
  reached : TarReaches data pos p
  listed : ∃ acc, tarListLoop data capacity pos p acc = some result ∧
    s.report = tarReport run data acc
  near : n < pos+512
  header : s.header = slice data pos (n-pos)
  padding : s.paddingRemaining = pos-n
  remaining : s.entryRemaining = 0
  pending : s.pending = p
  overflow : s.pendingNameOverflow = false
  file : s.file = none
  done : s.done = false

/-- Within the data of the entry at `pos`, when `n` bytes of it have been consumed -/
structure TarStream.Receiving (run : TarRun) (data : Bytes) (capacity : Nat)
    (result : List ArchiveEntry) (pos n : Nat) (p q : TarPending) (entry : ArchiveEntry)
    (s : TarStream) : Prop where
  meets : TarMeets data pos p entry q
  listed : ∃ acc, tarListLoop data capacity (tarNext pos entry) q acc = some result ∧
    Reporting run data acc entry n s
  header : s.header = []
  padding : s.paddingRemaining = (512-entry.uncompressedSize%512)%512
  current : s.entry = {entry with dataOffset := 0}
  pending : s.pending = pendingWithin data p q entry n
  pax : entry.isPaxHeader = true → s.paxData = slice data entry.dataOffset n ∧
    entry.uncompressedSize ≤ s.paxCapacity
  overflow : s.pendingNameOverflow = false
  done : s.done = false

/-- Behind the end of the listing -/
structure TarStream.Finished (run : TarRun) (data : Bytes) (result : List ArchiveEntry)
    (s : TarStream) : Prop where
  done : s.done = true
  report : s.report = tarReport run data result
  finish : s.finish = true

/-- Where a stream stands that has consumed the first `n` bytes -/
inductive TarStream.Stands (run : TarRun) (data : Bytes) (capacity : Nat)
    (result : List ArchiveEntry) (n : Nat) (s : TarStream) : Prop
  | ready {pos : Nat} {p : TarPending} (h : s.Ready run data capacity result pos n p)
  | receiving {pos k : Nat} {p q : TarPending} {entry : ArchiveEntry} (hn : n = pos+512+k)
      (hshort : k < entry.uncompressedSize)
      (hremaining : s.entryRemaining = entry.uncompressedSize-k)
      (h : s.Receiving run data capacity result pos k p q entry)
  | finished (h : s.Finished run data result)

/-- The conditions under which the stream is compared with the listing -/
structure TarStream.Expected (run : TarRun) (data : Bytes) (result : List ArchiveEntry) :
    Prop where
  outputs : run.Succeeds
  blocks : data.length%512 = 0
  plain : TarPlain data
  pax : ∀ pos p entry q, TarMeets data pos p entry q → entry.isPaxHeader = true →
    entry.uncompressedSize ≤ archiveMaxPaxData
  safe : ∀ e ∈ result, pathIsSafe e.name = true

theorem preparePax_ready (s : TarStream) {size : Nat} (h : size ≤ archiveMaxPaxData) :
    ∃ room, s.preparePax size = some {s with paxCapacity := room} ∧ size ≤ room ∧ 0 < room := by
  simp only [TarStream.preparePax]
  rw [if_neg (by omega)]
  by_cases hroom : (if size = 0 then 1 else size) ≤ s.paxCapacity
  · rw [if_pos hroom]
    refine ⟨s.paxCapacity,rfl,?_,?_⟩
    · split at hroom <;> omega
    · split at hroom <;> omega
  · rw [if_neg hroom]
    refine ⟨_,rfl,?_,?_⟩
    · split <;> omega
    · split <;> omega

/-- A record without data announces nothing. -/
theorem TarRead.empty (h : TarRead data pos p candidate entry q) (hp : p.skip = true → p.name = [])
    (hsize : entry.uncompressedSize = 0)
    (hannounce : entry.isGnuLongName = true ∨ entry.isPaxHeader = true) : q = p := by
  obtain ⟨hkL,hkX,-⟩ := h.kind hp
  have hdata : tarData data entry = [] := by simp [tarData,slice,hsize]
  rw [hkL,hkX] at hannounce
  cases hL : candidate.isGnuLongName with
  | true =>
    obtain ⟨-,name,skip,hname,-⟩ := h.longName hL
    rw [hdata] at hname
    simp [tarCopyDataName] at hname
  | false =>
    rw [hL] at hannounce
    obtain ⟨-,info,hinfo,rfl⟩ := h.pax hL (by simpa using hannounce)
    rw [hdata,tarParsePaxInfo,dif_pos (show ([] : Bytes).length = 0 from rfl)] at hinfo
    cases hinfo
    rfl

theorem pendingWithin_zero (hplain : entry.isGnuLongName = true → p.name = []) :
    pendingWithin data p q entry 0 =
      if entry.isGnuLongName = true ∨ entry.isPaxHeader = true then p else q := by
  unfold pendingWithin
  cases hL : entry.isGnuLongName with
  | true =>
    have hname := hplain hL
    simp only [slice,List.take_zero,List.takeWhile_nil,if_true,true_or]
    rw [← hname]
  | false => simp

/-- A complete header puts the stream at the data of the entry that the walk meets there, or
behind it if there is none. -/
theorem startEntry_stands (he : TarStream.Expected run data result)
    (hmeets : TarMeets data pos p entry q)
    (hlist : tarListLoop data capacity (tarNext pos entry) q (listedAfter acc entry) = some result)
    (hreport : s.report = tarReport run data acc) (hpending : s.pending = p)
    (hoverflow : s.pendingNameOverflow = false) (hfile : s.file = none) (hdone : s.done = false) :
    ∃ t, s.startEntry run (slice data pos tarBlock) = some t ∧
      t.Stands run data capacity result (pos+512) := by
  obtain ⟨candidate,hread⟩ := tarListRecord_read hmeets.record
  have hp := (hmeets.reached.place he.blocks).2.2
  have hstarted := hread.started hp
  obtain ⟨hkL,hkX,hkind⟩ := hread.kind hp
  have hsafe : entry.isSkipped = false → pathIsSafe entry.name = true := by
    intro hs
    rw [listedAfter,hs] at hlist
    have hmem : entry ∈ acc++[entry] := by simp
    exact he.safe entry ((tarListLoop_onPrefix hlist).subset hmem)
  obtain ⟨taken,htaken⟩ : ∃ taken, taken = s.takeUp {entry with dataOffset := 0}
      (if entry.isGnuLongName = true ∨ entry.isPaxHeader = true then p else q) := ⟨_,rfl⟩
  have hprepared : ∃ room, (if entry.isPaxHeader then taken.preparePax entry.uncompressedSize
      else some taken) = some {taken with paxCapacity := room} ∧
      (entry.isPaxHeader = true → entry.uncompressedSize ≤ room ∧ 0 < room) := by
    cases hX : entry.isPaxHeader with
    | true =>
      obtain ⟨room,hroom,hle⟩ := preparePax_ready taken (he.pax _ _ _ _ hmeets hX)
      exact ⟨room,hroom,fun _ => hle⟩
    | false => exact ⟨taken.paxCapacity,rfl,fun h => nomatch h⟩
  obtain ⟨room,hprepared,hroom⟩ := hprepared
  obtain ⟨t,ht,hsame,hreporting⟩ := startOutput_reporting (s := {taken with paxCapacity := room})
    he.outputs (by rw [htaken]; rfl) (by rw [htaken]; exact hfile)
    (by rw [htaken]; exact hreport) hkind fun hs _ => hsafe hs
  refine ⟨t,?_,?_⟩
  · simp only [TarStream.startEntry]
    rw [if_neg (by simp [hmeets.filled]),hread.header]
    simp only [Option.bind_eq_bind,Option.bind_some,hpending]
    rw [hstarted]
    dsimp only
    rw [← htaken]
    change (if entry.isPaxHeader then (taken.preparePax entry.uncompressedSize).bind
      fun s => s.startOutput run else taken.startOutput run) = some t
    split
    · next hX =>
      rw [if_pos hX] at hprepared
      rw [hprepared]
      exact ht
    · next hX =>
      rw [if_neg hX] at hprepared
      rw [Option.some.inj hprepared]
      exact ht
  · have htpending : t.pending =
        if entry.isGnuLongName = true ∨ entry.isPaxHeader = true then p else q := by
      rw [hsame.pending,htaken]
      rfl
    by_cases hsize : entry.uncompressedSize = 0
    · have hnext : tarNext pos entry = pos+512 := by simp [tarNext,hsize]
      rcases hreporting with ⟨htfile,htreport⟩ | ⟨hne,-⟩
      swap
      · exact (hne hsize).elim
      apply @TarStream.Stands.ready _ _ _ _ _ _ (tarNext pos entry) q
      constructor
      · exact hmeets.next
      · exact ⟨_,hlist,htreport⟩
      · omega
      · rw [hsame.header,htaken,hnext]
        simp [TarStream.takeUp]
      · rw [hsame.padding,htaken]
        simp [TarStream.takeUp,hsize,hnext]
      · rw [hsame.remaining,htaken]
        exact hsize
      · rw [htpending]
        split
        · next hannounce => exact (hread.empty hp hsize hannounce).symm
        · rfl
      · rw [hsame.overflow,htaken]
        exact hoverflow
      · exact htfile
      · rw [hsame.done,htaken]
        exact hdone
    · have hremaining : t.entryRemaining = entry.uncompressedSize-0 := by
        rw [hsame.remaining,htaken]
        rfl
      apply TarStream.Stands.receiving rfl (Nat.pos_of_ne_zero hsize) hremaining
      refine ⟨hmeets,⟨_,hlist,hreporting⟩,?_,?_,?_,?_,?_,?_,?_⟩
      · rw [hsame.header,htaken]
        rfl
      · rw [hsame.padding,htaken]
        rfl
      · rw [hsame.entry,htaken]
        rfl
      · rw [htpending,pendingWithin_zero]
        exact fun hL => (he.plain _ _ _ _ hmeets hL).1
      · intro hX
        rw [hsame.paxData,hsame.paxCapacity,htaken]
        exact ⟨by simp [TarStream.takeUp],(hroom hX).1⟩
      · rw [hsame.overflow,htaken]
        exact hoverflow
      · rw [hsame.done,htaken]
        exact hdone

theorem ready_round {n left : Nat} (he : TarStream.Expected run data result)
    (h : s.Ready run data capacity result pos n p) (hleft : 0 < left)
    (hin : n+left ≤ data.length) :
    ∃ t, s.round run (slice data n (s.part left)) = some t ∧
      t.Stands run data capacity result (n+s.part left) := by
  obtain ⟨acc,hlist,hreport⟩ := h.listed
  have hpiece : (slice data n (s.part left)).length = s.part left := by
    apply length_slice
    have hle : s.part left ≤ left := by
      unfold TarStream.part
      split
      · omega
      · split <;> omega
    omega
  simp only [TarStream.round]
  rw [if_neg (by simp [h.remaining]),hpiece]
  by_cases hgap : n < pos
  · have hpart : s.part left = min (pos-n) left := by
      unfold TarStream.part
      rw [if_neg (by simp [h.remaining]),h.padding,if_pos (by omega)]
    rw [if_pos (by rw [h.padding]; omega)]
    refine ⟨_,rfl,@TarStream.Stands.ready _ _ _ _ _ _ pos p ?_⟩
    refine ⟨h.reached,⟨acc,hlist,hreport⟩,by omega,?_,?_,h.remaining,h.pending,h.overflow,
      h.file,h.done⟩
    · rw [show n+s.part left-pos = 0 by omega]
      have hheader := h.header
      rw [show n-pos = 0 by omega] at hheader
      exact hheader
    · dsimp only
      rw [h.padding]
      omega
  · have hhead : s.header.length = n-pos := by
      rw [h.header,length_slice]
      omega
    have hnear := h.near
    have hpart : s.part left = min (512-(n-pos)) left := by
      unfold TarStream.part
      rw [if_neg (by simp [h.remaining]),h.padding,if_neg (by omega),hhead]
      rfl
    have hgrown : s.header++slice data n (s.part left) =
        slice data pos (n+s.part left-pos) := by
      rw [h.header,show n+s.part left-pos = n-pos+s.part left by omega,← slice_append]
      rw [show pos+(n-pos) = n by omega]
    rw [if_neg (by rw [h.padding]; omega)]
    have hgrownlen : (s.header++slice data n (s.part left)).length = n-pos+s.part left := by
      rw [List.length_append,hhead,hpiece]
    by_cases hpart : n+s.part left < pos+512
    · have hlen : (s.header++slice data n (s.part left)).length < tarBlock := by
        rw [hgrownlen]
        unfold tarBlock
        omega
      rw [dif_pos hlen]
      refine ⟨_,rfl,@TarStream.Stands.ready _ _ _ _ _ _ pos p ?_⟩
      refine ⟨h.reached,⟨acc,hlist,hreport⟩,hpart,hgrown,?_,h.remaining,h.pending,h.overflow,
        h.file,h.done⟩
      dsimp only
      rw [h.padding]
      omega
    · have hend : n+s.part left = pos+512 := by omega
      have hlen : ¬(s.header++slice data n (s.part left)).length < tarBlock := by
        rw [hgrownlen]
        unfold tarBlock
        omega
      rw [dif_neg hlen,hgrown,hend,Nat.add_sub_cancel_left]
      have hroom : pos+512 ≤ data.length := by omega
      cases hempty : tarHeaderEmpty (slice data pos tarBlock) with
      | true =>
        rw [tarListLoop,dif_pos hroom,if_pos hempty] at hlist
        cases hlist
        have hstart : s.startEntry run (slice data pos 512) =
            some {s with done := true,header := [],short := by decide} := by
          simp only [TarStream.startEntry]
          exact if_pos hempty
        rw [hstart]
        refine ⟨_,rfl,.finished ⟨rfl,hreport,?_⟩⟩
        simp [TarStream.finish,h.file,h.remaining,h.padding,show pos-n = 0 by omega]
      | false =>
        obtain ⟨entry,q,hrecord,hrest⟩ := tarListLoop_meets hroom hempty hlist
        exact startEntry_stands he ⟨h.reached,hroom,hempty,hrecord⟩ hrest hreport h.pending
          h.overflow h.file h.done

theorem takeWhile_plain {field : Bytes} (h : newline ∉ field.takeWhile (· ≠ 0)) :
    (field.takeWhile fun c => c ≠ 0 ∧ c ≠ newline) = field.takeWhile (· ≠ 0) := by
  induction field with
  | nil => rfl
  | cons c field ih =>
    by_cases hc : c = 0
    · simp [hc]
    · have hne : c ≠ newline := by
        intro hcn
        apply h
        rw [List.takeWhile_cons_of_pos (by simpa using hc),hcn]
        exact List.mem_cons_self ..
      rw [List.takeWhile_cons_of_pos (by simp [hc,hne]),
        List.takeWhile_cons_of_pos (by simpa using hc),ih]
      intro hm
      apply h
      rw [List.takeWhile_cons_of_pos (by simpa using hc)]
      exact List.mem_cons_of_mem _ hm

/-- The field of a long name: what has come, a piece of it, and what is to come -/
theorem tarData_split {k m : Nat} (hin : k+m ≤ entry.uncompressedSize) :
    slice data entry.dataOffset k++(slice data (entry.dataOffset+k) m++
      slice data (entry.dataOffset+(k+m)) (entry.uncompressedSize-(k+m))) = tarData data entry := by
  rw [← List.append_assoc,slice_append,slice_append,tarData]
  congr 1
  omega

/-- A long name that the walk accepts fits the buffer. -/
theorem TarMeets.longName_fits (hmeets : TarMeets data pos p entry q)
    (hp : p.skip = true → p.name = []) (hL : entry.isGnuLongName = true)
    (hplain : LongNamePlain (tarData data entry)) :
    ((tarData data entry).takeWhile (· ≠ 0)).length < archiveMaxName ∧
      q = {p with
        name := (tarNormalizeName ((tarData data entry).takeWhile (· ≠ 0))).1
        skip := (tarNormalizeName ((tarData data entry).takeWhile (· ≠ 0))).2} := by
  obtain ⟨candidate,hread⟩ := tarListRecord_read hmeets.record
  obtain ⟨hkL,-,-⟩ := hread.kind hp
  obtain ⟨-,name,skip,hname,rfl⟩ := hread.longName (hkL.symm.trans hL)
  simp only [tarCopyDataName] at hname
  rw [takeWhile_plain hplain.1] at hname
  split at hname
  · cases hname
  next hfits =>
  rw [Option.some.inj hname]
  exact ⟨by omega,rfl⟩

/-- Nothing is written for an entry that only announces something. -/
theorem Reporting.announced {n : Nat} (h : Reporting run data acc entry n s)
    (hannounce : entry.isGnuLongName = true ∨ entry.isPaxHeader = true) :
    s.file = none ∧ s.report = tarReport run data acc := by
  rcases h with hnone | ⟨-,hL,hX,-⟩
  · exact hnone
  · simp [hL,hX] at hannounce

theorem consumeData_receiving {k m : Nat} (he : TarStream.Expected run data result)
    (h : s.Receiving run data capacity result pos k p q entry) (hm : 0 < m)
    (hin : k+m ≤ entry.uncompressedSize) :
    ∃ t, s.consumeData run (slice data (entry.dataOffset+k) m) = some t ∧
      t.Receiving run data capacity result pos (k+m) p q entry ∧
      t.entryRemaining = s.entryRemaining := by
  obtain ⟨candidate,hread⟩ := tarListRecord_read h.meets.record
  have hp := (h.meets.reached.place he.blocks).2.2
  have hinside := hread.inside
  have hpiece : (slice data (entry.dataOffset+k) m).length = m := length_slice data (by omega)
  have hsL : s.entry.isGnuLongName = entry.isGnuLongName := by
    rw [h.current]
    rfl
  have hsX : s.entry.isPaxHeader = entry.isPaxHeader := by
    rw [h.current]
    rfl
  obtain ⟨acc,hlist,hreporting⟩ := h.listed
  unfold TarStream.consumeData
  rw [hsL,hsX]
  cases hL : entry.isGnuLongName with
  | true =>
    have hplain := (he.plain _ _ _ _ h.meets hL).2
    have hfits := (h.meets.longName_fits hp hL hplain).1
    rw [← tarData_split hin] at hplain hfits
    have hname : s.pending.name = (slice data entry.dataOffset k).takeWhile (· ≠ 0) := by
      rw [h.pending,pendingWithin,if_pos hL]
    obtain ⟨hcollected,hoverflow⟩ := consumeLongName_plain hplain hfits hname
    rw [slice_append] at hcollected
    have hpending : (s.consumeLongName (slice data (entry.dataOffset+k) m)).pending =
        pendingWithin data p q entry (k+m) := by
      have hfields : (s.consumeLongName (slice data (entry.dataOffset+k) m)).pending =
          {s.pending with
            name := (s.consumeLongName (slice data (entry.dataOffset+k) m)).pending.name} := rfl
      rw [hfields,hcollected,pendingWithin,if_pos hL,h.pending,pendingWithin,if_pos hL]
    have hX : entry.isPaxHeader = false := by
      obtain ⟨hkL,hkX,-⟩ := hread.kind hp
      rw [hkX]
      exact ((tarEntryFromHeader_flags hread.header).1 (hkL.symm.trans hL)).1
    refine ⟨_,rfl,?_,rfl⟩
    refine ⟨h.meets,⟨acc,hlist,Or.inl (hreporting.announced (Or.inl hL))⟩,h.header,h.padding,
      h.current,hpending,?_,hoverflow.trans h.overflow,h.done⟩
    rw [hX]
    exact fun h => nomatch h
  | false =>
    have hstill (n : Nat) : pendingWithin data p q entry n =
        if entry.isPaxHeader then p else q := by
      rw [pendingWithin,if_neg (by simp [hL])]
    have hpending := h.pending
    rw [hstill] at hpending
    simp only [Bool.false_eq_true,if_false]
    cases hX : entry.isPaxHeader with
    | true =>
      obtain ⟨hdata,hcapacity⟩ := h.pax hX
      have hlen : s.paxData.length = k := by
        rw [hdata,length_slice]
        omega
      simp only [if_true]
      rw [if_neg (by rw [hlen,hpiece]; omega)]
      refine ⟨_,rfl,?_,rfl⟩
      refine ⟨h.meets,⟨acc,hlist,Or.inl (hreporting.announced (Or.inr hX))⟩,h.header,h.padding,
        h.current,?_,fun _ => ⟨?_,hcapacity⟩,h.overflow,h.done⟩
      · rw [hstill]
        exact hpending
      · dsimp only
        rw [hdata,slice_append]
    | false =>
      have hnopax : entry.isPaxHeader = true → False := by simp [hX]
      simp only [Bool.false_eq_true,if_false]
      rcases hreporting with ⟨hfile,hreport⟩ | ⟨hsize,-,-,hfile,hreport⟩
      · rw [hfile]
        refine ⟨s,rfl,?_,rfl⟩
        exact ⟨h.meets,⟨acc,hlist,Or.inl ⟨hfile,hreport⟩⟩,h.header,h.padding,h.current,
          by rw [hstill]; exact hpending,fun h => (hnopax h).elim,h.overflow,h.done⟩
      · rw [hfile]
        dsimp only
        rw [if_pos (he.outputs.filled _ _)]
        refine ⟨_,rfl,?_,rfl⟩
        refine ⟨h.meets,⟨acc,hlist,Or.inr ⟨hsize,hL,hX,?_,hreport⟩⟩,h.header,h.padding,h.current,
          by rw [hstill]; exact hpending,fun h => (hnopax h).elim,h.overflow,h.done⟩
        dsimp only
        rw [slice_append]

/-- The last byte of an entry completes what is pending and the output. -/
theorem finish_receiving (he : TarStream.Expected run data result)
    (h : s.Receiving run data capacity result pos entry.uncompressedSize p q entry)
    (hremaining : s.entryRemaining = 0) :
    ∃ t u, s.finishData = some t ∧ t.closeFile run = some u ∧
      u.Ready run data capacity result (tarNext pos entry) (pos+512+entry.uncompressedSize) q := by
  obtain ⟨candidate,hread⟩ := tarListRecord_read h.meets.record
  have hp := (h.meets.reached.place he.blocks).2.2
  obtain ⟨hkL,hkX,-⟩ := hread.kind hp
  obtain ⟨acc,hlist,hreporting⟩ := h.listed
  have hsL : s.entry.isGnuLongName = entry.isGnuLongName := by
    rw [h.current]
    rfl
  have hsX : s.entry.isPaxHeader = entry.isPaxHeader := by
    rw [h.current]
    rfl
  have hfinish : s.finishData = some {s with pending := q} := by
    unfold TarStream.finishData
    rw [hsL,hsX]
    cases hL : entry.isGnuLongName with
    | true =>
      have hplain := (he.plain _ _ _ _ h.meets hL).2
      obtain ⟨-,hq⟩ := h.meets.longName_fits hp hL hplain
      have hpending := h.pending
      rw [pendingWithin,if_pos hL,← tarData] at hpending
      simp only [if_true,h.overflow,Bool.false_eq_true,if_false,hpending]
      rw [hq]
    | false =>
      cases hX : entry.isPaxHeader with
      | true =>
        obtain ⟨-,info,hinfo,hq⟩ := hread.pax (hkL.symm.trans hL) (hkX.symm.trans hX)
        have hpending := h.pending
        rw [pendingWithin,if_neg (by simp [hL]),if_pos hX] at hpending
        have hdata := (h.pax hX).1
        rw [← tarData] at hdata
        simp only [Bool.false_eq_true,if_false,if_true,hdata,hinfo,hpending,hq]
        rfl
      | false =>
        have hpending := h.pending
        rw [pendingWithin,if_neg (by simp [hL]),if_neg (by simp [hX])] at hpending
        simp only [Bool.false_eq_true,if_false]
        rw [← hpending]
  have hplace : tarNext pos entry-(pos+512+entry.uncompressedSize) =
      (512-entry.uncompressedSize%512)%512 ∧
      pos+512+entry.uncompressedSize ≤ tarNext pos entry := by
    unfold tarNext
    omega
  have hready (u : TarStream) (hsame : SameCourse u {s with pending := q})
      (hfile : u.file = none) (hreport : u.report = tarReport run data acc) :
      u.Ready run data capacity result (tarNext pos entry) (pos+512+entry.uncompressedSize) q := by
    refine ⟨h.meets.next,⟨acc,hlist,hreport⟩,by omega,?_,?_,?_,hsame.pending,?_,hfile,?_⟩
    · rw [hsame.header,Nat.sub_eq_zero_of_le hplace.2,slice_zero]
      exact h.header
    · rw [hsame.padding,hplace.1]
      exact h.padding
    · rw [hsame.remaining]
      exact hremaining
    · rw [hsame.overflow]
      exact h.overflow
    · rw [hsame.done]
      exact h.done
  rcases hreporting with ⟨hfile,hreport⟩ | ⟨-,-,-,hfile,hreport⟩
  · refine ⟨_,{s with pending := q},hfinish,?_,
      hready _ ⟨rfl,rfl,rfl,rfl,rfl,rfl,rfl,rfl,rfl⟩ hfile hreport⟩
    simp only [TarStream.closeFile,hfile]
  · refine ⟨_,{s with
      pending := q
      file := none
      processed := s.processed++[(s.entry,tarData data entry)]},hfinish,?_,
      hready _ ⟨rfl,rfl,rfl,rfl,rfl,rfl,rfl,rfl,rfl⟩ rfl ?_⟩
    · simp only [TarStream.closeFile,hfile,he.outputs.closes,if_true]
      rfl
    · rw [hreport]
      simp [TarStream.report,h.current]

theorem receiving_round {k left : Nat} (he : TarStream.Expected run data result)
    (h : s.Receiving run data capacity result pos k p q entry)
    (hshort : k < entry.uncompressedSize) (hremaining : s.entryRemaining = entry.uncompressedSize-k)
    (hleft : 0 < left) :
    ∃ t, s.round run (slice data (pos+512+k) (s.part left)) = some t ∧
      t.Stands run data capacity result (pos+512+k+s.part left) := by
  obtain ⟨candidate,hread⟩ := tarListRecord_read h.meets.record
  have hinside := hread.inside
  have hoffset := hread.offset
  have hpart : s.part left = min (entry.uncompressedSize-k) left := by
    unfold TarStream.part
    rw [hremaining,if_pos (by omega)]
  have hpiece : (slice data (pos+512+k) (s.part left)).length = s.part left := by
    apply length_slice
    omega
  obtain ⟨t,ht,hreceiving,hsame⟩ := consumeData_receiving he h
    (show 0 < s.part left by omega) (show k+s.part left ≤ entry.uncompressedSize by omega)
  rw [hoffset] at ht
  simp only [TarStream.round]
  rw [if_pos (by omega),ht]
  simp only [Option.bind_eq_bind,Option.bind_some,hpiece,hsame,hremaining]
  generalize hn : s.part left = n at *
  by_cases hend : entry.uncompressedSize-k-n = 0
  · rw [if_pos hend]
    have hall : k+n = entry.uncompressedSize := by omega
    rw [hall] at hreceiving
    have hreceived : TarStream.Receiving run data capacity result pos entry.uncompressedSize p q
        entry {t with entryRemaining := entry.uncompressedSize-k-n} :=
      ⟨hreceiving.meets,hreceiving.listed,hreceiving.header,hreceiving.padding,hreceiving.current,
        hreceiving.pending,hreceiving.pax,hreceiving.overflow,hreceiving.done⟩
    obtain ⟨u,v,hu,hv,hready⟩ := finish_receiving he hreceived hend
    rw [hu]
    refine ⟨v,hv,?_⟩
    rw [show pos+512+k+n = pos+512+entry.uncompressedSize by omega]
    exact .ready hready
  · rw [if_neg hend]
    refine ⟨_,rfl,.receiving (k := k+n) (by omega) (by omega) ?_
      ⟨hreceiving.meets,hreceiving.listed,hreceiving.header,hreceiving.padding,hreceiving.current,
        hreceiving.pending,hreceiving.pax,hreceiving.overflow,hreceiving.done⟩⟩
    dsimp only
    omega

/-- A chunk of the archive takes the stream from where it stands to where it stands behind it. -/
theorem consume_stands {n length : Nat} (he : TarStream.Expected run data result)
    (hs : s.Stands run data capacity result n) (hin : n+length ≤ data.length) :
    ∃ t, s.consume run (slice data n length) = some t ∧
      t.Stands run data capacity result (n+length) := by
  induction length using Nat.strong_induction_on generalizing s n with
  | _ length ih =>
    have hlen : (slice data n length).length = length := length_slice data (by omega)
    rw [TarStream.consume,hlen]
    by_cases hzero : length = 0
    · subst hzero
      exact ⟨s,by rw [dif_pos rfl],hs⟩
    rw [dif_neg hzero]
    have hround : s.done = true ∧ s.Finished run data result ∨ s.done = false ∧
        ∃ t, s.round run (slice data n (s.part length)) = some t ∧
          t.Stands run data capacity result (n+s.part length) := by
      cases hs with
      | ready h => exact Or.inr ⟨h.done,ready_round he h (by omega) hin⟩
      | receiving hn hshort hremaining h =>
        subst hn
        exact Or.inr ⟨h.done,receiving_round he h hshort hremaining (by omega)⟩
      | finished h => exact Or.inl ⟨h.done,h⟩
    rcases hround with ⟨hdone,hfinished⟩ | ⟨hdone,t,ht,hstands⟩
    · rw [if_pos hdone]
      exact ⟨s,rfl,.finished hfinished⟩
    · rw [if_neg (by simp [hdone])]
      have hpos := s.part_pos (Nat.pos_of_ne_zero hzero)
      have hle : s.part length ≤ length := by
        unfold TarStream.part
        split
        · omega
        · split <;> omega
      have htake : (slice data n length).take (s.part length) = slice data n (s.part length) := by
        rw [slice,List.take_take,min_eq_left hle,← slice]
      have hdrop : (slice data n length).drop (s.part length) =
          slice data (n+s.part length) (length-s.part length) := by
        simp only [slice]
        rw [List.drop_take,List.drop_drop]
      rw [htake,ht,hdrop]
      simp only [Option.bind_eq_bind,Option.bind_some]
      have hrest := ih (length-s.part length) (by omega) hstands (by omega)
      rw [show n+s.part length+(length-s.part length) = n+length by omega] at hrest
      exact hrest

theorem consumeAll_stands {n : Nat} {chunks : List Bytes} (he : TarStream.Expected run data result)
    (hs : s.Stands run data capacity result n) (hn : n ≤ data.length)
    (hchunks : chunks.flatten = data.drop n) :
    ∃ t, s.consumeAll run chunks = some t ∧ t.Stands run data capacity result data.length := by
  induction chunks generalizing s n with
  | nil =>
    have hlen := congrArg List.length hchunks
    simp only [List.flatten_nil,List.length_nil,List.length_drop] at hlen
    rw [show n = data.length by omega] at hs
    exact ⟨s,rfl,hs⟩
  | cons chunk chunks ih =>
    rw [List.flatten_cons] at hchunks
    have hlen := congrArg List.length hchunks
    simp only [List.length_append,List.length_drop] at hlen
    have hchunk : slice data n chunk.length = chunk := by
      rw [slice,← hchunks,List.take_left]
    have hrest : chunks.flatten = data.drop (n+chunk.length) := by
      rw [← List.drop_drop,← hchunks,List.drop_left]
    obtain ⟨t,ht,hstands⟩ := consume_stands he hs (show n+chunk.length ≤ data.length by omega)
    rw [hchunk] at ht
    simp only [TarStream.consumeAll,ht,Option.bind_eq_bind,Option.bind_some]
    exact ih hstands (by omega) hrest

/-- A stream that has consumed a whole archive has finished. -/
theorem Stands.finished_all (he : TarStream.Expected run data result)
    (hs : s.Stands run data capacity result data.length) :
    s.finish = true ∧ s.report = tarReport run data result := by
  cases hs with
  | @ready pos p h =>
    obtain ⟨acc,hlist,hreport⟩ := h.listed
    have hplace := h.reached.place he.blocks
    have hblocks := he.blocks
    have hnear := h.near
    have hend : pos = data.length := by omega
    rw [tarListLoop,dif_neg (by omega)] at hlist
    cases hlist
    refine ⟨?_,hreport⟩
    simp [TarStream.finish,h.file,h.remaining,h.padding,h.header,hend]
  | receiving hn hshort hremaining h =>
    obtain ⟨candidate,hread⟩ := tarListRecord_read h.meets.record
    have hinside := hread.inside
    rw [hread.offset] at hinside
    omega
  | finished h => exact ⟨h.finish,h.report⟩

end

/-- Feeding an archive in chunks gives the members and the data that its listing gives, wherever
it is cut, as long as its long names are plain. -/
theorem tar_stream_agrees (run : TarRun) (data : Bytes) (capacity : Nat)
    (entries : List ArchiveEntry) (chunks : List Bytes)
    (hlist : tarList data capacity = some entries) (hrun : run.Succeeds)
    (hpax : ∀ pos p entry q, TarMeets data pos p entry q → entry.isPaxHeader = true →
      entry.uncompressedSize ≤ archiveMaxPaxData)
    (hsafe : ∀ e ∈ entries, pathIsSafe e.name = true) (hplain : TarPlain data)
    (hchunks : chunks.flatten = data) :
    ∃ s, TarStream.consumeAll run {} chunks = some s ∧ s.finish = true ∧
      s.report = tarReport run data entries := by
  simp only [tarList] at hlist
  split at hlist
  · cases hlist
  next hblocks =>
  have he : TarStream.Expected run data entries := ⟨hrun,by omega,hplain,hpax,hsafe⟩
  have hstart : TarStream.Stands run data capacity entries 0 {} :=
    .ready ⟨.start,⟨[],hlist,rfl⟩,by omega,by simp,rfl,rfl,rfl,rfl,rfl,rfl⟩
  obtain ⟨s,hs,hstands⟩ := consumeAll_stands he hstart (Nat.zero_le _) (by simpa using hchunks)
  exact ⟨s,hs,Stands.finished_all he hstands⟩

private def tarTextHeader (size checksum : Bytes) (typeflag : UInt8) : Bytes :=
  [0x78]++List.replicate 123 0++List.replicate 8 0x30++size++[0]++List.replicate 12 0++
    [0x30,0x30]++checksum++[0,0x20,typeflag]++List.replicate 355 0

/-- A long name of four bytes and an empty member -/
private def longNameTar (name : Bytes) : Bytes :=
  tarTextHeader [0x30,0x30,0x34] [0x31,0x37,0x33,0x30] 0x4c++(name++List.replicate 508 0)++
  tarTextHeader [0x30,0x30,0x30] [0x31,0x36,0x37,0x30] 0x30

private def listing : TarRun where
  command := .list
  matchFilter := none
  aliasesArchive _ := false
  writeEntry _ := true
  openStaged _ := true
  writeFile _ _ := true
  closeFile _ _ := true

private theorem listing_succeeds : listing.Succeeds :=
  ⟨fun _ => rfl,fun _ => rfl,fun _ => rfl,fun _ _ => rfl,fun _ _ => rfl⟩

private theorem longNameTar_pax {name : Bytes} (hname : name.length = 4) :
    ∀ pos p entry q, TarMeets (longNameTar name) pos p entry q → entry.isPaxHeader = true →
      entry.uncompressedSize ≤ archiveMaxPaxData := by
  intro pos p entry q hmeets _
  obtain ⟨candidate,hread⟩ := tarListRecord_read hmeets.record
  have hinside := hread.inside
  have hlen : (longNameTar name).length = 1536 := by
    unfold longNameTar tarTextHeader
    simp only [List.length_append,List.length_replicate,List.length_cons,List.length_nil,hname]
  have hmax : archiveMaxPaxData = 65536 := rfl
  omega

private def abTar : Bytes := longNameTar [0x61,0x62,0,0]

private theorem abTar_plain : TarPlain abTar := by
  intro pos p entry q hmeets hL
  have hlen : abTar.length = 1536 := by decide +kernel
  have hroom := hmeets.room
  have hplace := hmeets.reached.place (show abTar.length%512 = 0 by rw [hlen])
  have hpos : pos = 0 ∨ pos = 512 ∨ pos = 1024 := by omega
  obtain ⟨candidate,hread⟩ := tarListRecord_read hmeets.record
  rcases hpos with rfl | rfl | rfl
  · have hp : p = {} := by
      generalize hzero : 0 = pos at hmeets
      cases hmeets.reached with
      | start => rfl
      | record =>
        unfold tarNext at hzero
        omega
    subst hp
    have hentry : (tarListRecord abTar 0 {}).all fun x =>
        decide (LongNamePlain (tarData abTar x.1)) := by decide +kernel
    rw [hmeets.record] at hentry
    exact ⟨rfl,by simpa using hentry⟩
  · have hnone : tarEntryFromHeader (slice abTar 512 tarBlock) 0 = none := by decide +kernel
    have hheader := hread.header
    rw [hnone] at hheader
    cases hheader
  · have hkind : (tarEntryFromHeader (slice abTar 1024 tarBlock) 0).all fun e =>
        e.isGnuLongName = false := by decide +kernel
    rw [hread.header] at hkind
    rw [(hread.kind hplace.2.2).1] at hL
    simp [hL] at hkind

/-- The long name "ab" cut after its first letter -/
theorem tar_stream_agrees_cut : ∃ s, TarStream.consumeAll listing {}
      [abTar.take 513,abTar.drop 513] = some s ∧ s.finish = true ∧
      s.report = [([0x61,0x62],0,false,[])] := by
  have hlist : tarList abTar 1 = some (tarList abTar 1).get! := by decide +kernel
  have hreport : tarReport listing abTar (tarList abTar 1).get! = [([0x61,0x62],0,false,[])] := by
    decide +kernel
  rw [← hreport]
  exact tar_stream_agrees listing abTar 1 _ _ hlist listing_succeeds (longNameTar_pax rfl)
    (by decide +kernel) abTar_plain (by simp)

/-- A newline ends a long name in the listing and not in the stream. -/
theorem tar_stream_differs : ¬∀ (run : TarRun) (data : Bytes) (capacity : Nat)
    (entries : List ArchiveEntry) (chunks : List Bytes),
    tarList data capacity = some entries → run.Succeeds →
    (∀ pos p entry q, TarMeets data pos p entry q → entry.isPaxHeader = true →
      entry.uncompressedSize ≤ archiveMaxPaxData) →
    (∀ e ∈ entries, pathIsSafe e.name = true) → (∀ chunk ∈ chunks, chunk ≠ []) →
    chunks.flatten = data →
    ∃ s, TarStream.consumeAll run {} chunks = some s ∧ s.finish = true ∧
      s.report = tarReport run data entries := by
  intro h
  have hlist : tarList (longNameTar [0x61,newline,0x62,0]) 1 =
      some (tarList (longNameTar [0x61,newline,0x62,0]) 1).get! := by decide +kernel
  obtain ⟨s,hs,-,hreport⟩ := h listing (longNameTar [0x61,newline,0x62,0]) 1 _
    [longNameTar [0x61,newline,0x62,0]] hlist listing_succeeds (longNameTar_pax rfl)
    (by decide +kernel) (by decide +kernel) (by simp)
  have hstream : (TarStream.consumeAll listing {}
      [longNameTar [0x61,newline,0x62,0]]).map TarStream.report =
      some [([0x61,newline,0x62],0,false,[])] := by decide +kernel
  have hexpected : tarReport listing (longNameTar [0x61,newline,0x62,0])
      (tarList (longNameTar [0x61,newline,0x62,0]) 1).get! = [([0x61],0,false,[])] := by
    decide +kernel
  rw [hs,Option.map_some,hreport,hexpected] at hstream
  exact absurd hstream (by decide)

end ZZ9K.Archive
