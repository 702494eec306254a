import ZZ9K.Archive.LhaHeader
import Mathlib.Data.List.GetD

namespace ZZ9K.Archive

section

variable {w v : Bytes}

theorem byte_onPrefix (h : w <+: v) {i : Nat} (hi : i < w.length) : byte v i = byte w i := by
  obtain ⟨rest,rfl⟩ := h
  unfold byte
  rw [List.getD_append _ _ _ _ hi]

theorem getLe16_onPrefix (h : w <+: v) {o : Nat} (ho : o+2 ≤ w.length) :
    getLe16 v o = getLe16 w o := by
  unfold getLe16
  rw [byte_onPrefix h (by omega),byte_onPrefix h (by omega)]

theorem getLe32_onPrefix (h : w <+: v) {o : Nat} (ho : o+4 ≤ w.length) :
    getLe32 v o = getLe32 w o := by
  unfold getLe32
  rw [byte_onPrefix h (by omega),byte_onPrefix h (by omega),byte_onPrefix h (by omega),
    byte_onPrefix h (by omega)]

theorem slice_onPrefix (h : w <+: v) {o n : Nat} (ho : o+n ≤ w.length) :
    slice v o n = slice w o n := by
  obtain ⟨rest,rfl⟩ := h
  unfold slice
  rw [List.drop_append_of_le_length (by omega),List.take_append_of_le_length]
  rw [List.length_drop]
  omega

theorem copyLhaName_onPrefix (h : w <+: v) {o n : Nat} (ho : o+n ≤ w.length) :
    copyLhaName (v.drop o) n = copyLhaName (w.drop o) n := by
  have hslice := slice_onPrefix h ho
  unfold slice at hslice
  simp only [copyLhaName,copyZipName,copyName,hslice]

theorem lhaTrimExt_le (hdr : Bytes) (extPos n : Nat) : lhaTrimExt hdr extPos n ≤ n := by
  induction n with
  | zero => exact Nat.le_refl 0
  | succ n ih =>
    unfold lhaTrimExt
    split
    · omega
    · exact Nat.le_refl _

theorem lhaTrimExt_onPrefix (h : w <+: v) {extPos n : Nat} (hn : extPos+1+n ≤ w.length) :
    lhaTrimExt v extPos n = lhaTrimExt w extPos n := by
  induction n with
  | zero => rfl
  | succ n ih =>
    unfold lhaTrimExt
    rw [byte_onPrefix h (by omega),ih (by omega)]

theorem lhaExtText_onPrefix (h : w <+: v) {extSize : Nat} {x : LhaExt} (h3 : 3 ≤ extSize)
    (hx : x.pos+extSize ≤ w.length) : lhaExtText v extSize x = lhaExtText w extSize x := by
  have hle := lhaTrimExt_le w x.pos (extSize-3)
  have hbyte : byte v x.pos = byte w x.pos := byte_onPrefix h (by omega)
  have htrim := @lhaTrimExt_onPrefix w v h x.pos (extSize-3) (by omega)
  have hcopy := copyLhaName_onPrefix h (o := x.pos+1) (n := lhaTrimExt w x.pos (extSize-3)) (by omega)
  simp only [lhaExtText,hbyte,htrim,hcopy]

/-- The extensions read the same through every window that holds them. -/
theorem lhaExtLoop_onPrefix (h : w <+: v) {extSize : Nat} {x : LhaExt}
    (hv : lhaExtLoop w extSize x ≠ .needsWindow) :
    lhaExtLoop v extSize x = lhaExtLoop w extSize x := by
  have hlen := h.length_le
  induction extSize,x using lhaExtLoop.induct w with
  | case1 x =>
    rw [lhaExtLoop,if_pos rfl,lhaExtLoop,if_pos rfl]
  | case2 extSize x h0 hcut =>
    rw [lhaExtLoop,if_neg h0,dif_pos hcut] at hv
    exact absurd rfl hv
  | case3 extSize x h0 hcut h3 =>
    have hcut' : ¬(v.length < x.pos ∨ v.length-x.pos < extSize) := by omega
    rw [lhaExtLoop,if_neg h0,dif_neg hcut',dif_pos h3]
    rw [lhaExtLoop,if_neg h0,dif_neg hcut,dif_pos h3]
  | case4 extSize x h0 hcut h3 htext =>
    have hcut' : ¬(v.length < x.pos ∨ v.length-x.pos < extSize) := by omega
    have htext' := @lhaExtText_onPrefix w v h extSize x (by omega) (by omega)
    rw [lhaExtLoop,if_neg h0,dif_neg hcut',dif_neg h3,htext',htext]
    rw [lhaExtLoop,if_neg h0,dif_neg hcut,dif_neg h3,htext]
  | case5 extSize x h0 hcut h3 y htext ih =>
    have hcut' : ¬(v.length < x.pos ∨ v.length-x.pos < extSize) := by omega
    have htext' := @lhaExtText_onPrefix w v h extSize x (by omega) (by omega)
    have hnext := getLe16_onPrefix h (o := x.pos+extSize-2) (by omega)
    rw [lhaExtLoop,if_neg h0,dif_neg hcut,dif_neg h3,htext] at hv
    rw [lhaExtLoop,if_neg h0,dif_neg hcut',dif_neg h3,htext',htext,hnext]
    rw [lhaExtLoop,if_neg h0,dif_neg hcut,dif_neg h3,htext]
    exact ih hv

/-- Where the extensions end -/
theorem lhaExtLoop_pos {extSize : Nat} {x y : LhaExt} (h : lhaExtLoop w extSize x = .ok y) :
    x.pos ≤ y.pos := by
  induction extSize,x using lhaExtLoop.induct w with
  | case1 x =>
    rw [lhaExtLoop,if_pos rfl] at h
    cases h
    exact Nat.le_refl _
  | case2 extSize x h0 hcut =>
    rw [lhaExtLoop,if_neg h0,dif_pos hcut] at h
    cases h
  | case3 extSize x h0 hcut h3 =>
    rw [lhaExtLoop,if_neg h0,dif_neg hcut,dif_pos h3] at h
    cases h
  | case4 extSize x h0 hcut h3 htext =>
    rw [lhaExtLoop,if_neg h0,dif_neg hcut,dif_neg h3,htext] at h
    cases h
  | case5 extSize x h0 hcut h3 z htext ih =>
    rw [lhaExtLoop,if_neg h0,dif_neg hcut,dif_neg h3,htext] at h
    have hle := ih h
    dsimp only at hle
    omega

theorem lhaLayout_onPrefix (h : w <+: v) (h24 : 24 ≤ w.length) : lhaLayout v = lhaLayout w := by
  have hlevel : lhaLevel v = lhaLevel w := byte_onPrefix h (by omega)
  have h0 : byte v 0 = byte w 0 := byte_onPrefix h (by omega)
  have h21 : byte v 21 = byte w 21 := byte_onPrefix h (by omega)
  have h16 : getLe16 v 0 = getLe16 w 0 := getLe16_onPrefix h (by omega)
  simp only [lhaLayout,hlevel,h0,h21,h16]

/-- A base header that is all in the window, with a name that fits in it, has its name and its
CRC in the window. -/
theorem lhaLayout_inside (hlevel : lhaLevel w ≤ 2) (hcut : lhaBaseCut w (lhaLayout w) = false)
    (hbase : (lhaLayout w).baseHeaderSize ≤ (lhaLayout w).headerSize)
    (hname : lhaLevel w = 2 ∨
      (lhaLayout w).nameLen ≤ (lhaLayout w).headerSize-(lhaLayout w).baseHeaderSize) :
    (lhaLayout w).nameOffset+(lhaLayout w).nameLen ≤ w.length ∧
      (lhaLayout w).crcOffset+2 ≤ w.length := by
  simp only [lhaBaseCut,decide_eq_false_iff_not] at hcut
  by_cases h2 : lhaLevel w = 2
  · simp only [lhaLayout,h2,if_true,true_and,ne_eq,not_true_eq_false,false_and,or_false] at hcut hbase ⊢
    omega
  · simp only [lhaLayout,h2,if_false,false_or] at hcut hbase hname ⊢
    split at hbase
    · next h0 =>
      simp only [h0,if_true] at hname
      omega
    · next h0 =>
      simp only [h0,if_false] at hname
      omega

theorem lhaBaseCut_onPrefix (h : w <+: v) (h24 : 24 ≤ w.length) {l : LhaLayout}
    (hcut : lhaBaseCut w l = false) : lhaBaseCut v l = false := by
  have hlen := h.length_le
  have hlevel : lhaLevel v = lhaLevel w := byte_onPrefix h (by omega)
  simp only [lhaBaseCut,decide_eq_false_iff_not,hlevel] at hcut ⊢
  omega

theorem lhaHeaderChecksumValid_onPrefix (h : w <+: v) (h24 : 24 ≤ w.length)
    (hcut : lhaBaseCut w (lhaLayout w) = false) :
    lhaHeaderChecksumValid v = lhaHeaderChecksumValid w := by
  have hlen := h.length_le
  have h0 : byte v 0 = byte w 0 := byte_onPrefix h (by omega)
  have h1 : byte v 1 = byte w 1 := byte_onPrefix h (by omega)
  have hlevel : lhaLevel v = lhaLevel w := byte_onPrefix h (by omega)
  have h16 : getLe16 v 0 = getLe16 w 0 := getLe16_onPrefix h (by omega)
  have hv : ¬v.length < 24 := by omega
  have hw : ¬w.length < 24 := by omega
  simp only [lhaBaseCut,decide_eq_false_iff_not] at hcut
  unfold lhaLevel at hcut hlevel
  simp only [lhaHeaderChecksumValid,h0,h1,hlevel,h16,hv,hw,false_or]
  split
  · rfl
  by_cases h2 : byte w 20 = 2
  · have hsize : getLe16 w 0 ≤ w.length := by
      simp only [lhaLayout,lhaLevel,h2,if_true,true_and,ne_eq,not_true_eq_false,false_and,or_false]
        at hcut
      omega
    have hsize' : getLe16 w 0 ≤ v.length := by omega
    simp only [h2,if_true,hsize,hsize']
  · have hsize : ¬w.length < byte w 0+2 := by
      simp only [lhaLayout,lhaLevel,h2,if_false] at hcut
      omega
    have hsize' : ¬v.length < byte w 0+2 := by omega
    have hslice := slice_onPrefix h (o := 2) (n := byte w 0) (by omega)
    simp only [h2,if_false,hsize,hsize',hslice]

theorem lhaExtensions_onPrefix (h : w <+: v) {l : LhaLayout} (h24 : 24 ≤ w.length)
    (hv : lhaExtensions w l ≠ .needsWindow) : lhaExtensions v l = lhaExtensions w l := by
  have hlen := h.length_le
  have hlevel : lhaLevel v = lhaLevel w := byte_onPrefix h (by omega)
  unfold lhaExtensions at hv ⊢
  rw [hlevel]
  split
  · next hext =>
    rw [if_pos hext] at hv
    split at hv
    · exact absurd rfl hv
    · next hcut =>
      have hcut' : ¬v.length < l.extSizeOffset+2 := by omega
      rw [if_neg hcut',if_neg hcut,getLe16_onPrefix h (by omega)]
      exact lhaExtLoop_onPrefix h hv
  · rfl

theorem lhaEntry_onPrefix (h : w <+: v) {l : LhaLayout} {x : LhaExt} (archiveAvail : Nat)
    (h24 : 24 ≤ w.length) (hname : l.nameOffset+l.nameLen ≤ w.length)
    (hcrc : l.crcOffset+2 ≤ w.length) :
    lhaEntry v l x archiveAvail = lhaEntry w l x archiveAvail := by
  have hlen := h.length_le
  have hlevel : lhaLevel v = lhaLevel w := byte_onPrefix h (by omega)
  have h7 : getLe32 v 7 = getLe32 w 7 := getLe32_onPrefix h (by omega)
  have h11 : getLe32 v 11 = getLe32 w 11 := getLe32_onPrefix h (by omega)
  have hmethod : slice v 2 5 = slice w 2 5 := slice_onPrefix h (by omega)
  have hcopy := copyLhaName_onPrefix h hname
  have hfield : getLe16 v l.crcOffset = getLe16 w l.crcOffset := getLe16_onPrefix h hcrc
  have hcrc' : l.crcOffset+2 ≤ v.length := by omega
  simp only [lhaEntry,lhaCompressedSize,lhaEntryName,hlevel,h7,h11,hmethod,hcopy,hfield,hcrc,hcrc']

/-- A verdict other than asking for more window stands for every longer window. -/
theorem lhaParseHeader_onPrefix (h : w <+: v) {archiveAvail : Nat}
    (hv : lhaParseHeader w archiveAvail ≠ .needsWindow) :
    lhaParseHeader v archiveAvail = lhaParseHeader w archiveAvail := by
  have hlen := h.length_le
  by_cases h24 : w.length < 24
  · simp only [lhaParseHeader,h24,if_true] at hv
    exact absurd rfl hv
  have hv24 : ¬v.length < 24 := by omega
  have h0 : byte v 0 = byte w 0 := byte_onPrefix h (by omega)
  have hlevel : lhaLevel v = lhaLevel w := byte_onPrefix h (by omega)
  have hl := lhaLayout_onPrefix h (by omega)
  have hlikely : lhaMethodPlausible v = lhaMethodPlausible w := by
    have h2 : byte v 2 = byte w 2 := byte_onPrefix h (by omega)
    have h3 : byte v 3 = byte w 3 := byte_onPrefix h (by omega)
    have h4 : byte v 4 = byte w 4 := byte_onPrefix h (by omega)
    have h6 : byte v 6 = byte w 6 := byte_onPrefix h (by omega)
    simp only [lhaMethodPlausible,h2,h3,h4,h6]
  simp only [lhaParseHeader,h24,hv24,if_false,h0,hlevel,hl,hlikely] at hv ⊢
  split
  · rfl
  split
  · rfl
  next hzero hhigh =>
  rw [if_neg hzero,if_neg hhigh] at hv
  cases hcut : lhaBaseCut w (lhaLayout w) with
  | true =>
    simp only [hcut,if_true] at hv
    exact absurd rfl hv
  | false =>
    rw [lhaBaseCut_onPrefix h (by omega) hcut,lhaHeaderChecksumValid_onPrefix h (by omega) hcut]
    simp only [hcut,Bool.false_eq_true,if_false] at hv ⊢
    split
    · rfl
    next hvalid =>
    rw [if_neg hvalid] at hv
    split
    · rfl
    next hname =>
    rw [if_neg hname] at hv
    have hinside := lhaLayout_inside (by omega) hcut (by omega) (by omega)
    have hext : lhaExtensions w (lhaLayout w) ≠ .needsWindow := by
      intro hneeds
      rw [hneeds] at hv
      exact hv rfl
    rw [lhaExtensions_onPrefix h (by omega) hext]
    cases lhaExtensions w (lhaLayout w) with
    | invalid => rfl
    | needsWindow => rfl
    | ok x =>
      dsimp only
      rw [lhaEntry_onPrefix h archiveAvail (by omega) hinside.1 hinside.2]

theorem lhaExtensions_pos {x : LhaExt} (h : lhaExtensions w (lhaLayout w) = .ok x) :
    0 < x.pos := by
  unfold lhaExtensions at h
  split at h
  · split at h
    · cases h
    have hle := lhaExtLoop_pos h
    have hstart : 0 < (if lhaLevel w = 2 then (lhaLayout w).baseHeaderSize
        else (lhaLayout w).dataOffset) := by
      by_cases h2 : lhaLevel w = 2
      · simp [lhaLayout,h2]
      · simp only [lhaLayout,h2,if_false]
        omega
    exact Nat.lt_of_lt_of_le hstart hle
  · next hlevel =>
    have h2 : lhaLevel w ≠ 2 := fun h2 => hlevel (Or.inr h2)
    cases h
    simp only [lhaLayout,h2,if_false]
    omega

theorem lhaEntry_extent {l : LhaLayout} {x : LhaExt} {archiveAvail : Nat} {entry : ArchiveEntry}
    (h : lhaEntry w l x archiveAvail = some entry) :
    entry.dataOffset = x.pos ∧ entry.dataOffset+entry.compressedSize ≤ archiveAvail := by
  simp only [lhaEntry,Option.bind_eq_bind,Option.bind_eq_some_iff] at h
  obtain ⟨size,-,h⟩ := h
  split at h
  · cases h
  next hroom =>
  simp only [Option.bind_eq_some_iff,Option.some.injEq] at h
  obtain ⟨joined,-,name,-,rfl⟩ := h
  refine ⟨rfl,?_⟩
  dsimp only
  omega

/-- The data of an entry starts behind its header and ends in the archive. -/
theorem lhaParseHeader_extent {archiveAvail : Nat} {entry : ArchiveEntry}
    (h : lhaParseHeader w archiveAvail = .ok entry) :
    0 < entry.dataOffset ∧ entry.dataOffset+entry.compressedSize ≤ archiveAvail := by
  unfold lhaParseHeader at h
  split_ifs at h
  dsimp only at h
  split_ifs at h
  cases hx : lhaExtensions w (lhaLayout w) with
  | invalid => simp [hx] at h
  | needsWindow => simp [hx] at h
  | ok x =>
    have hpos := lhaExtensions_pos hx
    simp only [hx] at h
    cases he : lhaEntry w (lhaLayout w) x archiveAvail with
    | none => simp [he] at h
    | some e =>
      simp only [he] at h
      cases h
      have hextent := lhaEntry_extent he
      omega

end

end ZZ9K.Archive
