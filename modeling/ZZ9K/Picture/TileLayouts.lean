import ZZ9K.Picture.TileWriters

namespace ZZ9K.Picture

open Surface

section Sums

theorem sum_toNat {a b : UInt32} (h : ¬ 0xffffffff-b < a) : (a+b).toNat = a.toNat+b.toNat := by
  have hmax : (0xffffffff : UInt32).toNat = 4294967295 := rfl
  have hb := b.toNat_lt
  rw [UInt32.lt_iff_toNat_lt,UInt32.toNat_sub,hmax] at h
  rw [UInt32.toNat_add]
  omega

theorem addRepeated_eq {quantum total value : UInt32} {n : Nat}
    (h : addRepeated quantum n total = some value) :
    value.toNat = total.toNat+n*quantum.toNat := by
  induction n generalizing total with
  | zero =>
    obtain rfl := Option.some.inj h
    rw [Nat.zero_mul,Nat.add_zero]
  | succ n ih =>
    rw [addRepeated] at h
    split_ifs at h with hover
    rw [ih h,sum_toNat hover,Nat.succ_mul]
    omega

theorem addRepeated_isSome {quantum total : UInt32} {n : Nat}
    (h : total.toNat+n*quantum.toNat < 2^32) : ∃ value, addRepeated quantum n total = some value := by
  induction n generalizing total with
  | zero => exact ⟨total,rfl⟩
  | succ n ih =>
    have hmax : (0xffffffff : UInt32).toNat = 4294967295 := rfl
    have hquantum := quantum.toNat_lt
    rw [Nat.succ_mul] at h
    have hfits : ¬ 0xffffffff-quantum < total := by
      rw [UInt32.lt_iff_toNat_lt,UInt32.toNat_sub,hmax]
      omega
    rw [addRepeated,if_neg hfits]
    apply ih
    rw [sum_toNat hfits]
    omega

theorem minRowBytes_eq {width bytesPerPixel rowBytes : UInt32}
    (h : minRowBytes width bytesPerPixel = some rowBytes) :
    width ≠ 0 ∧ bytesPerPixel ≠ 0 ∧ rowBytes.toNat = width.toNat*bytesPerPixel.toNat := by
  rw [minRowBytes,mulSmallU32] at h
  split_ifs at h with hzero
  rw [not_or] at hzero
  obtain ⟨total,htotal,hsome⟩ := Option.bind_eq_some_iff.mp h
  split_ifs at hsome
  have hvalue := addRepeated_eq htotal
  have hzero' : (0 : UInt32).toNat = 0 := rfl
  rw [hzero',Nat.zero_add,Nat.mul_comm] at hvalue
  exact ⟨hzero.1,hzero.2,(Option.some.inj hsome) ▸ hvalue⟩

theorem maxSurfaceBytes_toNat : maxSurfaceBytes.toNat = 16777216 := rfl

/-- A sum of rows that is small enough is exact. -/
theorem surfaceRows_eq {pitch total bytes : UInt32} {n : Nat}
    (h : surfaceRows pitch n total = some bytes) (hsmall : bytes ≤ maxSurfaceBytes) :
    bytes.toNat = total.toNat+n*pitch.toNat := by
  induction n generalizing total with
  | zero =>
    obtain rfl := Option.some.inj h
    rw [Nat.zero_mul,Nat.add_zero]
  | succ n ih =>
    rw [surfaceRows] at h
    split_ifs at h with hover hlarge
    · obtain rfl := Option.some.inj h
      exact absurd hsmall (by decide)
    · rw [ih h,sum_toNat hover,Nat.succ_mul]
      omega

theorem accumulateSurfaceBytes_eq {height pitch bytes : UInt32}
    (h : accumulateSurfaceBytes height pitch = some bytes) (hsmall : bytes ≤ maxSurfaceBytes) :
    bytes.toNat = height.toNat*pitch.toNat := by
  rw [accumulateSurfaceBytes] at h
  split_ifs at h
  · obtain rfl := Option.some.inj h
    exact absurd hsmall (by decide)
  · have hzero : (0 : UInt32).toNat = 0 := rfl
    rw [surfaceRows_eq h hsmall,hzero,Nat.zero_add]

/-- A sum of rows that fits a surface is formed. -/
theorem surfaceRows_of_le {pitch total : UInt32} {n : Nat}
    (h : total.toNat+n*pitch.toNat ≤ 16777216) :
    ∃ bytes, surfaceRows pitch n total = some bytes ∧
      bytes.toNat = total.toNat+n*pitch.toNat := by
  induction n generalizing total with
  | zero => exact ⟨total,rfl,by rw [Nat.zero_mul,Nat.add_zero]⟩
  | succ n ih =>
    have hmax : (0xffffffff : UInt32).toNat = 4294967295 := rfl
    rw [Nat.succ_mul] at h
    have hover : ¬ 0xffffffff-pitch < total := by
      rw [UInt32.lt_iff_toNat_lt,UInt32.toNat_sub,hmax]
      omega
    have hlarge : ¬ maxSurfaceBytes-pitch < total := by
      rw [UInt32.lt_iff_toNat_lt,UInt32.toNat_sub,maxSurfaceBytes_toNat]
      omega
    have hsum := sum_toNat hover
    have hroom : (total+pitch).toNat+n*pitch.toNat ≤ 16777216 := by omega
    obtain ⟨bytes,heq,hbytes⟩ := ih hroom
    refine ⟨bytes,?_,?_⟩
    · rw [surfaceRows,if_neg hover,if_neg hlarge]
      exact heq
    · rw [hbytes,hsum,Nat.succ_mul]
      omega

theorem accumulateSurfaceBytes_of_le {height pitch : UInt32} (hheight : height ≠ 0)
    (hpitch : pitch ≠ 0) (h : height.toNat*pitch.toNat ≤ 16777216) :
    ∃ bytes, accumulateSurfaceBytes height pitch = some bytes ∧
      bytes.toNat = height.toNat*pitch.toNat := by
  have hpos : 0 < height.toNat :=
    Nat.pos_of_ne_zero fun hzero => hheight (UInt32.toNat_inj.mp hzero)
  have hle : pitch.toNat ≤ height.toNat*pitch.toNat := Nat.le_mul_of_pos_left _ hpos
  have hsmall : ¬ maxSurfaceBytes < pitch := by
    rw [UInt32.lt_iff_toNat_lt,maxSurfaceBytes_toNat]
    omega
  have hzero : (0 : UInt32).toNat = 0 := rfl
  rw [accumulateSurfaceBytes,if_neg (by simp [hheight,hpitch]),if_neg hsmall]
  have hroom : (0 : UInt32).toNat+height.toNat*pitch.toNat ≤ 16777216 := by omega
  obtain ⟨bytes,heq,hbytes⟩ := surfaceRows_of_le hroom
  exact ⟨bytes,heq,by rw [hbytes,hzero,Nat.zero_add]⟩

end Sums

/-- What a layout of tiles for a width is -/
structure LaidOut (width : UInt32) (layout : TileLayout) : Prop where
  rows_pos : 0 < layout.rows.toNat
  bytes_eq : layout.bytes.toNat = layout.rows.toNat*layout.pitch.toNat
  bytes_le : layout.bytes.toNat ≤ 786432
  width_le : width.toNat ≤ layout.pitch.toNat

theorem tileLayoutFrom_spec {pitch targetBytes : UInt32} {n : Nat} {layout : TileLayout}
    (htarget : targetBytes.toNat ≤ 786432) (hn : n < 2^32)
    (h : tileLayoutFrom pitch targetBytes n = some layout) :
    0 < layout.rows.toNat ∧ layout.pitch = pitch ∧
      layout.bytes.toNat = layout.rows.toNat*layout.pitch.toNat ∧
      layout.bytes.toNat ≤ 786432 := by
  induction n with
  | zero => cases h
  | succ n ih =>
    rw [tileLayoutFrom] at h
    have hrows : (n+1).toUInt32.toNat = n+1 := by
      rw [Nat.toUInt32_eq,UInt32.toNat_ofNat']
      exact Nat.mod_eq_of_lt hn
    split at h
    · rename_i bytes hbytes
      split_ifs at h with hle
      · obtain rfl := Option.some.inj h
        rw [UInt32.le_iff_toNat_le] at hle
        refine ⟨by dsimp only; omega,rfl,?_,hle.trans htarget⟩
        apply accumulateSurfaceBytes_eq hbytes
        rw [UInt32.le_iff_toNat_le,maxSurfaceBytes_toNat]
        omega
      · exact ih (by omega) h
    · exact ih (by omega) h

theorem chooseTileLayout_spec {width bytesPerPixel maxRows targetBytes : UInt32}
    {layout : TileLayout} (htarget : targetBytes.toNat ≤ 786432)
    (h : chooseTileLayout width bytesPerPixel maxRows targetBytes = some layout) :
    LaidOut width layout := by
  rw [chooseTileLayout] at h
  split_ifs at h
  obtain ⟨pitch,hpitch,hfrom⟩ := Option.bind_eq_some_iff.mp h
  obtain ⟨-,hbpp,hproduct⟩ := minRowBytes_eq hpitch
  obtain ⟨hrows,heq,hbytes,hle⟩ := tileLayoutFrom_spec htarget maxRows.toNat_lt hfrom
  refine ⟨hrows,hbytes,hle,?_⟩
  rw [heq,hproduct]
  exact Nat.le_mul_of_pos_right _ (Nat.pos_of_ne_zero fun hzero => hbpp (UInt32.toNat_inj.mp hzero))

/-- Of all layouts that are accepted -/
theorem chooseDatatypeTileLayout_spec {width outputBpp : UInt32} {format : SurfaceFormat}
    {layout : TileLayout} (h : chooseDatatypeTileLayout width format outputBpp = some layout) :
    LaidOut width layout := by
  rw [chooseDatatypeTileLayout] at h
  split_ifs at h
  · exact chooseTileLayout_spec (by decide) h
  · exact chooseTileLayout_spec (by decide) h

end ZZ9K.Picture
