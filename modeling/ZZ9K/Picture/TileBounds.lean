import ZZ9K.Framework.Overflow
import ZZ9K.Picture.Lut8Lookup
import ZZ9K.Picture.TileLayouts

namespace ZZ9K.Picture

open Framework Surface

/-- A tile lies in the picture and has no more rows than the tile buffer. -/
structure TileInside (r : SessionResult) (target : Target) : Prop where
  width_pos : 0 < r.tileWidth.toNat
  height_pos : 0 < r.tileHeight.toNat
  right_le : r.tileX.toNat+r.tileWidth.toNat ≤ target.width.toNat
  bottom_le : r.tileY.toNat+r.tileHeight.toNat ≤ target.height.toNat
  rows_le : r.tileHeight.toNat ≤ target.tileRows.toNat

/-- A target that was prepared for a layout: its areas are as large as its fields say. -/
structure Prepared (layout : TileLayout) (target : Target) : Prop where
  laidOut : LaidOut target.width layout
  rows_eq : target.tileRows = layout.rows
  scratch : ∀ memory, target.scratch = some memory →
    memory.length = layout.rows.toNat*target.scratchPitch.toNat ∧ memory.length < 2^32
  lut8 : ∀ palette map, target.lut8 = some (palette,map) →
    palette.count.toNat ≤ 256 ∧ Filled map (lut8Entries palette)
  direct : ∀ pixels, target.direct = some pixels → pixels.format = .rgb →
    target.width.toNat*3 ≤ pixels.arrayMod.toNat ∧
      target.height.toNat*pixels.arrayMod.toNat ≤ pixels.data.length

/-- The same pixels, but for their data -/
def DirectPixels.SameShape (pixels pixels' : DirectPixels) : Prop :=
  pixels' = {pixels with data := pixels'.data} ∧ pixels'.data.length = pixels.data.length

/-- The same target, but for the contents of its areas and the count of tiles -/
structure SameTarget (target target' : Target) : Prop where
  eq : target' = {target with
    tilesWritten := target'.tilesWritten,scratch := target'.scratch,direct := target'.direct}
  scratch_eq : target'.scratch.map List.length = target.scratch.map List.length
  direct_eq : (target.direct = none ∧ target'.direct = none) ∨
    ∃ pixels pixels', target.direct = some pixels ∧ target'.direct = some pixels' ∧
      pixels.SameShape pixels'

section

variable {target target' target'' : Target} {layout : TileLayout}

theorem SameTarget.refl (target : Target) : SameTarget target target := by
  refine ⟨rfl,rfl,?_⟩
  cases h : target.direct with
  | none => exact .inl ⟨rfl,rfl⟩
  | some pixels => exact .inr ⟨pixels,pixels,rfl,rfl,rfl,rfl⟩

theorem SameTarget.trans (h : SameTarget target target') (h' : SameTarget target' target'') :
    SameTarget target target'' := by
  refine ⟨?_,h'.scratch_eq.trans h.scratch_eq,?_⟩
  · rw [h'.eq,h.eq]
  · rcases h.direct_eq with ⟨hnone,hnone'⟩ | ⟨p,p',hp,hp',hsame,hlen⟩
    · rcases h'.direct_eq with ⟨-,hnone''⟩ | ⟨q,q',hq,-⟩
      · exact .inl ⟨hnone,hnone''⟩
      · rw [hnone'] at hq
        cases hq
    · rcases h'.direct_eq with ⟨hnone,-⟩ | ⟨q,q',hq,hq',hsame',hlen'⟩
      · rw [hp'] at hnone
        cases hnone
      · obtain rfl := Option.some.inj (hp'.symm.trans hq)
        refine .inr ⟨p,q',hp,hq',?_,hlen'.trans hlen⟩
        rw [hsame',hsame]

theorem SameTarget.written (h : SameTarget target target') : SameTarget target target'.written := by
  obtain ⟨heq,hscratch,hdirect⟩ := h
  refine ⟨?_,hscratch,hdirect⟩
  rw [Target.written,heq]

theorem sameTarget_scratch {memory memory' : List UInt8} (h : target.scratch = some memory)
    (hlen : memory'.length = memory.length) :
    SameTarget target {target with scratch := some memory'} := by
  refine ⟨rfl,?_,(SameTarget.refl target).direct_eq⟩
  rw [h,Option.map_some,Option.map_some,hlen]

/-- A target stays prepared. -/
theorem Prepared.of_same (h : Prepared layout target) (hsame : SameTarget target target') :
    Prepared layout target' := by
  obtain ⟨heq,hscratch,hdirect⟩ := hsame
  have hwidth : target'.width = target.width := by rw [heq]
  have hheight : target'.height = target.height := by rw [heq]
  have hrows : target'.tileRows = target.tileRows := by rw [heq]
  have hpitch : target'.scratchPitch = target.scratchPitch := by rw [heq]
  have hlut8 : target'.lut8 = target.lut8 := by rw [heq]
  refine ⟨hwidth ▸ h.laidOut,hrows.trans h.rows_eq,fun memory hmemory => ?_,?_,?_⟩
  · rw [hmemory,Option.map_some] at hscratch
    obtain ⟨memory',hmemory',hlen⟩ := Option.map_eq_some_iff.mp hscratch.symm
    rw [hpitch,← hlen]
    exact h.scratch memory' hmemory'
  · rw [hlut8]
    exact h.lut8
  · intro pixels' hpixels' hformat
    rw [hwidth,hheight]
    rcases hdirect with ⟨-,hnone⟩ | ⟨p,p',hp,hp',hshape,hlen⟩
    · rw [hnone] at hpixels'
      cases hpixels'
    · obtain rfl := Option.some.inj (hp'.symm.trans hpixels')
      have hmod : p'.arrayMod = p.arrayMod := by rw [hshape]
      have hfmt : p'.format = p.format := by rw [hshape]
      rw [hmod,hlen]
      exact h.direct p hp (hfmt.symm.trans hformat)

end

/-- What a tile writer must do: it goes outside of no area, and it takes only tiles inside. -/
def TileDone (r : SessionResult) (target : Target)
    (done : Except Trouble (Bool × Target)) : Prop :=
  ∃ ok target', done = .ok (ok,target') ∧ SameTarget target target' ∧
    (ok = true → TileInside r target)

section Memory

variable {memory : List UInt8} {i : Nat}

theorem readAt_of_lt (h : i < memory.length) : ∃ byte, readAt memory i = .ok byte := by
  rw [readAt,List.getElem?_eq_getElem h]
  exact ⟨_,rfl⟩

theorem writeAt_of_lt (h : i < memory.length) (byte : UInt8) :
    ∃ memory', writeAt memory i byte = .ok memory' ∧ memory'.length = memory.length := by
  rw [writeAt,if_pos h]
  exact ⟨_,rfl,List.length_set⟩

end Memory

section Writers

variable {t : Turn} {target : Target} {tileStride : UInt32} {layout : TileLayout}

theorem TileDone.refused (r : SessionResult) (target : Target) :
    TileDone r target (.ok (false,target)) :=
  ⟨false,target,rfl,SameTarget.refl target,nofun⟩

/-- The last step of a writer: the superclass takes the pixels or not. -/
theorem TileDone.accepted {r : SessionResult} {target' : Target} {data : List UInt8}
    {stride rowBytes rows : Nat} (hinside : TileInside r target) (hsame : SameTarget target target')
    (hfits : (rows-1)*stride+rowBytes ≤ data.length) :
    TileDone r target (do
      let accepted ← writePixelArray t data stride rowBytes rows
      if accepted then return (true,target'.written) else return (false,target')) := by
  rw [writePixelArray,if_pos hfits]
  cases haccepts : t.accepts with
  | true => exact ⟨true,_,rfl,hsame.written,fun _ => hinside⟩
  | false => exact ⟨false,_,rfl,hsame,nofun⟩

/-- What the checks that the writers have in common let through -/
theorem tileInside_of_checked {r : SessionResult}
    (h : tileRefused r target.width target.height = false) (hrows : ¬ target.tileRows < r.tileHeight) :
    TileInside r target := by
  rw [tileRefused,decide_eq_false_iff_not] at h
  simp only [not_or,UInt32.lt_iff_toNat_lt,Nat.not_lt] at h hrows
  obtain ⟨hw,hh,hx,hy,hright,hbottom⟩ := h
  rw [UInt32.toNat_sub_of_le _ _ (UInt32.le_iff_toNat_le.mpr hx)] at hright
  rw [UInt32.toNat_sub_of_le _ _ (UInt32.le_iff_toNat_le.mpr hy)] at hbottom
  exact ⟨Nat.pos_of_ne_zero fun hzero => hw (UInt32.toNat_inj.mp hzero),
    Nat.pos_of_ne_zero fun hzero => hh (UInt32.toNat_inj.mp hzero),by omega,by omega,hrows⟩

/-- Rows that are a stride apart lie in an area of that many. -/
theorem rows_fit {rows tileRows stride rowBytes size : Nat} (hpos : 0 < rows)
    (hrows : rows ≤ tileRows) (hrow : rowBytes ≤ stride) (hsize : tileRows*stride ≤ size) :
    (rows-1)*stride+rowBytes ≤ size := by
  have hlines : rows*stride ≤ tileRows*stride := Nat.mul_le_mul_right stride hrows
  obtain ⟨n,rfl⟩ := Nat.exists_eq_add_of_le' hpos
  rw [Nat.add_sub_cancel]
  rw [Nat.succ_mul] at hlines
  omega

/-- The offset of a row does not wrap. -/
theorem row_toNat {row rows : Nat} {stride : UInt32} (hrow : row < rows)
    (hsize : rows*stride.toNat < 2^32) :
    (row.toUInt32*stride).toNat = row*stride.toNat := by
  have hle : row*stride.toNat ≤ rows*stride.toNat := Nat.mul_le_mul_right _ (Nat.le_of_lt hrow)
  by_cases hzero : stride.toNat = 0
  · rw [UInt32.toNat_mul,hzero]
    rfl
  · have hrowle : row ≤ row*stride.toNat := Nat.le_mul_of_pos_right _ (Nat.pos_of_ne_zero hzero)
    have hcast : row.toUInt32.toNat = row := by
      rw [Nat.toUInt32_eq,UInt32.toNat_ofNat']
      exact Nat.mod_eq_of_lt (by omega)
    rw [UInt32.toNat_mul,hcast]
    exact Nat.mod_eq_of_lt (by omega)

variable (h : Prepared layout target) (htile : t.tile.length = layout.rows.toNat*layout.pitch.toNat)

include h htile

theorem writeTileToObject_done (format : SurfaceFormat) (bytesPerPixel : UInt32) :
    TileDone t.result target (writeTileToObject t target layout.pitch format bytesPerPixel) := by
  rw [writeTileToObject]
  split_ifs with hrefused
  · exact .refused _ _
  rw [not_or,not_or,Bool.not_eq_true] at hrefused
  split
  · exact .refused _ _
  rename_i rowBytes hrowBytes
  split_ifs with hstride
  · exact .refused _ _
  rw [UInt32.lt_iff_toNat_lt,Nat.not_lt] at hstride
  have hinside := tileInside_of_checked hrefused.2.1 hrefused.2.2
  exact .accepted hinside (SameTarget.refl target) (rows_fit hinside.height_pos
    (h.rows_eq ▸ hinside.rows_le) hstride (Nat.le_of_eq htile.symm))

omit h htile in
theorem surfacePixel_ok {tile : List UInt8} {src : Nat} {format : SurfaceFormat} (hasAlpha : Bool)
    (hread : ∀ k, k < format.bytesPerPixel.toNat → src+k < tile.length) :
    ∃ index, surfacePixelToLegacyLut8Index tile src format hasAlpha = .ok index := by
  cases format with
  | rgb888 =>
    obtain ⟨a,ha⟩ : ∃ a, readAt tile src = .ok a := readAt_of_lt (hread 0 (by decide))
    obtain ⟨b,hb⟩ := readAt_of_lt (hread 1 (by decide))
    obtain ⟨c,hc⟩ := readAt_of_lt (hread 2 (by decide))
    simp only [surfacePixelToLegacyLut8Index,ha,hb,hc]
    exact ⟨_,rfl⟩
  | argb8888 | rgba8888 | bgra8888 =>
    obtain ⟨a,ha⟩ : ∃ a, readAt tile src = .ok a := readAt_of_lt (hread 0 (by decide))
    obtain ⟨b,hb⟩ := readAt_of_lt (hread 1 (by decide))
    obtain ⟨c,hc⟩ := readAt_of_lt (hread 2 (by decide))
    obtain ⟨d,hd⟩ := readAt_of_lt (hread 3 (by decide))
    simp only [surfacePixelToLegacyLut8Index,ha,hb,hc,hd]
    exact ⟨_,rfl⟩
  | rgb565 | rgb555 | index8 | other => exact ⟨_,rfl⟩

/-- The tile buffer is small. -/
theorem Prepared.tile_lt : t.tile.length < 2^32 := by
  have hbytes := h.laidOut.bytes_eq
  have hle := h.laidOut.bytes_le
  omega

theorem writeLegacyBitmapTile_done :
    TileDone t.result target (writeLegacyBitmapTile t target layout.pitch) := by
  rw [writeLegacyBitmapTile]
  by_cases hrefused : tileRefused t.result target.width target.height = true ∨
      target.tileRows < t.result.tileHeight
  · rw [if_pos hrefused]
    exact .refused _ _
  rw [if_neg hrefused]
  rw [not_or,Bool.not_eq_true] at hrefused
  have hinside := tileInside_of_checked hrefused.1 hrefused.2
  dsimp only
  cases hrowBytes : minRowBytes t.result.tileWidth target.outputFormat.bytesPerPixel with
  | none => exact .refused _ _
  | some rowBytes =>
  dsimp only
  by_cases hbad : target.outputFormat.bytesPerPixel = 0 ∨ layout.pitch < rowBytes
  · rw [if_pos hbad]
    exact .refused _ _
  rw [if_neg hbad]
  by_cases halloc : t.allocates = true
  swap
  · rw [if_pos (by simpa using halloc)]
    exact .refused _ _
  rw [if_neg (by simpa using halloc)]
  rw [not_or,UInt32.lt_iff_toNat_lt,Nat.not_lt] at hbad
  obtain ⟨-,-,hbytes⟩ := minRowBytes_eq hrowBytes
  rw [hbytes] at hbad
  have hrows : t.result.tileHeight.toNat ≤ layout.rows.toNat := h.rows_eq ▸ hinside.rows_le
  have hlines : t.result.tileHeight.toNat*layout.pitch.toNat ≤ t.tile.length :=
    (Nat.mul_le_mul_right _ hrows).trans (Nat.le_of_eq htile.symm)
  have hsmall := h.tile_lt htile
  -- A row of the tile fits the row that is allocated for it.
  have hroom : t.result.tileWidth.toNat ≤ ((t.result.tileWidth+15) &&& ~~~15).toNat := by
    have hwidth := h.laidOut.width_le
    have hpitch : layout.pitch.toNat ≤ layout.bytes.toNat := by
      rw [h.laidOut.bytes_eq]
      exact Nat.le_mul_of_pos_left _ h.laidOut.rows_pos
    have hle := h.laidOut.bytes_le
    have hright := hinside.right_le
    have hfifteen : (15 : UInt32).toNat = 15 := rfl
    have hsum : (t.result.tileWidth+15).toNat = t.result.tileWidth.toNat+15 := by
      rw [UInt32.toNat_add,hfifteen]
      omega
    rw [Framework.and_not_toNat (k := 4) (by decide),hsum]
    omega
  have hrow : ∀ row, row < t.result.tileHeight.toNat → ∀ rowPixels : List UInt8,
      rowPixels.length = ((t.result.tileWidth+15) &&& ~~~15).toNat →
      ∃ rowPixels', countedLoop (fun col rowPixels => do
          let index ← surfacePixelToLegacyLut8Index t.tile
            ((row.toUInt32*layout.pitch).toNat+col*target.outputFormat.bytesPerPixel.toNat)
            target.outputFormat target.legacyHasAlpha
          writeAt rowPixels col index) 0 t.result.tileWidth.toNat rowPixels = .ok rowPixels' ∧
        rowPixels'.length = ((t.result.tileWidth+15) &&& ~~~15).toNat := by
    intro row hrow rowPixels hlen
    apply countedLoop_ok (P := fun rowPixels : List UInt8 =>
      rowPixels.length = ((t.result.tileWidth+15) &&& ~~~15).toNat) _ hlen
    intro col _ hcol rowPixels hlen
    have hread : ∀ k, k < target.outputFormat.bytesPerPixel.toNat →
        (row.toUInt32*layout.pitch).toNat+col*target.outputFormat.bytesPerPixel.toNat+k <
          t.tile.length := by
      intro k hk
      rw [row_toNat hrow (by omega)]
      exact grid_lt hrow (by omega) hk hbad.2 hlines
    obtain ⟨index,hindex⟩ := surfacePixel_ok target.legacyHasAlpha hread
    have hplace : col < rowPixels.length := by omega
    obtain ⟨rowPixels',hwrite,hlen'⟩ := writeAt_of_lt hplace index
    simp only [hindex]
    exact ⟨rowPixels',hwrite,hlen'.trans hlen⟩
  obtain ⟨rowPixels,hloop,-⟩ : ∃ rowPixels, countedLoop (fun row rowPixels => do
      let src := (row.toUInt32*layout.pitch).toNat
      let rowPixels ← countedLoop (fun col rowPixels => do
        let index ← surfacePixelToLegacyLut8Index t.tile
          (src+col*target.outputFormat.bytesPerPixel.toNat)
          target.outputFormat target.legacyHasAlpha
        writeAt rowPixels col index) 0 t.result.tileWidth.toNat rowPixels
      if t.result.tileWidth.toNat ≤ rowPixels.length then return rowPixels else .error .outside)
      0 t.result.tileHeight.toNat
        (List.replicate ((t.result.tileWidth+15) &&& ~~~15).toNat (0 : UInt8)) = .ok rowPixels ∧
      rowPixels.length = ((t.result.tileWidth+15) &&& ~~~15).toNat := by
    apply countedLoop_ok (P := fun rowPixels : List UInt8 =>
      rowPixels.length = ((t.result.tileWidth+15) &&& ~~~15).toNat) _ List.length_replicate
    intro row _ hlt rowPixels hlen
    obtain ⟨rowPixels',heq,hlen'⟩ := hrow row (by omega) rowPixels hlen
    simp only [heq]
    exact ⟨rowPixels',if_pos (by omega),hlen'⟩
  simp only [hloop]
  exact ⟨true,_,rfl,(SameTarget.refl target).written,fun _ => hinside⟩

/-- Where a pixel of the tile and one of the scratch lie: all their bytes are inside. -/
theorem pixel_offsets {scratch : List UInt8} {srcBytes dstBytes : Nat} (hinside : TileInside t.result target)
    (hscratch : target.scratch = some scratch)
    (hsrc : t.result.tileWidth.toNat*srcBytes ≤ layout.pitch.toNat)
    (hdst : t.result.tileWidth.toNat*dstBytes ≤ target.scratchPitch.toNat) {row col : Nat}
    (hrow : row < t.result.tileHeight.toNat) (hcol : col < t.result.tileWidth.toNat) :
    (∀ k, k < srcBytes → (row.toUInt32*layout.pitch).toNat+col*srcBytes+k < t.tile.length) ∧
      ∀ k, k < dstBytes →
        (row.toUInt32*target.scratchPitch).toNat+col*dstBytes+k < scratch.length := by
  obtain ⟨hlength,hscratchlt⟩ := h.scratch scratch hscratch
  have hsmall := h.tile_lt htile
  have hrows : t.result.tileHeight.toNat ≤ layout.rows.toNat := h.rows_eq ▸ hinside.rows_le
  have hlines : t.result.tileHeight.toNat*layout.pitch.toNat ≤ t.tile.length :=
    (Nat.mul_le_mul_right _ hrows).trans (Nat.le_of_eq htile.symm)
  have hlines' : t.result.tileHeight.toNat*target.scratchPitch.toNat ≤ scratch.length :=
    (Nat.mul_le_mul_right _ hrows).trans (Nat.le_of_eq hlength.symm)
  constructor
  · intro k hk
    rw [row_toNat hrow (by omega)]
    exact grid_lt hrow hcol hk hsrc hlines
  · intro k hk
    rw [row_toNat hrow (by omega)]
    exact grid_lt hrow hcol hk hdst hlines'

omit htile in
/-- A writer that fills the scratch and hands it to the superclass -/
theorem scratch_done {scratch : List UInt8} {dstRowBytes : UInt32}
    {step : Nat → Nat → List UInt8 → Except Trouble (List UInt8)}
    (hinside : TileInside t.result target) (hscratch : target.scratch = some scratch)
    (hstride : dstRowBytes.toNat ≤ target.scratchPitch.toNat)
    (hstep : ∀ row col, row < t.result.tileHeight.toNat → col < t.result.tileWidth.toNat →
      ∀ memory : List UInt8, memory.length = scratch.length →
        ∃ memory', step row col memory = .ok memory' ∧ memory'.length = scratch.length) :
    TileDone t.result target (do
      let memory ← gridLoop step t.result.tileHeight.toNat t.result.tileWidth.toNat scratch
      let accepted ← writePixelArray t memory target.scratchPitch.toNat dstRowBytes.toNat
        t.result.tileHeight.toNat
      if accepted then return (true,{target with scratch := some memory}.written)
      else return (false,{target with scratch := some memory})) := by
  obtain ⟨memory,hloop,hlen⟩ := gridLoop_ok
    (P := fun memory : List UInt8 => memory.length = scratch.length) hstep rfl
  obtain ⟨hlength,-⟩ := h.scratch scratch hscratch
  simp only [hloop]
  exact .accepted hinside (sameTarget_scratch hscratch hlen) (rows_fit hinside.height_pos
    (h.rows_eq ▸ hinside.rows_le) hstride (Nat.le_of_eq (hlength.symm.trans hlen.symm)))

theorem writeBgraTileToObject_done :
    TileDone t.result target (writeBgraTileToObject t target layout.pitch) := by
  rw [writeBgraTileToObject]
  cases hscratch : target.scratch with
  | none => exact .refused _ _
  | some scratch =>
  dsimp only
  by_cases hrefused : target.scratchPitch = 0 ∨
      tileRefused t.result target.width target.height = true ∨ target.tileRows < t.result.tileHeight
  · rw [if_pos hrefused]
    exact .refused _ _
  rw [if_neg hrefused]
  rw [not_or,not_or,Bool.not_eq_true] at hrefused
  have hinside := tileInside_of_checked hrefused.2.1 hrefused.2.2
  cases hsrcBytes : minRowBytes t.result.tileWidth 4 with
  | none => exact .refused _ _
  | some srcRowBytes =>
  cases hdstBytes : minRowBytes t.result.tileWidth 3 with
  | none => exact .refused _ _
  | some dstRowBytes =>
  dsimp only
  by_cases hstride : layout.pitch < srcRowBytes ∨ target.scratchPitch < dstRowBytes
  · rw [if_pos hstride]
    exact .refused _ _
  rw [if_neg hstride]
  simp only [not_or,UInt32.lt_iff_toNat_lt,Nat.not_lt] at hstride
  have hsrc : t.result.tileWidth.toNat*4 ≤ layout.pitch.toNat :=
    (minRowBytes_eq hsrcBytes).2.2 ▸ hstride.1
  have hdst : t.result.tileWidth.toNat*3 ≤ target.scratchPitch.toNat :=
    (minRowBytes_eq hdstBytes).2.2 ▸ hstride.2
  apply scratch_done h hinside hscratch hstride.2
  intro row col hrow hcol memory hlen
  obtain ⟨hread,hwrite⟩ := pixel_offsets h htile hinside hscratch hsrc hdst hrow hcol
  obtain ⟨a,ha⟩ : ∃ a, readAt t.tile ((row.toUInt32*layout.pitch).toNat+col*4) = .ok a :=
    readAt_of_lt (hread 0 (by decide))
  obtain ⟨b,hb⟩ := readAt_of_lt (hread 1 (by decide))
  obtain ⟨c,hc⟩ := readAt_of_lt (hread 2 (by decide))
  obtain ⟨m₁,h₁,hlen₁⟩ : ∃ m₁,
      writeAt memory ((row.toUInt32*target.scratchPitch).toNat+col*3) c = .ok m₁ ∧
        m₁.length = memory.length := writeAt_of_lt (hlen ▸ hwrite 0 (by decide)) c
  obtain ⟨m₂,h₂,hlen₂⟩ : ∃ m₂,
      writeAt m₁ ((row.toUInt32*target.scratchPitch).toNat+col*3+1) b = .ok m₂ ∧
        m₂.length = m₁.length :=
    writeAt_of_lt (by rw [hlen₁,hlen]; exact hwrite 1 (by decide)) b
  obtain ⟨m₃,h₃,hlen₃⟩ : ∃ m₃,
      writeAt m₂ ((row.toUInt32*target.scratchPitch).toNat+col*3+2) a = .ok m₃ ∧
        m₃.length = m₂.length :=
    writeAt_of_lt (by rw [hlen₂,hlen₁,hlen]; exact hwrite 2 (by decide)) a
  simp only [bind,Except.bind,ha,hb,hc,h₁,h₂]
  exact ⟨m₃,h₃,by omega⟩

theorem writePaletteLut8TileToObject_done :
    TileDone t.result target (writePaletteLut8TileToObject t target layout.pitch) := by
  rw [writePaletteLut8TileToObject]
  cases hlut8 : target.lut8 with
  | none => exact .refused _ _
  | some lut8 =>
  obtain ⟨palette,map⟩ := lut8
  cases hscratch : target.scratch with
  | none => exact .refused _ _
  | some scratch =>
  dsimp only
  by_cases hrefused : target.scratchPitch = 0 ∨
      tileRefused t.result target.width target.height = true ∨ target.tileRows < t.result.tileHeight
  · rw [if_pos hrefused]
    exact .refused _ _
  rw [if_neg hrefused]
  rw [not_or,not_or,Bool.not_eq_true] at hrefused
  have hinside := tileInside_of_checked hrefused.2.1 hrefused.2.2
  by_cases hformat : target.outputFormat ≠ .rgb888 ∧ target.outputFormat ≠ .bgra8888
  · rw [if_pos hformat]
    exact .refused _ _
  rw [if_neg hformat]
  have hbpp : 3 ≤ (if target.outputFormat = .rgb888 then 3 else 4 : UInt32).toNat := by
    split_ifs <;> decide
  generalize (if target.outputFormat = .rgb888 then 3 else 4 : UInt32) = bytesPerPixel at hbpp ⊢
  cases hsrcBytes : minRowBytes t.result.tileWidth bytesPerPixel with
  | none => exact .refused _ _
  | some srcRowBytes =>
  cases hdstBytes : minRowBytes t.result.tileWidth 1 with
  | none => exact .refused _ _
  | some dstRowBytes =>
  dsimp only
  by_cases hstride : layout.pitch < srcRowBytes ∨ target.scratchPitch < dstRowBytes
  · rw [if_pos hstride]
    exact .refused _ _
  rw [if_neg hstride]
  simp only [not_or,UInt32.lt_iff_toNat_lt,Nat.not_lt] at hstride
  have hsrc := (minRowBytes_eq hsrcBytes).2.2 ▸ hstride.1
  have hdst : t.result.tileWidth.toNat*1 ≤ target.scratchPitch.toNat :=
    (minRowBytes_eq hdstBytes).2.2 ▸ hstride.2
  obtain ⟨hcount,hfilled⟩ := h.lut8 palette map hlut8
  have hroom : (lut8Entries palette).length < 512 := by
    have := lut8Entries_length palette
    rw [lut8Entries,List.length_append]
    omega
  rw [← hlut8]
  apply scratch_done h hinside hscratch hstride.2
  intro row col hrow hcol memory hlen
  obtain ⟨hread,hwrite⟩ := pixel_offsets h htile hinside hscratch hsrc hdst hrow hcol
  obtain ⟨a,ha⟩ : ∃ a, readAt t.tile
      ((row.toUInt32*layout.pitch).toNat+col*bytesPerPixel.toNat) = .ok a :=
    readAt_of_lt (hread 0 (by omega))
  obtain ⟨b,hb⟩ := readAt_of_lt (hread 1 (by omega))
  obtain ⟨c,hc⟩ := readAt_of_lt (hread 2 (by omega))
  have hplace := hwrite 0 (by decide)
  rw [Nat.mul_one,Nat.add_zero,← hlen] at hplace
  simp only [bind,Except.bind,ha,hb,hc]
  split_ifs
  · rw [pngLut8Lookup_eq hfilled hroom]
    obtain ⟨memory',hstore,hlen'⟩ := writeAt_of_lt hplace _
    exact ⟨memory',hstore,hlen'.trans hlen⟩
  · rw [pngLut8Lookup_eq hfilled hroom]
    obtain ⟨memory',hstore,hlen'⟩ := writeAt_of_lt hplace _
    exact ⟨memory',hstore,hlen'.trans hlen⟩

/-- Where tiles go straight to the pixels of the object, one that passes the checks there lies in the
picture, and has no more rows than the tile buffer. -/
def DirectInside (layout : TileLayout) (target : Target) (r : SessionResult) : Prop :=
  ∀ pixels, target.legacyBitmap = false → target.lut8 = none → target.direct = some pixels →
    target.outputFormat = .rgb888 → pixels.format = .rgb →
    (directTile layout.pitch r pixels).isSome →
      r.tileX.toNat+r.tileWidth.toNat ≤ target.width.toNat ∧
      r.tileY.toNat+r.tileHeight.toNat ≤ target.height.toNat ∧
      r.tileHeight.toNat ≤ target.tileRows.toNat

omit htile h in
/-- A tile that passes the checks for the pixels is not empty. -/
theorem directTile_pos {r : SessionResult} {pixels : DirectPixels}
    (h : (directTile tileStride r pixels).isSome) :
    0 < r.tileWidth.toNat ∧ 0 < r.tileHeight.toNat := by
  rw [directTile] at h
  split_ifs at h with hrefused
  · cases h
  · cases h
  rw [not_or,tileRefused,decide_eq_true_eq] at hrefused
  simp only [not_or] at hrefused
  obtain ⟨-,hw,hh,-⟩ := hrefused
  exact ⟨Nat.pos_of_ne_zero fun hzero => hw (UInt32.toNat_inj.mp hzero),
    Nat.pos_of_ne_zero fun hzero => hh (UInt32.toNat_inj.mp hzero)⟩

omit htile h in
theorem directTile_eq {r : SessionResult} {pixels : DirectPixels} {rowBytes rowOffset xOffset : UInt32}
    (heq : directTile tileStride r pixels = some (rowBytes,rowOffset,xOffset))
    (hformat : pixels.format = .rgb) :
    rowBytes.toNat = r.tileWidth.toNat*3 ∧ rowBytes.toNat ≤ tileStride.toNat ∧
      rowOffset.toNat = r.tileY.toNat*pixels.arrayMod.toNat ∧
      xOffset.toNat = r.tileX.toNat*3 := by
  have hzero : (0 : UInt32).toNat = 0 := rfl
  rw [directTile,hformat] at heq
  split_ifs at heq
  obtain ⟨rowBytes',hrow,heq⟩ := Option.bind_eq_some_iff.mp heq
  split_ifs at heq with hstride
  obtain ⟨rowOffset',hrowOffset,heq⟩ := Option.bind_eq_some_iff.mp heq
  obtain ⟨xOffset',hxOffset,heq⟩ := Option.bind_eq_some_iff.mp heq
  obtain ⟨rfl,hrest⟩ := Prod.mk.inj (Option.some.inj heq)
  obtain ⟨rfl,rfl⟩ := Prod.mk.inj hrest
  rw [not_or,UInt32.lt_iff_toNat_lt,Nat.not_lt] at hstride
  rw [accumulateByteOffset] at hrowOffset hxOffset
  split_ifs at hrowOffset hxOffset
  have hrowSum := addRepeated_eq hrowOffset
  have hxSum := addRepeated_eq hxOffset
  rw [hzero,Nat.zero_add] at hrowSum hxSum
  exact ⟨(minRowBytes_eq hrow).2.2,hstride.1,hrowSum,hxSum⟩

theorem copyRawTileToDirectPixels_ok {pixels : DirectPixels} (hdirect : target.direct = some pixels)
    (hformat : pixels.format = .rgb)
    (hsafe : (directTile layout.pitch t.result pixels).isSome → TileInside t.result target) :
    ∃ ok pixels', copyRawTileToDirectPixels t layout.pitch pixels = .ok (ok,pixels') ∧
      pixels.SameShape pixels' ∧ (ok = true → TileInside t.result target) := by
  rw [copyRawTileToDirectPixels]
  cases htaken : directTile layout.pitch t.result pixels with
  | none => exact ⟨false,pixels,rfl,⟨rfl,rfl⟩,nofun⟩
  | some offsets =>
    obtain ⟨rowBytes,rowOffset,xOffset⟩ := offsets
    have hinside := hsafe (by rw [htaken]; rfl)
    obtain ⟨hrowBytes,hstride,hrowOffset,hxOffset⟩ := directTile_eq htaken hformat
    obtain ⟨hmod,hdata⟩ := h.direct pixels hdirect hformat
    have hlines : t.result.tileHeight.toNat*layout.pitch.toNat ≤ t.tile.length :=
      (Nat.mul_le_mul_right _ (h.rows_eq ▸ hinside.rows_le)).trans (Nat.le_of_eq htile.symm)
    obtain ⟨data,hloop,hlen⟩ : ∃ data, gridLoop (fun row byte data => do
        let value ← readAt t.tile (row*layout.pitch.toNat+byte)
        writeAt data (rowOffset.toNat+xOffset.toNat+row*pixels.arrayMod.toNat+byte) value)
        t.result.tileHeight.toNat rowBytes.toNat pixels.data = .ok data ∧
        data.length = pixels.data.length := by
      apply gridLoop_ok (P := fun data : List UInt8 => data.length = pixels.data.length) _ rfl
      intro row byte hrow hbyte data hlen
      have hread : row*layout.pitch.toNat+byte*1+0 < t.tile.length :=
        grid_lt hrow hbyte Nat.one_pos (by omega) hlines
      rw [Nat.mul_one,Nat.add_zero] at hread
      have hright := hinside.right_le
      have hbottom := hinside.bottom_le
      have hplace : (t.result.tileY.toNat+row)*pixels.arrayMod.toNat+
          (t.result.tileX.toNat*3+byte)*1+0 < pixels.data.length :=
        grid_lt (by omega) (show _ < target.width.toNat*3 by omega) Nat.one_pos (by omega) hdata
      have hsum : (t.result.tileY.toNat+row)*pixels.arrayMod.toNat+
          (t.result.tileX.toNat*3+byte)*1+0 =
            rowOffset.toNat+xOffset.toNat+row*pixels.arrayMod.toNat+byte := by
        rw [hrowOffset,hxOffset,Nat.add_mul]
        omega
      rw [hsum,← hlen] at hplace
      obtain ⟨value,hvalue⟩ := readAt_of_lt hread
      obtain ⟨data',hwrite,hlen'⟩ := writeAt_of_lt hplace value
      simp only [hvalue]
      exact ⟨data',hwrite,hlen'.trans hlen⟩
    simp only [hloop]
    exact ⟨true,_,rfl,⟨rfl,hlen⟩,fun _ => hinside⟩

omit h in
/-- A tile that passes those checks and has more rows than the tile buffer is read beyond its end. -/
theorem copyRawTileToDirectPixels_tall {pixels : DirectPixels}
    (htaken : (directTile layout.pitch t.result pixels).isSome)
    (hrows : layout.rows.toNat < t.result.tileHeight.toNat) :
    copyRawTileToDirectPixels t layout.pitch pixels = .error .outside := by
  obtain ⟨⟨rowBytes,rowOffset,xOffset⟩,heq⟩ := Option.isSome_iff_exists.mp htaken
  have hpos : 0 < rowBytes.toNat := by
    have hwidth := (directTile_pos htaken).1
    rw [directTile] at heq
    split_ifs at heq
    obtain ⟨rowBytes',hrow,heq⟩ := Option.bind_eq_some_iff.mp heq
    split_ifs at heq
    obtain ⟨rowOffset',-,heq⟩ := Option.bind_eq_some_iff.mp heq
    obtain ⟨xOffset',-,heq⟩ := Option.bind_eq_some_iff.mp heq
    obtain ⟨rfl,-⟩ := Prod.mk.inj (Option.some.inj heq)
    obtain ⟨-,hunit,hbytes⟩ := minRowBytes_eq hrow
    exact hbytes ▸ Nat.mul_pos hwidth
      (Nat.pos_of_ne_zero fun hzero => hunit (UInt32.toNat_inj.mp hzero))
  rw [copyRawTileToDirectPixels,heq]
  have hloop : gridLoop (fun row byte data => do
      let value ← readAt t.tile (row*layout.pitch.toNat+byte)
      writeAt data (rowOffset.toNat+xOffset.toNat+row*pixels.arrayMod.toNat+byte) value)
      t.result.tileHeight.toNat rowBytes.toNat pixels.data = .error .outside := by
    apply gridLoop_error hrows hpos
    · intro row byte data
      rw [readAt]
      cases t.tile[row*layout.pitch.toNat+byte]? with
      | none => exact .inl rfl
      | some value =>
        simp only [bind,Except.bind,writeAt]
        split_ifs
        · exact .inr ⟨_,rfl⟩
        · exact .inl rfl
    · intro data
      rw [readAt,List.getElem?_eq_none (by rw [htile]; exact Nat.le_refl _)]
      rfl
  simp only [hloop]
  rfl

omit h in
theorem copyTileToDatatype_tall {pixels : DirectPixels} (hlegacy : target.legacyBitmap = false)
    (hlut8 : target.lut8 = none) (hdirect : target.direct = some pixels)
    (hformat : target.outputFormat = .rgb888 ∧ pixels.format = .rgb)
    (htaken : (directTile layout.pitch t.result pixels).isSome)
    (hrows : layout.rows.toNat < t.result.tileHeight.toNat) :
    copyTileToDatatype t target layout.pitch = .error .outside := by
  simp only [copyTileToDatatype,hlegacy,hlut8,hdirect,if_pos hformat,
    copyRawTileToDirectPixels_tall htile htaken hrows]
  rfl

/-- Whatever the tile of a reply is, it goes outside of no area, and it is refused or lies inside. -/
theorem copyTileToDatatype_done (hsafe : DirectInside layout target t.result) :
    TileDone t.result target (copyTileToDatatype t target layout.pitch) := by
  rw [copyTileToDatatype]
  by_cases hlegacy : target.legacyBitmap = true
  · rw [if_pos hlegacy]
    exact writeLegacyBitmapTile_done h htile
  rw [if_neg hlegacy]
  rw [Bool.not_eq_true] at hlegacy
  by_cases hlut8 : target.lut8.isSome = true
  · rw [if_pos hlut8]
    exact writePaletteLut8TileToObject_done h htile
  rw [if_neg hlut8]
  rw [Bool.not_eq_true,Option.isSome_eq_false_iff,Option.isNone_iff_eq_none] at hlut8
  cases hdirect : target.direct with
  | some pixels =>
    dsimp only
    by_cases hformat : target.outputFormat = .rgb888 ∧ pixels.format = .rgb
    · rw [if_pos hformat]
      obtain ⟨ok,pixels',heq,hshape,hinside⟩ := copyRawTileToDirectPixels_ok h htile hdirect
        hformat.2 fun htaken => by
          obtain ⟨hright,hbottom,hrows⟩ :=
            hsafe pixels hlegacy hlut8 hdirect hformat.1 hformat.2 htaken
          obtain ⟨hw,hh⟩ := directTile_pos htaken
          exact ⟨hw,hh,hright,hbottom,hrows⟩
      simp only [heq]
      cases ok with
      | true =>
        refine ⟨true,_,rfl,SameTarget.written ⟨rfl,rfl,.inr ⟨pixels,pixels',hdirect,rfl,hshape⟩⟩,
          hinside⟩
      | false => exact .refused _ _
    · rw [if_neg hformat]
      exact .refused _ _
  | none =>
    dsimp only
    split_ifs
    · exact writeTileToObject_done h htile _ _
    · exact writeTileToObject_done h htile _ _
    · exact writeBgraTileToObject_done h htile

end Writers

end ZZ9K.Picture
