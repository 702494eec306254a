import Mathlib.Algebra.Order.Ring.Nat
import Mathlib.Tactic.SplitIfs

namespace ZZ9K.Surface

/-- `ZZ9K_SURFACE_FORMAT_*`, and any other number -/
inductive SurfaceFormat
  | argb8888
  | rgba8888
  | bgra8888
  | rgb565
  | rgb555
  | rgb888
  | index8
  | other (format : UInt32)
  deriving DecidableEq

/-- `zz9k_surface_bytes_per_pixel` -/
def SurfaceFormat.bytesPerPixel : SurfaceFormat → UInt32
  | argb8888 | rgba8888 | bgra8888 => 4
  | rgb565 | rgb555 => 2
  | rgb888 => 3
  | index8 => 1
  | other _ => 0

/-- `zz9k_surface_min_pitch` -/
def surfaceMinPitch (width : UInt32) (format : SurfaceFormat) : Option UInt32 :=
  if width = 0 then none
  else
    let bpp := format.bytesPerPixel
    if bpp = 0 ∨ 0xffffffff/bpp < width then none else some (width*bpp)

/-- `zz9k_surface_length_for_pitch` -/
def surfaceLengthForPitch (height pitch : UInt32) : Option UInt32 :=
  if height = 0 ∨ pitch = 0 ∨ 0xffffffff/pitch < height then none else some (height*pitch)

/-- `zz9k_surface_layout`: the pitch and the length -/
def surfaceLayout (width height : UInt32) (format : SurfaceFormat) : Option (UInt32 × UInt32) := do
  let pitch ← surfaceMinPitch width format
  let length ← surfaceLengthForPitch height pitch
  return (pitch,length)

/-- `ZZ9KRect` -/
structure Rect where
  x : UInt32
  y : UInt32
  w : UInt32
  h : UInt32

/-- `zz9k_surface_rect_fits_bpp` -/
def surfaceRectFitsBpp (width height pitch length : UInt32) (rect : Rect) (bpp : UInt32) : Bool :=
  if bpp = 0 ∨ rect.w = 0 ∨ rect.h = 0 ∨ width = 0 ∨ height = 0 ∨ pitch = 0 ∨ length = 0 then false
  else if width ≤ rect.x ∨ height ≤ rect.y then false
  else if width-rect.x < rect.w ∨ height-rect.y < rect.h then false
  else if 0xffffffff/bpp < rect.x ∨ 0xffffffff/bpp < rect.w then false
  else
    let xOffset := rect.x*bpp
    let rowBytes := rect.w*bpp
    if pitch < xOffset ∨ pitch-xOffset < rowBytes then false
    else
      let lastY := rect.y+rect.h-1
      if 0xffffffff/pitch < lastY then false
      else
        let lastRow := lastY*pitch
        if 0xffffffff-xOffset < lastRow then false
        else
          let lastOffset := lastRow+xOffset
          if 0xffffffff-rowBytes < lastOffset then false
          else if length < lastOffset+rowBytes then false
          else true

/-- `zz9k_surface_rect_fits` -/
def surfaceRectFits (width height pitch length : UInt32) (rect : Rect) (format : SurfaceFormat) :
    Bool :=
  surfaceRectFitsBpp width height pitch length rect format.bytesPerPixel

/-- A rectangle of nonempty pixels in a surface, over the integers: it lies inside the surface, its
rows lie inside the pitch and the last of them ends inside the buffer. -/
structure Within (width height pitch length : UInt32) (rect : Rect) (bpp : UInt32) : Prop where
  bpp_ne : bpp ≠ 0
  w_ne : rect.w ≠ 0
  h_ne : rect.h ≠ 0
  width_ne : width ≠ 0
  height_ne : height ≠ 0
  pitch_ne : pitch ≠ 0
  length_ne : length ≠ 0
  right : rect.x.toNat+rect.w.toNat ≤ width.toNat
  bottom : rect.y.toNat+rect.h.toNat ≤ height.toNat
  row : (rect.x.toNat+rect.w.toNat)*bpp.toNat ≤ pitch.toNat
  last : (rect.y.toNat+rect.h.toNat-1)*pitch.toNat+(rect.x.toNat+rect.w.toNat)*bpp.toNat ≤
    length.toNat

section

variable {a b c : UInt32}

/-- The guard of a product is that it does not wrap. -/
theorem mul_guard (hb : b ≠ 0) : ¬ 0xffffffff/b < a ↔ a.toNat*b.toNat < 2^32 := by
  have hpos : 0 < b.toNat := Nat.pos_of_ne_zero fun h => hb (UInt32.toNat_inj.mp h)
  rw [UInt32.not_lt,UInt32.le_iff_toNat_le,UInt32.toNat_div,Nat.le_div_iff_mul_le hpos]
  change a.toNat*b.toNat ≤ 4294967295 ↔ _
  omega

theorem toNat_mul_of (h : a.toNat*b.toNat < 2^32) : (a*b).toNat = a.toNat*b.toNat := by
  rw [UInt32.toNat_mul,Nat.mod_eq_of_lt h]

/-- And so is that of a sum. -/
theorem add_guard : ¬ 0xffffffff-b < a ↔ a.toNat+b.toNat < 2^32 := by
  have hle : b ≤ 0xffffffff := UInt32.le_iff_toNat_le.mpr (Nat.le_of_lt_succ b.toNat_lt)
  rw [UInt32.not_lt,UInt32.le_iff_toNat_le,UInt32.toNat_sub_of_le _ _ hle]
  have := b.toNat_lt
  change a.toNat ≤ 4294967295-b.toNat ↔ _
  omega

theorem toNat_add_of (h : a.toNat+b.toNat < 2^32) : (a+b).toNat = a.toNat+b.toNat := by
  rw [UInt32.toNat_add,Nat.mod_eq_of_lt h]

/-- Room behind an offset -/
theorem sub_guard (h : b ≤ c) : ¬ c-b < a ↔ b.toNat+a.toNat ≤ c.toNat := by
  have hle := UInt32.le_iff_toNat_le.mp h
  rw [UInt32.not_lt,UInt32.le_iff_toNat_le,UInt32.toNat_sub_of_le _ _ h]
  omega

end

section

variable {width height pitch length bpp : UInt32} {rect : Rect}

/-- The last row of a rectangle -/
theorem toNat_last (hsum : rect.y.toNat+rect.h.toNat < 2^32) (hh : 0 < rect.h.toNat) :
    (rect.y+rect.h-1).toNat = rect.y.toNat+rect.h.toNat-1 := by
  have hadd := toNat_add_of hsum
  have hone : (1 : UInt32).toNat = 1 := rfl
  rw [UInt32.toNat_sub_of_le _ _ (UInt32.le_iff_toNat_le.mpr (by omega)),hadd,hone]

/-- What the check computes with does not wrap where its guards are passed. -/
theorem Within.of_fits (h : surfaceRectFitsBpp width height pitch length rect bpp = true) :
    Within width height pitch length rect bpp := by
  unfold surfaceRectFitsBpp at h
  dsimp only at h
  split_ifs at h with hzero hcorner hsize hprod hpitch hrows hrow hend hlen
  simp only [not_or] at hzero hcorner hsize hprod hpitch
  obtain ⟨hbpp,hw,hh,hwidth,hheight,hpitch0,hlength⟩ := hzero
  obtain ⟨hx,hy⟩ := hcorner
  obtain ⟨hsizew,hsizeh⟩ := hsize
  obtain ⟨hprodx,hprodw⟩ := hprod
  rw [sub_guard (UInt32.le_of_lt (UInt32.not_le.mp hx))] at hsizew
  rw [sub_guard (UInt32.le_of_lt (UInt32.not_le.mp hy))] at hsizeh
  rw [mul_guard hbpp] at hprodx hprodw
  obtain ⟨hoff,hroom⟩ := hpitch
  rw [sub_guard (UInt32.not_lt.mp hoff),toNat_mul_of hprodx,toNat_mul_of hprodw] at hroom
  have hheightLt := height.toNat_lt
  have hpos : 0 < rect.h.toNat := Nat.pos_of_ne_zero fun h0 => hh (UInt32.toNat_inj.mp h0)
  have hlast := toNat_last (show rect.y.toNat+rect.h.toNat < 2^32 by omega) hpos
  rw [mul_guard hpitch0,hlast] at hrows
  have hrowNat : ((rect.y+rect.h-1)*pitch).toNat = (rect.y.toNat+rect.h.toNat-1)*pitch.toNat := by
    rw [toNat_mul_of (by rwa [hlast]),hlast]
  rw [add_guard,hrowNat,toNat_mul_of hprodx] at hrow
  have hoffNat : ((rect.y+rect.h-1)*pitch+rect.x*bpp).toNat =
      (rect.y.toNat+rect.h.toNat-1)*pitch.toNat+rect.x.toNat*bpp.toNat := by
    rw [toNat_add_of (by rwa [hrowNat,toNat_mul_of hprodx]),hrowNat,toNat_mul_of hprodx]
  rw [add_guard,hoffNat,toNat_mul_of hprodw] at hend
  rw [UInt32.not_lt,UInt32.le_iff_toNat_le,
    toNat_add_of (by rwa [hoffNat,toNat_mul_of hprodw]),hoffNat,toNat_mul_of hprodw] at hlen
  refine ⟨hbpp,hw,hh,hwidth,hheight,hpitch0,hlength,hsizew,hsizeh,?_,?_⟩
  · rwa [Nat.add_mul]
  · rwa [Nat.add_mul,← Nat.add_assoc]

/-- A rectangle that lies inside passes every guard. -/
theorem Within.fits (h : Within width height pitch length rect bpp) :
    surfaceRectFitsBpp width height pitch length rect bpp = true := by
  have hrow := h.row
  have hlast := h.last
  rw [Nat.add_mul] at hrow hlast
  have hright := h.right
  have hbottom := h.bottom
  have hw : 0 < rect.w.toNat := Nat.pos_of_ne_zero fun h0 => h.w_ne (UInt32.toNat_inj.mp h0)
  have hh : 0 < rect.h.toNat := Nat.pos_of_ne_zero fun h0 => h.h_ne (UInt32.toNat_inj.mp h0)
  have hpitchLt := pitch.toNat_lt
  have hlengthLt := length.toNat_lt
  have hheightLt := height.toNat_lt
  have hx : ¬ width ≤ rect.x := by
    rw [UInt32.le_iff_toNat_le]
    omega
  have hy : ¬ height ≤ rect.y := by
    rw [UInt32.le_iff_toNat_le]
    omega
  have hprodx : rect.x.toNat*bpp.toNat < 2^32 := by omega
  have hprodw : rect.w.toNat*bpp.toNat < 2^32 := by omega
  have hlastY := toNat_last (show rect.y.toNat+rect.h.toNat < 2^32 by omega) hh
  have hprody : (rect.y+rect.h-1).toNat*pitch.toNat < 2^32 := by
    rw [hlastY]
    omega
  have hrowNat : ((rect.y+rect.h-1)*pitch).toNat = (rect.y.toNat+rect.h.toNat-1)*pitch.toNat := by
    rw [toNat_mul_of hprody,hlastY]
  have hoffNat : ((rect.y+rect.h-1)*pitch+rect.x*bpp).toNat =
      (rect.y.toNat+rect.h.toNat-1)*pitch.toNat+rect.x.toNat*bpp.toNat := by
    rw [toNat_add_of (by rw [hrowNat,toNat_mul_of hprodx]; omega),hrowNat,toNat_mul_of hprodx]
  have hendNat : ((rect.y+rect.h-1)*pitch+rect.x*bpp+rect.w*bpp).toNat =
      (rect.y.toNat+rect.h.toNat-1)*pitch.toNat+rect.x.toNat*bpp.toNat+
        rect.w.toNat*bpp.toNat := by
    rw [toNat_add_of (by rw [hoffNat,toNat_mul_of hprodw]; omega),hoffNat,toNat_mul_of hprodw]
  have hoff : rect.x*bpp ≤ pitch := by
    rw [UInt32.le_iff_toNat_le,toNat_mul_of hprodx]
    omega
  have hroom : ¬ pitch-rect.x*bpp < rect.w*bpp := by
    rw [sub_guard hoff,toNat_mul_of hprodx,toNat_mul_of hprodw]
    exact hrow
  have hsizew : ¬ width-rect.x < rect.w :=
    (sub_guard (UInt32.le_of_lt (UInt32.not_le.mp hx))).mpr hright
  have hsizeh : ¬ height-rect.y < rect.h :=
    (sub_guard (UInt32.le_of_lt (UInt32.not_le.mp hy))).mpr hbottom
  have hrows : ¬ 0xffffffff-rect.x*bpp < (rect.y+rect.h-1)*pitch := by
    rw [add_guard,hrowNat,toNat_mul_of hprodx]
    omega
  have hend : ¬ 0xffffffff-rect.w*bpp < (rect.y+rect.h-1)*pitch+rect.x*bpp := by
    rw [add_guard,hoffNat,toNat_mul_of hprodw]
    omega
  have hlen : ¬ length < (rect.y+rect.h-1)*pitch+rect.x*bpp+rect.w*bpp := by
    rw [UInt32.not_lt,UInt32.le_iff_toNat_le,hendNat]
    omega
  unfold surfaceRectFitsBpp
  dsimp only
  rw [if_neg (by simp only [not_or]; exact ⟨h.bpp_ne,h.w_ne,h.h_ne,h.width_ne,h.height_ne,
      h.pitch_ne,h.length_ne⟩),
    if_neg (not_or.mpr ⟨hx,hy⟩),if_neg (not_or.mpr ⟨hsizew,hsizeh⟩),
    if_neg (not_or.mpr ⟨(mul_guard h.bpp_ne).mpr hprodx,(mul_guard h.bpp_ne).mpr hprodw⟩),
    if_neg (not_or.mpr ⟨UInt32.not_lt.mpr hoff,hroom⟩),if_neg ((mul_guard h.pitch_ne).mpr hprody),
    if_neg hrows,if_neg hend,if_neg hlen]

/-- Every byte of a rectangle inside the surface lies in its row and in the buffer. -/
theorem Within.byte (h : Within width height pitch length rect bpp) {row byte : Nat}
    (hrow : row < rect.y.toNat+rect.h.toNat)
    (hbyte : byte < (rect.x.toNat+rect.w.toNat)*bpp.toNat) :
    byte < pitch.toNat ∧ row*pitch.toNat+byte < length.toNat := by
  have hpitch := h.row
  have hlast := h.last
  have hle : row*pitch.toNat ≤ (rect.y.toNat+rect.h.toNat-1)*pitch.toNat :=
    Nat.mul_le_mul_right _ (by omega)
  exact ⟨by omega,by omega⟩

/-- The rectangle of all pixels fits the layout that `zz9k_surface_layout` gives a surface. -/
theorem surfaceLayout_fits {format : SurfaceFormat}
    (h : surfaceLayout width height format = some (pitch,length)) :
    surfaceRectFits width height pitch length ⟨0,0,width,height⟩ format = true := by
  unfold surfaceLayout at h
  obtain ⟨pitch',hp,hrest⟩ := Option.bind_eq_some_iff.mp h
  obtain ⟨length',hl,hsome⟩ := Option.bind_eq_some_iff.mp hrest
  cases hsome
  unfold surfaceMinPitch at hp
  unfold surfaceLengthForPitch at hl
  dsimp only at hp
  split_ifs at hp with hwidth hguard
  split_ifs at hl with hheight
  simp only [not_or] at hguard hheight
  obtain ⟨hbpp,hfit⟩ := hguard
  obtain ⟨hheight0,hpitch0,hrows⟩ := hheight
  rw [mul_guard hbpp] at hfit
  rw [mul_guard hpitch0] at hrows
  have hpitch : pitch.toNat = width.toNat*format.bytesPerPixel.toNat := by
    rw [← Option.some.inj hp,toNat_mul_of hfit]
  have hlength : length.toNat = height.toNat*pitch.toNat := by
    rw [← Option.some.inj hl,toNat_mul_of hrows]
  have hheightPos : 0 < height.toNat :=
    Nat.pos_of_ne_zero fun h0 => hheight0 (UInt32.toNat_inj.mp h0)
  have hpitchPos : 0 < pitch.toNat := Nat.pos_of_ne_zero fun h0 => hpitch0 (UInt32.toNat_inj.mp h0)
  have hzero : (0 : UInt32).toNat = 0 := rfl
  apply Within.fits
  refine ⟨hbpp,hwidth,hheight0,hwidth,hheight0,hpitch0,?_,?_,?_,?_,?_⟩
  · intro h0
    have hpos := Nat.mul_pos hheightPos hpitchPos
    rw [← hlength,h0] at hpos
    exact absurd hpos (by decide)
  · rw [hzero,Nat.zero_add]
  · rw [hzero,Nat.zero_add]
  · rw [hzero,Nat.zero_add,hpitch]
  · rw [hzero,Nat.zero_add,Nat.zero_add,← hpitch,hlength,← Nat.succ_mul]
    apply Nat.mul_le_mul_right
    exact Nat.le_of_eq (Nat.sub_add_cancel hheightPos)

end

/-- The check of a rectangle is exact, and all bytes of a rectangle that it lets through lie inside
the surface. -/
theorem surfaceRectFitsBpp_exact (width height pitch length : UInt32) (rect : Rect) (bpp : UInt32) :
    (surfaceRectFitsBpp width height pitch length rect bpp = true ↔
      Within width height pitch length rect bpp) ∧
    (surfaceRectFitsBpp width height pitch length rect bpp = true → ∀ row byte,
      rect.y.toNat ≤ row → row < rect.y.toNat+rect.h.toNat →
      rect.x.toNat*bpp.toNat ≤ byte → byte < (rect.x.toNat+rect.w.toNat)*bpp.toNat →
        byte < pitch.toNat ∧ row*pitch.toNat+byte < length.toNat) := by
  refine ⟨⟨Within.of_fits,Within.fits⟩,?_⟩
  intro h row byte _ hrow _ hbyte
  exact (Within.of_fits h).byte hrow hbyte

end ZZ9K.Surface
