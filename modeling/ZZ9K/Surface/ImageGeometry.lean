import ZZ9K.Math.AspectFit
import ZZ9K.Surface.RectFits

namespace ZZ9K.Surface

open ZZ9K.Math

/-- `zz9k_image_muldiv_floor_u32` -/
def imageMuldivFloorU32 (value multiplier divisor : UInt32) : UInt32 :=
  if divisor = 0 then 0 else (value.toUInt64*multiplier.toUInt64/divisor.toUInt64).toUInt32

/-- `zz9k_image_fit_size_to_area`: the width and the height -/
def imageFitSizeToArea (srcW srcH areaW areaH : UInt32) : Option (UInt32 × UInt32) :=
  if srcW = 0 ∨ srcH = 0 ∨ areaW = 0 ∨ areaH = 0 then none
  else
    let widthLimited := srcW.toUInt64*areaH.toUInt64
    if widthLimited > srcH.toUInt64*areaW.toUInt64 then
      let height := imageMuldivFloorU32 srcH areaW srcW
      some (areaW,if height = 0 then 1 else height)
    else
      let width := imageMuldivFloorU32 srcW areaH srcH
      some (if width = 0 then 1 else width,areaH)

/-- `zz9k_image_choose_draw_rect_in_area` -/
def imageChooseDrawRectInArea (area : Rect) (srcWidth srcHeight : UInt32) : Option Rect :=
  if area.w = 0 ∨ area.h = 0 ∨ srcWidth = 0 ∨ srcHeight = 0 then none
  else do
    let (width,height) ← imageFitSizeToArea srcWidth srcHeight area.w area.h
    return ⟨area.x+(area.w-width)/2,area.y+(area.h-height)/2,width,height⟩

/-- `ZZPlayRect` -/
structure ZZPlayRect where
  x : Int16
  y : Int16
  width : UInt16
  height : UInt16
  deriving DecidableEq

/-- `zzplay_geometry_fit` -/
def zzplayGeometryFit (srcW srcH availW availH : UInt16) : ZZPlayRect :=
  if srcW = 0 ∨ srcH = 0 ∨ availW = 0 ∨ availH = 0 then ⟨0,0,0,0⟩
  else
    let (width,height) :=
      if srcW.toUInt32*availH.toUInt32 > availW.toUInt32*srcH.toUInt32 then
        (availW.toUInt32,availW.toUInt32*srcH.toUInt32/srcW.toUInt32)
      else (availH.toUInt32*srcW.toUInt32/srcH.toUInt32,availH.toUInt32)
    let width := if width = 0 then 1 else width
    let height := if height = 0 then 1 else height
    let width := if width > availW.toUInt32 then availW.toUInt32 else width
    let height := if height > availH.toUInt32 then availH.toUInt32 else height
    ⟨((availW.toUInt32-width)/2).toUInt16.toInt16,((availH.toUInt32-height)/2).toUInt16.toInt16,
      width.toUInt16,height.toUInt16⟩

section

variable {srcW srcH areaW areaH : UInt32}

/-- The products of two 32-bit sizes fit into 64 bits. -/
theorem toUInt64_mul (a b : UInt32) : (a.toUInt64*b.toUInt64).toNat = a.toNat*b.toNat := by
  have hprod : a.toNat*b.toNat ≤ (2^32-1)*(2^32-1) :=
    Nat.mul_le_mul (Nat.le_pred_of_lt a.toNat_lt) (Nat.le_pred_of_lt b.toNat_lt)
  rw [UInt64.toNat_mul,UInt32.toNat_toUInt64,UInt32.toNat_toUInt64]
  exact Nat.mod_eq_of_lt (by omega)

/-- The scaled side, where it is no longer than a 32-bit bound -/
theorem imageMuldiv_fitSide {side limit other bound : UInt32} (hbound : 0 < bound.toNat)
    (hother : 0 < other.toNat) (h : side.toNat*limit.toNat ≤ other.toNat*bound.toNat) :
    (if imageMuldivFloorU32 side limit other = 0 then 1 else
      imageMuldivFloorU32 side limit other).toNat =
        fitSide side.toNat limit.toNat other.toNat := by
  have hle := fitSide_le hbound hother h
  have hbig := bound.toNat_lt
  have hne : other ≠ 0 := fun heq => by simp [heq] at hother
  have hdiv : side.toNat*limit.toNat/other.toNat ≤ fitSide side.toNat limit.toNat other.toNat :=
    Nat.le_max_right 1 _
  have hquot : (imageMuldivFloorU32 side limit other).toNat =
      side.toNat*limit.toNat/other.toNat := by
    rw [imageMuldivFloorU32,if_neg hne,UInt64.toNat_toUInt32,UInt64.toNat_div,toUInt64_mul,
      UInt32.toNat_toUInt64]
    exact Nat.mod_eq_of_lt (by omega)
  rw [fitSide,← hquot]
  split_ifs with hzero
  · rw [hzero]
    rfl
  · have hpos : (imageMuldivFloorU32 side limit other).toNat ≠ 0 := fun h =>
      hzero (UInt32.toNat_inj.mp h)
    omega

theorem toNat_pos_of_ne {a : UInt32} (h : a ≠ 0) : 0 < a.toNat :=
  Nat.pos_of_ne_zero fun heq => h (UInt32.toNat_inj.mp heq)

theorem imageFitSizeToArea_eq (hsw : srcW ≠ 0) (hsh : srcH ≠ 0) (haw : areaW ≠ 0)
    (hah : areaH ≠ 0) :
    ∃ w h, imageFitSizeToArea srcW srcH areaW areaH = some (w,h) ∧
      (w.toNat,h.toNat) = fitSize srcW.toNat srcH.toNat areaW.toNat areaH.toNat := by
  have hnone : ¬ (srcW = 0 ∨ srcH = 0 ∨ areaW = 0 ∨ areaH = 0) := by
    rintro (h | h | h | h) <;> contradiction
  rw [imageFitSizeToArea,if_neg hnone,fitSize]
  simp only [gt_iff_lt,UInt64.lt_iff_toNat_lt,toUInt64_mul]
  by_cases hwide : srcH.toNat*areaW.toNat < srcW.toNat*areaH.toNat
  · have hside := imageMuldiv_fitSide (toNat_pos_of_ne hah) (toNat_pos_of_ne hsw)
      (Nat.le_of_lt hwide)
    rw [if_pos hwide,if_pos hwide,← hside]
    exact ⟨_,_,rfl,rfl⟩
  · have hside := imageMuldiv_fitSide (toNat_pos_of_ne haw) (toNat_pos_of_ne hsh)
      (Nat.le_of_not_lt hwide)
    rw [if_neg hwide,if_neg hwide,← hside]
    exact ⟨_,_,rfl,rfl⟩

/-- Half of what a fit leaves over of a side, as an offset from a corner that is not too far -/
theorem offset_toNat {corner area size : UInt32} (hsize : size.toNat ≤ area.toNat)
    (h : corner.toNat+area.toNat ≤ 2^32) (hpos : 0 < size.toNat) :
    (corner+(area-size)/2).toNat = corner.toNat+(area.toNat-size.toNat)/2 := by
  have hle : size ≤ area := UInt32.le_iff_toNat_le.mpr hsize
  have htwo : (2 : UInt32).toNat = 2 := rfl
  rw [UInt32.toNat_add,UInt32.toNat_div,UInt32.toNat_sub_of_le _ _ hle,htwo]
  exact Nat.mod_eq_of_lt (by omega)

end

section

variable {srcW srcH availW availH : UInt16}

theorem toUInt32_mul (a b : UInt16) : (a.toUInt32*b.toUInt32).toNat = a.toNat*b.toNat := by
  have hprod : a.toNat*b.toNat ≤ (2^16-1)*(2^16-1) :=
    Nat.mul_le_mul (Nat.le_pred_of_lt a.toNat_lt) (Nat.le_pred_of_lt b.toNat_lt)
  rw [UInt32.toNat_mul,UInt16.toNat_toUInt32,UInt16.toNat_toUInt32]
  exact Nat.mod_eq_of_lt (by omega)

/-- The scaled side of the 16-bit sizes, with its two clamps -/
theorem clamp_fitSide {side limit other bound : UInt16} (hbound : 0 < bound.toNat)
    (hother : 0 < other.toNat) (h : side.toNat*limit.toNat ≤ other.toNat*bound.toNat)
    {scaled : UInt32} (hscaled : scaled.toNat = side.toNat*limit.toNat/other.toNat) :
    (if (if scaled = 0 then 1 else scaled) > bound.toUInt32 then bound.toUInt32
      else if scaled = 0 then 1 else scaled).toNat =
        fitSide side.toNat limit.toNat other.toNat := by
  have hle := fitSide_le hbound hother h
  have hone : (if scaled = 0 then 1 else scaled).toNat =
      fitSide side.toNat limit.toNat other.toNat := by
    rw [fitSide,← hscaled]
    split_ifs with hzero
    · rw [hzero]
      rfl
    · have hpos := toNat_pos_of_ne hzero
      omega
  rw [if_neg,hone]
  rw [gt_iff_lt,UInt32.lt_iff_toNat_lt,hone,UInt16.toNat_toUInt32]
  omega

/-- The side that binds keeps its length. -/
theorem clamp_self {area : UInt16} (h : area ≠ 0) :
    (if (if area.toUInt32 = 0 then 1 else area.toUInt32) > area.toUInt32 then area.toUInt32
      else if area.toUInt32 = 0 then 1 else area.toUInt32) = area.toUInt32 := by
  have hne : area.toUInt32 ≠ 0 := by
    intro heq
    apply h
    rw [← UInt16.toNat_inj,← UInt16.toNat_toUInt32,heq]
    rfl
  rw [if_neg hne,if_neg (UInt32.lt_irrefl _)]

/-- Half of what a fit leaves over of a 16-bit side fits into 15 bits. -/
theorem offset_toInt {area : UInt16} {size : UInt32} (hsize : size.toNat ≤ area.toNat) :
    ((area.toUInt32-size)/2).toUInt16.toInt16.toInt = ((area.toNat-size.toNat)/2 : Nat) := by
  have harea := area.toNat_lt
  have hle : size ≤ area.toUInt32 := by
    rw [UInt32.le_iff_toNat_le,UInt16.toNat_toUInt32]
    exact hsize
  have htwo : (2 : UInt32).toNat = 2 := rfl
  have hhalf : (((area.toUInt32-size)/2).toUInt16).toNat = (area.toNat-size.toNat)/2 := by
    rw [UInt32.toNat_toUInt16,UInt32.toNat_div,UInt32.toNat_sub_of_le _ _ hle,htwo,
      UInt16.toNat_toUInt32]
    exact Nat.mod_eq_of_lt (by omega)
  have hsmall : 2*((area.toUInt32-size)/2).toUInt16.toBitVec.toNat < 2^16 := by
    change 2*((area.toUInt32-size)/2).toUInt16.toNat < 2^16
    omega
  rw [← hhalf]
  exact BitVec.toInt_eq_toNat_of_lt hsmall

/-- The player's fit, with the two sizes that it scales to -/
theorem zzplayGeometryFit_eq (hsw : srcW ≠ 0) (hsh : srcH ≠ 0) (haw : availW ≠ 0)
    (hah : availH ≠ 0) :
    ∃ w h : UInt32,
      (w.toNat,h.toNat) = fitSize srcW.toNat srcH.toNat availW.toNat availH.toNat ∧
      zzplayGeometryFit srcW srcH availW availH =
        ⟨((availW.toUInt32-w)/2).toUInt16.toInt16,((availH.toUInt32-h)/2).toUInt16.toInt16,
          w.toUInt16,h.toUInt16⟩ := by
  have hnone : ¬ (srcW = 0 ∨ srcH = 0 ∨ availW = 0 ∨ availH = 0) := by
    rintro (h | h | h | h) <;> contradiction
  have hpos : ∀ {a : UInt16}, a ≠ 0 → 0 < a.toNat := fun h =>
    Nat.pos_of_ne_zero fun heq => h (UInt16.toNat_inj.mp heq)
  rw [zzplayGeometryFit,if_neg hnone,fitSize]
  simp only [gt_iff_lt,UInt32.lt_iff_toNat_lt (a := availW.toUInt32*srcH.toUInt32),toUInt32_mul,
    Nat.mul_comm availW.toNat]
  by_cases hwide : srcH.toNat*availW.toNat < srcW.toNat*availH.toNat
  · have hscaled : (availW.toUInt32*srcH.toUInt32/srcW.toUInt32).toNat =
        srcH.toNat*availW.toNat/srcW.toNat := by
      rw [UInt32.toNat_div,toUInt32_mul,UInt16.toNat_toUInt32,Nat.mul_comm]
    have hside := clamp_fitSide (hpos hah) (hpos hsw) (Nat.le_of_lt hwide) hscaled
    rw [if_pos hwide,if_pos hwide,← hside]
    exact ⟨availW.toUInt32,_,rfl,by simp only [← gt_iff_lt,clamp_self haw]⟩
  · have hscaled : (availH.toUInt32*srcW.toUInt32/srcH.toUInt32).toNat =
        srcW.toNat*availH.toNat/srcH.toNat := by
      rw [UInt32.toNat_div,toUInt32_mul,UInt16.toNat_toUInt32,Nat.mul_comm]
    have hside := clamp_fitSide (hpos haw) (hpos hsh) (Nat.le_of_not_lt hwide) hscaled
    rw [if_neg hwide,if_neg hwide,← hside]
    exact ⟨_,availH.toUInt32,rfl,by simp only [← gt_iff_lt,clamp_self hah]⟩

end

section

variable {srcW srcH areaW areaH : UInt32}

/-- The fit of 32-bit sizes is exact and maximal, the draw rectangle has it in the middle of its
area, and the player's fit of 16-bit sizes is the same, with the same offset. -/
theorem imageFit_exact (hsw : srcW ≠ 0) (hsh : srcH ≠ 0) (haw : areaW ≠ 0) (hah : areaH ≠ 0) :
    (srcW.toUInt64*areaH.toUInt64).toNat = srcW.toNat*areaH.toNat ∧
    (srcH.toUInt64*areaW.toUInt64).toNat = srcH.toNat*areaW.toNat ∧
    ∃ w h, imageFitSizeToArea srcW srcH areaW areaH = some (w,h) ∧
      AspectFit srcW.toNat srcH.toNat areaW.toNat areaH.toNat w.toNat h.toNat ∧
      (∀ x y, x ≤ areaW.toNat → y ≤ areaH.toNat → x*srcH.toNat = y*srcW.toNat →
        x ≤ w.toNat ∧ y ≤ h.toNat) ∧
      (∀ x y : UInt32, x.toNat+areaW.toNat ≤ 2^32 → y.toNat+areaH.toNat ≤ 2^32 →
        ∃ rect, imageChooseDrawRectInArea ⟨x,y,areaW,areaH⟩ srcW srcH = some rect ∧
          rect.w = w ∧ rect.h = h ∧
          rect.x.toNat = x.toNat+(areaW.toNat-w.toNat)/2 ∧
          rect.y.toNat = y.toNat+(areaH.toNat-h.toNat)/2) ∧
      ∀ sw sh aw ah : UInt16, sw.toUInt32 = srcW → sh.toUInt32 = srcH → aw.toUInt32 = areaW →
        ah.toUInt32 = areaH →
        (zzplayGeometryFit sw sh aw ah).width.toUInt32 = w ∧
        (zzplayGeometryFit sw sh aw ah).height.toUInt32 = h ∧
        (zzplayGeometryFit sw sh aw ah).x.toInt = ((areaW.toNat-w.toNat)/2 : Nat) ∧
        (zzplayGeometryFit sw sh aw ah).y.toInt = ((areaH.toNat-h.toNat)/2 : Nat) := by
  obtain ⟨w,h,heq,hsize⟩ := imageFitSizeToArea_eq hsw hsh haw hah
  have hfit := fitSize_fit (toNat_pos_of_ne hsw) (toNat_pos_of_ne hsh) (toNat_pos_of_ne haw)
    (toNat_pos_of_ne hah)
  rw [← hsize] at hfit
  refine ⟨toUInt64_mul srcW areaH,toUInt64_mul srcH areaW,w,h,heq,hfit,?_,?_,?_⟩
  · intro x y hx hy hxy
    exact hfit.maximal (toNat_pos_of_ne hsw) (toNat_pos_of_ne hsh) hx hy hxy
  · intro x y hx hy
    have hnone : ¬ (areaW = 0 ∨ areaH = 0 ∨ srcW = 0 ∨ srcH = 0) := by
      rintro (h | h | h | h) <;> contradiction
    refine ⟨⟨x+(areaW-w)/2,y+(areaH-h)/2,w,h⟩,?_,rfl,rfl,?_,?_⟩
    · rw [imageChooseDrawRectInArea,if_neg hnone,heq]
      rfl
    · exact offset_toNat hfit.width_le hx hfit.width_pos
    · exact offset_toNat hfit.height_le hy hfit.height_pos
  · rintro sw sh aw ah rfl rfl rfl rfl
    have hne : ∀ {a : UInt16}, a.toUInt32 ≠ 0 → a ≠ 0 := by
      rintro a ha rfl
      exact ha rfl
    obtain ⟨w',h',hsize',hplay⟩ := zzplayGeometryFit_eq (hne hsw) (hne hsh) (hne haw) (hne hah)
    simp only [UInt16.toNat_toUInt32] at hsize hfit
    obtain ⟨hw,hh⟩ := Prod.mk.inj (hsize'.trans hsize.symm)
    obtain rfl := UInt32.toNat_inj.mp hw
    obtain rfl := UInt32.toNat_inj.mp hh
    have hback : ∀ {size : UInt32} {area : UInt16}, size.toNat ≤ area.toNat →
        size.toUInt16.toUInt32 = size := by
      intro size area hle
      have harea := area.toNat_lt
      rw [← UInt32.toNat_inj,UInt16.toNat_toUInt32,UInt32.toNat_toUInt16]
      exact Nat.mod_eq_of_lt (by omega)
    rw [hplay,UInt16.toNat_toUInt32,UInt16.toNat_toUInt32]
    exact ⟨hback hfit.width_le,hback hfit.height_le,offset_toInt hfit.width_le,
      offset_toInt hfit.height_le⟩

theorem imageFit_exact_thin :
    imageChooseDrawRectInArea ⟨7,9,320,200⟩ 65535 1 = some ⟨7,108,320,1⟩ ∧
      (zzplayGeometryFit 65535 1 320 200).height = 1 ∧
      (zzplayGeometryFit 65535 1 320 200).y.toInt = 99 := by
  obtain ⟨-,-,w,h,heq,-,-,hdraw,hplay⟩ := @imageFit_exact 65535 1 320 200 (by decide) (by decide)
    (by decide) (by decide)
  have hsize : imageFitSizeToArea 65535 1 320 200 = some (320,1) := by decide
  obtain ⟨rfl,rfl⟩ := Prod.mk.inj (Option.some.inj (heq.symm.trans hsize))
  obtain ⟨rect,hrect,hw,hh,hx,hy⟩ := hdraw 7 9 (by decide) (by decide)
  obtain ⟨-,hheight,-,hoff⟩ := hplay 65535 1 320 200 rfl rfl rfl rfl
  have hrect' : rect = ⟨7,108,320,1⟩ := by
    obtain ⟨x,y,rw,rh⟩ := rect
    obtain rfl : x = 7 := UInt32.toNat_inj.mp hx
    obtain rfl : y = 108 := UInt32.toNat_inj.mp hy
    obtain rfl : rw = 320 := hw
    obtain rfl : rh = 1 := hh
    rfl
  exact ⟨hrect' ▸ hrect,UInt16.toUInt32_inj.mp hheight,hoff⟩

end

end ZZ9K.Surface
