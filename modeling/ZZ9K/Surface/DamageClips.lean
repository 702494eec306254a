import Mathlib
import ZZ9K.Abi.Entry
import ZZ9K.Framework.Ask
import ZZ9K.Surface.RectFits

namespace ZZ9K.Surface

open ZZ9K.Abi ZZ9K.Framework

/-- `zz9k_image_window_rect_extents`: where the rectangle ends on the right and at the bottom -/
def rectExtents (rect : Rect) : Option (UInt32 × UInt32) :=
  if rect.w = 0 ∨ rect.h = 0 ∨ 0xffffffff-rect.w < rect.x ∨ 0xffffffff-rect.h < rect.y then none
  else some (rect.x+rect.w,rect.y+rect.h)

/-- `zz9k_image_window_intersect_rect` -/
def intersectRect (a b : Rect) : Option Rect := do
  let (aRight,aBottom) ← rectExtents a
  let (bRight,bBottom) ← rectExtents b
  let left := if b.x < a.x then a.x else b.x
  let top := if b.y < a.y then a.y else b.y
  let right := if aRight < bRight then aRight else bRight
  let bottom := if aBottom < bBottom then aBottom else bBottom
  if right ≤ left ∨ bottom ≤ top then none
  else some {x := left,y := top,w := right-left,h := bottom-top}

/-- The loop of `zz9k_image_window_build_damage_clips`, with the clips so far -/
def damageClipsLoop (damage : Rect) (capacity : UInt32) : List Rect → List Rect → Bool × List Rect
  | [],clips => (true,clips)
  | visible::rest,clips =>
    match intersectRect visible damage with
    | none => damageClipsLoop damage capacity rest clips
    | some clip =>
      if capacity.toNat ≤ clips.length then (false,[])
      else damageClipsLoop damage capacity rest (clips++[clip])

/-- `zz9k_image_window_build_damage_clips`: what it returns, and as many clips as it counts -/
def buildDamageClips (visible : List Rect) (damage : Rect) (capacity : UInt32) : Bool × List Rect :=
  match rectExtents damage with
  | none => (false,[])
  | some _ => damageClipsLoop damage capacity visible []

/-- `ZZ9KScaleImageClippedDesc` -/
structure ScaleImageClippedDesc where
  srcSurface : UInt32
  dstSurface : UInt32
  srcX : UInt32 := 0
  srcY : UInt32 := 0
  srcW : UInt32
  srcH : UInt32
  dst : Rect
  clip : Rect
  filter : UInt32
  flags : UInt32 := 0

/-- `ZZ9K_INVALID_HANDLE` -/
def invalidSurface : UInt32 := 0xffffffff

/-- `ZZ9K_SURFACE_HANDLE_FRAMEBUFFER` -/
def framebufferSurface : UInt32 := 0x80000000

/-- `zz9k_rect_is_empty` -/
def Rect.isEmpty (rect : Rect) : Bool := rect.w = 0 ∨ rect.h = 0

/-- `zz9k_image_build_surface_clipped_scale_desc` -/
def buildSurfaceClippedScaleDesc (source destination sourceWidth sourceHeight : UInt32)
    (draw clip : Rect) (filter : UInt32) : Option ScaleImageClippedDesc :=
  if draw.isEmpty ∨ clip.isEmpty ∨ source = invalidSurface ∨ destination = invalidSurface ∨
      sourceWidth = 0 ∨ sourceHeight = 0 then none
  else some {
    srcSurface := source,dstSurface := destination,srcW := sourceWidth,srcH := sourceHeight
    dst := draw,clip,filter}

/-- `zz9k_image_window_build_clipped_scale_desc`, and `zz9k_image_build_clipped_scale_desc` -/
def buildClippedScaleDesc (source sourceWidth sourceHeight : UInt32) (draw clip : Rect)
    (filter : UInt32) : Option ScaleImageClippedDesc :=
  buildSurfaceClippedScaleDesc source framebufferSurface sourceWidth sourceHeight draw clip filter

/-- `ZZ9K_IMAGE_SCALE_DEFAULT_SLICE_ROWS` -/
def scaleSliceRows : UInt32 := 96

/-- A program that calls `zz9k_scale_image_clipped` -/
abbrev Scaling := Ask ScaleImageClippedDesc fun _ => Status

/-- How many rows the next slice has -/
def nextSliceRows (endY y : UInt32) : UInt32 :=
  let remaining := endY-y
  if scaleSliceRows < remaining then scaleSliceRows else remaining

/-- The next slice has rows, no more than the slice height, and ends in the clip. -/
theorem nextSliceRows_spec {endY y : UInt32} (h : y < endY) :
    0 < (nextSliceRows endY y).toNat ∧ (nextSliceRows endY y).toNat ≤ scaleSliceRows.toNat ∧
      (y+nextSliceRows endY y).toNat = y.toNat+(nextSliceRows endY y).toNat ∧
      y.toNat+(nextSliceRows endY y).toNat ≤ endY.toNat := by
  have hlt := UInt32.lt_iff_toNat_lt.mp h
  have hsub := UInt32.toNat_sub_of_le _ _ (UInt32.le_of_lt h)
  have hend := endY.toNat_lt
  have hrows : scaleSliceRows.toNat = 96 := rfl
  rw [nextSliceRows]
  split_ifs with hmany
  · rw [UInt32.lt_iff_toNat_lt,hsub] at hmany
    have hadd : (y+scaleSliceRows).toNat = _ := toNat_add_of (by omega)
    omega
  · rw [UInt32.lt_iff_toNat_lt,hsub] at hmany
    have hadd : (y+(endY-y)).toNat = _ := toNat_add_of (by omega)
    omega

theorem nextSlice_shrinks {endY y : UInt32} (h : y < endY) :
    endY.toNat-(y+nextSliceRows endY y).toNat < endY.toNat-y.toNat := by
  have hspec := nextSliceRows_spec h
  have hlt := UInt32.lt_iff_toNat_lt.mp h
  omega

/-- The loop of `zz9k_image_window_scale_sliced` from the row `y` on -/
def scaleSlicedLoop (source sourceWidth sourceHeight : UInt32) (draw clip : Rect) (filter : UInt32)
    (endY y : UInt32) : Scaling Status :=
  if _h : y < endY then
    let rows := nextSliceRows endY y
    match buildClippedScaleDesc source sourceWidth sourceHeight draw {clip with y,h := rows} filter with
    | none => .ret .badRequest
    | some desc => .ask desc fun status =>
      if status ≠ .ok then .ret status
      else scaleSlicedLoop source sourceWidth sourceHeight draw clip filter endY (y+rows)
  else .ret .ok
termination_by endY.toNat-y.toNat
decreasing_by exact nextSlice_shrinks _h

/-- `zz9k_image_window_scale_sliced` -/
def scaleSliced (source sourceWidth sourceHeight : UInt32) (draw clip : Rect) (filter : UInt32) :
    Scaling Status :=
  if source = invalidSurface ∨ sourceWidth = 0 ∨ sourceHeight = 0 ∨ draw.w = 0 ∨ draw.h = 0 ∨
      clip.w = 0 ∨ clip.h = 0 ∨ 0xffffffff-clip.h < clip.y then .ret .badRequest
  else scaleSlicedLoop source sourceWidth sourceHeight draw clip filter (clip.y+clip.h) clip.y

/-- The pixels of a rectangle -/
def Rect.points (rect : Rect) : Set (Nat × Nat) :=
  {p | (rect.x.toNat ≤ p.1 ∧ p.1 < rect.x.toNat+rect.w.toNat) ∧
    rect.y.toNat ≤ p.2 ∧ p.2 < rect.y.toNat+rect.h.toNat}

/-- A rectangle with pixels, whose extents are words -/
structure Rect.Proper (rect : Rect) : Prop where
  width : 0 < rect.w.toNat
  height : 0 < rect.h.toNat
  right : rect.x.toNat+rect.w.toNat < 2^32
  bottom : rect.y.toNat+rect.h.toNat < 2^32

namespace Rect.Proper

variable {a b rect : Rect}

theorem nonempty (h : rect.Proper) : rect.points.Nonempty :=
  ⟨(rect.x.toNat,rect.y.toNat),⟨le_refl _,Nat.lt_add_of_pos_right h.width⟩,le_refl _,
    Nat.lt_add_of_pos_right h.height⟩

theorem extents (h : rect.Proper) : rectExtents rect = some (rect.x+rect.w,rect.y+rect.h) := by
  have hw : rect.w ≠ 0 := fun he => absurd h.width (by rw [he]; decide)
  have hh : rect.h ≠ 0 := fun he => absurd h.height (by rw [he]; decide)
  rw [rectExtents,if_neg]
  rintro (he | he | he | he)
  · exact hw he
  · exact hh he
  · exact add_guard.mpr h.right he
  · exact add_guard.mpr h.bottom he

end Rect.Proper

section

variable {a b : Rect}

theorem toNat_ite_lt (x y : UInt32) : (if x < y then x else y).toNat = min x.toNat y.toNat := by
  split_ifs with h
  · rw [UInt32.lt_iff_toNat_lt] at h
    omega
  · rw [UInt32.lt_iff_toNat_lt] at h
    omega

theorem toNat_ite_gt (x y : UInt32) : (if y < x then x else y).toNat = max x.toNat y.toNat := by
  split_ifs with h
  · rw [UInt32.lt_iff_toNat_lt] at h
    omega
  · rw [UInt32.lt_iff_toNat_lt] at h
    omega

/-- The intersection has the pixels that both have; without any there is none. -/
theorem intersectRect_spec (ha : a.Proper) (hb : b.Proper) :
    match intersectRect a b with
    | none => a.points ∩ b.points = ∅
    | some c => c.points = a.points ∩ b.points ∧ c.Proper := by
  have hleft := toNat_ite_gt a.x b.x
  have htop := toNat_ite_gt a.y b.y
  have hright := toNat_ite_lt (a.x+a.w) (b.x+b.w)
  have hbottom := toNat_ite_lt (a.y+a.h) (b.y+b.h)
  rw [toNat_add_of ha.right,toNat_add_of hb.right] at hright
  rw [toNat_add_of ha.bottom,toNat_add_of hb.bottom] at hbottom
  have haw := ha.width
  have hah := ha.height
  have har := ha.right
  have hab := ha.bottom
  rw [intersectRect,ha.extents,hb.extents]
  dsimp only [Option.bind_eq_bind,Option.bind_some]
  generalize (if b.x < a.x then a.x else b.x) = left at hleft ⊢
  generalize (if b.y < a.y then a.y else b.y) = top at htop ⊢
  generalize (if a.x+a.w < b.x+b.w then a.x+a.w else b.x+b.w) = right at hright ⊢
  generalize (if a.y+a.h < b.y+b.h then a.y+a.h else b.y+b.h) = bottom at hbottom ⊢
  by_cases hempty : right ≤ left ∨ bottom ≤ top
  · rw [if_pos hempty]
    rw [UInt32.le_iff_toNat_le,UInt32.le_iff_toNat_le,hleft,htop,hright,hbottom] at hempty
    ext p
    simp only [Rect.points,Set.mem_inter_iff,Set.mem_ofPred_eq,Set.mem_empty_iff_false,iff_false]
    omega
  · rw [if_neg hempty]
    rw [UInt32.le_iff_toNat_le,UInt32.le_iff_toNat_le,not_or,Nat.not_le,Nat.not_le] at hempty
    have hw := UInt32.toNat_sub_of_le right left (UInt32.le_iff_toNat_le.mpr hempty.1.le)
    have hh := UInt32.toNat_sub_of_le bottom top (UInt32.le_iff_toNat_le.mpr hempty.2.le)
    constructor
    · ext p
      simp only [Rect.points,Set.mem_inter_iff,Set.mem_ofPred_eq]
      omega
    · constructor <;> dsimp only <;> omega

end

/-- The rectangles that share a pixel with the damage -/
noncomputable def meeting (damage : Rect) (visible : List Rect) : List Rect :=
  open Classical in visible.filter fun rect => (rect.points ∩ damage.points).Nonempty

/-- A clip of a rectangle: what the damage has of it -/
structure ClipOf (damage rect clip : Rect) : Prop where
  points : clip.points = rect.points ∩ damage.points
  proper : clip.Proper

section

variable {damage : Rect} (hd : damage.Proper) (capacity : UInt32)
include hd

theorem damageClipsLoop_spec {visible : List Rect} (clips : List Rect)
    (hv : ∀ rect ∈ visible, rect.Proper) (hlength : clips.length ≤ capacity.toNat) :
    ∃ found, List.Forall₂ (ClipOf damage) (meeting damage visible) found ∧
      damageClipsLoop damage capacity visible clips =
        if clips.length+found.length ≤ capacity.toNat then (true,clips++found) else (false,[]) := by
  induction visible generalizing clips with
  | nil =>
    refine ⟨[],List.Forall₂.nil,?_⟩
    rw [damageClipsLoop,if_pos (by simpa using hlength),List.append_nil]
  | cons rect rest ih =>
    have hrest : ∀ r ∈ rest, r.Proper := fun r hr => hv r (List.mem_cons_of_mem _ hr)
    have hspec := intersectRect_spec (hv rect List.mem_cons_self) hd
    rw [damageClipsLoop]
    cases hclip : intersectRect rect damage with
    | none =>
      rw [hclip] at hspec
      have hmeet : meeting damage (rect::rest) = meeting damage rest := by
        simp [meeting,Set.not_nonempty_iff_eq_empty.mpr hspec]
      obtain ⟨found,hfound,hloop⟩ := ih _ hrest hlength
      exact ⟨found,hmeet ▸ hfound,hloop⟩
    | some clip =>
      rw [hclip] at hspec
      have hmeet : meeting damage (rect::rest) = rect::meeting damage rest := by
        simp [meeting,hspec.1 ▸ hspec.2.nonempty]
      dsimp only
      by_cases hfull : capacity.toNat ≤ clips.length
      · -- the rest does not matter any more: the clips are given up
        obtain ⟨found,hfound,_⟩ := ih _ hrest hlength
        refine ⟨clip::found,hmeet ▸ .cons ⟨hspec.1,hspec.2⟩ hfound,?_⟩
        rw [if_pos hfull,if_neg (by simp only [List.length_cons]; omega)]
      · have hnext : (clips++[clip]).length ≤ capacity.toNat := by
          simp only [List.length_append,List.length_singleton]
          omega
        obtain ⟨found,hfound,hloop⟩ := ih _ hrest hnext
        refine ⟨clip::found,hmeet ▸ .cons ⟨hspec.1,hspec.2⟩ hfound,?_⟩
        rw [if_neg hfull,hloop,List.append_assoc,List.singleton_append,List.length_append,
          List.length_singleton,List.length_cons,Nat.add_assoc,Nat.add_comm 1]

theorem buildDamageClips_spec {visible : List Rect} (hv : ∀ rect ∈ visible, rect.Proper) :
    ∃ found, List.Forall₂ (ClipOf damage) (meeting damage visible) found ∧
      buildDamageClips visible damage capacity =
        if found.length ≤ capacity.toNat then (true,found) else (false,[]) := by
  obtain ⟨found,hfound,hloop⟩ :=
    damageClipsLoop_spec hd capacity [] hv (Nat.zero_le _)
  refine ⟨found,hfound,?_⟩
  rw [buildDamageClips,hd.extents]
  simpa using hloop

end

/-- The slices lie on each other between two rows, as wide as the clip and at most 96 rows high. -/
def Stacked (clip : Rect) : Nat → List Rect → Nat → Prop
  | top,[],bottom => top = bottom
  | top,slice::rest,bottom =>
    (slice.x = clip.x ∧ slice.w = clip.w) ∧ slice.y.toNat = top ∧
      (0 < slice.h.toNat ∧ slice.h.toNat ≤ scaleSliceRows.toNat) ∧
      Stacked clip (top+slice.h.toNat) rest bottom

namespace Stacked

variable {clip : Rect} {slices : List Rect} {top bottom : Nat}

theorem le (h : Stacked clip top slices bottom) : top ≤ bottom := by
  induction slices generalizing top with
  | nil => exact Nat.le_of_eq h
  | cons slice rest ih => exact (Nat.le_add_right _ _).trans (ih h.2.2.2)

/-- A pixel is in a slice just when its row is between the two rows. -/
theorem mem_iff (h : Stacked clip top slices bottom) (p : Nat × Nat) :
    (∃ slice ∈ slices, p ∈ slice.points) ↔
      (clip.x.toNat ≤ p.1 ∧ p.1 < clip.x.toNat+clip.w.toNat) ∧ top ≤ p.2 ∧ p.2 < bottom := by
  induction slices generalizing top with
  | nil =>
    obtain rfl : top = bottom := h
    simp only [List.not_mem_nil,false_and,exists_false,false_iff]
    omega
  | cons slice rest ih =>
    obtain ⟨⟨hx,hw⟩,hy,_,hrest⟩ := h
    have hle := hrest.le
    rw [List.exists_mem_cons_iff,ih hrest,Rect.points,Set.mem_ofPred_eq,hx,hw,hy]
    omega

/-- No pixel is in two slices. -/
theorem pairwise_disjoint (h : Stacked clip top slices bottom) :
    slices.Pairwise fun a b => Disjoint a.points b.points := by
  induction slices generalizing top with
  | nil => exact List.Pairwise.nil
  | cons slice rest ih =>
    obtain ⟨_,hy,_,hrest⟩ := h
    refine List.Pairwise.cons (fun other hother => ?_) (ih hrest)
    rw [Set.disjoint_left]
    intro p hp hq
    have hbelow := ((mem_iff hrest p).mp ⟨other,hother,hq⟩).2.1
    have habove := hp.2.2
    omega

end Stacked

/-- The slices are the clip's rows from the first to the last, each pixel in one of them. -/
structure Tiled (clip : Rect) (slices : List Rect) : Prop where
  stacked : Stacked clip clip.y.toNat slices (clip.y.toNat+clip.h.toNat)
  points : (⋃ slice ∈ slices, slice.points) = clip.points
  disjoint : slices.Pairwise fun a b => Disjoint a.points b.points

theorem tiled_of_stacked {clip : Rect} {slices : List Rect}
    (h : Stacked clip clip.y.toNat slices (clip.y.toNat+clip.h.toNat)) : Tiled clip slices := by
  refine ⟨h,?_,h.pairwise_disjoint⟩
  ext p
  simp only [Set.mem_iUnion,exists_prop]
  exact h.mem_iff p

/-- What `zz9k_image_window_scale_sliced` is given besides the clip -/
structure ScaleRequest where
  source : UInt32
  width : UInt32
  height : UInt32
  draw : Rect
  filter : UInt32

/-- A request that can be described to the firmware -/
structure ScaleRequest.Valid (request : ScaleRequest) : Prop where
  source : request.source ≠ invalidSurface
  width : request.width ≠ 0
  height : request.height ≠ 0
  drawWidth : request.draw.w ≠ 0
  drawHeight : request.draw.h ≠ 0

/-- The description of the whole of a clip or of a slice of it -/
def ScaleRequest.desc (request : ScaleRequest) (clip : Rect) : ScaleImageClippedDesc where
  srcSurface := request.source
  dstSurface := framebufferSurface
  srcW := request.width
  srcH := request.height
  dst := request.draw
  clip := clip
  filter := request.filter

section

variable {request : ScaleRequest} (hvalid : request.Valid)
include hvalid

theorem buildClippedScaleDesc_valid {clip : Rect} (hw : clip.w ≠ 0) (hh : clip.h ≠ 0) :
    buildClippedScaleDesc request.source request.width request.height request.draw clip
      request.filter = some (request.desc clip) := by
  rw [buildClippedScaleDesc,buildSurfaceClippedScaleDesc,if_neg]
  · rfl
  · have hframe : framebufferSurface ≠ invalidSurface := by decide
    simp [Rect.isEmpty,hvalid.source,hvalid.width,hvalid.height,hvalid.drawWidth,hvalid.drawHeight,
      hw,hh,hframe]

/-- From a row of the clip on, the slices lie on each other to its end. -/
theorem scaleSlicedLoop_spec {clip : Rect} (hclip : clip.Proper) {y : UInt32}
    (hy : y.toNat ≤ clip.y.toNat+clip.h.toNat)
    {log : List (Answered ScaleImageClippedDesc fun _ => Status)} {status : Status}
    (h : Ask.Runs (scaleSlicedLoop request.source request.width request.height request.draw clip
      request.filter (clip.y+clip.h) y) log status) (hok : ∀ e ∈ log, e.2 = .ok) :
    status = .ok ∧ ∃ slices, log.map (fun e => e.1) = slices.map request.desc ∧
      Stacked clip y.toNat slices (clip.y.toNat+clip.h.toNat) := by
  have hend : (clip.y+clip.h).toNat = clip.y.toNat+clip.h.toNat := toNat_add_of hclip.bottom
  induction hn : clip.y.toNat+clip.h.toNat-y.toNat using Nat.strong_induction_on
    generalizing y log with
  | _ n ih =>
    rw [scaleSlicedLoop] at h
    by_cases hmore : y < clip.y+clip.h
    · rw [dif_pos hmore] at h
      have hshrinks := nextSlice_shrinks hmore
      obtain ⟨hpos,hmax,hadd,hinside⟩ := nextSliceRows_spec hmore
      generalize nextSliceRows (clip.y+clip.h) y = rows at h hshrinks hpos hmax hadd hinside
      have hw : clip.w ≠ 0 := fun he => absurd hclip.width (by rw [he]; decide)
      have hh : rows ≠ 0 := fun he => absurd hpos (by rw [he]; decide)
      have hdesc : buildClippedScaleDesc request.source request.width request.height request.draw
          {clip with y,h := rows} request.filter = some (request.desc {clip with y,h := rows}) :=
        buildClippedScaleDesc_valid hvalid hw hh
      dsimp only at h
      rw [hdesc] at h
      obtain ⟨answer,rest,rfl,hrun⟩ := Ask.runs_ask.mp h
      obtain rfl : answer = Status.ok := hok ⟨_,answer⟩ List.mem_cons_self
      rw [if_neg (by simp)] at hrun
      rw [hend] at hinside hshrinks
      obtain ⟨hstatus,slices,hlog,hstacked⟩ := ih _ (hn ▸ hshrinks) (hadd ▸ hinside) hrun
        (fun e he => hok e (List.mem_cons_of_mem _ he)) rfl
      refine ⟨hstatus,{clip with y,h := rows}::slices,?_,⟨rfl,rfl⟩,rfl,⟨hpos,hmax⟩,hadd ▸ hstacked⟩
      rw [List.map_cons,List.map_cons,hlog]
    · rw [dif_neg hmore] at h
      obtain ⟨rfl,rfl⟩ := Ask.runs_ret.mp h
      refine ⟨rfl,[],rfl,?_⟩
      rw [UInt32.lt_iff_toNat_lt,hend] at hmore
      exact Nat.le_antisymm hy (Nat.le_of_not_lt hmore)

/-- A clip whose calls all succeed is scaled slice by slice, and wholly. -/
theorem scaleSliced_spec {clip : Rect} (hclip : clip.Proper)
    {log : List (Answered ScaleImageClippedDesc fun _ => Status)} {status : Status}
    (h : Ask.Runs (scaleSliced request.source request.width request.height request.draw clip
      request.filter) log status) (hok : ∀ e ∈ log, e.2 = .ok) :
    status = .ok ∧ ∃ slices, log.map (fun e => e.1) = slices.map request.desc ∧
      Tiled clip slices := by
  have hw : clip.w ≠ 0 := fun he => absurd hclip.width (by rw [he]; decide)
  have hh : clip.h ≠ 0 := fun he => absurd hclip.height (by rw [he]; decide)
  have hwrap : ¬0xffffffff-clip.h < clip.y := add_guard.mpr hclip.bottom
  have hguard : ¬(request.source = invalidSurface ∨ request.width = 0 ∨ request.height = 0 ∨
      request.draw.w = 0 ∨ request.draw.h = 0 ∨ clip.w = 0 ∨ clip.h = 0 ∨
      0xffffffff-clip.h < clip.y) := by
    simp [hvalid.source,hvalid.width,hvalid.height,hvalid.drawWidth,hvalid.drawHeight,hw,hh,hwrap]
  rw [scaleSliced,if_neg hguard] at h
  obtain ⟨hstatus,slices,hlog,hstacked⟩ :=
    scaleSlicedLoop_spec hvalid hclip (Nat.le_add_right _ _) h hok
  exact ⟨hstatus,slices,hlog,tiled_of_stacked hstacked⟩

end

/-- What the clips of the damage are: together the visible damage, each of one visible rectangle. -/
structure CoversDamage (damage : Rect) (visible clips : List Rect) : Prop where
  points : (⋃ clip ∈ clips, clip.points) = damage.points ∩ ⋃ rect ∈ visible, rect.points
  each : ∃ met : List Rect, met.Sublist visible ∧ List.Forall₂ (ClipOf damage) met clips
  disjoint : ∀ a ∈ visible, ∀ b ∈ visible, Disjoint a.points b.points →
    ∀ c d, ClipOf damage a c → ClipOf damage b d → Disjoint c.points d.points

/-- The clips have the pixels that the damage shares with the rectangles they are clips of. -/
theorem clips_points {damage : Rect} {met clips : List Rect}
    (h : List.Forall₂ (ClipOf damage) met clips) (p : Nat × Nat) :
    (∃ clip ∈ clips, p ∈ clip.points) ↔ p ∈ damage.points ∧ ∃ rect ∈ met, p ∈ rect.points := by
  induction h with
  | nil => simp
  | cons hclip _ ih =>
    rw [List.exists_mem_cons_iff,List.exists_mem_cons_iff,ih,hclip.points,Set.mem_inter_iff]
    tauto

theorem clips_proper {damage : Rect} {met clips : List Rect}
    (h : List.Forall₂ (ClipOf damage) met clips) : ∀ clip ∈ clips, clip.Proper := by
  induction h with
  | nil => exact fun clip hclip => absurd hclip List.not_mem_nil
  | cons hclip _ ih => exact List.forall_mem_cons.mpr ⟨hclip.proper,ih⟩

theorem coversDamage_of_meeting {damage : Rect} {visible clips : List Rect}
    (h : List.Forall₂ (ClipOf damage) (meeting damage visible) clips) :
    CoversDamage damage visible clips := by
  refine ⟨?_,⟨_,List.filter_sublist,h⟩,?_⟩
  · ext p
    simp only [Set.mem_iUnion,exists_prop,Set.mem_inter_iff]
    rw [clips_points h]
    constructor
    · rintro ⟨hdamage,rect,hrect,hp⟩
      exact ⟨hdamage,rect,List.mem_of_mem_filter hrect,hp⟩
    · rintro ⟨hdamage,rect,hrect,hp⟩
      have hmeet : (rect.points ∩ damage.points).Nonempty := ⟨p,hp,hdamage⟩
      exact ⟨hdamage,rect,List.mem_filter.mpr ⟨hrect,by simpa using hmeet⟩,hp⟩
  · intro a _ b _ hab c d hc hd
    rw [hc.points,hd.points]
    exact hab.mono Set.inter_subset_left Set.inter_subset_left

/-- A repaint of the damage: unless more rectangles than there is room for meet it, the clips are
the visible damage, and each clip is scaled in slices that tile it. -/
theorem damageRepaint_exact {damage : Rect} {visible : List Rect} (hd : damage.Proper)
    (hv : ∀ rect ∈ visible, rect.Proper) (capacity : UInt32) :
    ((buildDamageClips visible damage capacity).1 = false ↔
      capacity.toNat < (meeting damage visible).length) ∧
    ((buildDamageClips visible damage capacity).1 = false →
      (buildDamageClips visible damage capacity).2 = []) ∧
    ((buildDamageClips visible damage capacity).1 = true →
      CoversDamage damage visible (buildDamageClips visible damage capacity).2) ∧
    ∀ clip ∈ (buildDamageClips visible damage capacity).2, ∀ request : ScaleRequest, request.Valid →
      ∀ log status, Ask.Runs (scaleSliced request.source request.width request.height request.draw
        clip request.filter) log status → (∀ e ∈ log, e.2 = .ok) →
        status = .ok ∧ ∃ slices, log.map (fun e => e.1) = slices.map request.desc ∧
          Tiled clip slices := by
  obtain ⟨found,hfound,hbuild⟩ := buildDamageClips_spec hd capacity hv
  rw [hbuild,hfound.length_eq]
  by_cases hroom : found.length ≤ capacity.toNat
  · rw [if_pos hroom]
    refine ⟨by simpa using hroom,nofun,fun _ => coversDamage_of_meeting hfound,?_⟩
    intro clip hclip request hvalid log status hrun hok
    exact scaleSliced_spec hvalid (clips_proper hfound clip hclip) hrun hok
  · rw [if_neg hroom]
    exact ⟨by simpa using hroom,fun _ => rfl,nofun,fun clip hclip => absurd hclip List.not_mem_nil⟩

theorem damageRepaint_exact_hundredRows :
    CoversDamage ⟨2,0,4,100⟩ [⟨0,0,4,300⟩,⟨50,0,1,1⟩] [⟨2,0,2,100⟩] ∧
    Tiled ⟨2,0,2,100⟩ [⟨2,0,2,96⟩,⟨2,96,2,4⟩] := by
  have hd : Rect.Proper ⟨2,0,4,100⟩ := by constructor <;> decide
  have hv : ∀ rect ∈ [(⟨0,0,4,300⟩ : Rect),⟨50,0,1,1⟩], rect.Proper := by
    intro rect hrect
    rw [List.mem_pair] at hrect
    rcases hrect with rfl | rfl <;> constructor <;> decide
  have hrequest : ScaleRequest.Valid ⟨7,20,30,⟨0,0,40,60⟩,0⟩ := by constructor <;> decide
  have hrun : Ask.Runs (scaleSliced 7 20 30 ⟨0,0,40,60⟩ ⟨2,0,2,100⟩ 0)
      [⟨ScaleRequest.desc ⟨7,20,30,⟨0,0,40,60⟩,0⟩ ⟨2,0,2,96⟩,.ok⟩,
        ⟨ScaleRequest.desc ⟨7,20,30,⟨0,0,40,60⟩,0⟩ ⟨2,96,2,4⟩,.ok⟩] .ok := by
    rw [scaleSliced,if_neg (by decide),scaleSlicedLoop,dif_pos (by decide)]
    apply Ask.Runs.ask
    rw [if_neg (by decide),scaleSlicedLoop,dif_pos (by decide)]
    apply Ask.Runs.ask
    rw [if_neg (by decide),scaleSlicedLoop,dif_neg (by decide)]
    exact .ret _
  obtain ⟨_,_,hcovers,hscaled⟩ := damageRepaint_exact hd hv 1
  obtain ⟨_,slices,hlog,htiled⟩ :=
    hscaled ⟨2,0,2,100⟩ List.mem_cons_self _ hrequest _ _ hrun (by simp)
  have hslices := congrArg (List.map ScaleImageClippedDesc.clip) hlog
  have hid : (ScaleImageClippedDesc.clip ∘ ScaleRequest.desc ⟨7,20,30,⟨0,0,40,60⟩,0⟩) = id := rfl
  rw [List.map_map,List.map_map,hid,List.map_id] at hslices
  obtain rfl : [⟨2,0,2,96⟩,⟨2,96,2,4⟩] = slices := hslices
  exact ⟨hcovers rfl,htiled⟩

end ZZ9K.Surface
