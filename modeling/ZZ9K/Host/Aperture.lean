import Mathlib
import ZZ9K.Host.CallProg
import ZZ9K.Host.Requests

namespace ZZ9K.Host

open ZZ9K.Abi

/-- The addresses from `base` on, `size` of them, without wrapping -/
def region (base size : UInt32) : Set Nat := Set.Ico base.toNat (base.toNat+size.toNat)

theorem disjoint_region {a n b m : UInt32} (h : a.toNat+n.toNat ≤ b.toNat ∨
    b.toNat+m.toNat ≤ a.toNat ∨ n = 0 ∨ m = 0) : Disjoint (region a n) (region b m) := by
  rw [region,region,Set.Ico_disjoint_Ico]
  rcases h with h | h | rfl | rfl
  · exact (min_le_left _ _).trans (h.trans (le_max_right _ _))
  · exact (min_le_right _ _).trans (h.trans (le_max_left _ _))
  · simp
  · simp

theorem toNat_pos_of_ne_zero {length : UInt32} (h : length ≠ 0) : 0 < length.toNat := by
  rw [Nat.pos_iff_ne_zero]
  exact fun h0 => h (UInt32.toNat_inj.mp h0)

/-- The largest address a range may start at without wrapping -/
theorem toNat_lastStart {length : UInt32} (h : length ≠ 0) :
    (0xffffffff-(length-1)).toNat = 2^32-length.toNat := by
  have hl := length.toNat_lt
  have hpos := toNat_pos_of_ne_zero h
  have hone : (length-1).toNat = length.toNat-1 := by
    rw [UInt32.toNat_sub_of_le _ _ (UInt32.le_iff_toNat_le.mpr (by simp; omega))]
    rfl
  rw [UInt32.toNat_sub_of_le _ _ (UInt32.le_iff_toNat_le.mpr (by rw [hone]; simp; omega)),hone]
  simp
  omega

/-- The last address of a range that does not wrap -/
theorem toNat_lastAddr {armAddr length : UInt32} (h : length ≠ 0)
    (hroom : armAddr.toNat+length.toNat ≤ 2^32) :
    (armAddr+length-1).toNat = armAddr.toNat+length.toNat-1 := by
  have hpos := toNat_pos_of_ne_zero h
  rw [UInt32.toNat_sub,UInt32.toNat_add,show (1:UInt32).toNat = 1 from rfl]
  omega

/-- `zz9k_board_range_fits` -/
def boardRangeFits (boardSize boardOffset length : UInt32) : Bool :=
  if length = 0 ∨ 0xffffffff-(length-1) < boardOffset then false
  else if boardSize ≠ 0 ∧ (boardSize ≤ boardOffset ∨ boardSize-boardOffset < length) then false
  else true

/-- A nonempty range fits when it does not wrap and ends inside a board of known size. -/
theorem boardRangeFits_iff {boardSize boardOffset length : UInt32} :
    boardRangeFits boardSize boardOffset length = true ↔ length ≠ 0 ∧
      boardOffset.toNat+length.toNat ≤ 2^32 ∧
      (boardSize ≠ 0 → boardOffset.toNat+length.toNat ≤ boardSize.toNat) := by
  have hl := length.toNat_lt
  have ho := boardOffset.toNat_lt
  have hs := boardSize.toNat_lt
  unfold boardRangeFits
  by_cases h0 : length = 0
  · simp [h0]
  have hpos := toNat_pos_of_ne_zero h0
  have hlast := toNat_lastStart h0
  simp only [h0,false_or,not_false_iff,true_and,UInt32.lt_iff_toNat_lt,UInt32.le_iff_toNat_le,hlast,
    ne_eq]
  by_cases hb : boardSize = 0
  · simp [hb]
    omega
  by_cases hin : boardOffset.toNat < boardSize.toNat
  · have hsub : (boardSize-boardOffset).toNat = boardSize.toNat-boardOffset.toNat :=
      UInt32.toNat_sub_of_le _ _ (UInt32.le_iff_toNat_le.mpr hin.le)
    simp [hb,hsub]
    omega
  · simp [hb]
    omega

def mappedIoArmStart : UInt32 := 0x3fe40000
def mappedIoBoardOffset : UInt32 := 0x0000a000
def mappedIoWindowSize : UInt32 := 0x00006000
def armMemoryStart : UInt32 := 0x00200000
def amigaMemoryOffset : UInt32 := 0x00010000
def armMemoryVisibleEnd : UInt32 := 0x101f0000

/-- `zz9k_arm_range_to_board_offset` -/
def armRangeToBoardOffset (boardSize armAddr length : UInt32) : Option UInt32 :=
  if length = 0 ∨ 0xffffffff-(length-1) < armAddr then none
  else
    let lastAddr := armAddr+length-1
    if mappedIoArmStart ≤ armAddr ∧ lastAddr < mappedIoArmStart+mappedIoWindowSize then
      let offset := mappedIoBoardOffset+(armAddr-mappedIoArmStart)
      if boardRangeFits boardSize offset length then some offset else none
    else if armAddr < armMemoryStart ∨ armMemoryVisibleEnd < lastAddr then none
    else
      let offset := amigaMemoryOffset+(armAddr-armMemoryStart)
      if boardRangeFits boardSize offset length then some offset else none

/-- What is translated at all lies on the board. -/
theorem armRangeToBoardOffset_fits {boardSize armAddr length offset : UInt32}
    (h : armRangeToBoardOffset boardSize armAddr length = some offset) :
    boardRangeFits boardSize offset length = true := by
  unfold armRangeToBoardOffset at h
  dsimp only at h
  split_ifs at h with _ _ hf _ hf
  · exact Option.some.inj h ▸ hf
  · exact Option.some.inj h ▸ hf

/-- A stretch of the ARM address space that the board shows, `size` bytes of it, from `armStart`
there and from `boardStart` on the board -/
structure ArmWindow where
  armStart : UInt32
  boardStart : UInt32
  size : UInt32
  deriving DecidableEq, Repr

/-- `ZZ9K_AMIGA_MEMORY_LIMIT` -/
def amigaMemoryLimit : UInt32 := 0x10000000

def mappedIoWindow : ArmWindow := ⟨mappedIoArmStart,mappedIoBoardOffset,mappedIoWindowSize⟩
def amigaMemoryWindow : ArmWindow :=
  ⟨armMemoryStart,amigaMemoryOffset,amigaMemoryLimit-amigaMemoryOffset⟩

/-- The board byte that shows the byte at ARM address `a` -/
def ArmWindow.toBoard (w : ArmWindow) (a : Nat) : Nat := w.boardStart.toNat+(a-w.armStart.toNat)

theorem ArmWindow.image_toBoard (w : ArmWindow) {armAddr length offset : UInt32}
    (hstart : w.armStart.toNat ≤ armAddr.toNat) (h : offset.toNat = w.toBoard armAddr.toNat) :
    w.toBoard '' region armAddr length = region offset length := by
  rw [toBoard] at h
  ext b
  simp only [region,Set.mem_image,Set.mem_Ico,toBoard]
  constructor
  · intro ⟨a,ha,hb⟩
    omega
  · intro hb
    exact ⟨b-w.boardStart.toNat+w.armStart.toNat,by omega,by omega⟩

/-- The range was translated within the window, perhaps out of its end. -/
structure ArmWindow.Shows (w : ArmWindow) (armAddr offset : UInt32) : Prop where
  start : w.armStart.toNat ≤ armAddr.toNat
  offset : offset.toNat = w.toBoard armAddr.toNat

/-- Everything an accepted range says: the window it was translated in, and where it ends -/
theorem armRangeToBoardOffset_shows {boardSize armAddr length offset : UInt32}
    (h : armRangeToBoardOffset boardSize armAddr length = some offset) :
    length ≠ 0 ∧
      (mappedIoWindow.Shows armAddr offset ∧ armAddr.toNat+length.toNat ≤ 0x3fe46000 ∨
        amigaMemoryWindow.Shows armAddr offset ∧ armAddr.toNat+length.toNat ≤ 0x101f0001) := by
  have hfits := boardRangeFits_iff.mp (armRangeToBoardOffset_fits h)
  have ha := armAddr.toNat_lt
  have hl := length.toNat_lt
  have hpos := toNat_pos_of_ne_zero hfits.1
  unfold armRangeToBoardOffset at h
  dsimp only at h
  split at h
  · cases h
  rename_i hwrap
  simp only [not_or,UInt32.lt_iff_toNat_lt,not_lt] at hwrap
  have hroom : armAddr.toNat+length.toNat ≤ 2^32 := by
    rw [toNat_lastStart hfits.1] at hwrap
    omega
  have hlast := toNat_lastAddr hfits.1 hroom
  refine ⟨hfits.1,?_⟩
  split_ifs at h with hio hf hmem hf
  · left
    obtain ⟨hlow,hhigh⟩ := hio
    rw [UInt32.lt_iff_toNat_lt,hlast] at hhigh
    rw [UInt32.le_iff_toNat_le] at hlow
    simp only [mappedIoArmStart,mappedIoWindowSize,UInt32.reduceAdd,UInt32.reduceToNat]
      at hlow hhigh
    refine ⟨⟨hlow,?_⟩,by omega⟩
    obtain rfl := Option.some.inj h
    simp only [ArmWindow.toBoard,mappedIoWindow,mappedIoBoardOffset,mappedIoArmStart,
      UInt32.toNat_add,UInt32.toNat_sub,UInt32.reduceToNat]
    omega
  · right
    rw [not_or,UInt32.not_lt,UInt32.not_lt,UInt32.le_iff_toNat_le,UInt32.le_iff_toNat_le,hlast]
      at hmem
    simp only [armMemoryStart,armMemoryVisibleEnd,UInt32.reduceToNat] at hmem
    refine ⟨⟨hmem.1,?_⟩,by omega⟩
    obtain rfl := Option.some.inj h
    simp only [ArmWindow.toBoard,amigaMemoryWindow,amigaMemoryOffset,armMemoryStart,
      UInt32.toNat_add,UInt32.toNat_sub,UInt32.reduceToNat]
    omega

/-- Where a translated range should lie: inside one window that shows it byte for byte, on the
board where its size is known, and apart from what disjoint ranges are translated to. -/
structure Translated (boardSize armAddr length offset : UInt32) : Prop where
  window : ∃ w, (w = mappedIoWindow ∨ w = amigaMemoryWindow) ∧
    (∀ a ∈ region armAddr length, w.armStart.toNat ≤ a) ∧
    w.toBoard '' region armAddr length = region offset length ∧
    region offset length ⊆ region w.boardStart w.size
  board : boardSize ≠ 0 → offset.toNat+length.toNat ≤ boardSize.toNat
  apart : ∀ armAddr' length' offset',
    armRangeToBoardOffset boardSize armAddr' length' = some offset' →
    Disjoint (region armAddr length) (region armAddr' length') →
    Disjoint (region offset length) (region offset' length')

theorem armRangeToBoardOffset_apart {boardSize armAddr length offset armAddr' length' offset' :
    UInt32} (h : armRangeToBoardOffset boardSize armAddr length = some offset)
    (h' : armRangeToBoardOffset boardSize armAddr' length' = some offset')
    (hd : Disjoint (region armAddr length) (region armAddr' length')) :
    Disjoint (region offset length) (region offset' length') := by
  obtain ⟨hne,hw⟩ := armRangeToBoardOffset_shows h
  obtain ⟨hne',hw'⟩ := armRangeToBoardOffset_shows h'
  have hpos := toNat_pos_of_ne_zero hne
  have hpos' := toNat_pos_of_ne_zero hne'
  have hd : armAddr.toNat+length.toNat ≤ armAddr'.toNat ∨
      armAddr'.toNat+length'.toNat ≤ armAddr.toNat := by
    rw [region,region,Set.Ico_disjoint_Ico] at hd
    omega
  apply disjoint_region
  rcases hw with ⟨⟨hs,ho⟩,he⟩ | ⟨⟨hs,ho⟩,he⟩ <;> rcases hw' with ⟨⟨hs',ho'⟩,he'⟩ | ⟨⟨hs',ho'⟩,he'⟩
  all_goals
    simp only [ArmWindow.toBoard,mappedIoWindow,mappedIoBoardOffset,mappedIoArmStart,
      amigaMemoryWindow,amigaMemoryOffset,armMemoryStart,UInt32.reduceToNat] at hs ho hs' ho'
    omega

/-- The range ends with the byte at `ZZ9K_ARM_MEMORY_VISIBLE_END`, the first one that is no longer
visible, and no known board size keeps it out. -/
def EndsOnVisibleEnd (boardSize armAddr length : UInt32) : Prop :=
  length ≠ 0 ∧ armMemoryStart ≤ armAddr ∧
    armAddr.toNat+length.toNat = armMemoryVisibleEnd.toNat+1 ∧
    (boardSize = 0 ∨ amigaMemoryLimit < boardSize)

instance (boardSize armAddr length : UInt32) :
    Decidable (EndsOnVisibleEnd boardSize armAddr length) :=
  inferInstanceAs (Decidable (_ ∧ _))

theorem toNat_memoryOffset {armAddr : UInt32} (h : armMemoryStart ≤ armAddr) :
    (amigaMemoryOffset+(armAddr-armMemoryStart)).toNat = armAddr.toNat-0x1f0000 := by
  have ha := armAddr.toNat_lt
  rw [UInt32.le_iff_toNat_le] at h
  simp only [armMemoryStart,UInt32.reduceToNat] at h
  simp only [amigaMemoryOffset,armMemoryStart,UInt32.toNat_add,UInt32.toNat_sub,
    UInt32.reduceToNat]
  omega

/-- The end of the visible memory is compared as if it were its last byte. -/
theorem armRangeToBoardOffset_visibleEnd {boardSize armAddr length : UInt32}
    (h : EndsOnVisibleEnd boardSize armAddr length) :
    armRangeToBoardOffset boardSize armAddr length =
      some (amigaMemoryOffset+(armAddr-armMemoryStart)) := by
  obtain ⟨hne,hlow,hend,hboard⟩ := h
  have hpos := toNat_pos_of_ne_zero hne
  have hoff := toNat_memoryOffset hlow
  rw [UInt32.le_iff_toNat_le] at hlow
  simp only [armMemoryStart,armMemoryVisibleEnd,UInt32.reduceToNat] at hlow hend
  have hlast : (armAddr+length-1).toNat = 0x101f0000 := by
    rw [toNat_lastAddr hne (by omega)]
    omega
  have hfits : boardRangeFits boardSize (amigaMemoryOffset+(armAddr-armMemoryStart)) length =
      true := by
    refine boardRangeFits_iff.mpr ⟨hne,by omega,fun hb => ?_⟩
    have hlt := UInt32.lt_iff_toNat_lt.mp (hboard.resolve_left hb)
    simp only [amigaMemoryLimit,UInt32.reduceToNat] at hlt
    omega
  unfold armRangeToBoardOffset
  rw [if_neg]
  · dsimp only
    rw [if_neg,if_neg,if_pos hfits]
    · rw [not_or,UInt32.not_lt,UInt32.not_lt,UInt32.le_iff_toNat_le,UInt32.le_iff_toNat_le,hlast]
      exact ⟨hlow,le_refl _⟩
    · rw [UInt32.le_iff_toNat_le]
      simp only [mappedIoArmStart,UInt32.reduceToNat]
      omega
  · rw [not_or,UInt32.not_lt,UInt32.le_iff_toNat_le,toNat_lastStart hne]
    exact ⟨hne,by omega⟩

/-- A translated range lies where it should unless it ends on the visible end; there, its last
byte is shown one byte past the memory window. -/
theorem armRangeToBoardOffset_translated_iff (boardSize armAddr length : UInt32) :
    (∀ offset, armRangeToBoardOffset boardSize armAddr length = some offset →
      Translated boardSize armAddr length offset) ↔
    ¬EndsOnVisibleEnd boardSize armAddr length := by
  constructor
  · intro h hend
    obtain ⟨w,hw,_,_,hsub⟩ := (h _ (armRangeToBoardOffset_visibleEnd hend)).window
    obtain ⟨hne,hlow,hsum,_⟩ := hend
    have hpos := toNat_pos_of_ne_zero hne
    have hoff := toNat_memoryOffset hlow
    rw [UInt32.le_iff_toNat_le] at hlow
    simp only [armMemoryStart,armMemoryVisibleEnd,UInt32.reduceToNat] at hlow hsum
    have hmem := hsub (show 0x10000000 ∈ _ by rw [region,Set.mem_Ico,hoff]; omega)
    rcases hw with rfl | rfl
    · exact absurd hmem (by simp [region,mappedIoWindow,mappedIoBoardOffset,mappedIoWindowSize])
    · exact absurd hmem (by
        simp [region,amigaMemoryWindow,amigaMemoryOffset,amigaMemoryLimit])
  · intro hend offset h
    obtain ⟨hne,hw⟩ := armRangeToBoardOffset_shows h
    have hfits := boardRangeFits_iff.mp (armRangeToBoardOffset_fits h)
    refine ⟨?_,hfits.2.2,fun _ _ _ h' hd => armRangeToBoardOffset_apart h h' hd⟩
    rcases hw with ⟨hs,he⟩ | ⟨hs,he⟩
    · refine ⟨mappedIoWindow,Or.inl rfl,fun a ha => hs.start.trans ha.1,
        mappedIoWindow.image_toBoard hs.start hs.offset,?_⟩
      have hstart := hs.start
      have ho := hs.offset
      simp only [ArmWindow.toBoard,mappedIoWindow,mappedIoBoardOffset,mappedIoArmStart,
        mappedIoWindowSize,UInt32.reduceToNat] at hstart ho ⊢
      exact Set.Ico_subset_Ico (by simp; omega) (by simp; omega)
    · refine ⟨amigaMemoryWindow,Or.inr rfl,fun a ha => hs.start.trans ha.1,
        amigaMemoryWindow.image_toBoard hs.start hs.offset,?_⟩
      have hstart := hs.start
      have ho := hs.offset
      simp only [ArmWindow.toBoard,amigaMemoryWindow,amigaMemoryOffset,armMemoryStart,
        UInt32.reduceToNat] at hstart ho
      have hlast : armAddr.toNat+length.toNat ≠ 0x101f0001 := by
        intro hsum
        refine hend ⟨hne,UInt32.le_iff_toNat_le.mpr hstart,hsum,?_⟩
        by_cases hb : boardSize = 0
        · exact Or.inl hb
        · have hin := hfits.2.2 hb
          exact Or.inr (UInt32.lt_iff_toNat_lt.mpr (by
            simp only [amigaMemoryLimit,UInt32.reduceToNat]
            omega))
      refine Set.Ico_subset_Ico ?_ ?_ <;>
        simp [amigaMemoryWindow,amigaMemoryOffset,amigaMemoryLimit] <;> omega

/-- On a board of unknown size, the byte at the visible end is shown at the limit itself. -/
theorem armRangeToBoardOffset_not_translated :
    armRangeToBoardOffset 0 armMemoryVisibleEnd 1 = some amigaMemoryLimit ∧
      ¬Translated 0 armMemoryVisibleEnd 1 amigaMemoryLimit := by
  refine ⟨by decide,fun h => ?_⟩
  obtain ⟨w,hw,_,_,hsub⟩ := h.window
  have hmem := hsub (show 0x10000000 ∈ region amigaMemoryLimit 1 by simp [region,amigaMemoryLimit])
  rcases hw with rfl | rfl
  · simp [region,mappedIoWindow,mappedIoBoardOffset,mappedIoWindowSize] at hmem
  · simp [region,amigaMemoryWindow,amigaMemoryOffset,amigaMemoryLimit] at hmem

/-- `zz9k_arm_range_to_board_ptr`; zero is the null pointer. -/
def armRangeToBoardPtr (boardAddr boardSize armAddr length : UInt32) : UInt32 :=
  if boardAddr = 0 then 0
  else match armRangeToBoardOffset boardSize armAddr length with
    | none => 0
    | some offset => boardAddr+offset

def capHostWindowHeap : UInt32 := 0x00100000
def capApertureLayout : UInt32 := 0x01000000
def apertureFlagValid : UInt32 := 1
def apertureFlagAcked : UInt32 := 2
def apertureFlagHostWindow : UInt32 := 4
def apertureFlagPip : UInt32 := 8

/-- `ZZ9K_Z2_DIRECT_REGION_CARVE` -/
def z2DirectRegionCarve : UInt32 := 0x0000c000

/-- `ZZ9K_APERTURE_PROFILE` -/
def apertureProfile (generation flags : UInt32) : UInt32 :=
  (generation <<< 16) ||| (flags &&& 0xffff)

/-- `zz9k_expected_aperture_layout_gen` -/
def expectedApertureLayoutGen (apertureSize generation : UInt32) : Option ApertureLayout :=
  if generation < 1 ∨ 2 < generation then none
  else
    let flags := apertureFlagValid ||| apertureFlagHostWindow
    let layout : ApertureLayout :=
      {apertureSize,framebufferBase := 0x00010000,templateSize := 0x00010000,
        audioSize := 0x00010000}
    let carve := if 2 ≤ generation then z2DirectRegionCarve else 0
    if apertureSize = 0x00200000 then
      some {layout with
        framebufferSize := 0x001c0000
        templateBase := 0x001d0000
        hostBase := 0x001e0000
        hostSize := 0x00010000-carve
        audioBase := 0x001f0000
        profile := apertureProfile generation flags}
    else if apertureSize = 0x00400000 then
      some {layout with
        framebufferSize := 0x00388000
        pipBase := 0x00398000
        pipSize := 0x00038000
        templateBase := 0x003d0000
        hostBase := 0x003e0000
        hostSize := 0x00010000-carve
        audioBase := 0x003f0000
        profile := apertureProfile generation (flags ||| apertureFlagPip)}
    else if apertureSize = 0x00800000 then
      some {layout with
        framebufferSize := 0x00770000
        pipBase := 0x00780000
        pipSize := 0x00040000
        templateBase := 0x007c0000
        hostBase := 0x007d0000
        hostSize := 0x00020000-carve
        audioBase := 0x007f0000
        profile := apertureProfile generation (flags ||| apertureFlagPip)}
    else none

/-- `zz9k_aperture_layout_matches` -/
def apertureLayoutMatches (board : Board) (layout : ApertureLayout) : Bool :=
  if board.zorroVersion ≠ 2 ∨ board.boardSize = 0 ∨ layout.apertureSize ≠ board.boardSize then false
  else match expectedApertureLayoutGen board.boardSize ((layout.profile &&& 0xffff0000) >>> 16) with
    | none => false
    | some expected =>
        if boardRangeFits layout.apertureSize layout.framebufferBase layout.framebufferSize = false ∨
            boardRangeFits layout.apertureSize layout.templateBase layout.templateSize = false ∨
            boardRangeFits layout.apertureSize layout.hostBase layout.hostSize = false ∨
            boardRangeFits layout.apertureSize layout.audioBase layout.audioSize = false ∨
            ((layout.pipBase ≠ 0 ∨ layout.pipSize ≠ 0) ∧
              boardRangeFits layout.apertureSize layout.pipBase layout.pipSize = false) then false
        else (layout.profile = expected.profile ∨
              layout.profile = expected.profile ||| apertureFlagAcked) ∧
            layout.framebufferBase = expected.framebufferBase ∧
            layout.framebufferSize = expected.framebufferSize ∧
            layout.pipBase = expected.pipBase ∧ layout.pipSize = expected.pipSize ∧
            layout.templateBase = expected.templateBase ∧
            layout.templateSize = expected.templateSize ∧
            layout.hostBase = expected.hostBase ∧ layout.hostSize = expected.hostSize ∧
            layout.audioBase = expected.audioBase ∧ layout.audioSize = expected.audioSize

/-- The regions of a layout lie inside its aperture, which is the board. -/
structure ApertureLayout.Sound (board : Board) (layout : ApertureLayout) : Prop where
  aperture : layout.apertureSize = board.boardSize
  framebuffer : layout.framebufferBase.toNat+layout.framebufferSize.toNat ≤
    layout.apertureSize.toNat
  pip : layout.pipBase.toNat+layout.pipSize.toNat ≤ layout.apertureSize.toNat
  template : layout.templateBase.toNat+layout.templateSize.toNat ≤ layout.apertureSize.toNat
  host : layout.hostBase.toNat+layout.hostSize.toNat ≤ layout.apertureSize.toNat
  audio : layout.audioBase.toNat+layout.audioSize.toNat ≤ layout.apertureSize.toNat

theorem apertureLayoutMatches_sound {board : Board} {layout : ApertureLayout}
    (h : apertureLayoutMatches board layout = true) : layout.Sound board := by
  unfold apertureLayoutMatches at h
  split at h
  · exact absurd h (by simp)
  rename_i h0
  simp only [not_or,not_not] at h0
  obtain ⟨_,hsize,hap⟩ := h0
  split at h
  · exact absurd h (by simp)
  split at h
  · exact absurd h (by simp)
  rename_i hfits
  simp only [not_or,Bool.not_eq_false,not_and] at hfits
  obtain ⟨h1,h2,h3,h4,h5⟩ := hfits
  have hne : layout.apertureSize ≠ 0 := by rwa [hap]
  have bound : ∀ {base size : UInt32}, boardRangeFits layout.apertureSize base size = true →
      base.toNat+size.toNat ≤ layout.apertureSize.toNat :=
    fun hf => (boardRangeFits_iff.mp hf).2.2 hne
  refine ⟨hap,bound h1,?_,bound h2,bound h3,bound h4⟩
  by_cases hp : layout.pipBase ≠ 0 ∨ layout.pipSize ≠ 0
  · exact bound (h5 hp)
  · rw [not_or,not_not,not_not] at hp
    simp [hp.1,hp.2]

/-- `zz9k_aperture_range_free` -/
def apertureRangeFree (layout : ApertureLayout) (offset length : UInt32) : Bool :=
  let last := offset+length
  if length = 0 ∨ last < offset ∨ layout.apertureSize < last then false
  else if offset < layout.hostBase+layout.hostSize ∨ layout.audioBase < last then false
  else if layout.framebufferSize ≠ 0 ∧ offset < layout.framebufferBase+layout.framebufferSize ∧
      layout.framebufferBase < last then false
  else if layout.pipSize ≠ 0 ∧ offset < layout.pipBase+layout.pipSize ∧ layout.pipBase < last then
    false
  else if layout.templateSize ≠ 0 ∧ offset < layout.templateBase+layout.templateSize ∧
      layout.templateBase < last then false
  else if layout.hostSize ≠ 0 ∧ offset < layout.hostBase+layout.hostSize ∧ layout.hostBase < last
    then false
  else if layout.audioSize ≠ 0 ∧ offset < layout.audioBase+layout.audioSize ∧
      layout.audioBase < last then false
  else true

/-- The range lies in the aperture, outside everything the layout reports. -/
structure ApertureLayout.Unreported (layout : ApertureLayout) (offset length : UInt32) : Prop where
  inside : offset.toNat+length.toNat ≤ layout.apertureSize.toNat
  framebuffer : Disjoint (region offset length)
    (region layout.framebufferBase layout.framebufferSize)
  pip : Disjoint (region offset length) (region layout.pipBase layout.pipSize)
  template : Disjoint (region offset length) (region layout.templateBase layout.templateSize)
  host : Disjoint (region offset length) (region layout.hostBase layout.hostSize)
  audio : Disjoint (region offset length) (region layout.audioBase layout.audioSize)

/-- The tests in 32 bits mean what they say, as no region of a sound layout wraps. -/
theorem apertureRangeFree_unreported {board : Board} {layout : ApertureLayout}
    (hl : layout.Sound board) {offset length : UInt32}
    (h : apertureRangeFree layout offset length = true) : layout.Unreported offset length := by
  have hsize := layout.apertureSize.toNat_lt
  have ho := offset.toNat_lt
  have hlen := length.toNat_lt
  have sum : ∀ {base size : UInt32}, base.toNat+size.toNat ≤ layout.apertureSize.toNat →
      (base+size).toNat = base.toNat+size.toNat := by
    intro base size hb
    rw [UInt32.toNat_add]
    exact Nat.mod_eq_of_lt (by omega)
  unfold apertureRangeFree at h
  dsimp only at h
  split_ifs at h with h0 h1 h2 h3 h4 h5 h6
  have hlast : (offset+length).toNat = offset.toNat+length.toNat := by
    have hle : offset.toNat ≤ (offset+length).toNat := by
      simpa [UInt32.lt_iff_toNat_lt] using fun hc => h0 (Or.inr (Or.inl hc))
    rw [UInt32.toNat_add] at hle ⊢
    have := Nat.div_add_mod (offset.toNat+length.toNat) (2^32)
    have hq : (offset.toNat+length.toNat)/2^32 = 0 ∨ (offset.toNat+length.toNat)/2^32 = 1 := by
      omega
    rcases hq with hq | hq <;> omega
  have apart : ∀ {base size : UInt32}, base.toNat+size.toNat ≤ layout.apertureSize.toNat →
      ¬(size ≠ 0 ∧ offset < base+size ∧ base < offset+length) →
      Disjoint (region offset length) (region base size) := by
    intro base size hb hx
    refine disjoint_region ?_
    by_cases hz : size = 0
    · exact Or.inr (Or.inr (Or.inr hz))
    simp only [ne_eq,hz,not_false_iff,true_and,not_and,UInt32.lt_iff_toNat_lt,sum hb,hlast] at hx
    omega
  refine ⟨?_,apart hl.framebuffer h2,apart hl.pip h3,apart hl.template h4,apart hl.host h5,
    apart hl.audio h6⟩
  have hin : (offset+length).toNat ≤ layout.apertureSize.toNat := by
    simpa [UInt32.lt_iff_toNat_lt] using fun hc => h0 (Or.inr (Or.inr hc))
  rwa [hlast] at hin

end ZZ9K.Host
