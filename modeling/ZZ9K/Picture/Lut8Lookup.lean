import Mathlib.Data.UInt
import ZZ9K.Picture.Lut8Map

namespace ZZ9K.Picture

section Distance

/-- The square of the difference of two components -/
def squaredDelta (a b : UInt8) : Nat := ((a.toNat : Int)-b.toNat).natAbs^2

/-- The squared distance of a colour from that of an entry -/
def squaredDistance (palette : PngPalette) (red green blue : UInt8) (index : Nat) : Nat :=
  squaredDelta red (palette.red index)+squaredDelta green (palette.green index)+
    squaredDelta blue (palette.blue index)

theorem squaredDelta_le (a b : UInt8) : squaredDelta a b ≤ 255^2 := by
  have ha := a.toNat_lt
  have hb := b.toNat_lt
  exact Nat.pow_le_pow_left (by omega) 2

theorem squaredDelta_comm (a b : UInt8) : squaredDelta a b = squaredDelta b a := by
  have habs : ((a.toNat : Int)-b.toNat).natAbs = ((b.toNat : Int)-a.toNat).natAbs := by omega
  rw [squaredDelta,squaredDelta,habs]

/-- A difference that is negative wraps, but its square is right. -/
theorem delta_mul_self_toNat (a b : UInt8) :
    ((a.toUInt32-b.toUInt32)*(a.toUInt32-b.toUInt32)).toNat = squaredDelta a b := by
  have hle : ∀ {a b : UInt8}, b.toNat ≤ a.toNat →
      ((a.toUInt32-b.toUInt32)*(a.toUInt32-b.toUInt32)).toNat = squaredDelta a b := by
    intro a b hba
    have ha := a.toNat_lt
    have habs : ((a.toNat : Int)-b.toNat).natAbs = a.toNat-b.toNat := by omega
    have hsquare : (a.toNat-b.toNat)*(a.toNat-b.toNat) ≤ 255*255 :=
      Nat.mul_le_mul (by omega) (by omega)
    have hsub : (a.toUInt32-b.toUInt32).toNat = a.toNat-b.toNat := by
      rw [UInt32.toNat_sub,UInt8.toNat_toUInt32,UInt8.toNat_toUInt32]
      omega
    rw [squaredDelta,habs,UInt32.toNat_mul,hsub,Nat.mod_eq_of_lt (by omega),Nat.pow_two]
  rcases Nat.le_total b.toNat a.toNat with hba | hab
  · exact hle hba
  · have hswap : (a.toUInt32-b.toUInt32)*(a.toUInt32-b.toUInt32) =
        (b.toUInt32-a.toUInt32)*(b.toUInt32-a.toUInt32) := by grind
    rw [hswap,hle hab,squaredDelta_comm]

theorem pngPaletteDistance_toNat (palette : PngPalette) (red green blue : UInt8) (index : Nat) :
    (pngPaletteDistance palette red green blue index).toNat =
      squaredDistance palette red green blue index := by
  have hred := squaredDelta_le red (palette.red index)
  have hgreen := squaredDelta_le green (palette.green index)
  have hblue := squaredDelta_le blue (palette.blue index)
  rw [pngPaletteDistance,UInt32.toNat_add,UInt32.toNat_add,delta_mul_self_toNat,delta_mul_self_toNat,
    delta_mul_self_toNat,squaredDistance]
  omega

variable {palette : PngPalette} {red green blue : UInt8}

/-- The first of the nearest entries below a bound -/
structure Nearest (palette : PngPalette) (red green blue : UInt8) (bound i : Nat) : Prop where
  lt : i < bound
  le : ∀ j < bound, squaredDistance palette red green blue i ≤
    squaredDistance palette red green blue j
  first : ∀ j < i, squaredDistance palette red green blue i <
    squaredDistance palette red green blue j

theorem nearestFrom_spec {index n best : Nat} (h : Nearest palette red green blue index best) :
    Nearest palette red green blue (index+n)
      (nearestFrom palette red green blue index n best
        (pngPaletteDistance palette red green blue best)) := by
  induction n generalizing index best with
  | zero => exact h
  | succ n ih =>
    have hplace : index+(n+1) = index+1+n := by omega
    rw [nearestFrom,hplace]
    simp only [UInt32.lt_iff_toNat_lt,pngPaletteDistance_toNat]
    split_ifs with hless
    · apply ih
      refine ⟨Nat.lt_succ_self _,fun j hj => ?_,fun j hj => ?_⟩
      · rcases Nat.lt_succ_iff_lt_or_eq.mp hj with hj | rfl
        · exact (Nat.le_of_lt hless).trans (h.le j hj)
        · exact Nat.le_refl _
      · exact Nat.lt_of_lt_of_le hless (h.le j hj)
    · apply ih
      refine ⟨Nat.lt_succ_of_lt h.lt,fun j hj => ?_,h.first⟩
      rcases Nat.lt_succ_iff_lt_or_eq.mp hj with hj | rfl
      · exact h.le j hj
      · exact Nat.le_of_not_lt hless

theorem pngNearestPaletteIndex_spec (hcount : 0 < palette.count.toNat)
    (hmost : palette.count.toNat ≤ 256) :
    Nearest palette red green blue palette.count.toNat
      (pngNearestPaletteIndex palette red green blue).toNat := by
  obtain ⟨n,hn⟩ := Nat.exists_eq_add_of_le' hcount
  have hdistance : pngPaletteDistance palette red green blue 0 < 0xffffffff := by
    have hred := squaredDelta_le red (palette.red 0)
    have hgreen := squaredDelta_le green (palette.green 0)
    have hblue := squaredDelta_le blue (palette.blue 0)
    have hmax : (0xffffffff : UInt32).toNat = 4294967295 := rfl
    rw [UInt32.lt_iff_toNat_lt,pngPaletteDistance_toNat,squaredDistance,hmax]
    omega
  have hfirst : Nearest palette red green blue 1 0 := by
    refine ⟨Nat.one_pos,fun j hj => ?_,fun j hj => absurd hj (Nat.not_lt_zero j)⟩
    rw [Nat.lt_one_iff.mp hj]
  have hspec := nearestFrom_spec (n := n) hfirst
  rw [Nat.add_comm] at hspec
  have hlt := hspec.lt
  rw [pngNearestPaletteIndex,Nat.toUInt8_eq,UInt8.toNat_ofNat',hn,nearestFrom,if_pos hdistance,
    Nat.zero_add,Nat.mod_eq_of_lt (by omega)]
  exact hspec

end Distance

section Lookup

variable {palette : PngPalette}

/-- What `zz9k_picture_png_palette_lut8_eligible` accepts -/
structure Eligible (palette : PngPalette) : Prop where
  present : palette.present = true
  count_pos : 0 < palette.count.toNat
  count_le : palette.count.toNat ≤ 256
  separate : ∀ i < palette.count.toNat, palette.transparent i = true →
    ∀ j < palette.count.toNat, palette.transparent j = false → palette.key j ≠ palette.key i

theorem eligible_of_eq_true (h : pngPaletteLut8Eligible palette = true) : Eligible palette := by
  rw [pngPaletteLut8Eligible] at h
  split_ifs at h with hbad
  simp only [not_or,Bool.not_eq_true',Bool.not_eq_false,Nat.not_lt] at hbad
  obtain ⟨hpresent,-,hzero,hmost⟩ := hbad
  refine ⟨hpresent,Nat.pos_of_ne_zero fun h => hzero (UInt16.toNat_inj.mp h),hmost,?_⟩
  intro i hi htransparent j hj hplain hkey
  obtain ⟨hred,hgreen,hblue⟩ := lut8Key_inj hkey
  rw [List.all_eq_true] at h
  have hrow := h i (List.mem_range.mpr hi)
  rw [htransparent,Bool.not_true,Bool.false_or,List.all_eq_true] at hrow
  have hcell := hrow j (List.mem_range.mpr hj)
  rw [hplain,Bool.false_or,Bool.not_eq_true',PngPalette.sameColor,decide_eq_false_iff_not] at hcell
  exact hcell ⟨hred.symm,hgreen.symm,hblue.symm⟩

theorem mem_passEntries {pass n : Nat} {x : UInt32 × UInt8} :
    x ∈ passEntries palette pass 0 n ↔
      ∃ i < n, palette.transparent i = decide (pass = 1) ∧ lut8Entry palette i = x := by
  simp only [passEntries,List.mem_map,List.mem_filter,List.mem_range'_1,Nat.zero_add,
    Nat.zero_le,true_and,decide_eq_true_eq,and_assoc]

/-- The first entry of a colour that a pass has -/
theorem find_passEntries (pass : Nat) {n i : Nat} (hi : i < n)
    (hmine : palette.transparent i = decide (pass = 1)) :
    ∃ j < n, palette.transparent j = decide (pass = 1) ∧ palette.key j = palette.key i ∧
      (passEntries palette pass 0 n).find? (fun x => x.1 = palette.key i) =
        some (lut8Entry palette j) := by
  cases hfind : (passEntries palette pass 0 n).find? (fun x => x.1 = palette.key i) with
  | none =>
    rw [List.find?_eq_none] at hfind
    exact absurd (decide_eq_true rfl) (hfind _ (mem_passEntries.mpr ⟨i,hi,hmine,rfl⟩))
  | some x =>
    obtain ⟨j,hj,hpass,rfl⟩ := mem_passEntries.mp (List.mem_of_find?_eq_some hfind)
    have hkey := List.find?_some hfind
    exact ⟨j,hj,hpass,of_decide_eq_true hkey,rfl⟩

theorem find_passEntries_none (pass n : Nat) (key : UInt32)
    (h : ∀ i < n, palette.transparent i = decide (pass = 1) → palette.key i ≠ key) :
    (passEntries palette pass 0 n).find? (fun x => x.1 = key) = none := by
  rw [List.find?_eq_none]
  intro x hx heq
  obtain ⟨i,hi,hmine,rfl⟩ := mem_passEntries.mp hx
  exact h i hi hmine (of_decide_eq_true heq)

/-- The byte that is stored, plus one, gives the index back, even where it wraps. -/
theorem stored_value {i : Nat} (hi : i < 256) : ((i.toUInt32+1).toUInt8-1).toNat = i := by
  have hone : (1 : UInt8).toNat = 1 := rfl
  have hone' : (1 : UInt32).toNat = 1 := rfl
  rw [UInt8.toNat_sub,UInt32.toNat_toUInt8,UInt32.toNat_add,Nat.toUInt32_eq,UInt32.toNat_ofNat',
    hone,hone']
  omega

/-- What a lookup of a colour must give -/
structure LooksUp (palette : PngPalette) (red green blue : UInt8) (i : Nat) : Prop where
  solid : ∀ j < palette.count.toNat, palette.transparent j = false →
    palette.key j = lut8Key red green blue →
    i < palette.count.toNat ∧ palette.transparent i = false ∧ palette.red i = red ∧
      palette.green i = green ∧ palette.blue i = blue
  transparent : ∀ j < palette.count.toNat, palette.transparent j = true →
    palette.key j = lut8Key red green blue → i = palette.transparentIndex.toNat
  nearest : (∀ j < palette.count.toNat, palette.key j ≠ lut8Key red green blue) →
    Nearest palette red green blue palette.count.toNat i

/-- Every lookup in the map of a palette gives what it must, if the transparent index is a byte
wherever an entry is transparent. -/
theorem Eligible.looksUp (h : Eligible palette)
    (hindex : ∀ i < palette.count.toNat, palette.transparent i = true →
      palette.transparentIndex.toNat < 256) {m : Lut8Map} (hm : Filled m (lut8Entries palette))
    (red green blue : UInt8) :
    ∃ i, pngLut8Lookup palette m red green blue = .ok i ∧
      LooksUp palette red green blue i.toNat := by
  have hcount := h.count_le
  have hroom : (lut8Entries palette).length < 512 := by
    have := lut8Entries_length palette
    rw [lut8Entries,List.length_append]
    omega
  refine ⟨_,pngLut8Lookup_eq hm hroom red green blue,?_⟩
  rw [lut8Entries,List.find?_append]
  generalize hkey : lut8Key red green blue = key
  by_cases hsolid : ∃ i < palette.count.toNat, palette.transparent i = false ∧ palette.key i = key
  · obtain ⟨i,hi,hplain,rfl⟩ := hsolid
    obtain ⟨j,hj,hplain',hsame,hfind⟩ := find_passEntries 0 hi hplain
    have hj' : palette.transparent j = false := hplain'
    obtain ⟨hred,hgreen,hblue⟩ := lut8Key_inj (hkey.trans hsame.symm)
    rw [hfind]
    have hvalue : ((lut8Entry palette j).2-1).toNat = j := by
      rw [lut8Entry,hj']
      exact stored_value (by omega)
    simp only [Option.some_or,Option.map_some,Option.getD_some,hvalue]
    refine ⟨fun _ _ _ _ => ⟨hj,hj',hred.symm,hgreen.symm,hblue.symm⟩,fun k hk htransparent hk' => ?_,
      fun hnone => ?_⟩
    · exact absurd (hkey ▸ hk').symm (h.separate k hk htransparent i hi hplain)
    · exact absurd hkey.symm (hnone i hi)
  have hfirst := find_passEntries_none 0 palette.count.toNat key
    fun i hi hplain heq => hsolid ⟨i,hi,hplain,heq⟩
  rw [hfirst,Option.none_or]
  by_cases hclear : ∃ i < palette.count.toNat, palette.transparent i = true ∧ palette.key i = key
  · obtain ⟨i,hi,htransparent,rfl⟩ := hclear
    obtain ⟨j,hj,htransparent',hsame,hfind⟩ := find_passEntries 1 hi htransparent
    have hj' : palette.transparent j = true := htransparent'
    have hvalue : ((lut8Entry palette j).2-1).toNat = palette.transparentIndex.toNat := by
      have hsmall := hindex j hj hj'
      have hcast : palette.transparentIndex.toUInt32 = palette.transparentIndex.toNat.toUInt32 := by
        rw [← UInt32.toNat_inj,UInt16.toNat_toUInt32,Nat.toUInt32_eq,UInt32.toNat_ofNat']
        omega
      rw [lut8Entry,hj',if_pos rfl,hcast]
      exact stored_value hsmall
    rw [hfind,Option.map_some,Option.getD_some,hvalue]
    refine ⟨fun k hk hplain hk' => ?_,fun _ _ _ _ => rfl,fun hnone => ?_⟩
    · exact absurd ⟨k,hk,hplain,hk'.trans hkey⟩ hsolid
    · exact absurd hkey.symm (hnone i hi)
  have hsecond := find_passEntries_none 1 palette.count.toNat key
    fun i hi htransparent heq => hclear ⟨i,hi,htransparent,heq⟩
  rw [hsecond,Option.map_none,Option.getD_none]
  refine ⟨fun k hk hplain hk' => ?_,fun k hk htransparent hk' => ?_,fun _ => ?_⟩
  · exact absurd ⟨k,hk,hplain,hk'.trans hkey⟩ hsolid
  · exact absurd ⟨k,hk,htransparent,hk'.trans hkey⟩ hclear
  · exact pngNearestPaletteIndex_spec h.count_pos h.count_le

end Lookup

end ZZ9K.Picture
