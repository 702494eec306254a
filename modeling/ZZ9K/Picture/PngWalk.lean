import Mathlib.Logic.Relation
import ZZ9K.Math.ByteBits
import ZZ9K.Picture.Dimensions

namespace ZZ9K.Picture

open Relation
open ZZ9K.Math

section Alphas

/-- `(transparent_mask[index >> 3] >> (index & 7U)) & 1U` -/
def maskBit (mask : List UInt8) (index : Nat) : Bool :=
  (mask.getD (index/8) 0 >>> (index%8).toUInt8) &&& 1 ≠ 0

/-- The first entry that is fully transparent, counted from an index on -/
def firstZero : List UInt8 → Nat → Option Nat
  | [],_ => none
  | alpha::alphas,index => if alpha = 0 then some index else firstZero alphas (index+1)

theorem firstZero_bounds {alphas : List UInt8} {index i : Nat} (h : firstZero alphas index = some i) :
    index ≤ i ∧ i < index+alphas.length ∧ alphas[i-index]? = some 0 := by
  induction alphas generalizing index with
  | nil => cases h
  | cons alpha alphas ih =>
    rw [firstZero] at h
    rw [List.length_cons]
    split_ifs at h with hzero
    · obtain rfl := Option.some.inj h
      rw [Nat.sub_self,hzero]
      exact ⟨Nat.le_refl _,by omega,rfl⟩
    · obtain ⟨hlow,hhigh,hget⟩ := ih h
      have hsucc : i-index = i-(index+1)+1 := by omega
      rw [hsucc,List.getElem?_cons_succ]
      exact ⟨by omega,by omega,hget⟩

/-- No entry before the first one is fully transparent, and none at all if there is no first one. -/
theorem firstZero_le {alphas : List UInt8} (index : Nat) {k : Nat} (h : alphas[k]? = some 0) :
    ∃ i, firstZero alphas index = some i ∧ i ≤ index+k := by
  induction alphas generalizing index k with
  | nil => cases h
  | cons alpha alphas ih =>
    rw [firstZero]
    split_ifs with hzero
    · exact ⟨index,rfl,Nat.le_add_right _ _⟩
    · cases k with
      | zero => exact absurd (Option.some.inj h) hzero
      | succ k =>
        obtain ⟨i,hi,hle⟩ := @ih (index+1) k h
        exact ⟨i,hi,by omega⟩

theorem maskBit_mark {mask : List UInt8} {index : Nat} (h : index/8 < mask.length) (i : Nat) :
    maskBit (mask.set (index/8) (mask.getD (index/8) 0 ||| (1 <<< (index%8).toUInt8))) i =
      (maskBit mask i || decide (i = index)) := by
  have hi : i%8 < 8 := Nat.mod_lt i (by decide)
  have hindex : index%8 < 8 := Nat.mod_lt index (by decide)
  rw [maskBit,maskBit]
  by_cases hbyte : i/8 = index/8
  · have hget : (mask.set (index/8) (mask.getD (index/8) 0 ||| (1 <<< (index%8).toUInt8))).getD
        (index/8) 0 = mask.getD (index/8) 0 ||| (1 <<< (index%8).toUInt8) := by
      rw [List.getD_eq_getElem?_getD,List.getElem?_set_self h,Option.getD_some]
    have heq : i = index ↔ i%8 = index%8 := by omega
    rw [hbyte,hget,Bool.eq_iff_iff,Bool.or_eq_true,decide_eq_true_eq,decide_eq_true_eq,
      decide_eq_true_eq,heq]
    exact byte_bit_mark _ hindex hi
  · have hget : (mask.set (index/8) (mask.getD (index/8) 0 ||| (1 <<< (index%8).toUInt8))).getD
        (i/8) 0 = mask.getD (i/8) 0 := by
      rw [List.getD_eq_getElem?_getD,List.getElem?_set_ne (Ne.symm hbyte),
        ← List.getD_eq_getElem?_getD]
    have hne : i ≠ index := fun heq => hbyte (heq ▸ rfl)
    rw [hget,decide_eq_false hne,Bool.or_false]

/-- The entries of a `tRNS` chunk: each that is fully transparent is marked, and the first of them is
the transparent one. -/
theorem pngAlphas_spec (alphas : List UInt8) {index : Nat} {palette : PngPalette}
    (hmask : palette.transparentMask.length = pngTransparentMaskBytes)
    (hsize : index+alphas.length ≤ pngPaletteMaxEntries) :
    ∃ palette', pngAlphas alphas index palette = .ok palette' ∧
      palette'.rgb = palette.rgb ∧ palette'.count = palette.count ∧
      palette'.present = palette.present ∧
      palette'.transparentMask.length = pngTransparentMaskBytes ∧
      (∀ i, maskBit palette'.transparentMask i = true ↔
        maskBit palette.transparentMask i = true ∨ index ≤ i ∧ alphas[i-index]? = some 0) ∧
      palette'.transparentIndex =
        if palette.transparentIndex = pngTransparentNone then
          ((firstZero alphas index).map Nat.toUInt16).getD pngTransparentNone
        else palette.transparentIndex := by
  have hbytes : pngTransparentMaskBytes = 32 := rfl
  have hentries : pngPaletteMaxEntries = 256 := rfl
  induction alphas generalizing index palette with
  | nil =>
    refine ⟨palette,rfl,rfl,rfl,rfl,hmask,fun i => by simp,?_⟩
    split_ifs with hnone
    · exact hnone
    · rfl
  | cons alpha alphas ih =>
    rw [List.length_cons] at hsize
    rw [pngAlphas,firstZero]
    -- What an entry later is in the rest of the list
    have hrest : ∀ i, index ≤ i ∧ (alpha::alphas)[i-index]? = some 0 ↔
        i = index ∧ alpha = 0 ∨ index+1 ≤ i ∧ alphas[i-(index+1)]? = some 0 := by
      intro i
      by_cases hi : i = index
      · subst hi
        simp
      · by_cases hlt : i < index
        · exact iff_of_false (fun h => by omega) (fun h => by omega)
        · have hsucc : i-index = i-(index+1)+1 := by omega
          rw [hsucc,List.getElem?_cons_succ]
          constructor
          · exact fun h => .inr ⟨by omega,h.2⟩
          · rintro (h | h)
            · exact absurd h.1 hi
            · exact ⟨by omega,h.2⟩
    by_cases hzero : alpha = 0
    · have hplace : index/8 < palette.transparentMask.length := by omega
      rw [if_pos hzero,if_pos hzero,markTransparent,if_pos hplace]
      dsimp only [bind,Except.bind]
      obtain ⟨palette',heq,hrgb,hcount,hpresent,hlen,hbits,hindex⟩ := @ih (index+1)
        {palette with
          transparentMask := palette.transparentMask.set (index/8)
            (palette.transparentMask.getD (index/8) 0 ||| (1 <<< (index%8).toUInt8)),
          transparentIndex := if palette.transparentIndex = pngTransparentNone then index.toUInt16
            else palette.transparentIndex}
        (by rw [List.length_set]; exact hmask) (by omega)
      refine ⟨palette',heq,hrgb,hcount,hpresent,hlen,?_,?_⟩
      · intro i
        rw [hbits i,maskBit_mark hplace,hrest i,Bool.or_eq_true,decide_eq_true_eq,or_assoc]
        simp only [hzero,and_true]
      · have hsmall : index.toUInt16 ≠ pngTransparentNone := by
          rw [Ne,← UInt16.toNat_inj,Nat.toUInt16_eq,UInt16.toNat_ofNat']
          have hnone : pngTransparentNone.toNat = 256 := rfl
          omega
        rw [hindex]
        dsimp only
        by_cases hnone : palette.transparentIndex = pngTransparentNone
        · rw [if_pos hnone,if_pos hnone,if_neg hsmall]
          rfl
        · rw [if_neg hnone,if_neg hnone,if_neg hnone]
    · rw [if_neg hzero,if_neg hzero]
      obtain ⟨palette',heq,hrgb,hcount,hpresent,hlen,hbits,hindex⟩ := @ih (index+1)
        {palette with partialAlpha := alpha ≠ 255 || palette.partialAlpha} hmask
        (by omega)
      refine ⟨palette',heq,hrgb,hcount,hpresent,hlen,?_,hindex⟩
      intro i
      rw [hbits i,hrest i]
      simp only [hzero,and_false,false_or]

end Alphas

/-- The 32-bit number at a place -/
def be32At (memory : List UInt8) (p : Nat) : UInt32 := readBe32 ((memory.drop p).take 4)

/-- The length and the type of the chunk at a place -/
def chunkLength (memory : List UInt8) (p : Nat) : Nat := (be32At memory p).toNat

def chunkKind (memory : List UInt8) (p : Nat) : List UInt8 := (memory.drop (p+4)).take 4

/-- The data of the chunk at a place -/
def chunkData (memory : List UInt8) (p : Nat) : List UInt8 :=
  (memory.drop (p+8)).take (chunkLength memory p)

/-- The chunk is a palette that the code keeps, in a picture of this colour type. -/
def IsPalette (memory : List UInt8) (colorType : UInt8) (p : Nat) : Prop :=
  colorType = 3 ∧ chunkKind memory p = plte ∧ 3 ≤ chunkLength memory p ∧
    chunkLength memory p ≤ 768 ∧ chunkLength memory p%3 = 0

instance (memory : List UInt8) (colorType : UInt8) (p : Nat) :
    Decidable (IsPalette memory colorType p) := by
  unfold IsPalette
  infer_instance

/-- The header of a chunk that ends the walk -/
structure Ends (memory : List UInt8) (p : Nat) : Prop where
  header : p+8 ≤ memory.length
  kind : chunkKind memory p = trns ∨ chunkKind memory p = idat ∨ chunkKind memory p = iend

/-- The place of a chunk, and that of the last palette before it -/
abbrev Place := Nat × Option Nat

/-- What follows the chunk at a place -/
def nextChunk (memory : List UInt8) (colorType : UInt8) (x : Place) : Place :=
  (x.1+12+chunkLength memory x.1,if IsPalette memory colorType x.1 then some x.1 else x.2)

/-- A chunk that does not end the walk is followed by another. -/
structure ChunkStep (memory : List UInt8) (colorType : UInt8) (x y : Place) : Prop where
  kind : ¬ Ends memory x.1
  fits : x.1+12+chunkLength memory x.1 ≤ memory.length
  next_eq : y = nextChunk memory colorType x

/-- The chunks from a place on are well delimited up to one that ends the walk. -/
def LeadsToEnd (memory : List UInt8) (colorType : UInt8) (x y : Place) : Prop :=
  ReflTransGen (ChunkStep memory colorType) x y ∧ Ends memory y.1

/-- The entries of a `tRNS` chunk go to the palette before it. -/
def UsesAlphas (memory : List UInt8) (y : Place) : Prop :=
  chunkKind memory y.1 = trns ∧ y.2.isSome ∧ 1 ≤ chunkLength memory y.1 ∧
    chunkLength memory y.1 ≤ 256

/-- The chunk that ends the walk is complete, as far as the code needs it. -/
def EndFits (memory : List UInt8) (y : Place) : Prop :=
  UsesAlphas memory y → y.1+12+chunkLength memory y.1 ≤ memory.length

section

variable {memory : List UInt8} {colorType : UInt8} {x y : Place}

theorem leadsToEnd_of_ends (h : Ends memory x.1) : LeadsToEnd memory colorType x y ↔ y = x := by
  constructor
  · rintro ⟨hreach,-⟩
    rcases ReflTransGen.cases_head hreach with heq | ⟨z,hstep,-⟩
    · exact heq.symm
    · exact absurd h hstep.kind
  · rintro rfl
    exact ⟨.refl,h⟩

theorem leadsToEnd_next (h : ¬ Ends memory x.1)
    (hfits : x.1+12+chunkLength memory x.1 ≤ memory.length) :
    LeadsToEnd memory colorType x y ↔
      LeadsToEnd memory colorType (nextChunk memory colorType x) y := by
  constructor
  · rintro ⟨hreach,hends⟩
    rcases ReflTransGen.cases_head hreach with rfl | ⟨z,hstep,hrest⟩
    · exact absurd hends h
    · rw [hstep.next_eq] at hrest
      exact ⟨hrest,hends⟩
  · rintro ⟨hreach,hends⟩
    exact ⟨.head ⟨h,hfits,rfl⟩ hreach,hends⟩

theorem not_leadsToEnd (h : ¬ Ends memory x.1)
    (hfits : memory.length < x.1+12+chunkLength memory x.1) :
    ¬ LeadsToEnd memory colorType x y := by
  rintro ⟨hreach,hends⟩
  rcases ReflTransGen.cases_head hreach with rfl | ⟨z,hstep,-⟩
  · exact h hends
  · exact absurd hstep.fits (Nat.not_le_of_lt hfits)

/-- An end that is reached is the only one. -/
theorem LeadsToEnd.unique {z : Place}
    (hy : LeadsToEnd memory colorType x y) (hz : LeadsToEnd memory colorType x z) : z = y := by
  obtain ⟨hreach,hends⟩ := hy
  induction hreach using ReflTransGen.head_induction_on with
  | refl => exact (leadsToEnd_of_ends hends).mp hz
  | head hstep _ ih =>
    rw [leadsToEnd_next hstep.kind hstep.fits,← hstep.next_eq] at hz
    exact ih hz

end

/-- A palette, as the chunks so far make it: that of the last palette chunk, without alphas yet -/
structure PaletteOf (memory : List UInt8) (last : Option Nat) (palette : PngPalette) : Prop where
  rgb_length : palette.rgb.length = pngPaletteMaxEntries*3
  mask_eq : palette.transparentMask = List.replicate pngTransparentMaskBytes 0
  index_eq : palette.transparentIndex = pngTransparentNone
  partial_eq : palette.partialAlpha = false
  present_eq : palette.present = last.isSome
  count_eq : ∀ r ∈ last, palette.count.toNat = chunkLength memory r/3
  rgb_eq : ∀ r ∈ last, palette.rgb.take (chunkLength memory r) = chunkData memory r

/-- No entry is transparent. -/
def Unmarked (palette : PngPalette) : Prop :=
  palette.transparentMask = List.replicate pngTransparentMaskBytes 0 ∧
    palette.transparentIndex = pngTransparentNone

theorem PaletteOf.unmarked {memory : List UInt8} {last : Option Nat} {palette : PngPalette}
    (h : PaletteOf memory last palette) : Unmarked palette :=
  ⟨h.mask_eq,h.index_eq⟩

/-- What a walk leaves that has come to its end -/
structure Walked (memory : List UInt8) (y : Place) (before after : Metadata) : Prop where
  width_eq : after.width = before.width
  height_eq : after.height = before.height
  interlace_eq : after.interlace = before.interlace
  hasAlpha_eq : after.hasAlpha = true ↔ before.hasAlpha = true ∨ chunkKind memory y.1 = trns
  palette : ∃ base, PaletteOf memory y.2 base ∧
    (UsesAlphas memory y → pngAlphas (chunkData memory y.1) 0 base = .ok after.palette) ∧
    (¬ UsesAlphas memory y → after.palette = base)

/-- A walk from a place comes to its end where the chunks lead to one, and it leaves what the chunks
say. -/
def WalkMeets (memory : List UInt8) (colorType : UInt8) (x : Place) (before : Metadata)
    (r : Except Trouble (Bool × Source × Metadata)) : Prop :=
  ∃ ok s after, r = .ok (ok,s,after) ∧ s.memory = memory ∧
    (ok = true ↔ ∃ y, LeadsToEnd memory colorType x y ∧ EndFits memory y) ∧
    (ok = true → ∀ y, LeadsToEnd memory colorType x y → Walked memory y before after) ∧
    (ok = false → Unmarked after.palette)

section

variable {memory : List UInt8} {colorType : UInt8} {x : Place} {before : Metadata}

theorem WalkMeets.failed {s : Source} {after : Metadata} (hmem : s.memory = memory)
    (hpalette : Unmarked after.palette)
    (h : ∀ y, LeadsToEnd memory colorType x y → ¬ EndFits memory y) :
    WalkMeets memory colorType x before (.ok (false,s,after)) := by
  refine ⟨false,s,after,rfl,hmem,⟨nofun,?_⟩,nofun,fun _ => hpalette⟩
  rintro ⟨y,hleads,hfits⟩
  exact absurd hfits (h y hleads)

theorem WalkMeets.ended {s : Source} {after : Metadata} (hmem : s.memory = memory)
    (hends : Ends memory x.1) (hfits : EndFits memory x) (hafter : Walked memory x before after) :
    WalkMeets memory colorType x before (.ok (true,s,after)) := by
  refine ⟨true,s,after,rfl,hmem,⟨fun _ => ?_,fun _ => rfl⟩,fun _ y hleads => ?_,nofun⟩
  · exact ⟨x,(leadsToEnd_of_ends hends).mpr rfl,hfits⟩
  · rw [leadsToEnd_of_ends hends] at hleads
    exact hleads ▸ hafter

/-- A walk that goes on from the next chunk, maybe with another palette -/
theorem WalkMeets.next (palette : PngPalette) {r : Except Trouble (Bool × Source × Metadata)}
    (hends : ¬ Ends memory x.1) (hfits : x.1+12+chunkLength memory x.1 ≤ memory.length)
    (h : WalkMeets memory colorType (nextChunk memory colorType x)
      {before with palette := palette} r) : WalkMeets memory colorType x before r := by
  obtain ⟨ok,s,after,heq,hmem,hok,hafter,hpalette⟩ := h
  simp only [← leadsToEnd_next hends hfits] at hok hafter
  refine ⟨ok,s,after,heq,hmem,hok,fun htrue y hleads => ?_,hpalette⟩
  obtain ⟨hwidth,hheight,hinterlace,halpha,hpalette⟩ := hafter htrue y hleads
  exact ⟨hwidth,hheight,hinterlace,halpha,hpalette⟩

end

theorem storeBytes_of_le {array data : List UInt8} (h : data.length ≤ array.length) :
    storeBytes array data = .ok (data++array.drop data.length) :=
  if_pos h

theorem readBe32_take (bytes : List UInt8) : readBe32 (bytes.take 4) = readBe32 bytes := by
  match bytes with
  | [] => rfl
  | [a] => rfl
  | [a,b] => rfl
  | [a,b,c] => rfl
  | a::b::c::d::rest => rfl

section

variable {s : Source} {colorType : UInt8} {last : Option Nat} {p : Nat}

theorem readBe32_slice {n i : Nat} (hi : i+4 ≤ n) :
    readBe32 ((s.slice p n).drop i) = be32At s.memory (p+i) := by
  have hfour : min 4 (n-i) = 4 := by omega
  rw [← readBe32_take,be32At,Source.slice,List.drop_take,List.drop_drop,List.take_take,hfour]

theorem slice_kind : (s.slice p 8).drop 4 = chunkKind s.memory p := by
  rw [Source.slice,List.drop_take,List.drop_drop]
  rfl

theorem slice_length_le (p n : Nat) : (s.slice p n).length ≤ n := by
  rw [Source.slice]
  exact List.length_take_le n _

/-- A palette chunk replaces the palette. -/
theorem PaletteOf.store {palette : PngPalette} (h : PaletteOf s.memory last palette)
    (hchunk : IsPalette s.memory colorType p)
    (hfits : p+12+chunkLength s.memory p ≤ s.memory.length) :
    PaletteOf s.memory (some p) {palette with
      rgb := chunkData s.memory p++palette.rgb.drop (chunkData s.memory p).length,
      count := (chunkLength s.memory p/3).toUInt16,present := true} := by
  obtain ⟨-,-,-,hlong,-⟩ := hchunk
  have hlen : (chunkData s.memory p).length = chunkLength s.memory p :=
    Source.slice_length (by omega)
  refine ⟨?_,h.mask_eq,h.index_eq,h.partial_eq,rfl,?_,?_⟩
  · have hrgb := h.rgb_length
    have hentries : pngPaletteMaxEntries = 256 := rfl
    simp only [List.length_append,List.length_drop,hlen]
    omega
  · intro r hr
    obtain rfl := Option.some.inj hr
    simp only [Nat.toUInt16_eq,UInt16.toNat_ofNat']
    omega
  · intro r hr
    obtain rfl := Option.some.inj hr
    simp only [← hlen,List.take_left]

/-- The data of a chunk is read into an array with room for it, and the CRC is skipped, or the source
has too little. -/
theorem readData_cases (array : List UInt8) (hheader : p+8 ≤ s.memory.length)
    (hroom : chunkLength s.memory p ≤ array.length) :
    (∃ data stored s',
      readExact (s.at (p+8) hheader) (chunkLength s.memory p) = (false,data,s') ∧
      storeBytes array data = .ok stored ∧ s'.memory = s.memory ∧
      s.memory.length < p+12+chunkLength s.memory p) ∨
    ∃ s', readExact (s.at (p+8) hheader) (chunkLength s.memory p) =
        (true,chunkData s.memory p,s') ∧
      storeBytes array (chunkData s.memory p) =
        .ok (chunkData s.memory p++array.drop (chunkData s.memory p).length) ∧
      ((∃ s'', skipBytes s' 4 = (false,s'') ∧ s''.memory = s.memory ∧
          s.memory.length < p+12+chunkLength s.memory p) ∨
        ∃ h, skipBytes s' 4 = (true,s.at (p+12+chunkLength s.memory p) h)) := by
  by_cases hdata : p+8+chunkLength s.memory p ≤ s.memory.length
  · have hlen : (chunkData s.memory p).length = chunkLength s.memory p :=
      Source.slice_length hdata
    refine .inr ⟨s.at (p+8+chunkLength s.memory p) hdata,readExact_of_le hdata,
      storeBytes_of_le (by omega),?_⟩
    by_cases hcrc : p+8+chunkLength s.memory p+4 ≤ s.memory.length
    · have hplace : p+8+chunkLength s.memory p+4 = p+12+chunkLength s.memory p := by omega
      have hskip : skipBytes (s.at (p+8+chunkLength s.memory p) hdata) 4 =
          (true,s.at (p+8+chunkLength s.memory p+4) hcrc) := skipBytes_of_le (n := 4) hcrc
      simp only [hplace] at hskip
      exact .inr ⟨by omega,hskip⟩
    · exact .inl ⟨_,skipBytes_of_lt (n := 4) (Nat.lt_of_not_le hcrc),rfl,by omega⟩
  · have hless := slice_length_le (s := s) (p+8) (s.memory.length-(p+8))
    exact .inl ⟨_,_,_,readExact_of_lt (Nat.lt_of_not_le hdata),
      storeBytes_of_le (hless.trans (by omega)),rfl,by omega⟩

/-- A `tRNS` chunk ends the walk. -/
theorem pngChunks_trns {fuel : Nat} {out : Metadata} (hheader : s.position+8 ≤ s.memory.length)
    (htrns : chunkKind s.memory s.position = trns)
    (hpalette : PaletteOf s.memory last out.palette) :
    WalkMeets s.memory colorType (s.position,last) out
      (pngChunks colorType true (fuel+1) s out) := by
  have hends : Ends s.memory s.position := ⟨hheader,.inl htrns⟩
  have hplte : ¬ IsPalette s.memory colorType s.position :=
    fun h => absurd (htrns.symm.trans h.2.1) (by decide)
  have hget := readExact_of_le hheader
  have hlength : (readBe32 (s.slice s.position 8)).toNat = chunkLength s.memory s.position :=
    congrArg UInt32.toNat (readBe32_slice (i := 0) (show 0+4 ≤ 8 by decide))
  rw [pngChunks]
  simp only [hget,Bool.not_true,Bool.false_eq_true,if_false,hlength,slice_kind]
  rw [if_neg (fun h => hplte h.2),if_pos htrns]
  by_cases huses : UsesAlphas s.memory (s.position,last)
  · obtain ⟨-,hpresent,hone,hmost⟩ := id huses
    rw [if_pos (by
      rw [hpalette.present_eq]
      exact ⟨trivial,hpresent,hone,hmost⟩)]
    -- The entries are missing in part.
    have hcut : ∀ {s' : Source}, s'.memory = s.memory →
        s.memory.length < s.position+12+chunkLength s.memory s.position →
        WalkMeets s.memory colorType (s.position,last) out (.ok (false,s',out)) := by
      intro s' hmem hcut
      apply WalkMeets.failed hmem hpalette.unmarked
      intro y hleads hfits
      rw [leadsToEnd_of_ends hends] at hleads
      subst hleads
      exact Nat.not_le_of_lt hcut (hfits huses)
    rcases readData_cases (List.replicate pngPaletteMaxEntries 0) hheader
      (hmost.trans (by rw [List.length_replicate]; decide))
      with ⟨data,stored,s',hread,hstore,hmem,hlt⟩ | ⟨s',hread,hstore,hskip⟩
    · simp only [hread,hstore]
      exact hcut hmem hlt
    · simp only [hread,hstore,Bool.not_true,Bool.false_eq_true,if_false]
      rcases hskip with ⟨s'',hskip,hmem,hlt⟩ | ⟨hfits,hskip⟩
      · simp only [hskip]
        exact hcut hmem hlt
      · have hbase : PaletteOf s.memory last
            {out.palette with transparentIndex := pngTransparentNone} :=
          ⟨hpalette.rgb_length,hpalette.mask_eq,rfl,hpalette.partial_eq,hpalette.present_eq,
            hpalette.count_eq,hpalette.rgb_eq⟩
        obtain ⟨palette,halphas,-⟩ := pngAlphas_spec (chunkData s.memory s.position)
          (by rw [hbase.mask_eq,List.length_replicate]) (by
            rw [Nat.zero_add]
            exact (slice_length_le _ _).trans hmost)
        simp only [hskip,Bool.not_true,Bool.false_eq_true,if_false,halphas]
        exact .ended (s := s.at _ hfits) rfl hends (fun _ => hfits)
          ⟨rfl,rfl,rfl,⟨fun _ => .inr htrns,fun _ => rfl⟩,_,hbase,fun _ => halphas,
            fun h => absurd huses h⟩
  · rw [if_neg (by
      rw [hpalette.present_eq]
      exact fun h => huses ⟨htrns,h.2⟩)]
    exact .ended (s := s.at (s.position+8) hheader) rfl hends (fun h => absurd h huses)
      ⟨rfl,rfl,rfl,⟨fun _ => .inr htrns,fun _ => rfl⟩,out.palette,hpalette,
        fun h => absurd h huses,fun _ => rfl⟩

/-- The walk ends, stores nothing outside its arrays, and does what the chunks say. -/
theorem pngChunks_spec {fuel : Nat} {out : Metadata}
    (hfuel : s.memory.length-s.position < fuel) (hstart : 2 ≤ s.position)
    (hpalette : PaletteOf s.memory last out.palette) :
    WalkMeets s.memory colorType (s.position,last) out (pngChunks colorType true fuel s out) := by
  induction fuel generalizing s out last with
  | zero => exact absurd hfuel (Nat.not_lt_zero _)
  | succ fuel ih =>
    have hsize := s.size_le
    -- The chunk is cut off, and it does not end the walk.
    have hfail : ∀ {s' : Source} {out' : Metadata}, s'.memory = s.memory →
        Unmarked out'.palette → ¬ Ends s.memory s.position →
        s.memory.length < s.position+12+chunkLength s.memory s.position →
        WalkMeets s.memory colorType (s.position,last) out (.ok (false,s',out')) :=
      fun hmem hunmarked hends hlong => .failed hmem hunmarked fun y hleads =>
        absurd hleads (not_leadsToEnd hends hlong)
    by_cases hheader : s.position+8 ≤ s.memory.length
    · by_cases htrns : chunkKind s.memory s.position = trns
      · exact pngChunks_trns hheader htrns hpalette
      have hget := readExact_of_le hheader
      have hlength : (readBe32 (s.slice s.position 8)).toNat = chunkLength s.memory s.position :=
        congrArg UInt32.toNat (readBe32_slice (i := 0) (show 0+4 ≤ 8 by decide))
      rw [pngChunks]
      simp only [hget,Bool.not_true,Bool.false_eq_true,if_false,hlength,slice_kind]
      by_cases hplte : IsPalette s.memory colorType s.position
      · have hends : ¬ Ends s.memory s.position := by
          rintro ⟨-,h | h | h⟩ <;> exact absurd (h.symm.trans hplte.2.1) (by decide)
        have hentries : pngPaletteMaxEntries = 256 := rfl
        have hroom : chunkLength s.memory s.position ≤ out.palette.rgb.length := by
          have := hplte.2.2.2.1
          rw [hpalette.rgb_length]
          omega
        rw [if_pos ⟨trivial,hplte⟩]
        rcases readData_cases _ hheader hroom
          with ⟨data,stored,s',hread,hstore,hmem,hlt⟩ | ⟨s',hread,hstore,hskip⟩
        · simp only [hread,hstore]
          exact hfail hmem hpalette.unmarked hends hlt
        · simp only [hread,hstore,Bool.not_true,Bool.false_eq_true,if_false]
          rcases hskip with ⟨s'',hskip,hmem,hlt⟩ | ⟨hfits,hskip⟩
          · simp only [hskip]
            exact hfail hmem hpalette.unmarked hends hlt
          · simp only [hskip,Bool.not_true,Bool.false_eq_true,if_false]
            apply WalkMeets.next _ hends hfits
            rw [nextChunk,if_pos hplte]
            exact ih (s := s.at _ hfits) (by simp only [Source.at_memory,Source.at_position]; omega)
              (by simp only [Source.at_position]; omega) (hpalette.store hplte hfits)
      rw [if_neg (fun h => hplte h.2),if_neg htrns]
      by_cases hend : chunkKind s.memory s.position = idat ∨ chunkKind s.memory s.position = iend
      · have hends : Ends s.memory s.position := ⟨hheader,.inr hend⟩
        have hunused : ¬ UsesAlphas s.memory (s.position,last) := fun h => htrns h.1
        rw [if_pos hend]
        exact .ended (s := s.at (s.position+8) hheader) rfl hends (fun h => absurd h hunused)
          ⟨rfl,rfl,rfl,⟨.inl,fun h => h.resolve_right htrns⟩,out.palette,hpalette,
            fun h => absurd h hunused,fun _ => rfl⟩
      rw [if_neg hend]
      have hends : ¬ Ends s.memory s.position := fun h => h.kind.elim htrns hend
      by_cases hlong : 0x7ffffff0 < chunkLength s.memory s.position
      · rw [if_pos hlong]
        exact hfail (Source.at_memory hheader) hpalette.unmarked hends (by omega)
      rw [if_neg hlong]
      by_cases hskips : s.position+8+(chunkLength s.memory s.position+4) ≤ s.memory.length
      · have hplace : s.position+8+(chunkLength s.memory s.position+4) =
            s.position+12+chunkLength s.memory s.position := by omega
        have hfits : s.position+12+chunkLength s.memory s.position ≤ s.memory.length := by omega
        have hskip : skipBytes (s.at (s.position+8) hheader)
            (chunkLength s.memory s.position+4) =
              (true,s.at (s.position+8+(chunkLength s.memory s.position+4)) hskips) :=
          skipBytes_of_le hskips
        simp only [hskip,Bool.not_true,Bool.false_eq_true,if_false]
        apply WalkMeets.next out.palette hends hfits
        rw [nextChunk,if_neg hplte]
        dsimp only
        rw [← hplace]
        exact ih (s := s.at _ hskips) (by simp only [Source.at_memory,Source.at_position]; omega)
          (by simp only [Source.at_position]; omega) hpalette
      · have hskip : skipBytes (s.at (s.position+8) hheader)
            (chunkLength s.memory s.position+4) = (false,s.at (s.position+8) hheader) :=
          skipBytes_of_lt (Nat.lt_of_not_le hskips)
        simp only [hskip]
        exact hfail rfl hpalette.unmarked hends (by omega)
    · have hget := readExact_of_lt (Nat.lt_of_not_le hheader)
      rw [pngChunks]
      simp only [hget,Bool.not_false,if_true]
      exact hfail rfl hpalette.unmarked (fun h => hheader h.header) (by omega)

end

/-- The signature and an `IHDR` chunk of 13 bytes, of a picture that is not empty -/
structure PngHeader (memory : List UInt8) : Prop where
  fits : 33 ≤ memory.length
  signature_eq : memory.take 8 = pngSignature
  length_eq : be32At memory 8 = 13
  kind_eq : (memory.drop 12).take 4 = ihdr
  width_ne : be32At memory 16 ≠ 0
  height_ne : be32At memory 20 ≠ 0

def pngColorType (memory : List UInt8) : UInt8 := memory.getD 25 0

/-- What the header alone says -/
def headerMetadata (memory : List UInt8) : Metadata where
  width := be32At memory 16
  height := be32At memory 20
  hasAlpha := pngColorType memory &&& 4 ≠ 0
  interlace := if memory.getD 28 0 ≠ 0 then 1 else 0
  palette := clearedPalette

theorem paletteOf_cleared (memory : List UInt8) : PaletteOf memory none clearedPalette :=
  ⟨List.length_replicate,rfl,rfl,rfl,rfl,nofun,nofun⟩

theorem readPngMetadata_spec {s : Source} {fuel : Nat} (hfuel : s.memory.length < fuel)
    (out : Metadata) {start : List UInt8} (hstart : s.memory.drop s.position = start) :
    ∃ ok s' out', readPngMetadata fuel true true s out = .ok (ok,s',out') ∧
      s'.memory = s.memory ∧
      (ok = true ↔ PngHeader start ∧ (pngColorType start &&& 4 ≠ 0 ∨
        ∃ y, LeadsToEnd s.memory (pngColorType start) (s.position+33,none) y ∧
          EndFits s.memory y)) ∧
      (ok = true → pngColorType start &&& 4 ≠ 0 → out' = headerMetadata start) ∧
      (ok = true → pngColorType start &&& 4 = 0 →
        ∀ y, LeadsToEnd s.memory (pngColorType start) (s.position+33,none) y →
          Walked s.memory y (headerMetadata start) out') ∧
      (ok = false → Unmarked out'.palette) := by
  have hfail : ∀ {s' : Source} {out' : Metadata}, s'.memory = s.memory →
      Unmarked out'.palette → ¬ PngHeader start →
      ∃ ok s'' out'', (Except.ok (false,s',out') : Except Trouble (Bool × Source × Metadata)) =
          .ok (ok,s'',out'') ∧ s''.memory = s.memory ∧
        (ok = true ↔ PngHeader start ∧ (pngColorType start &&& 4 ≠ 0 ∨
          ∃ y, LeadsToEnd s.memory (pngColorType start) (s.position+33,none) y ∧
            EndFits s.memory y)) ∧
        (ok = true → pngColorType start &&& 4 ≠ 0 → out'' = headerMetadata start) ∧
        (ok = true → pngColorType start &&& 4 = 0 →
          ∀ y, LeadsToEnd s.memory (pngColorType start) (s.position+33,none) y →
            Walked s.memory y (headerMetadata start) out'') ∧
        (ok = false → Unmarked out''.palette) :=
    fun hmem hunmarked hnot =>
      ⟨false,_,_,rfl,hmem,⟨(by simp),fun h => absurd h.1 hnot⟩,(by simp),(by simp),fun _ => hunmarked⟩
  have hlength : start.length = s.memory.length-s.position := by rw [← hstart,List.length_drop]
  have hcleared : Unmarked clearedPalette := ⟨rfl,rfl⟩
  by_cases hread : s.position+33 ≤ s.memory.length
  · have hget := readExact_of_le hread
    have hheader : 33 ≤ start.length := by omega
    have hslice : s.slice s.position 33 = start.take 33 := by rw [Source.slice,hstart]
    have hsig : (start.take 33).take 8 = start.take 8 := by
      rw [List.take_take]
      rfl
    have hkind : ((start.take 33).drop 12).take 4 = (start.drop 12).take 4 := by
      rw [List.drop_take,List.take_take]
      rfl
    have hbyte : ∀ {i : Nat}, i < 33 → (start.take 33).getD i 0 = start.getD i 0 := by
      intro i hi
      rw [List.getD_eq_getElem?_getD,List.getElem?_take_of_lt hi,← List.getD_eq_getElem?_getD]
    have hcolor : (start.take 33).getD 25 0 = pngColorType start := hbyte (by decide)
    have hword : ∀ {i : Nat}, i+4 ≤ 33 → readBe32 ((start.take 33).drop i) = be32At start i := by
      intro i hi
      have hfour : min 4 (33-i) = 4 := by omega
      rw [← readBe32_take,List.drop_take,List.take_take,hfour,be32At]
    rw [readPngMetadata]
    simp only [hget,hslice,if_true,Bool.not_true,Bool.false_eq_true,if_false,hsig,hkind,
      hword (show 8+4 ≤ 33 by decide),hword (show 16+4 ≤ 33 by decide),
      hword (show 20+4 ≤ 33 by decide),hcolor,hbyte (show 28 < 33 by decide)]
    by_cases hformat : start.take 8 ≠ pngSignature ∨ be32At start 8 ≠ 13 ∨
        (start.drop 12).take 4 ≠ ihdr
    · rw [if_pos hformat]
      refine hfail rfl hcleared fun h => ?_
      rcases hformat with hne | hne | hne
      · exact hne h.signature_eq
      · exact hne h.length_eq
      · exact hne h.kind_eq
    rw [if_neg hformat]
    by_cases hempty : be32At start 16 = 0 ∨ be32At start 20 = 0
    · rw [if_pos hempty]
      refine hfail rfl hcleared fun h => ?_
      rcases hempty with hzero | hzero
      · exact h.width_ne hzero
      · exact h.height_ne hzero
    rw [if_neg hempty]
    simp only [not_or,not_not] at hformat hempty
    have hpng : PngHeader start :=
      ⟨hheader,hformat.1,hformat.2.1,hformat.2.2,hempty.1,hempty.2⟩
    by_cases halpha : pngColorType start &&& 4 ≠ 0
    · rw [if_pos (decide_eq_true halpha)]
      exact ⟨true,_,_,rfl,rfl,⟨fun _ => ⟨hpng,.inl halpha⟩,fun _ => rfl⟩,fun _ _ => rfl,
        fun _ h => absurd h halpha,(by simp)⟩
    · rw [if_neg (fun h => halpha (of_decide_eq_true h))]
      have hmeets : WalkMeets s.memory (pngColorType start) (s.position+33,none)
          (headerMetadata start)
          (pngChunks (pngColorType start) true fuel (s.at (s.position+33) hread)
            (headerMetadata start)) :=
        pngChunks_spec (by simp only [Source.at_memory]; omega)
          (by simp only [Source.at_position]; omega) (paletteOf_cleared s.memory)
      obtain ⟨ok,s',after,heq,hmem,hok,hafter,hunmarked⟩ := hmeets
      refine ⟨ok,s',after,heq,hmem,?_,fun _ h => absurd h halpha,fun htrue _ => hafter htrue,
        hunmarked⟩
      rw [hok]
      exact ⟨fun h => ⟨hpng,.inr h⟩,fun h => h.2.resolve_left halpha⟩
  · have hget := readExact_of_lt (Nat.lt_of_not_le hread)
    rw [readPngMetadata]
    simp only [hget,Bool.not_false,if_true]
    refine hfail rfl hcleared fun h => ?_
    have := h.fits
    omega

/-- A picture of one pixel: the signature and the `IHDR` chunk -/
def onePixelPng (colorType : UInt8) : List UInt8 :=
  pngSignature++[0,0,0,13]++ihdr++[0,0,0,1,0,0,0,1,8,colorType,0,0,0,0,0,0,0]

end ZZ9K.Picture
