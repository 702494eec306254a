import ZZ9K.Picture.Dimensions

namespace ZZ9K.Picture

/-- `ZZ9K_PICTURE_LUT8_MAP_SLOTS` -/
def lut8MapSlots : UInt32 := 512

/-- `ZZ9K_PICTURE_LUT8_MAP_HASH_MULTIPLIER` -/
def lut8MapHashMultiplier : UInt32 := 2654435761

/-- `zz9k_picture_lut8_map_slot` -/
def lut8MapSlot (key : UInt32) : UInt32 :=
  ((key*lut8MapHashMultiplier) >>> 23) &&& (lut8MapSlots-1)

/-- `slot = (slot + 1U) & (ZZ9K_PICTURE_LUT8_MAP_SLOTS - 1U)` -/
def nextSlot (slot : UInt32) : UInt32 := (slot+1) &&& (lut8MapSlots-1)

/-- A colour as a key; 0 marks an empty slot. -/
def lut8Key (red green blue : UInt8) : UInt32 :=
  ((red.toUInt32 <<< 16) ||| (green.toUInt32 <<< 8) ||| blue.toUInt32)+1

namespace PngPalette

variable (palette : PngPalette)

/-- `(palette->transparent_mask[index >> 3] >> (index & 7U)) & 1U` -/
def transparent (index : Nat) : Bool :=
  (palette.transparentMask.getD (index/8) 0 >>> (index%8).toUInt8) &&& 1 ≠ 0

def red (index : Nat) : UInt8 := palette.rgb.getD (index*3) 0

def green (index : Nat) : UInt8 := palette.rgb.getD (index*3+1) 0

def blue (index : Nat) : UInt8 := palette.rgb.getD (index*3+2) 0

/-- `memcmp(&palette->rgb[index * 3U], &palette->rgb[other * 3U], 3U) == 0` -/
def sameColor (index other : Nat) : Bool :=
  palette.red index = palette.red other ∧ palette.green index = palette.green other ∧
    palette.blue index = palette.blue other

def key (index : Nat) : UInt32 :=
  lut8Key (palette.red index) (palette.green index) (palette.blue index)

end PngPalette

/-- `zz9k_picture_png_palette_lut8_eligible` -/
def pngPaletteLut8Eligible (palette : PngPalette) : Bool :=
  if !palette.present ∨ palette.partialAlpha ∨ palette.count = 0 ∨
      pngPaletteMaxEntries < palette.count.toNat then false
  else
    (List.range palette.count.toNat).all fun transparentIndex =>
      !palette.transparent transparentIndex ||
      (List.range palette.count.toNat).all fun opaqueIndex =>
        palette.transparent opaqueIndex || !palette.sameColor transparentIndex opaqueIndex

/-- The two arrays of a map -/
structure Lut8Map where
  keys : List UInt32
  vals : List UInt8

def Lut8Map.cleared : Lut8Map :=
  ⟨List.replicate lut8MapSlots.toNat 0,List.replicate lut8MapSlots.toNat 0⟩

/-- `while (keys[slot] != 0U && keys[slot] != key)` -/
def lut8FindSlot (keys : List UInt32) (key : UInt32) : Nat → UInt32 → Except Trouble UInt32
  | 0,_ => .error .starved
  | fuel+1,slot =>
    if keys.getD slot.toNat 0 ≠ 0 ∧ keys.getD slot.toNat 0 ≠ key then
      lut8FindSlot keys key fuel (nextSlot slot)
    else .ok slot

/-- What the loops of `zz9k_picture_build_png_lut8_map` do for an entry that belongs to the pass -/
def lut8Insert (palette : PngPalette) (index : Nat) (m : Lut8Map) : Except Trouble Lut8Map := do
  let mappedIndex := if palette.transparent index then palette.transparentIndex.toUInt32
    else index.toUInt32
  let key := palette.key index
  let slot ← lut8FindSlot m.keys key lut8MapSlots.toNat (lut8MapSlot key)
  if m.keys.getD slot.toNat 0 = 0 then
    return {keys := m.keys.set slot.toNat key,vals := m.vals.set slot.toNat (mappedIndex+1).toUInt8}
  else return m

/-- A pass, from an index on -/
def lut8Pass (palette : PngPalette) (pass : Nat) : Nat → Nat → Lut8Map → Except Trouble Lut8Map
  | _,0,m => .ok m
  | index,n+1,m =>
    if pass = 0 ∧ palette.transparent index then lut8Pass palette pass (index+1) n m
    else if pass = 1 ∧ !palette.transparent index then lut8Pass palette pass (index+1) n m
    else do
      let m ← lut8Insert palette index m
      lut8Pass palette pass (index+1) n m

/-- `zz9k_picture_build_png_lut8_map` -/
def buildPngLut8Map (palette : PngPalette) : Except Trouble Lut8Map := do
  let m ← lut8Pass palette 0 0 palette.count.toNat .cleared
  lut8Pass palette 1 0 palette.count.toNat m

/-- The distance of a colour from that of an entry, in the arithmetic of the code -/
def pngPaletteDistance (palette : PngPalette) (red green blue : UInt8) (index : Nat) : UInt32 :=
  let redDelta := red.toUInt32-(palette.red index).toUInt32
  let greenDelta := green.toUInt32-(palette.green index).toUInt32
  let blueDelta := blue.toUInt32-(palette.blue index).toUInt32
  redDelta*redDelta+greenDelta*greenDelta+blueDelta*blueDelta

/-- The loop of `zz9k_picture_png_nearest_palette_index`, from an index on -/
def nearestFrom (palette : PngPalette) (red green blue : UInt8) :
    Nat → Nat → Nat → UInt32 → Nat
  | _,0,bestIndex,_ => bestIndex
  | index,n+1,bestIndex,bestDistance =>
    let distance := pngPaletteDistance palette red green blue index
    if distance < bestDistance then nearestFrom palette red green blue (index+1) n index distance
    else nearestFrom palette red green blue (index+1) n bestIndex bestDistance

/-- `zz9k_picture_png_nearest_palette_index` -/
def pngNearestPaletteIndex (palette : PngPalette) (red green blue : UInt8) : UInt8 :=
  (nearestFrom palette red green blue 0 palette.count.toNat 0 0xffffffff).toUInt8

/-- The loop of `zz9k_picture_png_lut8_lookup`: the value of the key, if there is one -/
def lut8Search (m : Lut8Map) (key : UInt32) : Nat → UInt32 → Except Trouble (Option UInt8)
  | 0,_ => .error .starved
  | fuel+1,slot =>
    if m.keys.getD slot.toNat 0 ≠ 0 then
      if m.keys.getD slot.toNat 0 = key then .ok (some (m.vals.getD slot.toNat 0-1))
      else lut8Search m key fuel (nextSlot slot)
    else .ok none

/-- `zz9k_picture_png_lut8_lookup` -/
def pngLut8Lookup (palette : PngPalette) (m : Lut8Map) (red green blue : UInt8) :
    Except Trouble UInt8 := do
  let key := lut8Key red green blue
  let found ← lut8Search m key lut8MapSlots.toNat (lut8MapSlot key)
  return found.getD (pngNearestPaletteIndex palette red green blue)

end ZZ9K.Picture
