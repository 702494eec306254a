import ZZ9K.Framework.CountedLoop
import ZZ9K.Picture.Lut8
import ZZ9K.Surface.RectFits

namespace ZZ9K.Picture

open Framework Surface

section Sizes

/-- The loop of `zz9k_picture_mul_small_u32` and of `zz9k_picture_accumulate_byte_offset` -/
def addRepeated (quantum : UInt32) : Nat → UInt32 → Option UInt32
  | 0,total => some total
  | n+1,total => if 0xffffffff-quantum < total then none else addRepeated quantum n (total+quantum)

/-- `zz9k_picture_mul_small_u32` -/
def mulSmallU32 (value multiplier : UInt32) : Option UInt32 :=
  if value = 0 ∨ multiplier = 0 then none
  else do
    let total ← addRepeated value multiplier.toNat 0
    if total ≠ 0 then return total else none

/-- `zz9k_picture_min_row_bytes` -/
def minRowBytes (width bytesPerPixel : UInt32) : Option UInt32 := mulSmallU32 width bytesPerPixel

/-- `zz9k_picture_accumulate_byte_offset` -/
def accumulateByteOffset (count quantum : UInt32) : Option UInt32 :=
  if quantum = 0 then none else addRepeated quantum count.toNat 0

/-- `ZZ9K_PICTURE_MAX_SURFACE_BYTES` -/
def maxSurfaceBytes : UInt32 := 16*1024*1024

/-- The loop of `zz9k_picture_accumulate_surface_bytes` -/
def surfaceRows (pitch : UInt32) : Nat → UInt32 → Option UInt32
  | 0,total => some total
  | n+1,total =>
    if 0xffffffff-pitch < total then none
    else if maxSurfaceBytes-pitch < total then some (maxSurfaceBytes+1)
    else surfaceRows pitch n (total+pitch)

/-- `zz9k_picture_accumulate_surface_bytes` -/
def accumulateSurfaceBytes (height pitch : UInt32) : Option UInt32 :=
  if height = 0 ∨ pitch = 0 then none
  else if maxSurfaceBytes < pitch then some (maxSurfaceBytes+1)
  else surfaceRows pitch height.toNat 0

/-- The rows, the pitch and the bytes of a tile -/
structure TileLayout where
  rows : UInt32
  pitch : UInt32
  bytes : UInt32
  deriving DecidableEq

/-- The loop of `zz9k_picture_choose_tile_layout` -/
def tileLayoutFrom (pitch targetBytes : UInt32) : Nat → Option TileLayout
  | 0 => none
  | n+1 =>
    match accumulateSurfaceBytes (n+1).toUInt32 pitch with
    | some bytes =>
      if bytes ≤ targetBytes then some ⟨(n+1).toUInt32,pitch,bytes⟩
      else tileLayoutFrom pitch targetBytes n
    | none => tileLayoutFrom pitch targetBytes n

/-- `zz9k_picture_choose_tile_layout` -/
def chooseTileLayout (width bytesPerPixel maxRows targetBytes : UInt32) : Option TileLayout :=
  if maxRows = 0 ∨ targetBytes = 0 then none
  else do
    let pitch ← minRowBytes width bytesPerPixel
    tileLayoutFrom pitch targetBytes maxRows.toNat

/-- `zz9k_picture_choose_datatype_tile_layout` -/
def chooseDatatypeTileLayout (width : UInt32) (outputFormat : SurfaceFormat) (outputBpp : UInt32) :
    Option TileLayout :=
  if outputFormat = .rgb888 then chooseTileLayout width outputBpp 256 (768*1024)
  else chooseTileLayout width outputBpp 32 (128*1024)

end Sizes

/-- A byte of a memory area; there is none beyond its end. -/
def readAt (memory : List UInt8) (i : Nat) : Except Trouble UInt8 :=
  match memory[i]? with
  | some byte => .ok byte
  | none => .error .outside

def writeAt (memory : List UInt8) (i : Nat) (byte : UInt8) : Except Trouble (List UInt8) :=
  if i < memory.length then .ok (memory.set i byte) else .error .outside

/-- `ZZ9K_IMAGE_SESSION_STATE_*`, and any other number -/
inductive SessionState
  | needInput
  | headerReady
  | tileReady
  | complete
  | other (state : UInt32)
  deriving DecidableEq

/-- `ZZ9KImageSessionResult`, as far as the datatype reads it -/
structure SessionResult where
  state : SessionState
  tileX : UInt32
  tileY : UInt32
  tileWidth : UInt32
  tileHeight : UInt32
  bytesConsumed : UInt32
  bytesWritten : UInt32
  flags : UInt32

/-- What the board and the system answer to one feed: the status and the result, the tile buffer, and
whether memory is there and the superclass takes the pixels -/
structure Turn where
  status : UInt32
  result : SessionResult
  tile : List UInt8
  allocates : Bool
  accepts : Bool

/-- `PBPAFMT_*` -/
inductive PixelFormat
  | rgb
  | rgba
  | argb
  | lut8
  | grey8
  | other (format : UInt32)
  deriving DecidableEq

/-- `zz9k_picture_pbpa_bytes_per_pixel` -/
def PixelFormat.bytesPerPixel : PixelFormat → UInt32
  | rgb => 3
  | rgba | argb => 4
  | lut8 | grey8 => 1
  | other _ => 0

/-- `struct pdtBlitPixelArray` of a picture object that shows its own pixels -/
structure DirectPixels where
  data : List UInt8
  format : PixelFormat
  arrayMod : UInt32
  width : UInt32
  height : UInt32

/-- `ZZ9KPictureDatatypeTarget` -/
structure Target where
  width : UInt32
  height : UInt32
  outputFormat : SurfaceFormat
  tileRows : UInt32
  tilesWritten : UInt32
  legacyBitmap : Bool
  legacyHasAlpha : Bool
  lut8 : Option (PngPalette × Lut8Map)
  direct : Option DirectPixels
  scratch : Option (List UInt8)
  scratchPitch : UInt32

/-- The checks on a tile that the writers have in common, for an area of a size -/
def tileRefused (r : SessionResult) (width height : UInt32) : Bool :=
  r.tileWidth = 0 ∨ r.tileHeight = 0 ∨ width < r.tileX ∨ height < r.tileY ∨
    width-r.tileX < r.tileWidth ∨ height-r.tileY < r.tileHeight

/-- `PDTM_WRITEPIXELARRAY`: the superclass reads so many rows of so many bytes, a stride apart. -/
def writePixelArray (t : Turn) (data : List UInt8) (stride rowBytes rows : Nat) :
    Except Trouble Bool :=
  if (rows-1)*stride+rowBytes ≤ data.length then .ok t.accepts else .error .outside

variable (t : Turn) (target : Target) (tileStride : UInt32)

def Target.written : Target := {target with tilesWritten := target.tilesWritten+1}

/-- `zz9k_picture_write_rgb_tile_to_object`, `zz9k_picture_write_png_alpha_tile_to_object`: the tile
goes to the superclass as it is, in a format of so many bytes. -/
def writeTileToObject (format : SurfaceFormat) (bytesPerPixel : UInt32) :
    Except Trouble (Bool × Target) :=
  let r := t.result
  if target.outputFormat ≠ format ∨ tileRefused r target.width target.height ∨
      target.tileRows < r.tileHeight then .ok (false,target)
  else
    match minRowBytes r.tileWidth bytesPerPixel with
    | none => .ok (false,target)
    | some rowBytes =>
      if tileStride < rowBytes then .ok (false,target)
      else do
        let accepted ← writePixelArray t t.tile tileStride.toNat rowBytes.toNat r.tileHeight.toNat
        if accepted then return (true,target.written) else return (false,target)

/-- `zz9k_picture_write_rgb_tile_to_object` -/
def writeRgbTileToObject : Except Trouble (Bool × Target) :=
  writeTileToObject t target tileStride .rgb888 3

/-- `zz9k_picture_write_png_alpha_tile_to_object` -/
def writePngAlphaTileToObject : Except Trouble (Bool × Target) :=
  writeTileToObject t target tileStride .rgba8888 4

/-- `zz9k_picture_legacy_lut8_component` -/
def legacyLut8Component (value : UInt8) : UInt8 := ((value.toUInt32*5+127)/255).toUInt8

/-- `zz9k_picture_rgb_to_legacy_lut8_index` -/
def rgbToLegacyLut8Index (red green blue : UInt8) : UInt8 :=
  (1+(legacyLut8Component red).toUInt32*36+(legacyLut8Component green).toUInt32*6+
    (legacyLut8Component blue).toUInt32).toUInt8

/-- `zz9k_picture_surface_pixel_to_legacy_lut8_index` -/
def surfacePixelToLegacyLut8Index (tile : List UInt8) (src : Nat) (outputFormat : SurfaceFormat)
    (hasAlpha : Bool) : Except Trouble UInt8 := do
  let index (red green blue alpha : UInt8) : UInt8 :=
    if hasAlpha ∧ alpha < 128 then 0 else rgbToLegacyLut8Index red green blue
  match outputFormat with
  | .rgb888 => return index (← readAt tile src) (← readAt tile (src+1)) (← readAt tile (src+2)) 255
  | .rgba8888 =>
    return index (← readAt tile src) (← readAt tile (src+1)) (← readAt tile (src+2))
      (← readAt tile (src+3))
  | .argb8888 =>
    let alpha ← readAt tile src
    return index (← readAt tile (src+1)) (← readAt tile (src+2)) (← readAt tile (src+3)) alpha
  | .bgra8888 =>
    let blue ← readAt tile src
    let green ← readAt tile (src+1)
    let red ← readAt tile (src+2)
    return index red green blue (← readAt tile (src+3))
  | _ => return 0

/-- `zz9k_picture_write_legacy_bitmap_tile` -/
def writeLegacyBitmapTile : Except Trouble (Bool × Target) :=
  let r := t.result
  if tileRefused r target.width target.height ∨ target.tileRows < r.tileHeight then
    .ok (false,target)
  else
    let bytesPerPixel := target.outputFormat.bytesPerPixel
    match minRowBytes r.tileWidth bytesPerPixel with
    | none => .ok (false,target)
    | some rowBytes =>
      if bytesPerPixel = 0 ∨ tileStride < rowBytes then .ok (false,target)
      else
        let rowAllocBytes := (r.tileWidth+15) &&& ~~~15
        if !t.allocates then .ok (false,target)
        else do
          let _ ← countedLoop (fun row rowPixels => do
            let src := (row.toUInt32*tileStride).toNat
            let rowPixels ← countedLoop (fun col rowPixels => do
              let index ← surfacePixelToLegacyLut8Index t.tile (src+col*bytesPerPixel.toNat)
                target.outputFormat target.legacyHasAlpha
              writeAt rowPixels col index) 0 r.tileWidth.toNat rowPixels
            -- `WritePixelLine8` reads the row.
            if r.tileWidth.toNat ≤ rowPixels.length then return rowPixels else .error .outside)
            0 r.tileHeight.toNat (List.replicate rowAllocBytes.toNat (0 : UInt8))
          return (true,target.written)

/-- `zz9k_picture_copy_raw_tile_to_direct_pixels` as far as it refuses a tile: the bytes of a row, and
the offsets of the tile in the pixels -/
def directTile (r : SessionResult) (pixels : DirectPixels) :
    Option (UInt32 × UInt32 × UInt32) := do
  if pixels.arrayMod = 0 ∨ tileRefused r pixels.width pixels.height then none
  else if pixels.format.bytesPerPixel = 0 then none
  else
    let rowBytes ← minRowBytes r.tileWidth pixels.format.bytesPerPixel
    if tileStride < rowBytes ∨ pixels.arrayMod < rowBytes then none
    else
      let dstRowOffset ← accumulateByteOffset r.tileY pixels.arrayMod
      let dstXOffset ← accumulateByteOffset r.tileX pixels.format.bytesPerPixel
      return (rowBytes,dstRowOffset,dstXOffset)

/-- `zz9k_picture_copy_raw_tile_to_direct_pixels` -/
def copyRawTileToDirectPixels (pixels : DirectPixels) : Except Trouble (Bool × DirectPixels) :=
  match directTile tileStride t.result pixels with
  | none => .ok (false,pixels)
  | some (rowBytes,dstRowOffset,dstXOffset) => do
    let data ← gridLoop (fun row byte data => do
      let value ← readAt t.tile (row*tileStride.toNat+byte)
      writeAt data (dstRowOffset.toNat+dstXOffset.toNat+row*pixels.arrayMod.toNat+byte) value)
      t.result.tileHeight.toNat rowBytes.toNat pixels.data
    return (true,{pixels with data := data})

/-- `zz9k_picture_write_bgra_tile_to_object` -/
def writeBgraTileToObject : Except Trouble (Bool × Target) :=
  let r := t.result
  match target.scratch with
  | none => .ok (false,target)
  | some scratch =>
    if target.scratchPitch = 0 ∨ tileRefused r target.width target.height ∨
        target.tileRows < r.tileHeight then .ok (false,target)
    else
      match minRowBytes r.tileWidth 4,minRowBytes r.tileWidth 3 with
      | some srcMinRowBytes,some dstMinRowBytes =>
        if tileStride < srcMinRowBytes ∨ target.scratchPitch < dstMinRowBytes then .ok (false,target)
        else do
          let scratch ← gridLoop (fun row col scratch => do
            let src := (row.toUInt32*tileStride).toNat+col*4
            let dst := (row.toUInt32*target.scratchPitch).toNat+col*3
            -- `zz9k_picture_bgra_to_rgb`
            let scratch ← writeAt scratch dst (← readAt t.tile (src+2))
            let scratch ← writeAt scratch (dst+1) (← readAt t.tile (src+1))
            writeAt scratch (dst+2) (← readAt t.tile src))
            r.tileHeight.toNat r.tileWidth.toNat scratch
          let target := {target with scratch := some scratch}
          let accepted ← writePixelArray t scratch target.scratchPitch.toNat dstMinRowBytes.toNat
            r.tileHeight.toNat
          if accepted then return (true,target.written) else return (false,target)
      | _,_ => .ok (false,target)

/-- `zz9k_picture_write_palette_lut8_tile_to_object` -/
def writePaletteLut8TileToObject : Except Trouble (Bool × Target) :=
  let r := t.result
  match target.lut8,target.scratch with
  | some (palette,map),some scratch =>
    if target.scratchPitch = 0 ∨ tileRefused r target.width target.height ∨
        target.tileRows < r.tileHeight then .ok (false,target)
    else if target.outputFormat ≠ .rgb888 ∧ target.outputFormat ≠ .bgra8888 then .ok (false,target)
    else
      let srcBytesPerPixel : UInt32 := if target.outputFormat = .rgb888 then 3 else 4
      match minRowBytes r.tileWidth srcBytesPerPixel,minRowBytes r.tileWidth 1 with
      | some srcMinRowBytes,some dstMinRowBytes =>
        if tileStride < srcMinRowBytes ∨ target.scratchPitch < dstMinRowBytes then .ok (false,target)
        else do
          let scratch ← gridLoop (fun row col scratch => do
            let src := (row.toUInt32*tileStride).toNat+col*srcBytesPerPixel.toNat
            let dst := (row.toUInt32*target.scratchPitch).toNat
            let first ← readAt t.tile src
            let green ← readAt t.tile (src+1)
            let third ← readAt t.tile (src+2)
            let index ← if srcBytesPerPixel = 3 then pngLut8Lookup palette map first green third
              else pngLut8Lookup palette map third green first
            writeAt scratch (dst+col) index)
            r.tileHeight.toNat r.tileWidth.toNat scratch
          let target := {target with scratch := some scratch}
          let accepted ← writePixelArray t scratch target.scratchPitch.toNat dstMinRowBytes.toNat
            r.tileHeight.toNat
          if accepted then return (true,target.written) else return (false,target)
      | _,_ => .ok (false,target)
  | _,_ => .ok (false,target)

/-- `zz9k_picture_copy_tile_to_datatype` -/
def copyTileToDatatype : Except Trouble (Bool × Target) :=
  if target.legacyBitmap then writeLegacyBitmapTile t target tileStride
  else if target.lut8.isSome then writePaletteLut8TileToObject t target tileStride
  else
    match target.direct with
    | some pixels =>
      if target.outputFormat = .rgb888 ∧ pixels.format = .rgb then do
        let (ok,pixels) ← copyRawTileToDirectPixels t tileStride pixels
        if ok then return (true,{target with direct := some pixels}.written)
        else return (false,target)
      else .ok (false,target)
    | none =>
      if target.outputFormat = .rgb888 then writeRgbTileToObject t target tileStride
      else if target.outputFormat = .rgba8888 ∨ target.outputFormat = .argb8888 then
        writePngAlphaTileToObject t target tileStride
      else writeBgraTileToObject t target tileStride

end ZZ9K.Picture
