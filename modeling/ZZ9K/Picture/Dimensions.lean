import ZZ9K.Picture.Source

namespace ZZ9K.Picture

/-- What a model of the code must not come to: a loop out of fuel, or a store outside an array -/
inductive Trouble
  | starved
  | outside
  deriving DecidableEq

/-- `zz9k_picture_read_be16` -/
def readBe16 (bytes : List UInt8) : UInt16 :=
  ((bytes.getD 0 0).toUInt16 <<< 8) ||| (bytes.getD 1 0).toUInt16

/-- `zz9k_picture_read_be32` -/
def readBe32 (bytes : List UInt8) : UInt32 :=
  ((bytes.getD 0 0).toUInt32 <<< 24) ||| ((bytes.getD 1 0).toUInt32 <<< 16) |||
    ((bytes.getD 2 0).toUInt32 <<< 8) ||| (bytes.getD 3 0).toUInt32

/-- `zz9k_picture_jpeg_sof_marker` -/
def jpegSofMarker (marker : UInt8) : Bool :=
  marker ∈ [0xc0,0xc1,0xc2,0xc3,0xc5,0xc6,0xc7,0xc9,0xca,0xcb,0xcd,0xce,0xcf]

/-- `zz9k_picture_jpeg_standalone_marker` -/
def jpegStandaloneMarker (marker : UInt8) : Bool :=
  marker = 0x01 ∨ marker = 0xd8 ∨ marker = 0xd9 ∨ (0xd0 ≤ marker ∧ marker ≤ 0xd7)

/-- The inner loop of `zz9k_picture_read_jpeg_dimensions`: the next byte that is not 0xff, if the
source has one -/
def jpegMarker : Nat → Source → Except Trouble (Option UInt8 × Source)
  | 0,_ => .error .starved
  | fuel+1,s =>
    let (ok,bytes,s) := readExact s 1
    if !ok then .ok (none,s)
    else
      let byte := bytes.getD 0 0
      if byte = 0xff then jpegMarker fuel s else .ok (some byte,s)

/-- The outer loop of `zz9k_picture_read_jpeg_dimensions`: the width and the height, if it finds them -/
def jpegSegments : Nat → Source → Except Trouble (Option (UInt32 × UInt32) × Source)
  | 0,_ => .error .starved
  | fuel+1,s => do
    let (marker,s) ← jpegMarker (fuel+1) s
    match marker with
    | none => return (none,s)
    | some marker =>
      if jpegStandaloneMarker marker then jpegSegments fuel s
      else if marker = 0xda ∨ marker = 0xd9 then return (none,s)
      else
        let (ok,bytes,s) := readExact s 2
        if !ok then return (none,s)
        else
          let segmentLength := (readBe16 bytes).toNat
          if segmentLength < 2 then return (none,s)
          else
            let payloadLength := segmentLength-2
            if jpegSofMarker marker then
              if payloadLength < 6 then return (none,s)
              else
                let (ok,bytes,s) := readExact s 6
                if !ok then return (none,s)
                else
                  let height := (readBe16 (bytes.drop 1)).toUInt32
                  let width := (readBe16 (bytes.drop 3)).toUInt32
                  if width = 0 ∨ height = 0 then return (none,s) else return (some (width,height),s)
            else
              let (ok,s) := skipBytes s payloadLength
              if !ok then return (none,s) else jpegSegments fuel s

/-- `zz9k_picture_read_jpeg_dimensions` -/
def readJpegDimensions (fuel : Nat) (s : Source) :
    Except Trouble (Option (UInt32 × UInt32) × Source) :=
  let (ok,bytes,s) := readExact s 2
  if !ok ∨ bytes.getD 0 0 ≠ 0xff ∨ bytes.getD 1 0 ≠ 0xd8 then .ok (none,s)
  else jpegSegments fuel s

/-- `ZZ9K_PICTURE_PNG_PALETTE_MAX_ENTRIES` -/
def pngPaletteMaxEntries : Nat := 256

/-- `ZZ9K_PICTURE_PNG_TRANSPARENT_NONE` -/
def pngTransparentNone : UInt16 := 0x100

/-- `ZZ9K_PICTURE_PNG_TRANSPARENT_MASK_BYTES` -/
def pngTransparentMaskBytes : Nat := 32

/-- `ZZ9KPicturePngPalette` -/
structure PngPalette where
  rgb : List UInt8
  transparentMask : List UInt8
  count : UInt16
  transparentIndex : UInt16
  partialAlpha : Bool
  present : Bool
  deriving DecidableEq

/-- A cleared palette, without a transparent entry -/
def clearedPalette : PngPalette where
  rgb := List.replicate (pngPaletteMaxEntries*3) 0
  transparentMask := List.replicate pngTransparentMaskBytes 0
  count := 0
  transparentIndex := pngTransparentNone
  partialAlpha := false
  present := false

/-- What a scan stores for its caller -/
structure Metadata where
  width : UInt32
  height : UInt32
  hasAlpha : Bool
  interlace : UInt8
  palette : PngPalette

/-- Bytes go to the beginning of an array. -/
def storeBytes (array data : List UInt8) : Except Trouble (List UInt8) :=
  if data.length ≤ array.length then .ok (data++array.drop data.length) else .error .outside

/-- `transparent_mask[index >> 3] |= (uint8_t)(1U << (index & 7U))` -/
def markTransparent (mask : List UInt8) (index : Nat) : Except Trouble (List UInt8) :=
  if index/8 < mask.length then
    .ok (mask.set (index/8) (mask.getD (index/8) 0 ||| (1 <<< (index%8).toUInt8)))
  else .error .outside

/-- The loop over the entries of a `tRNS` chunk, from an index on -/
def pngAlphas : List UInt8 → Nat → PngPalette → Except Trouble PngPalette
  | [],_,palette => .ok palette
  | alpha::alphas,index,palette =>
    if alpha = 0 then do
      let mask ← markTransparent palette.transparentMask index
      let first := if palette.transparentIndex = pngTransparentNone then index.toUInt16
        else palette.transparentIndex
      pngAlphas alphas (index+1) {palette with transparentMask := mask,transparentIndex := first}
    else
      pngAlphas alphas (index+1)
        {palette with partialAlpha := alpha ≠ 255 || palette.partialAlpha}

def pngSignature : List UInt8 := [0x89,0x50,0x4e,0x47,0x0d,0x0a,0x1a,0x0a]

/-- `"IHDR"`, and the other chunk types that the code knows -/
def ihdr : List UInt8 := [0x49,0x48,0x44,0x52]

def plte : List UInt8 := [0x50,0x4c,0x54,0x45]

def trns : List UInt8 := [0x74,0x52,0x4e,0x53]

def idat : List UInt8 := [0x49,0x44,0x41,0x54]

def iend : List UInt8 := [0x49,0x45,0x4e,0x44]

/-- The loop of `zz9k_picture_read_png_metadata`, with a palette or without -/
def pngChunks (colorType : UInt8) (wantsPalette : Bool) :
    Nat → Source → Metadata → Except Trouble (Bool × Source × Metadata)
  | 0,_,_ => .error .starved
  | fuel+1,s,out => do
    let (ok,chunk,s) := readExact s 8
    if !ok then return (false,s,out)
    else
      let length := (readBe32 chunk).toNat
      let kind := chunk.drop 4
      if wantsPalette ∧ colorType = 3 ∧ kind = plte ∧ 3 ≤ length ∧ length ≤ 768 ∧ length%3 = 0 then
        let (ok,data,s) := readExact s length
        let rgb ← storeBytes out.palette.rgb data
        let out := {out with palette := {out.palette with rgb := rgb}}
        if !ok then return (false,s,out)
        else
          let (ok,s) := skipBytes s 4
          if !ok then return (false,s,out)
          else
            let palette := {out.palette with count := (length/3).toUInt16,present := true}
            pngChunks colorType wantsPalette fuel s {out with palette := palette}
      else if kind = trns then
        if wantsPalette ∧ out.palette.present ∧ 1 ≤ length ∧ length ≤ pngPaletteMaxEntries then
          let (ok,data,s) := readExact s length
          let _ ← storeBytes (List.replicate pngPaletteMaxEntries 0) data
          if !ok then return (false,s,out)
          else
            let (ok,s) := skipBytes s 4
            if !ok then return (false,s,out)
            else
              let palette ← pngAlphas data 0
                {out.palette with transparentIndex := pngTransparentNone}
              return (true,s,{out with palette := palette,hasAlpha := true})
        else return (true,s,{out with hasAlpha := true})
      else if kind = idat ∨ kind = iend then return (true,s,out)
      else if 0x7ffffff0 < length then return (false,s,out)
      else
        let (ok,s) := skipBytes s (length+4)
        if !ok then return (false,s,out) else pngChunks colorType wantsPalette fuel s out

/-- `zz9k_picture_read_png_metadata`: whether its caller wants to know about alpha and has a palette
for it -/
def readPngMetadata (fuel : Nat) (wantsAlpha wantsPalette : Bool) (s : Source) (out : Metadata) :
    Except Trouble (Bool × Source × Metadata) :=
  let out := if wantsPalette then {out with palette := clearedPalette} else out
  let (ok,header,s) := readExact s 33
  if !ok then .ok (false,s,out)
  else if header.take 8 ≠ pngSignature ∨ readBe32 (header.drop 8) ≠ 13 ∨
      (header.drop 12).take 4 ≠ ihdr then .ok (false,s,out)
  else
    let width := readBe32 (header.drop 16)
    let height := readBe32 (header.drop 20)
    if width = 0 ∨ height = 0 then .ok (false,s,out)
    else
      let out := {out with width := width,height := height}
      if !wantsAlpha then .ok (true,s,out)
      else
        let colorType := header.getD 25 0
        let interlace : UInt8 := if header.getD 28 0 ≠ 0 then 1 else 0
        let out := {out with interlace := interlace,hasAlpha := colorType &&& 4 ≠ 0}
        if out.hasAlpha then .ok (true,s,out)
        else pngChunks colorType wantsPalette fuel s out

/-- `ZZ9KPictureCodec`, as far as a scan finds one -/
inductive Codec
  | jpeg
  | png
  deriving DecidableEq

/-- `zz9k_picture_read_dimensions`: the codec, where it recognises one -/
def readDimensions (fuel : Nat) (s : Source) (out : Metadata) :
    Except Trouble (Option Codec × Source × Metadata) := do
  let (originalPos,s) := sourceSeek s 0 .current
  let (ok,s) := seekBegin s
  if !ok then return (none,s,out)
  else
    let (size,s) ← readJpegDimensions fuel s
    match size with
    | some (width,height) =>
      return (some .jpeg,restorePos s originalPos,
        {out with width := width,height := height,hasAlpha := false})
    | none =>
      let (ok,s) := seekBegin s
      if !ok then return (none,restorePos s originalPos,out)
      else
        let (ok,s,out) ← readPngMetadata fuel true true s out
        if ok then return (some .png,restorePos s originalPos,out)
        else return (none,restorePos s originalPos,out)

end ZZ9K.Picture
