import ZZ9K.Picture.FeedRuns

namespace ZZ9K.Picture

open Framework Host Surface

/-- Which way the pixels of a picture go: into a bitmap, through its palette, straight to the pixels of
the object, or as they come -/
structure TargetKind where
  legacyBitmap : Bool
  legacyHasAlpha : Bool
  palette : Option PngPalette
  direct : Option DirectPixels

section

variable (kind : TargetKind) (width height : UInt32) (tileFormat : SurfaceFormat)
  (layout : TileLayout)

/-- The rows that `zz9k_picture_decode_to_datatype` needs to convert a tile, and what they take -/
def scratchLayout : Option (UInt32 × UInt32) := do
  let scratchPitch ← minRowBytes width (if kind.palette.isSome then 1 else 3)
  let scratchBytes ← accumulateSurfaceBytes layout.rows scratchPitch
  return (scratchPitch,scratchBytes)

/-- How `zz9k_picture_decode_to_datatype` prepares a target for a layout; fresh memory may hold anything. -/
def prepareTarget (fresh : Nat → UInt8) : Except Trouble (Option Target) :=
  let target : Target := {
    width := width,height := height,outputFormat := tileFormat,tileRows := layout.rows,
    tilesWritten := 0,legacyBitmap := kind.legacyBitmap,legacyHasAlpha := kind.legacyHasAlpha,
    lut8 := none,direct := kind.direct,scratch := none,scratchPitch := 0 }
  let withMap (target : Target) : Except Trouble (Option Target) :=
    match kind.palette with
    | some palette => do
      let map ← buildPngLut8Map palette
      return some {target with lut8 := some (palette,map)}
    | none => .ok (some target)
  if kind.direct.isNone ∧ !kind.legacyBitmap ∧
      (kind.palette.isSome ∨ tileFormat = .bgra8888) then
    match scratchLayout kind width layout with
    | some (scratchPitch,scratchBytes) =>
      withMap {target with
        scratch := some ((List.range scratchBytes.toNat).map fresh),scratchPitch := scratchPitch}
    | none => .ok none
  else withMap target

end

/-- What `zz9k_picture_pixel_buffer_valid`, `zz9k_picture_direct_pixel_buffer_valid` and
`zz9k_picture_jpeg_v47_rgb_buffer_valid` see to: the rows of the picture fit the rows of the array, and the
array has that many. -/
structure Obtained (width height : UInt32) (pixels : DirectPixels) : Prop where
  row : ∃ rowBytes, minRowBytes width pixels.format.bytesPerPixel = some rowBytes ∧
    rowBytes ≤ pixels.arrayMod
  rows : height.toNat*pixels.arrayMod.toNat ≤ pixels.data.length

section

variable {kind : TargetKind} {width height : UInt32} {tileFormat : SurfaceFormat}
  {layout : TileLayout} {fresh : Nat → UInt8} {target : Target}

/-- The rows to convert a tile are small enough to be counted. -/
theorem scratchLayout_eq (hlayout : LaidOut width layout) {pitch bytes : UInt32}
    (h : scratchLayout kind width layout = some (pitch,bytes)) :
    bytes.toNat = layout.rows.toNat*pitch.toNat := by
  obtain ⟨pitch',hpitch,h⟩ := Option.bind_eq_some_iff.mp h
  obtain ⟨bytes',hbytes,h⟩ := Option.bind_eq_some_iff.mp h
  obtain ⟨rfl,rfl⟩ := Prod.mk.inj (Option.some.inj h)
  obtain ⟨hwidth,hunit,hrow⟩ := minRowBytes_eq hpitch
  have hunitle : (if kind.palette.isSome then 1 else 3 : UInt32).toNat ≤ 3 := by
    split_ifs <;> decide
  have hpos : 0 < width.toNat := Nat.pos_of_ne_zero fun hzero => hwidth (UInt32.toNat_inj.mp hzero)
  have hunitpos : 0 < (if kind.palette.isSome then 1 else 3 : UInt32).toNat :=
    Nat.pos_of_ne_zero fun hzero => hunit (UInt32.toNat_inj.mp hzero)
  have hpitchpos : 0 < pitch'.toNat := hrow ▸ Nat.mul_pos hpos hunitpos
  have hsize : layout.rows.toNat*pitch'.toNat ≤ 16777216 := by
    have hle : pitch'.toNat ≤ layout.pitch.toNat*3 :=
      hrow ▸ Nat.mul_le_mul hlayout.width_le hunitle
    have hlines := Nat.mul_le_mul_left layout.rows.toNat hle
    have htotal := hlayout.bytes_eq ▸ hlayout.bytes_le
    rw [← Nat.mul_assoc] at hlines
    omega
  obtain ⟨bytes,heq,hbytesEq⟩ := accumulateSurfaceBytes_of_le
    (fun hzero => by
      have := hlayout.rows_pos
      rw [hzero] at this
      exact absurd this (Nat.lt_irrefl 0))
    (fun hzero => by
      rw [hzero] at hpitchpos
      exact absurd hpitchpos (Nat.lt_irrefl 0)) hsize
  obtain rfl := Option.some.inj (heq.symm.trans hbytes)
  exact hbytesEq

/-- A target that is prepared for the layout that was chosen has areas as large as its fields say. -/
theorem prepareTarget_prepared (hlayout : LaidOut width layout)
    (hpalette : ∀ palette, kind.palette = some palette → pngPaletteLut8Eligible palette = true)
    (hpixels : ∀ pixels, kind.direct = some pixels → Obtained width height pixels)
    (h : prepareTarget kind width height tileFormat layout fresh = .ok (some target)) :
    Prepared layout target := by
  -- Without the map, for any rows to convert a tile
  have hbase : ∀ (scratch : Option (List UInt8)) (pitch : UInt32),
      (∀ memory, scratch = some memory →
        memory.length = layout.rows.toNat*pitch.toNat ∧ memory.length < 2^32) →
      Prepared layout {
        width := width,height := height,outputFormat := tileFormat,tileRows := layout.rows,
        tilesWritten := 0,legacyBitmap := kind.legacyBitmap,legacyHasAlpha := kind.legacyHasAlpha,
        lut8 := none,direct := kind.direct,scratch := scratch,scratchPitch := pitch } := by
    intro scratch pitch hscratch
    refine ⟨hlayout,rfl,hscratch,nofun,fun pixels hdirect hformat => ?_⟩
    obtain ⟨⟨rowBytes,hrow,hle⟩,hrows⟩ := hpixels pixels hdirect
    have hrowEq := (minRowBytes_eq hrow).2.2
    rw [hformat] at hrowEq
    exact ⟨hrowEq ▸ UInt32.le_iff_toNat_le.mp hle,hrows⟩
  have hmap : ∀ target' : Target, Prepared layout target' →
      (match kind.palette with
      | some palette => do
        let map ← buildPngLut8Map palette
        return some {target' with lut8 := some (palette,map)}
      | none => .ok (some target') : Except Trouble (Option Target)) = .ok (some target) →
      Prepared layout target := by
    intro target' hprepared heq
    cases hkind : kind.palette with
    | none =>
      rw [hkind] at heq
      obtain rfl := Option.some.inj (Except.ok.inj heq)
      exact hprepared
    | some palette =>
      have hcount := (eligible_of_eq_true (hpalette palette hkind)).count_le
      obtain ⟨map,hbuild,hfilled⟩ := buildPngLut8Map_eq hcount
      simp only [hkind,hbuild] at heq
      obtain rfl := Option.some.inj (Except.ok.inj heq)
      refine ⟨hprepared.laidOut,hprepared.rows_eq,hprepared.scratch,?_,hprepared.direct⟩
      intro palette' map' hlut8
      obtain ⟨rfl,rfl⟩ := Prod.mk.inj (Option.some.inj hlut8)
      exact ⟨hcount,hfilled⟩
  rw [prepareTarget] at h
  split_ifs at h
  · cases hscratch : scratchLayout kind width layout with
    | none =>
      rw [hscratch] at h
      cases h
    | some found =>
      obtain ⟨pitch,bytes⟩ := found
      rw [hscratch] at h
      refine hmap _ (hbase _ pitch fun memory hmemory => ?_) h
      obtain rfl := Option.some.inj hmemory
      rw [List.length_map,List.length_range]
      exact ⟨scratchLayout_eq hlayout hscratch,bytes.toNat_lt⟩
  · exact hmap _ (hbase none 0 nofun) h

/-- Where no firmware announces a tile that goes straight to the pixels and passes the checks there, but
leaves the picture or the tile buffer, the stream comes to an end: each feed shows the board the bytes
after those it has taken, every tile that is not refused lies inside, and no area is left. -/
theorem feedStreamToDatatype_safe {env : FeedEnv} {outputBpp : UInt32} {total : Nat}
    (hlayout : chooseDatatypeTileLayout width tileFormat outputBpp = some layout)
    (hpalette : ∀ palette, kind.palette = some palette → pngPaletteLut8Eligible palette = true)
    (hpixels : ∀ pixels, kind.direct = some pixels → Obtained width height pixels)
    (htarget : prepareTarget kind width height tileFormat layout fresh = .ok (some target))
    (hstride : env.tileStride = layout.pitch)
    (htile : ∀ n, (env.turns n).tile.length = layout.rows.toNat*layout.pitch.toNat)
    (hwritten : ∀ turn, ∑ n ∈ Finset.range turn, (env.turns n).result.bytesWritten.toNat ≤ total)
    (hdirect : ∀ n, (env.turns n).result.state = .tileReady →
      DirectInside layout target (env.turns n).result)
    (source : List UInt8) (memory : Media.Machine) :
    ∃ ok st bound,
      (∀ fuel, bound ≤ fuel →
        feedStreamToDatatype env fuel source memory target = .ok (ok,st)) ∧
      FedInTurn source 0 st.fed ∧ takenBy st.fed ≤ source.length ∧
      ∀ r ∈ st.tiles, TileInside r target := by
  have hready : Ready env layout target :=
    ⟨prepareTarget_prepared (chooseDatatypeTileLayout_spec hlayout) hpalette hpixels htarget,
      hstride,htile,hdirect⟩
  have hstart : Feeding env source target {
      memory := memory,unread := source,reads := 0,buffered := 0,eof := false,emptyEofFeeds := 0,
      finalState := .other 0,target := target,turn := 0,fed := [],tiles := [] } :=
    ⟨⟨trivial,Nat.zero_le _,nofun,SameTarget.refl target⟩,rfl,Nat.zero_le _,nofun⟩
  by_cases hargs : env.readScratchLength = 0 ∨ env.session = 0
  · refine ⟨false,_,0,fun fuel _ => ?_,hstart.fed,hstart.taken_le,hstart.tiles⟩
    rw [feedStreamToDatatype,if_pos hargs]
  · obtain ⟨ok,st,bound,hstreaming,hends⟩ :=
      feedLoops_ends hready hwritten total .outer hstart (Nat.le_add_left _ _)
    refine ⟨ok,st,bound,fun fuel hfuel => ?_,hstreaming.fed,hstreaming.taken_le,hstreaming.tiles⟩
    rw [feedStreamToDatatype,if_neg hargs]
    exact hends fuel hfuel

end

section Column

/-- The pixels of a picture of one column -/
def columnPixels : DirectPixels where
  data := List.replicate 900 0
  format := .rgb
  arrayMod := 3
  width := 1
  height := 300

def columnKind : TargetKind := ⟨false,false,none,some columnPixels⟩

def columnLayout : TileLayout := ⟨256,3,768⟩

def columnTarget : Target where
  width := 1
  height := 300
  outputFormat := .rgb888
  tileRows := 256
  tilesWritten := 0
  legacyBitmap := false
  legacyHasAlpha := false
  lut8 := none
  direct := some columnPixels
  scratch := none
  scratchPitch := 0

/-- A firmware that announces one tile of so many rows, and is done -/
def columnTurns (rows : UInt32) : Nat → Turn
  | 0 => {
      status := 0,tile := List.replicate 768 0,allocates := true,accepts := true,
      result := ⟨.tileReady,0,0,1,rows,0,768,2⟩ }
  | _+1 => {
      status := 0,tile := List.replicate 768 0,allocates := true,accepts := true,
      result := ⟨.complete,0,0,0,0,0,0,0⟩ }

def columnEnv (rows : UInt32) : FeedEnv where
  fails := fun _ => false
  turns := columnTurns rows
  staging := ⟨1,4096,64⟩
  readScratchLength := 16
  tileStride := 3
  codec := .jpeg
  session := 1
  drainLimit := 308

def columnMemory : Media.Machine := ⟨fun _ => 0,[]⟩

theorem columnWritten (rows : UInt32) (turn : Nat) :
    ∑ n ∈ Finset.range turn, ((columnEnv rows).turns n).result.bytesWritten.toNat ≤ 768 := by
  cases turn with
  | zero => exact Nat.zero_le _
  | succ turn =>
    have hrest : ∑ n ∈ Finset.range turn,
        ((columnEnv rows).turns (n+1)).result.bytesWritten.toNat = 0 :=
      Finset.sum_eq_zero fun n _ => rfl
    rw [Finset.sum_range_succ',hrest,Nat.zero_add]
    exact Nat.le_refl 768

theorem column_obtained (pixels : DirectPixels) (h : columnKind.direct = some pixels) :
    Obtained 1 300 pixels := by
  obtain rfl := Option.some.inj h
  exact ⟨⟨3,by decide +kernel,by decide⟩,by decide +kernel⟩

theorem column_layout : chooseDatatypeTileLayout 1 .rgb888 3 = some columnLayout := by
  decide +kernel

theorem column_target :
    prepareTarget columnKind 1 300 .rgb888 columnLayout (fun _ => 0) = .ok (some columnTarget) :=
  rfl

theorem column_tile (rows : UInt32) (n : Nat) : ((columnEnv rows).turns n).tile.length =
    columnLayout.rows.toNat*columnLayout.pitch.toNat := by
  cases n <;> exact List.length_replicate

theorem feedStreamToDatatype_safe_column : ∃ ok st bound,
    (∀ fuel, bound ≤ fuel →
      feedStreamToDatatype (columnEnv 256) fuel [1,2,3] columnMemory columnTarget =
        .ok (ok,st)) ∧
    FedInTurn [1,2,3] 0 st.fed ∧ takenBy st.fed ≤ [1,2,3].length ∧
    ∀ r ∈ st.tiles, TileInside r columnTarget := by
  apply feedStreamToDatatype_safe column_layout (fun _ h => by cases h) column_obtained column_target rfl
    (column_tile 256) (columnWritten 256)
  intro n hstate
  cases n with
  | zero => exact fun _ _ _ _ _ _ _ => by decide
  | succ n => cases hstate

/-- A feed that takes no bytes and announces a tile ends where its writer leaves an area. -/
theorem feedTurn_outside {env : FeedEnv} {st : FeedState}
    (hdesc : ¬ (env.session = 0 ∨ env.staging.handle = invalidHandle ∨
      (st.buffered = 0 ∧ (!st.eof) = true)))
    (hstatus : (env.turns st.turn).status = 0)
    (hconsumed : (env.turns st.turn).result.bytesConsumed = 0)
    (hstate : (env.turns st.turn).result.state = .tileReady)
    (hcopy : copyTileToDatatype (env.turns st.turn) st.target env.tileStride = .error .outside) :
    feedTurn env st = .error .outside := by
  rw [feedTurn,if_neg hdesc]
  simp only [hstatus,hconsumed,hstate,hcopy]
  rfl

theorem feedStreamToDatatype_outside {env : FeedEnv} {source : List UInt8}
    {memory : Media.Machine} {target : Target} {st : FeedState}
    (hargs : ¬ (env.readScratchLength = 0 ∨ env.session = 0))
    (heq : fillStaging env {
      memory := memory,unread := source,reads := 0,buffered := 0,eof := false,
      emptyEofFeeds := 0,finalState := .other 0,target := target,turn := 0,fed := [],
      tiles := [] } = .ok (true,st))
    (hwaits : ¬ (st.buffered = 0 ∧ st.eof = true))
    (hfeed : feedTurn env st = .error .outside) (fuel : Nat) :
    feedStreamToDatatype env (fuel+2) source memory target = .error .outside := by
  rw [feedStreamToDatatype,if_neg hargs,feedLoops,if_neg (by simp)]
  simp only [heq,bind,Except.bind,Bool.not_true,Bool.false_eq_true,if_false,if_neg hwaits,feedLoops,
    hfeed]

/-- A tile of one row more than the tile buffer has is read all the same. -/
theorem feedStreamToDatatype_tall_tile :
    chooseDatatypeTileLayout 1 .rgb888 3 = some columnLayout ∧
    prepareTarget columnKind 1 300 .rgb888 columnLayout (fun _ => 0) = .ok (some columnTarget) ∧
    (∀ pixels, columnKind.direct = some pixels → Obtained 1 300 pixels) ∧
    (∀ n, ((columnEnv 257).turns n).tile.length =
      columnLayout.rows.toNat*columnLayout.pitch.toNat) ∧
    (∀ turn, ∑ n ∈ Finset.range turn,
      ((columnEnv 257).turns n).result.bytesWritten.toNat ≤ 768) ∧
    ∀ fuel, feedStreamToDatatype (columnEnv 257) (fuel+2) [1,2,3] columnMemory columnTarget =
      .error .outside := by
  refine ⟨column_layout,column_target,column_obtained,column_tile 257,columnWritten 257,?_⟩
  intro fuel
  have hcopy : copyTileToDatatype (columnTurns 257 0) columnTarget columnLayout.pitch =
      .error .outside :=
    copyTileToDatatype_tall (column_tile 257 0) rfl rfl rfl ⟨rfl,rfl⟩ (by decide +kernel) (by decide)
  have hfill : ∃ st, fillStaging (columnEnv 257) {
      memory := columnMemory,unread := [1,2,3],reads := 0,buffered := 0,eof := false,
      emptyEofFeeds := 0,finalState := .other 0,target := columnTarget,turn := 0,fed := [],
      tiles := [] } = .ok (true,st) ∧ st.buffered = 3 ∧ st.turn = 0 ∧ st.target = columnTarget :=
    ⟨_,rfl,rfl,rfl,rfl⟩
  obtain ⟨st,heq,hbuffered,hturn,htarget⟩ := hfill
  refine feedStreamToDatatype_outside (fun h => by rcases h with h | h <;> cases h) heq ?_ ?_ fuel
  · rw [hbuffered]
    exact fun h => absurd h.1 (by decide)
  apply feedTurn_outside
  · rw [hbuffered]
    exact fun h => h.elim nofun fun h => h.elim nofun fun h => absurd h.1 (by decide)
  · rw [hturn]
    rfl
  · rw [hturn]
    rfl
  · rw [hturn]
    rfl
  · rw [hturn,htarget]
    exact hcopy

end Column

end ZZ9K.Picture
