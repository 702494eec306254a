import ZZ9K.Picture.JpegWalk
import ZZ9K.Picture.PngWalk

namespace ZZ9K.Picture

open Relation

/-- What a scan takes for a PNG: a colour type with alpha, or chunks that are well delimited up to one
that ends the walk -/
structure PngAccepted (memory : List UInt8) : Prop where
  header : PngHeader memory
  chunks : pngColorType memory &&& 4 ≠ 0 ∨
    ∃ y, LeadsToEnd memory (pngColorType memory) (33,none) y ∧ EndFits memory y

/-- The colour type has alpha, or a `tRNS` chunk comes before all that end the walk. -/
def PngAlpha (memory : List UInt8) : Prop :=
  pngColorType memory &&& 4 ≠ 0 ∨
    ∃ y, LeadsToEnd memory (pngColorType memory) (33,none) y ∧ chunkKind memory y.1 = trns

/-- What a scan takes for a JPEG of this size -/
def JpegAccepted (memory : List UInt8) (P : Nat → UInt8 → Prop) (width height : UInt32) : Prop :=
  StartsJpeg memory ∧ LeadsToFrame memory P 2 width height

theorem PngHeader.not_startsJpeg {memory : List UInt8} (h : PngHeader memory) :
    ¬ StartsJpeg memory := by
  rintro ⟨hfirst,-⟩
  have hsig := h.signature_eq
  cases memory with
  | nil => cases hfirst
  | cons b memory =>
    have hb : b = 0xff := Option.some.inj hfirst
    have hb' : b = 0x89 := (List.cons.inj hsig).1
    exact absurd (hb.symm.trans hb') (by decide)

/-- What a scan stores of a PNG that it has taken -/
theorem pngMetadata_eq {memory : List UInt8} {out : Metadata} (h : PngAccepted memory)
    (halpha : pngColorType memory &&& 4 ≠ 0 → out = headerMetadata memory)
    (hwalk : pngColorType memory &&& 4 = 0 →
      ∀ y, LeadsToEnd memory (pngColorType memory) (33,none) y →
        Walked memory y (headerMetadata memory) out) :
    out.width = be32At memory 16 ∧ out.height = be32At memory 20 ∧
      (out.hasAlpha = true ↔ PngAlpha memory) := by
  by_cases hcolor : pngColorType memory &&& 4 = 0
  · obtain ⟨y,hy,-⟩ := h.chunks.resolve_left (not_not_intro hcolor)
    obtain ⟨hwidth,hheight,-,hhas,-⟩ := hwalk hcolor y hy
    refine ⟨hwidth,hheight,?_⟩
    rw [hhas,headerMetadata,decide_eq_true_eq]
    constructor
    · rintro (hne | hkind)
      · exact .inl hne
      · exact .inr ⟨y,hy,hkind⟩
    · rintro (hne | ⟨z,hz,hkind⟩)
      · exact .inl hne
      · exact .inr (hy.unique hz ▸ hkind)
  · rw [halpha hcolor]
    exact ⟨rfl,rfl,fun _ => .inl hcolor,fun _ => decide_eq_true hcolor⟩

/-- The scan of a source in memory ends, stores nothing outside its arrays, leaves the source as it
was, and recognises a PNG and a JPEG by their chunks and markers. -/
theorem readDimensions_exact (s : Source) (out : Metadata) {fuel : Nat}
    (hfuel : s.memory.length < fuel) :
    ∃ codec out', readDimensions fuel s out = .ok (codec,s,out') ∧
      (codec = some .png ↔ PngAccepted s.memory) ∧
      (codec = some .png → out'.width = be32At s.memory 16 ∧ out'.height = be32At s.memory 20 ∧
        (out'.hasAlpha = true ↔ PngAlpha s.memory)) ∧
      (MarkersProper s.memory →
        (codec = some .jpeg ↔ ∃ width height, JpegAccepted s.memory properMarker width height) ∧
        (codec = some .jpeg → JpegAccepted s.memory properMarker out'.width out'.height ∧
          out'.hasAlpha = false)) := by
  have hstart : ∀ s' : Source, s'.memory = s.memory → restorePos s' s.position = s := by
    intro s' hmem
    rw [restorePos_eq (hmem ▸ s.position_le)]
    cases s
    cases s'
    cases hmem
    rfl
  rw [readDimensions]
  simp only [sourceSeek_current,seekBegin_eq,Bool.not_true,Bool.false_eq_true,if_false]
  obtain ⟨size,s',hjpeg,hmem,hiff⟩ := readJpegDimensions_spec (s := s.at 0 (Nat.zero_le _)) hfuel rfl
  rw [Source.at_memory] at hmem hiff
  rw [hjpeg]
  have hproper : MarkersProper s.memory → ∀ width height, size = some (width,height) ↔
      JpegAccepted s.memory properMarker width height := by
    intro h width height
    rw [hiff,h.leadsToFrame_iff]
    rfl
  cases size with
  | some size =>
    obtain ⟨width,height⟩ := size
    refine ⟨some .jpeg,_,congrArg Except.ok (Prod.ext rfl (Prod.ext (hstart s' hmem) rfl)),?_,
      (by simp),fun h => ?_⟩
    · refine ⟨(by simp),fun h => ?_⟩
      exact absurd ((hiff width height).mp rfl).1 h.header.not_startsJpeg
    · have haccepted := (hproper h width height).mp rfl
      exact ⟨⟨fun _ => ⟨width,height,haccepted⟩,fun _ => rfl⟩,fun _ => ⟨haccepted,rfl⟩⟩
  | none =>
    have hnojpeg : MarkersProper s.memory →
        ¬ ∃ width height, JpegAccepted s.memory properMarker width height := by
      rintro h ⟨width,height,haccepted⟩
      exact absurd ((hproper h width height).mpr haccepted) (by simp)
    have hroom : (s'.at 0 (Nat.zero_le _)).memory.length < fuel := by
      rw [Source.at_memory,hmem]
      exact hfuel
    have hbegin : (s'.at 0 (Nat.zero_le _)).memory.drop (s'.at 0 (Nat.zero_le _)).position =
        s.memory := by
      rw [Source.at_memory,Source.at_position,hmem]
      rfl
    obtain ⟨ok,s'',out',hpng,hmem',hok,halpha,hwalk,-⟩ := readPngMetadata_spec hroom out hbegin
    simp only [Source.at_memory,Source.at_position,hmem,Nat.zero_add] at hmem' hok hwalk
    simp only [bind,Except.bind,hpng]
    cases ok with
    | true =>
      have haccepted : PngAccepted s.memory := ⟨(hok.mp rfl).1,(hok.mp rfl).2⟩
      refine ⟨some .png,out',congrArg Except.ok (Prod.ext rfl (Prod.ext (hstart s'' hmem') rfl)),
        ⟨fun _ => haccepted,fun _ => rfl⟩,fun _ => ?_,fun h => ⟨⟨(by simp),?_⟩,(by simp)⟩⟩
      · exact pngMetadata_eq haccepted (halpha rfl) (hwalk rfl)
      · exact fun hex => absurd hex (hnojpeg h)
    | false =>
      refine ⟨none,out',congrArg Except.ok (Prod.ext rfl (Prod.ext (hstart s'' hmem') rfl)),
        ⟨(by simp),fun h => ?_⟩,(by simp),fun h => ⟨⟨(by simp),?_⟩,(by simp)⟩⟩
      · exact absurd (hok.mpr ⟨h.header,h.chunks⟩) (by simp)
      · exact fun hex => absurd hex (hnojpeg h)

/-- A grey picture, cut off after the header of its `tRNS` chunk -/
def cutGreyPng : List UInt8 := onePixelPng 0++[0,0,0,2]++trns

/-- The same with a palette of one colour -/
def cutPalettePng : List UInt8 :=
  onePixelPng 3++[0,0,0,3]++plte++[1,2,3,0,0,0,0]++[0,0,0,1]++trns

def cutGreySource : Source := ⟨cutGreyPng,7,by decide,by decide⟩

def cutPaletteSource : Source := ⟨cutPalettePng,0,by decide,by decide⟩

theorem cutGreyPng_leads : LeadsToEnd cutGreyPng 0 (33,none) (33,none) :=
  ⟨.refl,by decide,.inl (by decide)⟩

theorem cutPalettePng_leads : LeadsToEnd cutPalettePng 3 (33,none) (48,some 33) := by
  refine ⟨.single ⟨fun h => ?_,by decide,by decide⟩,by decide,.inl (by decide)⟩
  rcases h.kind with h | h | h <;> exact absurd h (by decide)

theorem readDimensions_exact_grey :
    ∃ out', readDimensions 42 cutGreySource (headerMetadata cutGreyPng) =
      .ok (some .png,cutGreySource,out') ∧ out'.hasAlpha = true := by
  obtain ⟨codec,out',heq,hpng,hout,-⟩ := readDimensions_exact cutGreySource
    (headerMetadata cutGreyPng) (show _ < 42 by decide)
  have haccepted : PngAccepted cutGreyPng := by
    refine ⟨⟨by decide,by decide,by decide,by decide,by decide,by decide⟩,.inr ⟨_,cutGreyPng_leads,?_⟩⟩
    exact fun h => absurd h.2.1 nofun
  have hcodec := hpng.mpr haccepted
  refine ⟨out',hcodec ▸ heq,(hout hcodec).2.2.mpr (.inr ⟨_,cutGreyPng_leads,by decide⟩)⟩

/-- A JPEG whose frame header comes after the end of the image -/
def endedJpeg : List UInt8 :=
  [0xff,0xd8,0xff,0xd9,0xff,0xc0,0,11,8,0,1,0,1,1,1,0x11,0]

def endedJpegSource : Source := ⟨endedJpeg,0,by decide,by decide⟩

theorem endedJpeg_not_accepted (width height : UInt32) :
    ¬ JpegAccepted endedJpeg properMarker width height := by
  have hmarker : MarkerAt endedJpeg 2 1 0xd9 := ⟨by decide,by decide,by decide⟩
  have himproper : ¬ properMarker 1 0xd9 := fun h => h.2 rfl
  rintro ⟨-,hleads⟩
  rw [leadsToFrame_iff] at hleads
  rcases hleads with ⟨⟨fill,marker,hother,hproper,-⟩,-,-⟩ | ⟨q,hstep,-⟩
  · obtain ⟨rfl,rfl⟩ := hmarker.unique hother
    exact himproper hproper
  · cases hstep with
    | standalone hother hproper =>
      obtain ⟨rfl,rfl⟩ := hmarker.unique hother
      exact himproper hproper
    | segment hother hproper =>
      obtain ⟨rfl,rfl⟩ := hmarker.unique hother
      exact himproper hproper

/-- Whether a `tRNS` chunk must be complete depends on a palette before it: one picture is refused
although its chunks are well delimited up to the `tRNS`, another taken although its `tRNS` is not. And
the end of a JPEG does not end the scan. -/
theorem readDimensions_cut_trns :
    (PngHeader cutPalettePng ∧ LeadsToEnd cutPalettePng 3 (33,none) (48,some 33) ∧
      (readDimensions 57 cutPaletteSource (headerMetadata cutPalettePng)).map Prod.fst = .ok none) ∧
    ((∀ y, LeadsToEnd cutGreyPng 0 (33,none) y →
        ¬ y.1+12+chunkLength cutGreyPng y.1 ≤ cutGreyPng.length) ∧
      (readDimensions 42 cutGreySource (headerMetadata cutGreyPng)).map Prod.fst =
        .ok (some .png)) ∧
    (∀ width height, ¬ JpegAccepted endedJpeg properMarker width height) ∧
      (readDimensions 20 endedJpegSource (headerMetadata cutGreyPng)).map Prod.fst =
        .ok (some .jpeg) := by
  refine ⟨⟨⟨by decide,by decide,by decide,by decide,by decide,by decide⟩,cutPalettePng_leads,
    by decide +kernel⟩,⟨fun y hy => ?_,by decide +kernel⟩,endedJpeg_not_accepted,
    by decide +kernel⟩
  have hends : y = (33,none) := cutGreyPng_leads.unique hy
  rw [hends]
  decide

end ZZ9K.Picture
