import ZZ9K.Picture.Lut8Lookup
import ZZ9K.Picture.PngWalk

namespace ZZ9K.Picture

/-- The indexed path loses nothing: the map is built, every lookup gives what it must, and the
transparent colour that is published is an entry of the palette. -/
structure Lossless (palette : PngPalette) : Prop where
  maps : ∃ m, buildPngLut8Map palette = .ok m ∧ ∀ red green blue,
    ∃ i, pngLut8Lookup palette m red green blue = .ok i ∧ LooksUp palette red green blue i.toNat
  published : palette.transparentIndex = pngTransparentNone ∨
    palette.transparentIndex < palette.count

/-- The entries that a palette has its transparent ones from -/
structure MarkedBy (palette : PngPalette) (alphas : List UInt8) : Prop where
  length_le : alphas.length ≤ 256
  transparent_iff : ∀ i, palette.transparent i = true ↔ alphas[i]? = some 0
  index_eq : palette.transparentIndex =
    ((firstZero alphas 0).map Nat.toUInt16).getD pngTransparentNone

theorem Unmarked.markedBy {palette : PngPalette} (h : Unmarked palette) : MarkedBy palette [] := by
  refine ⟨by decide,fun i => iff_of_false ?_ nofun,h.2⟩
  have hbyte : (List.replicate pngTransparentMaskBytes (0 : UInt8)).getD (i/8) 0 = 0 := by
    rw [List.getD_eq_getElem?_getD,List.getElem?_replicate]
    split_ifs <;> rfl
  rw [PngPalette.transparent,h.1,hbyte,UInt8.zero_shiftRight]
  decide

/-- The entries of a `tRNS` chunk mark a palette that has no transparent entries. -/
theorem MarkedBy.of_alphas {base palette : PngPalette} {alphas : List UInt8} (h : Unmarked base)
    (hlength : alphas.length ≤ 256) (hok : pngAlphas alphas 0 base = .ok palette) :
    MarkedBy palette alphas ∧ palette.count = base.count ∧ palette.rgb = base.rgb := by
  obtain ⟨palette',heq,hrgb,hcount,-,-,hbits,hindex⟩ := pngAlphas_spec alphas
    (by rw [h.1,List.length_replicate]) (by rw [Nat.zero_add]; exact hlength)
  obtain rfl := Except.ok.inj (heq.symm.trans hok)
  refine ⟨⟨hlength,fun i => ?_,?_⟩,hcount,hrgb⟩
  · have hclear : maskBit base.transparentMask i ≠ true :=
      fun hbit => nomatch (h.markedBy.transparent_iff i).mp hbit
    rw [show palette'.transparent i = maskBit palette'.transparentMask i from rfl,hbits i]
    simp [hclear]
  · rw [hindex,if_pos h.2]

section

variable {palette : PngPalette} {alphas : List UInt8}

/-- The first of the transparent entries -/
theorem MarkedBy.index_of_zero (h : MarkedBy palette alphas) {k : Nat}
    (hk : alphas[k]? = some 0) :
    palette.transparentIndex.toNat ≤ k ∧ palette.transparentIndex.toNat < 256 ∧
      alphas[palette.transparentIndex.toNat]? = some 0 := by
  obtain ⟨i,hi,hle⟩ := firstZero_le 0 hk
  obtain ⟨-,hlt,hzero⟩ := firstZero_bounds hi
  have hlength := h.length_le
  have hindex : palette.transparentIndex.toNat = i := by
    rw [h.index_eq,hi,Option.map_some,Option.getD_some,Nat.toUInt16_eq,UInt16.toNat_ofNat']
    omega
  rw [hindex]
  exact ⟨by omega,by omega,hzero⟩

/-- An eligible palette loses nothing if and only if its `tRNS` chunk does not begin its transparent
entries beyond the palette. -/
theorem Eligible.lossless_iff (h : Eligible palette) (hmarks : MarkedBy palette alphas) :
    Lossless palette ↔
      (0 ∈ alphas → ∃ i < palette.count.toNat, alphas[i]? = some 0) := by
  constructor
  · rintro ⟨-,hpublished⟩ hzero
    obtain ⟨k,hk⟩ := List.mem_iff_getElem?.mp hzero
    obtain ⟨-,hsmall,hfirst⟩ := hmarks.index_of_zero hk
    rcases hpublished with hnone | hless
    · rw [hnone] at hsmall
      exact absurd hsmall (by decide)
    · exact ⟨_,UInt16.lt_iff_toNat_lt.mp hless,hfirst⟩
  · intro hinside
    obtain ⟨m,hbuild,hfilled⟩ := buildPngLut8Map_eq h.count_le
    refine ⟨⟨m,hbuild,h.looksUp (fun i _ htransparent => ?_) hfilled⟩,?_⟩
    · exact (hmarks.index_of_zero ((hmarks.transparent_iff i).mp htransparent)).2.1
    · by_cases hzero : 0 ∈ alphas
      · obtain ⟨k,hk,hget⟩ := hinside hzero
        have hle := (hmarks.index_of_zero hget).1
        exact .inr (UInt16.lt_iff_toNat_lt.mpr (Nat.lt_of_le_of_lt hle hk))
      · left
        rw [hmarks.index_eq]
        cases hfirst : firstZero alphas 0 with
        | none => rfl
        | some i =>
          obtain ⟨-,-,hget⟩ := firstZero_bounds hfirst
          exact absurd (List.mem_of_getElem? hget) hzero

end

/-- In a PNG from the position on, a `tRNS` chunk that the code reads and that has a fully transparent
entry has one that belongs to an entry of the palette before it. -/
def ZeroInPalette (s : Source) : Prop :=
  PngHeader (s.memory.drop s.position) → ∀ y r,
    LeadsToEnd s.memory (pngColorType (s.memory.drop s.position)) (s.position+33,none) y →
    y.2 = some r → UsesAlphas s.memory y → EndFits s.memory y →
    0 ∈ chunkData s.memory y.1 →
      ∃ i < chunkLength s.memory r/3, (chunkData s.memory y.1)[i]? = some 0

/-- A scan whose caller does not ask about alpha stores no palette. -/
theorem readPngMetadata_plain {fuel : Nat} {s s' : Source} {out out' : Metadata} {ok : Bool}
    (h : readPngMetadata fuel false true s out = .ok (ok,s',out')) :
    out'.palette = clearedPalette := by
  rw [readPngMetadata] at h
  simp only [Bool.not_false,if_true] at h
  split_ifs at h <;>
    · obtain ⟨-,h⟩ := Prod.mk.inj (Except.ok.inj h)
      rw [← (Prod.mk.inj h).2]

/-- Of all palettes that a scan stores and the indexed path takes, those lose nothing whose `tRNS` chunk
has a fully transparent entry within the palette, if it has any. -/
theorem pngLut8_lossless_iff {fuel : Nat} {s s' : Source} {out out' : Metadata}
    {ok wantsAlpha : Bool} (hfuel : s.memory.length < fuel)
    (hread : readPngMetadata fuel wantsAlpha true s out = .ok (ok,s',out'))
    (heligible : pngPaletteLut8Eligible out'.palette = true) :
    Lossless out'.palette ↔ ZeroInPalette s := by
  have h := eligible_of_eq_true heligible
  have hnotcleared : out'.palette ≠ clearedPalette := by
    intro heq
    have hpresent := h.present
    rw [heq] at hpresent
    cases hpresent
  cases wantsAlpha with
  | false => exact absurd (readPngMetadata_plain hread) hnotcleared
  | true =>
    obtain ⟨ok',s'',out'',heq,-,hok,halpha,hwalk,hunmarked⟩ :=
      readPngMetadata_spec hfuel out (s := s) rfl
    obtain ⟨rfl,hrest⟩ := Prod.mk.inj (Except.ok.inj (heq.symm.trans hread))
    obtain ⟨-,rfl⟩ := Prod.mk.inj hrest
    cases ok' with
    | false =>
      have hlossless := (h.lossless_iff (hunmarked rfl).markedBy).mpr (nofun)
      refine iff_of_true hlossless fun hheader y r hy _ _ hfits => ?_
      exact absurd (hok.mpr ⟨hheader,.inr ⟨y,hy,hfits⟩⟩) nofun
    | true =>
      by_cases hcolor : pngColorType (s.memory.drop s.position) &&& 4 = 0
      · obtain ⟨hheader,hchunks⟩ := hok.mp rfl
        obtain ⟨y,hy,hfits⟩ := hchunks.resolve_left (not_not_intro hcolor)
        obtain ⟨-,-,-,-,base,hbase,hused,hunused⟩ := hwalk rfl hcolor y hy
        by_cases huses : UsesAlphas s.memory y
        · obtain ⟨-,hsome,-,hlong⟩ := id huses
          obtain ⟨r,hr⟩ := Option.isSome_iff_exists.mp hsome
          have hlength : (chunkData s.memory y.1).length ≤ 256 :=
            (slice_length_le (s := s) (y.1+8) _).trans hlong
          obtain ⟨hmarks,hcount,-⟩ := MarkedBy.of_alphas hbase.unmarked hlength (hused huses)
          rw [h.lossless_iff hmarks,hcount,hbase.count_eq r hr]
          constructor
          · intro hinside _ z q hz hq _ _
            obtain rfl := hy.unique hz
            obtain rfl := Option.some.inj (hr.symm.trans hq)
            exact hinside
          · exact fun hinside => hinside hheader y r hy hr huses hfits
        · rw [hunused huses] at h ⊢
          refine iff_of_true ((h.lossless_iff hbase.unmarked.markedBy).mpr nofun) ?_
          intro _ z q hz _ huses'
          obtain rfl := hy.unique hz
          exact absurd huses' huses
      · exact absurd (congrArg Metadata.palette (halpha rfl hcolor)) hnotcleared

/-- A palette of two colours, the first of them transparent -/
def clearFirstPng : List UInt8 :=
  onePixelPng 3++[0,0,0,6]++plte++[1,2,3,4,5,6,0,0,0,0]++[0,0,0,1]++trns++[0,0,0,0,0]

/-- A palette of one colour, and a `tRNS` chunk whose second entry is transparent -/
def overlongTrnsPng : List UInt8 :=
  onePixelPng 3++[0,0,0,3]++plte++[1,2,3,0,0,0,0]++[0,0,0,2]++trns++[255,0,0,0,0,0]

def clearFirstSource : Source := ⟨clearFirstPng,0,by decide,by decide⟩

def overlongTrnsSource : Source := ⟨overlongTrnsPng,0,by decide,by decide⟩

/-- A scan that was computed -/
theorem exists_of_map_eq {r : Except Trouble (Bool × Source × Metadata)} (ok : Bool)
    (f : PngPalette → Bool) (h : r.map (fun x => (x.1,f x.2.2.palette)) = .ok (ok,true)) :
    ∃ s' out', r = .ok (ok,s',out') ∧ f out'.palette = true := by
  cases r with
  | error => cases h
  | ok x =>
    obtain ⟨hok,hf⟩ := Prod.mk.inj (Except.ok.inj h)
    exact ⟨x.2.1,x.2.2,by rw [← hok],hf⟩

theorem pngLut8_lossless_iff_clear :
    ∃ s' out', readPngMetadata 66 true true clearFirstSource (headerMetadata clearFirstPng) =
      .ok (true,s',out') ∧ Lossless out'.palette := by
  obtain ⟨s',out',hread,heligible⟩ := exists_of_map_eq true pngPaletteLut8Eligible
    (r := readPngMetadata 66 true true clearFirstSource (headerMetadata clearFirstPng))
    (by decide +kernel)
  have hleads : LeadsToEnd clearFirstPng 3 (33,none) (51,some 33) := by
    refine ⟨.single ⟨fun h => ?_,by decide,by decide⟩,by decide,.inl (by decide)⟩
    rcases h.kind with h | h | h <;> exact absurd h (by decide)
  refine ⟨s',out',hread,(pngLut8_lossless_iff (by decide) hread heligible).mpr ?_⟩
  intro _ y r hy hr _ _ _
  obtain rfl := hleads.unique hy
  obtain rfl := Option.some.inj hr
  exact ⟨0,by decide,by decide⟩

theorem pngLut8_overlong_trns :
    ∃ s' out', readPngMetadata 63 true true overlongTrnsSource (headerMetadata overlongTrnsPng) =
      .ok (true,s',out') ∧ pngPaletteLut8Eligible out'.palette = true ∧
      ¬ Lossless out'.palette := by
  obtain ⟨s',out',hread,hpalette⟩ := exists_of_map_eq true
    (fun palette => pngPaletteLut8Eligible palette &&
      decide (palette.transparentIndex = 1 ∧ palette.count = 1))
    (r := readPngMetadata 63 true true overlongTrnsSource (headerMetadata overlongTrnsPng))
    (by decide +kernel)
  rw [Bool.and_eq_true,decide_eq_true_eq] at hpalette
  obtain ⟨heligible,hindex,hcount⟩ := hpalette
  refine ⟨s',out',hread,heligible,fun h => ?_⟩
  have hpublished := h.published
  rw [hindex,hcount] at hpublished
  exact absurd hpublished (by decide)

end ZZ9K.Picture
