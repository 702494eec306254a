import Mathlib.Logic.Relation
import ZZ9K.Picture.Dimensions

namespace ZZ9K.Picture

open Relation

/-- From a place on there are so many fill bytes, and then a marker. -/
structure MarkerAt (memory : List UInt8) (p fill : Nat) (marker : UInt8) : Prop where
  fills : ∀ i, i < fill → memory[p+i]? = some 0xff
  marker_eq : memory[p+fill]? = some marker
  marker_ne : marker ≠ 0xff

/-- The 16-bit number at a place -/
def be16At (memory : List UInt8) (p : Nat) : UInt16 := readBe16 ((memory.drop p).take 2)

/-- A marker, and what belongs to it: nothing, or a segment of a length that includes its own two
bytes. Neither a start of scan nor a frame header is followed any further. -/
inductive JpegStep (memory : List UInt8) (P : Nat → UInt8 → Prop) : Nat → Nat → Prop
  | standalone {p fill : Nat} {marker : UInt8} (hmarker : MarkerAt memory p fill marker)
      (hproper : P fill marker) (halone : jpegStandaloneMarker marker = true) :
      JpegStep memory P p (p+fill+1)
  | segment {p fill : Nat} {marker : UInt8} (hmarker : MarkerAt memory p fill marker)
      (hproper : P fill marker) (halone : jpegStandaloneMarker marker = false)
      (hscan : marker ≠ 0xda) (hframe : jpegSofMarker marker = false)
      (hlength : 2 ≤ (be16At memory (p+fill+1)).toNat)
      (hfits : p+fill+1+(be16At memory (p+fill+1)).toNat ≤ memory.length) :
      JpegStep memory P p (p+fill+1+(be16At memory (p+fill+1)).toNat)

/-- A frame header of a picture that is not empty -/
structure FrameAt (memory : List UInt8) (P : Nat → UInt8 → Prop) (p : Nat) (width height : UInt32) :
    Prop where
  header : ∃ fill marker, MarkerAt memory p fill marker ∧ P fill marker ∧
    jpegSofMarker marker = true ∧ 8 ≤ (be16At memory (p+fill+1)).toNat ∧
    p+fill+9 ≤ memory.length ∧ height = (be16At memory (p+fill+4)).toUInt32 ∧
    width = (be16At memory (p+fill+6)).toUInt32
  width_ne : width ≠ 0
  height_ne : height ≠ 0

/-- The markers from a place on lead to a frame header. -/
def LeadsToFrame (memory : List UInt8) (P : Nat → UInt8 → Prop) (p : Nat) (width height : UInt32) :
    Prop :=
  ∃ q, ReflTransGen (JpegStep memory P) p q ∧ FrameAt memory P q width height

/-- Whatever stands before a marker, and any marker -/
def anyMarker : Nat → UInt8 → Prop := fun _ _ => True

/-- A marker has a 0xff before it, and it is not the end of the image. -/
def properMarker : Nat → UInt8 → Prop := fun fill marker => 1 ≤ fill ∧ marker ≠ 0xd9

section

variable {memory : List UInt8} {P : Nat → UInt8 → Prop} {p : Nat} {width height : UInt32}

/-- There is one marker from a place on at most. -/
theorem MarkerAt.unique {fill fill' : Nat} {marker marker' : UInt8}
    (h : MarkerAt memory p fill marker) (h' : MarkerAt memory p fill' marker') :
    fill' = fill ∧ marker' = marker := by
  have hle : ∀ {fill fill' : Nat} {marker marker' : UInt8}, MarkerAt memory p fill marker →
      MarkerAt memory p fill' marker' → fill' ≤ fill := by
    intro fill fill' marker marker' h h'
    by_contra hlt
    have hff := h'.fills fill (by omega)
    rw [h.marker_eq] at hff
    exact h.marker_ne (Option.some.inj hff)
  have heq : fill' = fill := Nat.le_antisymm (hle h h') (hle h' h)
  subst heq
  have hmarker := h'.marker_eq
  rw [h.marker_eq] at hmarker
  exact ⟨rfl,(Option.some.inj hmarker).symm⟩

theorem jpegSofMarker_not_alone {marker : UInt8} (h : jpegSofMarker marker = true) :
    jpegStandaloneMarker marker = false ∧ marker ≠ 0xda := by
  simp only [jpegSofMarker,List.mem_cons,List.not_mem_nil,or_false,decide_eq_true_eq] at h
  rcases h with h | h | h | h | h | h | h | h | h | h | h | h | h <;> subst h <;> decide

theorem leadsToFrame_iff : LeadsToFrame memory P p width height ↔
    FrameAt memory P p width height ∨
      ∃ q, JpegStep memory P p q ∧ LeadsToFrame memory P q width height := by
  constructor
  · rintro ⟨q,hreach,hframe⟩
    rcases ReflTransGen.cases_head hreach with rfl | ⟨r,hstep,hrest⟩
    · exact .inl hframe
    · exact .inr ⟨r,hstep,q,hrest,hframe⟩
  · rintro (hframe | ⟨q,hstep,r,hrest,hframe⟩)
    · exact ⟨p,.refl,hframe⟩
    · exact ⟨r,.head hstep hrest,hframe⟩

/-- Without a marker nothing is reached. -/
theorem not_leadsToFrame_of_none (h : ∀ fill marker, ¬ MarkerAt memory p fill marker) :
    ¬ LeadsToFrame memory P p width height := by
  rw [leadsToFrame_iff]
  rintro (⟨⟨fill,marker,hmarker,-⟩,-,-⟩ | ⟨q,hstep,-⟩)
  · exact h fill marker hmarker
  · cases hstep with
    | standalone hmarker => exact h _ _ hmarker
    | segment hmarker => exact h _ _ hmarker

section

variable {fill : Nat} {marker : UInt8}

theorem leadsToFrame_standalone (hmarker : MarkerAt memory p fill marker)
    (halone : jpegStandaloneMarker marker = true) :
    LeadsToFrame memory anyMarker p width height ↔
      LeadsToFrame memory anyMarker (p+fill+1) width height := by
  rw [leadsToFrame_iff]
  constructor
  · rintro (⟨⟨fill',marker',hmarker',-,hsof,-⟩,-,-⟩ | ⟨q,hstep,hq⟩)
    · obtain ⟨rfl,rfl⟩ := hmarker.unique hmarker'
      rw [(jpegSofMarker_not_alone hsof).1] at halone
      cases halone
    · cases hstep with
      | standalone hmarker' =>
        obtain ⟨rfl,rfl⟩ := hmarker.unique hmarker'
        exact hq
      | segment hmarker' _ halone' =>
        obtain ⟨rfl,rfl⟩ := hmarker.unique hmarker'
        rw [halone] at halone'
        cases halone'
  · exact fun hq => .inr ⟨_,.standalone hmarker trivial halone,hq⟩

theorem not_leadsToFrame_scan (hmarker : MarkerAt memory p fill 0xda) :
    ¬ LeadsToFrame memory P p width height := by
  rw [leadsToFrame_iff]
  rintro (⟨⟨fill',marker',hmarker',-,hsof,-⟩,-,-⟩ | ⟨q,hstep,-⟩)
  · obtain ⟨rfl,rfl⟩ := hmarker.unique hmarker'
    exact absurd hsof (by decide)
  · cases hstep with
    | standalone hmarker' _ halone =>
      obtain ⟨rfl,rfl⟩ := hmarker.unique hmarker'
      exact absurd halone (by decide)
    | segment hmarker' _ _ hscan =>
      obtain ⟨rfl,rfl⟩ := hmarker.unique hmarker'
      exact hscan rfl

theorem leadsToFrame_frame (hmarker : MarkerAt memory p fill marker)
    (hsof : jpegSofMarker marker = true) :
    LeadsToFrame memory anyMarker p width height ↔
      8 ≤ (be16At memory (p+fill+1)).toNat ∧ p+fill+9 ≤ memory.length ∧
        height = (be16At memory (p+fill+4)).toUInt32 ∧
        width = (be16At memory (p+fill+6)).toUInt32 ∧ width ≠ 0 ∧ height ≠ 0 := by
  rw [leadsToFrame_iff]
  constructor
  · rintro (⟨⟨fill',marker',hmarker',-,-,hlength,hfits,hh,hw⟩,hwidth,hheight⟩ | ⟨q,hstep,-⟩)
    · obtain ⟨rfl,rfl⟩ := hmarker.unique hmarker'
      exact ⟨hlength,hfits,hh,hw,hwidth,hheight⟩
    · cases hstep with
      | standalone hmarker' _ halone =>
        obtain ⟨rfl,rfl⟩ := hmarker.unique hmarker'
        rw [(jpegSofMarker_not_alone hsof).1] at halone
        cases halone
      | segment hmarker' _ _ _ hframe =>
        obtain ⟨rfl,rfl⟩ := hmarker.unique hmarker'
        rw [hsof] at hframe
        cases hframe
  · rintro ⟨hlength,hfits,hh,hw,hwidth,hheight⟩
    exact .inl ⟨⟨fill,marker,hmarker,trivial,hsof,hlength,hfits,hh,hw⟩,hwidth,hheight⟩

theorem leadsToFrame_segment (hmarker : MarkerAt memory p fill marker)
    (halone : jpegStandaloneMarker marker = false) (hscan : marker ≠ 0xda)
    (hsof : jpegSofMarker marker = false) :
    LeadsToFrame memory anyMarker p width height ↔
      2 ≤ (be16At memory (p+fill+1)).toNat ∧
      p+fill+1+(be16At memory (p+fill+1)).toNat ≤ memory.length ∧
      LeadsToFrame memory anyMarker (p+fill+1+(be16At memory (p+fill+1)).toNat) width height := by
  rw [leadsToFrame_iff]
  constructor
  · rintro (⟨⟨fill',marker',hmarker',-,hsof',-⟩,-,-⟩ | ⟨q,hstep,hq⟩)
    · obtain ⟨rfl,rfl⟩ := hmarker.unique hmarker'
      rw [hsof] at hsof'
      cases hsof'
    · cases hstep with
      | standalone hmarker' _ halone' =>
        obtain ⟨rfl,rfl⟩ := hmarker.unique hmarker'
        rw [halone] at halone'
        cases halone'
      | segment hmarker' _ _ _ _ hlength hfits =>
        obtain ⟨rfl,rfl⟩ := hmarker.unique hmarker'
        exact ⟨hlength,hfits,hq⟩
  · rintro ⟨hlength,hfits,hq⟩
    exact .inr ⟨_,.segment hmarker trivial halone hscan hsof hlength hfits,hq⟩

end

end

section

variable {s : Source}

theorem slice_getD {p n i : Nat} (hi : i < n) (h : p+n ≤ s.memory.length) :
    s.memory[p+i]? = some ((s.slice p n).getD i 0) := by
  have hlen := Source.slice_length h
  have hlt : i < (s.slice p n).length := by omega
  have hsome : (s.slice p n)[i]? = some ((s.slice p n).getD i 0) := by
    rw [List.getD_eq_getElem?_getD,List.getElem?_eq_getElem hlt,Option.getD_some]
  rw [← hsome,Source.slice,List.getElem?_take_of_lt hi,List.getElem?_drop]

theorem readBe16_take (bytes : List UInt8) : readBe16 (bytes.take 2) = readBe16 bytes := by
  match bytes with
  | [] => rfl
  | [a] => rfl
  | a::b::rest => rfl

/-- A number in the bytes that a read has got -/
theorem readBe16_slice {p n i : Nat} (hi : i+2 ≤ n) :
    readBe16 ((s.slice p n).drop i) = be16At s.memory (p+i) := by
  have htwo : min 2 (n-i) = 2 := by omega
  rw [← readBe16_take,be16At,Source.slice,List.drop_take,List.drop_drop,List.take_take,htwo]

/-- The next marker, wherever there is one -/
theorem jpegMarker_spec {fuel : Nat} (hfuel : s.memory.length-s.position < fuel) :
    (∃ fill marker h, MarkerAt s.memory s.position fill marker ∧
      jpegMarker fuel s = .ok (some marker,s.at (s.position+fill+1) h)) ∨
    (∃ s', s'.memory = s.memory ∧ jpegMarker fuel s = .ok (none,s')) ∧
      ∀ fill marker, ¬ MarkerAt s.memory s.position fill marker := by
  induction fuel generalizing s with
  | zero => exact absurd hfuel (Nat.not_lt_zero _)
  | succ fuel ih =>
    by_cases hleft : s.position+1 ≤ s.memory.length
    · have hbyte := slice_getD (i := 0) Nat.one_pos hleft
      rw [Nat.add_zero] at hbyte
      rw [jpegMarker,readExact_of_le hleft]
      simp only [Bool.not_true,Bool.false_eq_true,if_false]
      generalize (s.slice s.position 1).getD 0 0 = byte at hbyte ⊢
      by_cases hff : byte = 0xff
      · subst hff
        rw [if_pos rfl]
        -- A fill byte: the marker is that of the rest.
        have hrest : ∀ fill marker, MarkerAt s.memory s.position (fill+1) marker ↔
            MarkerAt s.memory (s.position+1) fill marker := by
          intro fill marker
          have hplace : ∀ i, s.position+1+i = s.position+(i+1) := by intro i; omega
          constructor
          · rintro ⟨hfills,hmarker,hne⟩
            refine ⟨fun i hi => ?_,?_,hne⟩
            · rw [hplace]
              exact hfills (i+1) (by omega)
            · rw [hplace]
              exact hmarker
          · rintro ⟨hfills,hmarker,hne⟩
            refine ⟨fun i hi => ?_,?_,hne⟩
            · cases i with
              | zero => exact hbyte
              | succ i => rw [← hplace]; exact hfills i (by omega)
            · rw [← hplace]
              exact hmarker
        have hless : (s.at (s.position+1) hleft).memory.length-
            (s.at (s.position+1) hleft).position < fuel := by
          rw [Source.at_memory,Source.at_position]
          omega
        rcases ih hless with ⟨fill,marker,h,hmarker,heq⟩ | ⟨⟨s',hmem,heq⟩,hnone⟩
        · have hplace : s.position+1+fill+1 = s.position+(fill+1)+1 := by omega
          refine .inl ⟨fill+1,marker,hplace ▸ h,(hrest fill marker).mpr hmarker,?_⟩
          rw [heq]
          simp only [Source.at_position,hplace]
          rfl
        · refine .inr ⟨⟨s',hmem,heq⟩,?_⟩
          intro fill marker hmarker
          cases fill with
          | zero =>
            have := hmarker.marker_eq
            rw [Nat.add_zero,hbyte] at this
            exact hmarker.marker_ne (Option.some.inj this).symm
          | succ fill => exact hnone fill marker ((hrest fill marker).mp hmarker)
      · rw [if_neg hff]
        exact .inl ⟨0,byte,hleft,⟨fun i hi => absurd hi (Nat.not_lt_zero i),hbyte,hff⟩,rfl⟩
    · have hpos := s.position_le
      rw [jpegMarker,readExact_of_lt (by omega)]
      refine .inr ⟨⟨_,Source.at_memory _,rfl⟩,?_⟩
      intro fill marker hmarker
      have hnone : s.memory[s.position+fill]? = none := List.getElem?_eq_none (by omega)
      rw [hmarker.marker_eq] at hnone
      cases hnone

/-- The scan of a JPEG ends, and it finds a frame header where its markers lead to one. -/
theorem jpegSegments_spec {fuel : Nat} (hfuel : s.memory.length-s.position < fuel) :
    ∃ size s', jpegSegments fuel s = .ok (size,s') ∧ s'.memory = s.memory ∧
      ∀ width height, size = some (width,height) ↔
        LeadsToFrame s.memory anyMarker s.position width height := by
  induction fuel generalizing s with
  | zero => exact absurd hfuel (Nat.not_lt_zero _)
  | succ fuel ih =>
    rw [jpegSegments]
    have hfail : ∀ {s' : Source} {q : Nat}, s'.memory = s.memory →
        (∀ width height, ¬ LeadsToFrame s.memory anyMarker q width height) →
        ∃ size s'', (Except.ok (none,s') : Except Trouble (Option (UInt32 × UInt32) × Source)) =
          .ok (size,s'') ∧ s''.memory = s.memory ∧ ∀ width height, size = some (width,height) ↔
            LeadsToFrame s.memory anyMarker q width height := by
      intro s' q hmem hnot
      exact ⟨none,s',rfl,hmem,fun width height => ⟨nofun,fun h => absurd h (hnot width height)⟩⟩
    rcases jpegMarker_spec hfuel with ⟨fill,marker,h,hmarker,heq⟩ | ⟨⟨s',hmem,heq⟩,hnone⟩
    · rw [heq]
      have hless : s.memory.length-(s.position+fill+1) < fuel := by omega
      dsimp only [bind,Except.bind,pure,Except.pure]
      by_cases halone : jpegStandaloneMarker marker = true
      · rw [if_pos halone]
        obtain ⟨size,s',heq,hmem,hiff⟩ := ih (s := s.at (s.position+fill+1) h) hless
        refine ⟨size,s',heq,hmem,fun width height => ?_⟩
        rw [leadsToFrame_standalone hmarker halone]
        exact hiff width height
      rw [if_neg halone]
      rw [Bool.not_eq_true] at halone
      by_cases hscan : marker = 0xda ∨ marker = 0xd9
      · rw [if_pos hscan]
        rcases hscan with rfl | rfl
        · exact hfail rfl fun _ _ => not_leadsToFrame_scan hmarker
        · cases halone
      rw [if_neg hscan]
      have hnotscan : marker ≠ 0xda := fun h => hscan (.inl h)
      -- Both a frame header and a segment that is skipped have a length, of 2 at least.
      have hlong : ∀ width height, LeadsToFrame s.memory anyMarker s.position width height →
          2 ≤ (be16At s.memory (s.position+fill+1)).toNat ∧
            s.position+fill+1+2 ≤ s.memory.length := by
        intro width height hleads
        by_cases hsof : jpegSofMarker marker = true
        · obtain ⟨hlength,hfits,-⟩ := (leadsToFrame_frame hmarker hsof).mp hleads
          exact ⟨by omega,by omega⟩
        · rw [Bool.not_eq_true] at hsof
          obtain ⟨hlength,hfits,-⟩ :=
            (leadsToFrame_segment hmarker halone hnotscan hsof).mp hleads
          exact ⟨hlength,by omega⟩
      by_cases hread : s.position+fill+1+2 ≤ s.memory.length
      · rw [readExact_of_le (s := s.at (s.position+fill+1) h) hread]
        have hvalue : readBe16 ((s.at (s.position+fill+1) h).slice (s.position+fill+1) 2) =
            be16At s.memory (s.position+fill+1) := rfl
        simp only [Bool.not_true,Bool.false_eq_true,if_false,Source.at_position,hvalue]
        by_cases hshort : (be16At s.memory (s.position+fill+1)).toNat < 2
        · rw [if_pos hshort]
          exact hfail rfl fun width height hleads => by
            have := (hlong width height hleads).1
            omega
        rw [if_neg hshort]
        by_cases hsof : jpegSofMarker marker = true
        · rw [if_pos hsof]
          by_cases hpayload : (be16At s.memory (s.position+fill+1)).toNat-2 < 6
          · rw [if_pos hpayload]
            refine hfail rfl fun width height hleads => ?_
            have := ((leadsToFrame_frame hmarker hsof).mp hleads).1
            omega
          rw [if_neg hpayload]
          by_cases hheader : s.position+fill+1+2+6 ≤ s.memory.length
          · have hget := readExact_of_le
              (s := (s.at (s.position+fill+1) h).at (s.position+fill+1+2) hread) hheader
            simp only [hget,Bool.not_true,Bool.false_eq_true,if_false,
              readBe16_slice (show 1+2 ≤ 6 by decide),readBe16_slice (show 3+2 ≤ 6 by decide)]
            split_ifs with hempty
            · refine hfail rfl fun width height hleads => ?_
              obtain ⟨-,-,hh,hw,hwidth,hheight⟩ := (leadsToFrame_frame hmarker hsof).mp hleads
              rcases hempty with hzero | hzero
              · exact hwidth (hw.trans hzero)
              · exact hheight (hh.trans hzero)
            · rw [not_or] at hempty
              refine ⟨_,_,rfl,rfl,fun width height => ?_⟩
              rw [leadsToFrame_frame hmarker hsof]
              constructor
              · intro hsome
                obtain ⟨rfl,rfl⟩ := Prod.mk.inj (Option.some.inj hsome)
                exact ⟨by omega,by omega,rfl,rfl,hempty.1,hempty.2⟩
              · rintro ⟨-,-,rfl,rfl,-,-⟩
                rfl
          · have hget := readExact_of_lt
              (s := (s.at (s.position+fill+1) h).at (s.position+fill+1+2) hread)
              (Nat.lt_of_not_le hheader)
            simp only [hget]
            refine hfail rfl fun width height hleads => ?_
            have := ((leadsToFrame_frame hmarker hsof).mp hleads).2.1
            omega
        · rw [if_neg hsof]
          rw [Bool.not_eq_true] at hsof
          have hsum : s.position+fill+1+2+((be16At s.memory (s.position+fill+1)).toNat-2) =
              s.position+fill+1+(be16At s.memory (s.position+fill+1)).toNat := by omega
          by_cases hskip : s.position+fill+1+2+
              ((be16At s.memory (s.position+fill+1)).toNat-2) ≤ s.memory.length
          · have hget := skipBytes_of_le
              (s := (s.at (s.position+fill+1) h).at (s.position+fill+1+2) hread) hskip
            simp only [hget,Bool.not_true,Bool.false_eq_true,if_false]
            have hrest : s.memory.length-
                (s.position+fill+1+2+((be16At s.memory (s.position+fill+1)).toNat-2)) < fuel := by
              omega
            obtain ⟨size,s',heq,hmem,hiff⟩ := ih (s := ((s.at (s.position+fill+1) h).at
              (s.position+fill+1+2) hread).at (s.position+fill+1+2+
                ((be16At s.memory (s.position+fill+1)).toNat-2)) hskip) hrest
            refine ⟨size,s',heq,hmem,fun width height => ?_⟩
            have hnext : size = some (width,height) ↔ LeadsToFrame s.memory anyMarker
                (s.position+fill+1+2+((be16At s.memory (s.position+fill+1)).toNat-2)) width
                  height := hiff width height
            rw [leadsToFrame_segment hmarker halone hnotscan hsof,hnext,hsum]
            exact ⟨fun hleads => ⟨by omega,by omega,hleads⟩,fun hleads => hleads.2.2⟩
          · have hget := skipBytes_of_lt
              (s := (s.at (s.position+fill+1) h).at (s.position+fill+1+2) hread)
              (Nat.lt_of_not_le hskip)
            simp only [hget]
            refine hfail rfl fun width height hleads => ?_
            have := ((leadsToFrame_segment hmarker halone hnotscan hsof).mp hleads).2.1
            omega
      · rw [readExact_of_lt (s := s.at (s.position+fill+1) h) (by
          rw [Source.at_memory,Source.at_position]
          omega)]
        exact hfail rfl fun width height hleads => hread (hlong width height hleads).2
    · rw [heq]
      exact hfail hmem fun width height => not_leadsToFrame_of_none hnone

/-- A JPEG begins with this marker. -/
def StartsJpeg (memory : List UInt8) : Prop := memory[0]? = some 0xff ∧ memory[1]? = some 0xd8

theorem readJpegDimensions_spec {fuel : Nat} (hfuel : s.memory.length < fuel)
    (hstart : s.position = 0) :
    ∃ size s', readJpegDimensions fuel s = .ok (size,s') ∧ s'.memory = s.memory ∧
      ∀ width height, size = some (width,height) ↔
        StartsJpeg s.memory ∧ LeadsToFrame s.memory anyMarker 2 width height := by
  rw [readJpegDimensions]
  by_cases hread : s.position+2 ≤ s.memory.length
  · have h0 := slice_getD (i := 0) (by decide) hread
    have h1 := slice_getD (i := 1) (by decide) hread
    rw [hstart] at h0 h1
    have hstarts : StartsJpeg s.memory ↔
        (s.slice s.position 2).getD 0 0 = 0xff ∧ (s.slice s.position 2).getD 1 0 = 0xd8 := by
      rw [StartsJpeg,hstart,h0,h1,Option.some.injEq,Option.some.injEq]
    rw [readExact_of_le hread]
    simp only [Bool.not_true,Bool.false_eq_true,false_or]
    by_cases hsoi : StartsJpeg s.memory
    · have hbytes := hstarts.mp hsoi
      rw [if_neg (by simp only [hbytes,ne_eq,not_true_eq_false,or_self,not_false_eq_true])]
      have hroom : (s.at (s.position+2) hread).memory.length-
          (s.at (s.position+2) hread).position < fuel := by
        rw [Source.at_memory]
        omega
      obtain ⟨size,s',heq,hmem,hiff⟩ := jpegSegments_spec hroom
      refine ⟨size,s',heq,hmem,fun width height => ?_⟩
      rw [hiff width height,Source.at_memory,Source.at_position,hstart]
      exact (and_iff_right hsoi).symm
    · rw [if_pos (by
        rw [hstarts,not_and_or] at hsoi
        exact hsoi)]
      exact ⟨none,_,rfl,rfl,fun width height => ⟨(by simp),fun h => absurd h.1 hsoi⟩⟩
  · rw [readExact_of_lt (Nat.lt_of_not_le hread)]
    simp only [Bool.not_false,true_or,if_true]
    refine ⟨none,_,rfl,rfl,fun width height => ⟨(by simp),fun h => ?_⟩⟩
    have hnone : s.memory[1]? = none := List.getElem?_eq_none (by omega)
    rw [h.1.2] at hnone
    cases hnone

/-- All markers that are met after the start of the image are proper ones. -/
def MarkersProper (memory : List UInt8) : Prop :=
  ∀ q fill marker, ReflTransGen (JpegStep memory anyMarker) 2 q → MarkerAt memory q fill marker →
    properMarker fill marker

/-- Then the markers lead where proper markers lead. -/
theorem MarkersProper.leadsToFrame_iff {memory : List UInt8} (h : MarkersProper memory)
    {width height : UInt32} : LeadsToFrame memory anyMarker 2 width height ↔
      LeadsToFrame memory properMarker 2 width height := by
  have hproper : ∀ q, ReflTransGen (JpegStep memory anyMarker) 2 q →
      ReflTransGen (JpegStep memory properMarker) 2 q := by
    intro q hreach
    induction hreach with
    | refl => exact .refl
    | tail hreach hstep ih =>
      apply ih.tail
      cases hstep with
      | standalone hmarker _ halone =>
        exact .standalone hmarker (h _ _ _ hreach hmarker) halone
      | segment hmarker _ halone hscan hframe hlength hfits =>
        exact .segment hmarker (h _ _ _ hreach hmarker) halone hscan hframe hlength hfits
  have hany : ∀ a b, JpegStep memory properMarker a b → JpegStep memory anyMarker a b := by
    intro a b hstep
    cases hstep with
    | standalone hmarker _ halone => exact .standalone hmarker trivial halone
    | segment hmarker _ halone hscan hframe hlength hfits =>
      exact .segment hmarker trivial halone hscan hframe hlength hfits
  constructor
  · rintro ⟨q,hreach,⟨fill,marker,hmarker,-,hrest⟩,hwidth,hheight⟩
    exact ⟨q,hproper q hreach,⟨fill,marker,hmarker,h q fill marker hreach hmarker,hrest⟩,hwidth,
      hheight⟩
  · rintro ⟨q,hreach,⟨fill,marker,hmarker,-,hrest⟩,hwidth,hheight⟩
    exact ⟨q,ReflTransGen.mono hany _ _ hreach,⟨fill,marker,hmarker,trivial,hrest⟩,hwidth,hheight⟩

end

end ZZ9K.Picture
