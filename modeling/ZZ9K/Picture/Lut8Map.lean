import ZZ9K.Framework.OpenAddressing
import ZZ9K.Picture.Lut8

namespace ZZ9K.Picture

open Framework

section Keys

theorem lut8Key_toNat (red green blue : UInt8) :
    (lut8Key red green blue).toNat = red.toNat*65536+green.toNat*256+blue.toNat+1 := by
  have hred : red.toNat < 256 := red.toNat_lt
  have hgreen : green.toNat < 256 := green.toNat_lt
  have hblue : blue.toNat < 256 := blue.toNat_lt
  have hlow : green.toNat*256 ||| blue.toNat = green.toNat*256+blue.toNat := by
    rw [Nat.mul_comm]
    exact (Nat.two_pow_add_eq_or_of_lt (i := 8) hblue green.toNat).symm
  have hhigh : red.toNat*65536 ||| (green.toNat*256+blue.toNat) =
      red.toNat*65536+(green.toNat*256+blue.toNat) := by
    rw [Nat.mul_comm red.toNat]
    exact (Nat.two_pow_add_eq_or_of_lt (i := 16) (by omega) red.toNat).symm
  have hredmod : red.toNat <<< 16%2^32 = red.toNat*65536 := by
    rw [Nat.shiftLeft_eq]
    omega
  have hgreenmod : green.toNat <<< 8%2^32 = green.toNat*256 := by
    rw [Nat.shiftLeft_eq]
    omega
  have hsum : (red.toNat*65536+(green.toNat*256+blue.toNat)+1)%2^32 =
      red.toNat*65536+green.toNat*256+blue.toNat+1 := by omega
  have hone : (1 : UInt32).toNat = 1 := rfl
  have h16 : (16 : UInt32).toNat%32 = 16 := rfl
  have h8 : (8 : UInt32).toNat%32 = 8 := rfl
  rw [lut8Key,UInt32.toNat_add,UInt32.toNat_or,UInt32.toNat_or,UInt32.toNat_shiftLeft,
    UInt32.toNat_shiftLeft,UInt8.toNat_toUInt32,UInt8.toNat_toUInt32,UInt8.toNat_toUInt32,hone,h16,
    h8,hredmod,hgreenmod,Nat.or_assoc,hlow,hhigh,hsum]

theorem lut8Key_ne_zero (red green blue : UInt8) : lut8Key red green blue ≠ 0 := by
  intro h
  have hnat := congrArg UInt32.toNat h
  rw [lut8Key_toNat] at hnat
  exact absurd hnat (Nat.succ_ne_zero _)

/-- Different colours have different keys. -/
theorem lut8Key_inj {red green blue red' green' blue' : UInt8}
    (h : lut8Key red green blue = lut8Key red' green' blue') :
    red = red' ∧ green = green' ∧ blue = blue' := by
  have hnat := congrArg UInt32.toNat h
  rw [lut8Key_toNat,lut8Key_toNat] at hnat
  have := green.toNat_lt
  have := green'.toNat_lt
  have := blue.toNat_lt
  have := blue'.toNat_lt
  rw [← UInt8.toNat_inj,← UInt8.toNat_inj,← UInt8.toNat_inj]
  exact ⟨by omega,by omega,by omega⟩

theorem and_slots_toNat (x : UInt32) : (x &&& (lut8MapSlots-1)).toNat = x.toNat%512 := by
  have hmask : (lut8MapSlots-1).toNat = 2^9-1 := rfl
  rw [UInt32.toNat_and,hmask,Nat.and_two_pow_sub_one_eq_mod]

/-- The home of a key -/
def lut8Home (key : UInt32) : Nat := (lut8MapSlot key).toNat

theorem lut8Home_eq (key : UInt32) : (lut8MapSlot key).toNat = probe 512 (lut8Home key) 0 := by
  rw [probe,Nat.add_zero,lut8Home,lut8MapSlot,and_slots_toNat,Nat.mod_mod]

theorem nextSlot_toNat (slot : UInt32) : (nextSlot slot).toNat = (slot.toNat+1)%512 := by
  have hone : (1 : UInt32).toNat = 1 := rfl
  rw [nextSlot,and_slots_toNat,UInt32.toNat_add,hone]
  omega

end Keys

namespace Lut8Map

/-- What a slot holds -/
def cell (m : Lut8Map) (j : Nat) : Option (UInt32 × UInt8) :=
  if m.keys.getD j 0 = 0 then none else some (m.keys.getD j 0,m.vals.getD j 0)

variable {m : Lut8Map} {key : UInt32} {home d e fuel : Nat} {slot : UInt32}

theorem cell_of_ne {j : Nat} (h : m.keys.getD j 0 ≠ 0) :
    m.cell j = some (m.keys.getD j 0,m.vals.getD j 0) :=
  if_neg h

theorem cell_isSome {j : Nat} {x : UInt32 × UInt8} (h : m.cell j = some x) :
    m.keys.getD j 0 ≠ 0 ∧ x = (m.keys.getD j 0,m.vals.getD j 0) := by
  rw [cell] at h
  split_ifs at h with hzero
  exact ⟨hzero,(Option.some.inj h).symm⟩

/-- The first loop stops where the search for the key ends. -/
theorem findSlot_eq (hstops : Stops 512 m.cell key home d) (hslot : slot.toNat = probe 512 home e)
    (he : e ≤ d) (hfuel : d < e+fuel) :
    ∃ slot', lut8FindSlot m.keys key fuel slot = .ok slot' ∧ slot'.toNat = probe 512 home d := by
  induction fuel generalizing slot e with
  | zero => omega
  | succ fuel ih =>
    rw [lut8FindSlot]
    by_cases hlast : e = d
    · rw [if_neg]
      · exact ⟨slot,rfl,hlast ▸ hslot⟩
      · rintro ⟨hne,hother⟩
        have hcell := cell_of_ne hne
        rw [hslot,hlast] at hcell hother
        exact hother (hstops.last _ hcell)
    · obtain ⟨x,hx,hne⟩ := hstops.before e (by omega)
      obtain ⟨hnonzero,rfl⟩ := cell_isSome hx
      rw [hslot,if_pos ⟨hnonzero,hne⟩]
      exact ih (by rw [nextSlot_toNat,hslot,probe_succ]) (by omega) (by omega)

/-- So does the loop of the lookup. -/
theorem search_eq (hstops : Stops 512 m.cell key home d) (hslot : slot.toNat = probe 512 home e)
    (he : e ≤ d) (hfuel : d < e+fuel) :
    lut8Search m key fuel slot = .ok ((m.cell (probe 512 home d)).map fun x => x.2-1) := by
  induction fuel generalizing slot e with
  | zero => omega
  | succ fuel ih =>
    rw [lut8Search,hslot]
    by_cases hlast : e = d
    · subst hlast
      by_cases hzero : m.keys.getD (probe 512 home e) 0 = 0
      · rw [if_neg (not_not_intro hzero),cell,if_pos hzero]
        rfl
      · have hcell := cell_of_ne hzero
        rw [if_pos hzero,if_pos (hstops.last _ hcell),hcell]
        rfl
    · obtain ⟨x,hx,hne⟩ := hstops.before e (by omega)
      obtain ⟨hnonzero,rfl⟩ := cell_isSome hx
      rw [if_pos hnonzero,if_neg hne]
      exact ih (by rw [nextSlot_toNat,hslot,probe_succ]) (by omega) (by omega)

theorem cell_cleared : Lut8Map.cleared.cell = fun _ => none := by
  funext j
  rw [cell,if_pos]
  rw [cleared,List.getD_eq_getElem?_getD,List.getElem?_replicate]
  split_ifs <;> rfl

/-- A slot is filled. -/
theorem cell_store {j : Nat} {val : UInt8} (hkeys : j < m.keys.length) (hvals : j < m.vals.length)
    (hkey : key ≠ 0) :
    (Lut8Map.mk (m.keys.set j key) (m.vals.set j val)).cell =
      Function.update m.cell j (some (key,val)) := by
  funext i
  by_cases hi : i = j
  · rw [hi,Function.update_self,cell]
    simp only [List.getD_eq_getElem?_getD,List.getElem?_set_self hkeys,
      List.getElem?_set_self hvals,Option.getD_some,if_neg hkey]
  · rw [Function.update_of_ne hi,cell,cell]
    simp only [List.getD_eq_getElem?_getD,List.getElem?_set_ne (Ne.symm hi)]

end Lut8Map

section Build

variable {palette : PngPalette} {m : Lut8Map} {entries : List (UInt32 × UInt8)}

/-- What an entry of the palette puts into the map -/
def lut8Entry (palette : PngPalette) (index : Nat) : UInt32 × UInt8 :=
  (palette.key index,((if palette.transparent index then palette.transparentIndex.toUInt32
    else index.toUInt32)+1).toUInt8)

/-- A map that was filled with these entries in turn -/
structure Filled (m : Lut8Map) (entries : List (UInt32 × UInt8)) : Prop where
  keys_length : m.keys.length = 512
  vals_length : m.vals.length = 512
  table : Table 512 lut8Home m.cell entries

theorem Filled.cleared : Filled .cleared [] :=
  ⟨List.length_replicate,List.length_replicate,Lut8Map.cell_cleared ▸ Table.empty lut8Home⟩

variable (palette) in
theorem Filled.insert (h : Filled m entries) (hroom : entries.length < 512) (index : Nat) :
    ∃ m', lut8Insert palette index m = .ok m' ∧ Filled m' (entries++[lut8Entry palette index]) := by
  obtain ⟨d,hd,hstops⟩ := h.table.stops hroom (palette.key index)
  obtain ⟨slot,hfind,hslot⟩ := Lut8Map.findSlot_eq hstops (lut8Home_eq _)
    (Nat.zero_le d) (show d < 0+512 by omega)
  have hfind' : lut8FindSlot m.keys (palette.key index) lut8MapSlots.toNat
      (lut8MapSlot (palette.key index)) = .ok slot := hfind
  have hlt : slot.toNat < 512 := hslot ▸ probe_lt (by decide)
  rw [lut8Insert]
  simp only [hfind',bind,Except.bind]
  by_cases hfree : m.keys.getD slot.toNat 0 = 0
  · have hcell : m.cell slot.toNat = none := if_pos hfree
    rw [hslot] at hcell
    have hne : palette.key index ≠ 0 := lut8Key_ne_zero _ _ _
    have hstore := h.table.store hstops hcell (lut8Entry palette index).2
    rw [if_pos hfree]
    refine ⟨_,rfl,⟨?_,?_,?_⟩⟩
    · rw [List.length_set]
      exact h.keys_length
    · rw [List.length_set]
      exact h.vals_length
    · rw [Lut8Map.cell_store (by rw [h.keys_length]; exact hlt) (by rw [h.vals_length]; exact hlt)
        hne,hslot]
      exact hstore
  · have hcell := Lut8Map.cell_of_ne hfree
    rw [hslot] at hcell
    rw [if_neg hfree]
    exact ⟨m,rfl,h.keys_length,h.vals_length,h.table.keep hstops (by rw [hcell]; rfl) _⟩

/-- The entries that belong to a pass, from an index on -/
def passEntries (palette : PngPalette) (pass index n : Nat) : List (UInt32 × UInt8) :=
  ((List.range' index n).filter fun i => palette.transparent i = decide (pass = 1)).map
    (lut8Entry palette)

variable (palette) in
theorem Filled.pass {pass : Nat} (hpass : pass = 0 ∨ pass = 1) {n : Nat} (index : Nat)
    (h : Filled m entries) (hroom : entries.length+(passEntries palette pass index n).length < 512) :
    ∃ m', lut8Pass palette pass index n m = .ok m' ∧
      Filled m' (entries++passEntries palette pass index n) := by
  induction n generalizing index m entries with
  | zero => exact ⟨m,rfl,by rwa [passEntries,List.range'_zero,List.filter_nil,List.map_nil,
      List.append_nil]⟩
  | succ n ih =>
    by_cases hmine : palette.transparent index = decide (pass = 1)
    · have hentries : passEntries palette pass index (n+1) =
          lut8Entry palette index::passEntries palette pass (index+1) n := by
        rw [passEntries,List.range'_succ,List.filter_cons,if_pos (decide_eq_true hmine),
          List.map_cons]
        rfl
      rw [hentries] at hroom ⊢
      rw [List.length_cons] at hroom
      obtain ⟨m',hinsert,hfilled⟩ := h.insert palette (by omega) index
      obtain ⟨m'',hrest,hfilled'⟩ := ih (index+1) hfilled (by
        rw [List.length_append,List.length_singleton]
        omega)
      rw [List.append_assoc,List.singleton_append] at hfilled'
      refine ⟨m'',?_,hfilled'⟩
      rw [lut8Pass,if_neg,if_neg]
      · simp only [bind,Except.bind,hinsert]
        exact hrest
      · rintro ⟨rfl,hplain⟩
        rw [hmine] at hplain
        cases hplain
      · rintro ⟨rfl,htransparent⟩
        rw [hmine] at htransparent
        cases htransparent
    · have hentries : passEntries palette pass index (n+1) =
          passEntries palette pass (index+1) n := by
        rw [passEntries,List.range'_succ,List.filter_cons,
          if_neg (fun h => hmine (of_decide_eq_true h))]
        rfl
      rw [hentries] at hroom ⊢
      obtain ⟨m',hrest,hfilled⟩ := ih (index+1) h hroom
      refine ⟨m',?_,hfilled⟩
      rw [lut8Pass]
      rcases hpass with rfl | rfl
      · have htransparent : palette.transparent index = true := by simpa using hmine
        rw [if_pos ⟨rfl,htransparent⟩]
        exact hrest
      · have hplain : palette.transparent index = false := by simpa using hmine
        rw [if_neg (fun h => absurd h.1 (by decide)),if_pos ⟨rfl,by rw [hplain]; rfl⟩]
        exact hrest

/-- All entries, as the two passes take them -/
def lut8Entries (palette : PngPalette) : List (UInt32 × UInt8) :=
  passEntries palette 0 0 palette.count.toNat++passEntries palette 1 0 palette.count.toNat

theorem lut8Entries_length (palette : PngPalette) :
    (passEntries palette 0 0 palette.count.toNat).length+
      (passEntries palette 1 0 palette.count.toNat).length = palette.count.toNat := by
  have hplain : (fun i => decide (palette.transparent i = decide (0 = 1))) =
      fun i => !palette.transparent i := by
    funext i
    cases palette.transparent i <;> rfl
  have htransparent : (fun i => decide (palette.transparent i = decide (1 = 1))) =
      palette.transparent := by
    funext i
    cases palette.transparent i <;> rfl
  have hsplit := List.length_eq_countP_add_countP palette.transparent
    (l := List.range' 0 palette.count.toNat)
  rw [List.length_range'] at hsplit
  rw [passEntries,passEntries,List.length_map,List.length_map,hplain,htransparent,
    ← List.countP_eq_length_filter,← List.countP_eq_length_filter,Nat.add_comm]
  simpa using hsplit.symm

/-- The map is built, of all entries. -/
theorem buildPngLut8Map_eq (hcount : palette.count.toNat ≤ 256) :
    ∃ m, buildPngLut8Map palette = .ok m ∧ Filled m (lut8Entries palette) := by
  have hlength := lut8Entries_length palette
  obtain ⟨m,hfirst,hfilled⟩ := Filled.cleared.pass palette (.inl rfl) 0
    (n := palette.count.toNat) (by rw [List.length_nil]; omega)
  rw [List.nil_append] at hfilled
  obtain ⟨m',hsecond,hfilled'⟩ := hfilled.pass palette (.inr rfl) 0
    (n := palette.count.toNat) (by omega)
  refine ⟨m',?_,hfilled'⟩
  rw [buildPngLut8Map]
  simp only [bind,Except.bind,hfirst]
  exact hsecond

/-- A lookup gives the value of the first entry of the colour, and the nearest one where there is
none. -/
theorem pngLut8Lookup_eq (h : Filled m entries) (hroom : entries.length < 512)
    (red green blue : UInt8) :
    pngLut8Lookup palette m red green blue =
      .ok (((entries.find? fun x => x.1 = lut8Key red green blue).map fun x => x.2-1).getD
        (pngNearestPaletteIndex palette red green blue)) := by
  obtain ⟨d,hd,hstops⟩ := h.table.stops hroom (lut8Key red green blue)
  have hsearch := Lut8Map.search_eq hstops (lut8Home_eq _) (Nat.zero_le d)
    (show d < 0+512 by omega)
  rw [h.table.cell_eq hstops] at hsearch
  have hsearch' : lut8Search m (lut8Key red green blue) lut8MapSlots.toNat
      (lut8MapSlot (lut8Key red green blue)) = _ := hsearch
  rw [pngLut8Lookup]
  simp only [hsearch',bind,Except.bind]
  rfl

end Build

end ZZ9K.Picture
