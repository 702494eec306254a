import Mathlib.Data.Finset.Card
import Mathlib.Data.Finset.Range
import Mathlib.Data.Nat.Find
import Mathlib.Logic.Function.Basic

namespace ZZ9K.Framework

variable {κ ν : Type} {n : Nat}

/-- The slot that a search comes to after so many steps from the home of its key -/
def probe (n home d : Nat) : Nat := (home+d)%n

/-- A search for a key ends after so many steps, at a slot that is free or has the key: all slots before
have other keys. -/
structure Stops (n : Nat) (cells : Nat → Option (κ × ν)) (key : κ) (home d : Nat) : Prop where
  last : ∀ x, cells (probe n home d) = some x → x.1 = key
  before : ∀ e, e < d → ∃ x, cells (probe n home e) = some x ∧ x.1 ≠ key

/-- A table that was filled with these entries in turn, where the first entry of a key is the one that
counts -/
structure Table [DecidableEq κ] (n : Nat) (home : κ → Nat) (cells : Nat → Option (κ × ν))
    (entries : List (κ × ν)) : Prop where
  reached : ∀ j x, cells j = some x →
    ∃ d, probe n (home x.1) d = j ∧ Stops n cells x.1 (home x.1) d
  first : ∀ j x, cells j = some x → entries.find? (fun y => y.1 = x.1) = some x
  kept : ∀ x ∈ entries, ∃ j v, cells j = some (x.1,v)
  room : ∃ S : Finset Nat, S.card ≤ entries.length ∧ ∀ j, (cells j).isSome → j ∈ S

section

variable {cells : Nat → Option (κ × ν)} {key : κ} {home d d' : Nat}

theorem probe_lt (hn : 0 < n) : probe n home d < n := Nat.mod_lt _ hn

theorem probe_succ : probe n home (d+1) = (probe n home d+1)%n := by
  rw [probe,probe,Nat.mod_add_mod,Nat.add_assoc]

/-- A search for a key has one end only. -/
theorem Stops.unique (h : Stops n cells key home d) (h' : Stops n cells key home d') : d' = d := by
  have hle : ∀ {d d' : Nat}, Stops n cells key home d → Stops n cells key home d' → d' ≤ d := by
    intro d d' h h'
    by_contra hlt
    obtain ⟨x,hx,hne⟩ := h'.before d (Nat.lt_of_not_le hlt)
    exact hne (h.last x hx)
  exact Nat.le_antisymm (hle h h') (hle h' h)

/-- Where a slot is free, every search ends. -/
theorem exists_stops (key : κ) (home : Nat) (hfree : ∃ j < n, cells j = none) :
    ∃ d < n, Stops n cells key home d := by
  classical
  obtain ⟨j,hj,hnone⟩ := hfree
  have hhome : home%n < n := Nat.mod_lt _ (by omega)
  have hplace : probe n home ((j+n-home%n)%n) = j := by
    have hsum : home%n+(j+n-home%n) = j+n := by omega
    rw [probe,Nat.add_mod,Nat.mod_mod,← Nat.add_mod_mod,Nat.mod_mod,Nat.add_mod_mod,hsum,
      Nat.add_mod_right,Nat.mod_eq_of_lt hj]
  have hex : ∃ d, ∀ x, cells (probe n home d) = some x → x.1 = key := by
    refine ⟨(j+n-home%n)%n,fun x hx => ?_⟩
    rw [hplace,hnone] at hx
    cases hx
  refine ⟨Nat.find hex,?_,Nat.find_spec hex,fun e he => ?_⟩
  · have hle : Nat.find hex ≤ (j+n-home%n)%n := Nat.find_min' hex fun x hx => by
      rw [hplace,hnone] at hx
      cases hx
    exact Nat.lt_of_le_of_lt hle (Nat.mod_lt _ (by omega))
  · have hmin := Nat.find_min hex he
    simp only [not_forall,exists_prop] at hmin
    exact hmin

/-- A slot that is filled after the search has ended there leaves the searches before as they were. -/
theorem Stops.of_store {home' slot : Nat} {key' : κ} {x : κ × ν} (hfree : cells slot = none)
    (h : Stops n cells key' home' d') (hlast : probe n home' d' ≠ slot) :
    Stops n (Function.update cells slot (some x)) key' home' d' := by
  refine ⟨fun y hy => h.last y ?_,fun e he => ?_⟩
  · rwa [Function.update_of_ne hlast] at hy
  · obtain ⟨y,hy,hne⟩ := h.before e he
    have hother : probe n home' e ≠ slot := by
      intro heq
      rw [heq,hfree] at hy
      cases hy
    exact ⟨y,by rwa [Function.update_of_ne hother],hne⟩

end

namespace Table

variable [DecidableEq κ] {home : κ → Nat} {cells : Nat → Option (κ × ν)}
  {entries : List (κ × ν)} {key : κ} {d : Nat}

/-- An empty table -/
theorem empty (home : κ → Nat) : Table n home (fun _ => (none : Option (κ × ν))) [] :=
  ⟨nofun,nofun,nofun,∅,Nat.le_refl _,nofun⟩

/-- A table with fewer entries than slots lets every search end. -/
theorem stops (h : Table n home cells entries) (hroom : entries.length < n) (key : κ) :
    ∃ d < n, Stops n cells key (home key) d := by
  obtain ⟨S,hcard,hS⟩ := h.room
  apply exists_stops
  have hless : S.card < (Finset.range n).card := by
    rw [Finset.card_range]
    omega
  obtain ⟨j,hj,hnot⟩ := Finset.exists_mem_notMem_of_card_lt_card hless
  refine ⟨j,Finset.mem_range.mp hj,?_⟩
  cases hcell : cells j with
  | none => rfl
  | some x => exact absurd (hS j (by rw [hcell]; rfl)) hnot

/-- A search ends at the first entry of its key, or at a free slot if there is none. -/
theorem cell_eq (h : Table n home cells entries) (hstops : Stops n cells key (home key) d) :
    cells (probe n (home key) d) = entries.find? (fun y => y.1 = key) := by
  cases hcell : cells (probe n (home key) d) with
  | some x =>
    rw [← hstops.last x hcell]
    exact (h.first _ x hcell).symm
  | none =>
    symm
    rw [List.find?_eq_none]
    intro x hx heq
    obtain ⟨j,v,hj⟩ := h.kept x hx
    have hkey : x.1 = key := of_decide_eq_true heq
    rw [hkey] at hj
    obtain ⟨d',hplace,hstops'⟩ := h.reached j _ hj
    rw [hstops.unique hstops'] at hplace
    rw [← hplace,hcell] at hj
    cases hj

/-- An entry of a key that the table has already is not stored. -/
theorem keep (h : Table n home cells entries) (hstops : Stops n cells key (home key) d)
    (hfilled : (cells (probe n (home key) d)).isSome) (v : ν) :
    Table n home cells (entries++[(key,v)]) := by
  obtain ⟨S,hcard,hS⟩ := h.room
  refine ⟨h.reached,fun j x hx => ?_,fun x hx => ?_,S,?_,hS⟩
  · rw [List.find?_append,h.first j x hx]
    rfl
  · rcases List.mem_append.mp hx with hx | hx
    · exact h.kept x hx
    · obtain rfl := List.mem_singleton.mp hx
      obtain ⟨y,hy⟩ := Option.isSome_iff_exists.mp hfilled
      exact ⟨_,y.2,by rw [hy,← hstops.last y hy]⟩
  · rw [List.length_append]
    omega

/-- An entry of another key is stored in the free slot where its search ends. -/
theorem store (h : Table n home cells entries) (hstops : Stops n cells key (home key) d)
    (hfree : cells (probe n (home key) d) = none) (v : ν) :
    Table n home (Function.update cells (probe n (home key) d) (some (key,v)))
      (entries++[(key,v)]) := by
  obtain ⟨S,hcard,hS⟩ := h.room
  have hnew := h.cell_eq hstops
  rw [hfree] at hnew
  refine ⟨fun j x hx => ?_,fun j x hx => ?_,fun x hx => ?_,
    insert (probe n (home key) d) S,?_,fun j hj => ?_⟩
  · by_cases hj : j = probe n (home key) d
    · rw [hj,Function.update_self] at hx
      obtain rfl := Option.some.inj hx
      refine ⟨d,hj.symm,fun y hy => ?_,fun e he => ?_⟩
      · rw [Function.update_self] at hy
        obtain rfl := Option.some.inj hy
        rfl
      · obtain ⟨y,hy,hne⟩ := hstops.before e he
        have hother : probe n (home key) e ≠ probe n (home key) d := by
          intro heq
          rw [heq,hfree] at hy
          cases hy
        exact ⟨y,by rwa [Function.update_of_ne hother],hne⟩
    · rw [Function.update_of_ne hj] at hx
      obtain ⟨d',hplace,hstops'⟩ := h.reached j x hx
      exact ⟨d',hplace,hstops'.of_store hfree (hplace ▸ hj)⟩
  · rw [List.find?_append]
    by_cases hj : j = probe n (home key) d
    · rw [hj,Function.update_self] at hx
      obtain rfl := Option.some.inj hx
      rw [← hnew]
      simp
    · rw [Function.update_of_ne hj] at hx
      rw [h.first j x hx]
      rfl
  · rcases List.mem_append.mp hx with hx | hx
    · obtain ⟨j,w,hj⟩ := h.kept x hx
      have hother : j ≠ probe n (home key) d := by
        intro heq
        rw [heq,hfree] at hj
        cases hj
      exact ⟨j,w,by rwa [Function.update_of_ne hother]⟩
    · obtain rfl := List.mem_singleton.mp hx
      exact ⟨_,v,Function.update_self _ _ _⟩
  · rw [List.length_append]
    exact (Finset.card_insert_le _ _).trans (Nat.succ_le_succ hcard)
  · rw [Finset.mem_insert]
    by_cases heq : j = probe n (home key) d
    · exact .inl heq
    · rw [Function.update_of_ne heq] at hj
      exact .inr (hS j hj)

end Table

end ZZ9K.Framework
