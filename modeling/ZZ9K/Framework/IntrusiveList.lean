import Mathlib.Data.Fintype.Card
import Mathlib.Data.List.Nodup
import Mathlib.Logic.Function.Basic

namespace ZZ9K.Framework

section

variable {α : Type}

/-- Following `next` from the pointer `p` to the null pointer meets the nodes of the list. -/
inductive Chain (next : α → Option α) : Option α → List α → Prop
  | nil : Chain next none []
  | cons (a : α) (l : List α) (h : Chain next (next a) l) : Chain next (some a) (a :: l)

/-- The nodes met in at most `fuel` steps -/
def walk (next : α → Option α) : Nat → Option α → List α
  | 0,_ => []
  | _+1,none => []
  | fuel+1,some a => a :: walk next fuel (next a)

/-- The first node that satisfies `ok`, after the node that links to it; `prev` is the node
before `p`, none at the head of the list. -/
def search (next : α → Option α) (ok : α → Bool) :
    Nat → Option α → Option α → Option (Option α × α)
  | 0,_,_ => none
  | _+1,_,none => none
  | fuel+1,prev,some a =>
      if ok a then some (prev,a) else search next ok fuel (some a) (next a)

namespace Chain

variable {next : α → Option α} {p : Option α} {l : List α}

theorem walk_eq (h : Chain next p l) (fuel : Nat) (hf : l.length ≤ fuel) :
    walk next fuel p = l := by
  induction h generalizing fuel with
  | nil => cases fuel <;> rfl
  | cons a l _ ih =>
    cases fuel with
    | zero => simp at hf
    | succ fuel => rw [walk,ih fuel (by simpa using hf)]

theorem unique {l' : List α} (h : Chain next p l) (h' : Chain next p l') : l = l' := by
  induction h generalizing l' with
  | nil =>
    cases h'
    rfl
  | cons a l _ ih =>
    cases h' with
    | cons _ _ h' => rw [ih h']

theorem suffix {l₁ l₂ : List α} {a : α} (h : Chain next p (l₁++a :: l₂)) :
    Chain next (some a) (a :: l₂) := by
  induction l₁ generalizing p with
  | nil =>
    cases h with
    | cons _ _ h => exact .cons a l₂ h
  | cons b l₁ ih =>
    cases h with
    | cons _ _ h => exact ih h

/-- A list that ends has no cycle: a node met twice would be followed by the same nodes twice. -/
theorem nodup (h : Chain next p l) : l.Nodup := by
  induction h with
  | nil => exact List.nodup_nil
  | cons a l h ih =>
    refine List.nodup_cons.mpr ⟨fun ha => ?_,ih⟩
    obtain ⟨l₁,l₂,rfl⟩ := List.append_of_mem ha
    have he := (Chain.cons a _ h).unique h.suffix
    have hlen := congrArg List.length he
    simp at hlen
    omega

theorem length_le [Fintype α] (h : Chain next p l) : l.length ≤ Fintype.card α :=
  h.nodup.length_le_card

theorem congr {next' : α → Option α} (h : Chain next p l) (he : ∀ a ∈ l, next' a = next a) :
    Chain next' p l := by
  induction h with
  | nil => exact .nil
  | cons a l h ih =>
    refine .cons a l ?_
    rw [he a List.mem_cons_self]
    exact ih fun b hb => he b (List.mem_cons_of_mem a hb)

theorem search_cases (h : Chain next p l) (ok : α → Bool) (fuel : Nat) (hf : l.length ≤ fuel)
    (prev : Option α) :
    (search next ok fuel prev p = none ∧ ∀ a ∈ l, ok a = false) ∨
      ∃ l₁ a l₂, l = l₁++a :: l₂ ∧ ok a = true ∧ (∀ b ∈ l₁, ok b = false) ∧
        search next ok fuel prev p = some (l₁.getLast?.or prev,a) := by
  induction h generalizing fuel prev with
  | nil => exact Or.inl ⟨by cases fuel <;> rfl,by simp⟩
  | cons a l _ ih =>
    cases fuel with
    | zero => simp at hf
    | succ fuel =>
      by_cases hok : ok a = true
      · exact Or.inr ⟨[],a,l,rfl,hok,by simp,by simp [search,hok]⟩
      rcases ih fuel (by simpa using hf) (some a) with ⟨hs,hl⟩ | ⟨l₁,b,l₂,rfl,hb,hl,hs⟩
      · refine Or.inl ⟨by simpa [search,hok] using hs,fun b hb => ?_⟩
        rcases List.mem_cons.mp hb with rfl | hb
        · simpa using hok
        · exact hl b hb
      · refine Or.inr ⟨a :: l₁,b,l₂,rfl,hb,fun c hc => ?_,?_⟩
        · rcases List.mem_cons.mp hc with rfl | hc
          · simpa using hok
          · exact hl c hc
        · rw [search,if_neg hok,hs]
          cases l₁ with
          | nil => rfl
          | cons c l₁ =>
            rw [List.getLast?_cons_cons,List.getLast?_cons]
            rfl

variable [DecidableEq α]

theorem push (h : Chain next p l) {a : α} (ha : a ∉ l) :
    Chain (Function.update next a p) (some a) (a :: l) := by
  refine .cons a l ?_
  rw [Function.update_self]
  refine h.congr fun b hb => Function.update_of_ne ?_ _ _
  rintro rfl
  exact ha hb

end Chain

variable [DecidableEq α]

/-- Where the list starts once `a`, which followed `prev`, is taken out -/
def unlinkHead (next : α → Option α) (head prev : Option α) (a : α) : Option α :=
  match prev with
  | none => next a
  | some _ => head

/-- The links once `a`, which followed `prev`, is taken out -/
def unlinkNext (next : α → Option α) (prev : Option α) (a : α) : α → Option α :=
  match prev with
  | none => Function.update next a none
  | some q => Function.update (Function.update next q (next a)) a none

theorem unlinkNext_of_ne {next : α → Option α} {prev : Option α} {a b : α} (ha : b ≠ a)
    (hp : prev ≠ some b) : unlinkNext next prev a b = next b := by
  cases prev with
  | none => exact Function.update_of_ne ha _ _
  | some q =>
    have hq : b ≠ q := fun he => hp (congrArg some he.symm)
    rw [unlinkNext,Function.update_of_ne ha,Function.update_of_ne hq]

/-- Taking a node out leaves exactly the others, in their order. -/
theorem Chain.unlink {next : α → Option α} {p : Option α} {l₁ l₂ : List α} {a : α}
    (h : Chain next p (l₁++a :: l₂)) :
    Chain (unlinkNext next l₁.getLast? a) (unlinkHead next p l₁.getLast? a) (l₁++l₂) := by
  induction l₁ generalizing p with
  | nil =>
    have hd := h.nodup
    cases h with
    | cons _ _ h =>
      refine h.congr fun b hb => unlinkNext_of_ne ?_ (by simp)
      rintro rfl
      exact (List.nodup_cons.mp hd).1 hb
  | cons b l₁ ih =>
    have hd := h.nodup
    cases h with
    | cons _ _ h =>
      simp only [List.cons_append,List.nodup_cons,List.mem_append,List.mem_cons,not_or] at hd
      obtain ⟨⟨hb₁,hba,hb₂⟩,hd⟩ := hd
      cases l₁ with
      | nil =>
        refine .cons b l₂ ?_
        have hnext : unlinkNext next [b].getLast? a b = next a := by
          simp [unlinkNext,hba]
        rw [hnext]
        have hd' := h.nodup
        have ht : Chain next (next a) l₂ := by
          have hs := @Chain.suffix _ _ _ [] _ _ h
          cases hs with
          | cons _ _ hs => exact hs
        refine ht.congr fun c hc => unlinkNext_of_ne ?_ ?_
        · rintro rfl
          exact (List.nodup_cons.mp hd').1 hc
        · intro he
          have hbc : b = c := by simpa using he
          exact hb₂ (hbc ▸ hc)
      | cons c l₁ =>
        have hlast : (b :: c :: l₁).getLast? = (c :: l₁).getLast? := List.getLast?_cons_cons
        obtain ⟨q,hq⟩ : ∃ q, (c :: l₁).getLast? = some q := ⟨_,List.getLast?_cons⟩
        have hqm : q ∈ c :: l₁ := List.mem_of_getLast? hq
        have hih := ih h
        rw [hlast]
        rw [hq] at hih ⊢
        refine .cons b _ ?_
        rw [unlinkNext_of_ne hba fun he => hb₁ (Option.some.inj he ▸ hqm)]
        exact hih

end

end ZZ9K.Framework
