import Mathlib.Data.List.Infix

namespace ZZ9K.Framework

section

variable {α β : Type}

/-- The first match of a pattern from the front of a list on -/
def firstMatch (f : List α → Option β) : List α → Option β
  | [] => f []
  | a::l => (f (a::l)).or (firstMatch f l)

/-- A pattern of `k` elements: it needs that many, and reads no more. -/
structure Local (k : Nat) (f : List α → Option β) : Prop where
  short : ∀ l, l.length < k → f l = none
  long : ∀ l m, k ≤ l.length → f (l++m) = f l

variable {k : Nat} {f : List α → Option β}

theorem firstMatch_short (h : Local k f) {l : List α} (hl : l.length < k) :
    firstMatch f l = none := by
  induction l with
  | nil => exact h.short [] hl
  | cons a l ih =>
    rw [firstMatch,h.short _ hl,ih ((Nat.lt_succ_self _).trans hl)]
    rfl

/-- A match stays the first when the list goes on. -/
theorem firstMatch_append_of_some (h : Local k f) (hk : 0 < k) {l : List α} {b : β}
    (hb : firstMatch f l = some b) (m : List α) : firstMatch f (l++m) = some b := by
  induction l with
  | nil =>
    rw [firstMatch_short (l := []) h hk] at hb
    cases hb
  | cons a l ih =>
    by_cases hlong : k ≤ (a::l).length
    · have hsame := h.long (a::l) m hlong
      rw [firstMatch] at hb
      rw [List.cons_append,firstMatch,← List.cons_append,hsame]
      cases hf : f (a::l) with
      | some c =>
        rw [hf] at hb
        exact hb
      | none =>
        rw [hf] at hb
        exact ih hb
    · rw [firstMatch_short h (Nat.lt_of_not_le hlong)] at hb
      cases hb

/-- Where the end of a list is kept that a match may begin in, the rest can be searched later. -/
theorem firstMatch_append (h : Local k f) (hk : 0 < k) {c : Nat} (hc : k ≤ c+1) (l m : List α) :
    firstMatch f (l++m) =
      (firstMatch f l).or (firstMatch f (l.drop (l.length-c)++m)) := by
  induction l with
  | nil =>
    rw [firstMatch_short (l := []) h hk,List.drop_nil,Option.none_or]
  | cons a l ih =>
    by_cases hkept : c ≤ l.length
    · have hdrop : (a::l).drop ((a::l).length-c) = l.drop (l.length-c) := by
        rw [List.length_cons,Nat.succ_sub hkept,List.drop_succ_cons]
      have hsame := h.long (a::l) m (hc.trans (Nat.succ_le_succ hkept))
      rw [hdrop,List.cons_append,firstMatch,ih,firstMatch,Option.or_assoc,← hsame,
        List.cons_append]
    · have hdrop : (a::l).drop ((a::l).length-c) = a::l := by
        rw [List.length_cons,Nat.sub_eq_zero_of_le (by omega),List.drop_zero]
      rw [hdrop]
      cases hb : firstMatch f (a::l) with
      | none => rfl
      | some b => exact firstMatch_append_of_some h hk hb m

end

end ZZ9K.Framework
