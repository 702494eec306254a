import Mathlib.Data.List.Basic
import Mathlib.Logic.Function.Basic

namespace ZZ9K.Framework

variable {ι β σ : Type} [DecidableEq ι]

section

variable (place : Nat → ι) (value : Nat → (ι → β) → σ → β) (carry : Nat → (ι → β) → σ → σ)

/-- A loop that stores one cell a round: in round `i` it reads the cells, and stores `value` in the
cell `place i`. -/
def sweep : Nat → Nat → (ι → β) → σ → (ι → β) × σ
  | _,0,cells,s => (cells,s)
  | i,n+1,cells,s =>
    sweep (i+1) n (Function.update cells (place i) (value i cells s)) (carry i cells s)

/-- What such a loop would store if it read the cells as they are in the beginning -/
def swept (cells : ι → β) : Nat → Nat → σ → List β
  | _,0,_ => []
  | i,n+1,s => value i cells s::swept cells (i+1) n (carry i cells s)

/-- The state that such a loop would end with -/
def carried (cells : ι → β) : Nat → Nat → σ → σ
  | _,0,s => s
  | i,n+1,s => carried cells (i+1) n (carry i cells s)

/-- No round reads a cell that an earlier one has stored. -/
def Undisturbed (i n : Nat) (cells : ι → β) : Prop :=
  ∀ k cells', i ≤ k → k < i+n → (∀ x, (∀ j, i ≤ j → j < k → x ≠ place j) → cells' x = cells x) →
    ∀ s, value k cells' s = value k cells s ∧ carry k cells' s = carry k cells s

end

section

variable {place : Nat → ι} {value : Nat → (ι → β) → σ → β} {carry : Nat → (ι → β) → σ → σ}
  {i n : Nat} {cells : ι → β}

theorem Undisturbed.first (h : Undisturbed place value carry i (n+1) cells) (v : β) :
    ∀ k, i+1 ≤ k → k < i+1+n → ∀ s, value k (Function.update cells (place i) v) s = value k cells s ∧
      carry k (Function.update cells (place i) v) s = carry k cells s := by
  intro k hik hkn
  apply h k _ (by omega) (by omega)
  intro x hx
  exact Function.update_of_ne (hx i (Nat.le_refl i) (by omega)) v cells

theorem Undisturbed.rest (h : Undisturbed place value carry i (n+1) cells) (v : β) :
    Undisturbed place value carry (i+1) n (Function.update cells (place i) v) := by
  intro k cells' hik hkn hsame s
  obtain ⟨hvalue,hcarry⟩ := h.first v k hik hkn s
  rw [hvalue,hcarry]
  apply h k cells' (by omega) (by omega)
  intro x hx
  rw [hsame x fun j hij hjk => hx j (by omega) hjk]
  exact Function.update_of_ne (hx i (Nat.le_refl i) (by omega)) v cells

omit [DecidableEq ι] in
theorem swept_congr {cells' : ι → β} (h : ∀ k, i ≤ k → k < i+n → ∀ s,
      value k cells' s = value k cells s ∧ carry k cells' s = carry k cells s) (s : σ) :
    swept value carry cells' i n s = swept value carry cells i n s ∧
      carried carry cells' i n s = carried carry cells i n s := by
  induction n generalizing i s with
  | zero => exact ⟨rfl,rfl⟩
  | succ n ih =>
    obtain ⟨hvalue,hcarry⟩ := h i (Nat.le_refl i) (by omega) s
    have hrest := ih (i := i+1) (fun k hik hkn => h k (by omega) (by omega)) (carry i cells s)
    rw [swept,swept,carried,carried,hvalue,hcarry]
    exact ⟨congrArg _ hrest.1,hrest.2⟩

omit [DecidableEq ι] in
/-- A loop whose rounds have no state -/
theorem swept_map (f : Nat → (ι → β) → β) (cells : ι → β) (i n : Nat) :
    swept (fun k cells (_ : Unit) => f k cells) (fun _ _ s => s) cells i n () =
      (List.range' i n).map fun k => f k cells := by
  induction n generalizing i with
  | zero => rfl
  | succ n ih => rw [swept,ih,List.range'_succ,List.map_cons]

/-- A cell that is no place of the loop stays as it is. -/
theorem sweep_other {x : ι} (hx : ∀ k, i ≤ k → k < i+n → x ≠ place k) (s : σ) :
    (sweep place value carry i n cells s).1 x = cells x := by
  induction n generalizing i cells s with
  | zero => rfl
  | succ n ih =>
    rw [sweep,ih fun k hik hkn => hx k (by omega) (by omega)]
    exact Function.update_of_ne (hx i (Nat.le_refl i) (by omega)) _ cells

/-- Where no round reads what is stored before, the loop stores what the cells were in the
beginning. -/
theorem sweep_eq (h : Undisturbed place value carry i n cells) (hplace : Function.Injective place)
    (s : σ) :
    (List.range' i n).map (fun k => (sweep place value carry i n cells s).1 (place k)) =
      swept value carry cells i n s ∧
    (sweep place value carry i n cells s).2 = carried carry cells i n s := by
  induction n generalizing i cells s with
  | zero => exact ⟨rfl,rfl⟩
  | succ n ih =>
    have hcongr := swept_congr (h.first (value i cells s)) (carry i cells s)
    obtain ⟨hvalues,hcarry⟩ := ih (h.rest (value i cells s)) (carry i cells s)
    have hstays : (sweep place value carry (i+1) n
        (Function.update cells (place i) (value i cells s)) (carry i cells s)).1 (place i) =
          value i cells s := by
      rw [sweep_other fun k hik hkn heq => absurd (hplace heq) (by omega),Function.update_self]
    rw [List.range'_succ,List.map_cons,sweep,swept,carried,hvalues,hcarry,hcongr.1,hcongr.2,hstays]
    exact ⟨rfl,rfl⟩

end

end ZZ9K.Framework
