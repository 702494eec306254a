import Mathlib.Data.Nat.Basic

namespace ZZ9K.Framework

variable {ε σ : Type}

/-- A loop of `n` rounds that counts up from `i`, and ends with the first round that fails -/
def countedLoop (step : Nat → σ → Except ε σ) : Nat → Nat → σ → Except ε σ
  | _,0,s => .ok s
  | i,n+1,s => do
    let s ← step i s
    countedLoop step (i+1) n s

/-- The rounds over a grid, one row after the other -/
def gridLoop (step : Nat → Nat → σ → Except ε σ) (rows columns : Nat) : σ → Except ε σ :=
  countedLoop (fun row => countedLoop (step row) 0 columns) 0 rows

section

variable {P : σ → Prop} {s : σ}

/-- An invariant that no round fails under holds in the end. -/
theorem countedLoop_ok {step : Nat → σ → Except ε σ} {i n : Nat}
    (hstep : ∀ k, i ≤ k → k < i+n → ∀ s, P s → ∃ s', step k s = .ok s' ∧ P s') (hs : P s) :
    ∃ s', countedLoop step i n s = .ok s' ∧ P s' := by
  induction n generalizing i s with
  | zero => exact ⟨s,rfl,hs⟩
  | succ n ih =>
    obtain ⟨s',heq,hs'⟩ := hstep i (Nat.le_refl i) (by omega) s hs
    obtain ⟨s'',heq',hs''⟩ := ih (i := i+1)
      (fun k hik hkn => hstep k (by omega) (by omega)) hs'
    refine ⟨s'',?_,hs''⟩
    rw [countedLoop,heq]
    exact heq'

theorem gridLoop_ok {step : Nat → Nat → σ → Except ε σ} {rows columns : Nat}
    (hstep : ∀ row column, row < rows → column < columns → ∀ s, P s →
      ∃ s', step row column s = .ok s' ∧ P s') (hs : P s) :
    ∃ s', gridLoop step rows columns s = .ok s' ∧ P s' := by
  apply countedLoop_ok _ hs
  intro row _ hrow s hs
  apply countedLoop_ok _ hs
  intro column _ hcolumn s hs
  exact hstep row column (by omega) (by omega) s hs

/-- A round that fails in every state ends the loop, where each round before goes on or fails the same. -/
theorem countedLoop_error {step : Nat → σ → Except ε σ} {e : ε} {i n k : Nat} (hik : i ≤ k)
    (hkn : k < i+n) (hstep : ∀ j s, step j s = .error e ∨ ∃ s', step j s = .ok s')
    (hfails : ∀ s, step k s = .error e) : countedLoop step i n s = .error e := by
  induction n generalizing i s with
  | zero => omega
  | succ n ih =>
    rw [countedLoop]
    rcases hstep i s with herror | ⟨s',hok⟩
    · rw [herror]
      rfl
    · have hne : i ≠ k := by
        rintro rfl
        rw [hfails] at hok
        cases hok
      rw [hok]
      exact ih (by omega) (by omega)

theorem countedLoop_or {step : Nat → σ → Except ε σ} {e : ε} {i n : Nat}
    (hstep : ∀ j s, step j s = .error e ∨ ∃ s', step j s = .ok s') :
    countedLoop step i n s = .error e ∨ ∃ s', countedLoop step i n s = .ok s' := by
  induction n generalizing i s with
  | zero => exact .inr ⟨s,rfl⟩
  | succ n ih =>
    rw [countedLoop]
    rcases hstep i s with herror | ⟨s',hok⟩
    · rw [herror]
      exact .inl rfl
    · rw [hok]
      exact ih

/-- A cell that fails in every state ends the rounds over a grid. -/
theorem gridLoop_error {step : Nat → Nat → σ → Except ε σ} {e : ε} {rows columns row column : Nat}
    (hrow : row < rows) (hcolumn : column < columns)
    (hstep : ∀ i j s, step i j s = .error e ∨ ∃ s', step i j s = .ok s')
    (hfails : ∀ s, step row column s = .error e) : gridLoop step rows columns s = .error e :=
  countedLoop_error (Nat.zero_le row) (by omega) (fun i _ => countedLoop_or (hstep i))
    fun _ => countedLoop_error (Nat.zero_le column) (by omega) (hstep row) hfails

end

/-- A unit of a cell of a grid lies in the memory of the grid. -/
theorem grid_lt {row rows column columns unit width stride size : Nat} (hrow : row < rows)
    (hcolumn : column < columns) (hunit : unit < width) (hstride : columns*width ≤ stride)
    (hsize : rows*stride ≤ size) : row*stride+column*width+unit < size := by
  have hcell : column*width+width ≤ columns*width := by
    rw [← Nat.succ_mul]
    exact Nat.mul_le_mul_right width hcolumn
  have hline : row*stride+stride ≤ rows*stride := by
    rw [← Nat.succ_mul]
    exact Nat.mul_le_mul_right stride hrow
  omega

end ZZ9K.Framework
