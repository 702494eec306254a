import Mathlib.Logic.Function.Iterate

namespace ZZ9K.Framework

variable {σ : Type} {step : σ → σ} {s t u : σ}

/-- Some number of steps leads from `s` to `t`. -/
def Leads (step : σ → σ) (s t : σ) : Prop := ∃ k, step^[k] s = t

namespace Leads

theorem refl (s : σ) : Leads step s s := ⟨0,rfl⟩

theorem head (h : Leads step (step s) t) : Leads step s t := by
  obtain ⟨k,hk⟩ := h
  exact ⟨k+1,by rw [Function.iterate_succ_apply,hk]⟩

theorem trans (h : Leads step s t) (h' : Leads step t u) : Leads step s u := by
  obtain ⟨k,rfl⟩ := h
  obtain ⟨j,rfl⟩ := h'
  exact ⟨j+k,Function.iterate_add_apply step j k s⟩

/-- What every step preserves holds wherever the steps lead. -/
theorem invariant {I : σ → Prop} (hI : ∀ s, I s → I (step s)) (hs : I s)
    (h : Leads step s t) : I t := by
  obtain ⟨k,rfl⟩ := h
  induction k with
  | zero => exact hs
  | succ k ih =>
    rw [Function.iterate_succ_apply']
    exact hI _ ih

/-- A state that a step leaves as it is comes after everything else. -/
theorem final (hfix : step t = t) (h : Leads step s t) (h' : Leads step s u) : Leads step u t := by
  obtain ⟨k,hk⟩ := h
  obtain ⟨j,rfl⟩ := h'
  refine ⟨k,?_⟩
  rw [← Function.iterate_add_apply,Nat.add_comm,Function.iterate_add_apply,hk]
  exact Function.iterate_fixed hfix j

theorem final_unique (ht : step t = t) (hu : step u = u) (h : Leads step s t)
    (h' : Leads step s u) : t = u := by
  obtain ⟨k,hk⟩ := h.final ht h'
  rw [Function.iterate_fixed hu] at hk
  exact hk.symm

end Leads

end ZZ9K.Framework
