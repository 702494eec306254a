import Mathlib.Data.Nat.ModEq
import Mathlib.Logic.Function.Basic

namespace ZZ9K.Math

section

variable {α : Type}

/-- Memory with `n` cells from `a` on replaced -/
def blit (mem : Nat → α) (a : Nat) (src : Nat → α) (n : Nat) : Nat → α := fun x =>
  if a ≤ x ∧ x < a+n then src (x-a) else mem x

theorem blit_zero (mem : Nat → α) (a : Nat) (src : Nat → α) : blit mem a src 0 = mem := by
  funext x
  have h : ¬(a ≤ x ∧ x < a+0) := by omega
  rw [blit,if_neg h]

theorem blit_succ (mem : Nat → α) (a : Nat) (src : Nat → α) (n : Nat) :
    blit mem a src (n+1) = Function.update (blit mem a src n) (a+n) (src n) := by
  funext x
  by_cases hx : x = a+n
  · subst hx
    simp [blit]
  · rw [Function.update_of_ne hx]
    have h : (a ≤ x ∧ x < a+(n+1)) ↔ (a ≤ x ∧ x < a+n) := by omega
    simp only [blit,h]

/-- The buffer of `n` cells at `base` holds the newest positions of the stream before `hi`, as
many as it has room for. -/
def Keeps (mem : Nat → α) (base n hi : Nat) (stream : List α) : Prop :=
  ∀ p, p < hi → hi ≤ p+n → stream[p]? = some (mem (base+p%n))

/-- Positions less than a turn apart have cells of their own. -/
theorem mod_ne_mod {n p q : Nat} (h : p < q) (hq : q < p+n) : p%n ≠ q%n := by
  intro he
  have hd := (Nat.modEq_iff_dvd' h.le).mp he
  have hle := Nat.le_of_dvd (by omega) hd
  omega

namespace Keeps

variable {mem : Nat → α} {base n hi : Nat} {stream : List α}

/-- Storing the next element replaces the oldest one only. -/
theorem store (h : Keeps mem base n hi stream) {b : α} (hb : stream[hi]? = some b) :
    Keeps (Function.update mem (base+hi%n) b) base n (hi+1) stream := by
  intro p hp hpn
  by_cases he : p = hi
  · subst he
    rw [Function.update_self,hb]
  · have hlt : p < hi := by omega
    have hne : base+p%n ≠ base+hi%n := by
      have := mod_ne_mod hlt (by omega : hi < p+n)
      omega
    rw [Function.update_of_ne hne]
    exact h p hlt (by omega)

/-- Storing several elements that do not run over the end of the buffer -/
theorem blit (h : Keeps mem base n hi stream) {src : Nat → α} {k : Nat} (hn : hi%n+k ≤ n)
    (hs : ∀ j, j < k → stream[hi+j]? = some (src j)) :
    Keeps (blit mem (base+hi%n) src k) base n (hi+k) stream := by
  induction k with
  | zero =>
    rw [blit_zero]
    exact h
  | succ k ih =>
    have hk := ih (by omega) fun j hj => hs j (by omega)
    have hmod : (hi+k)%n = hi%n+k := by
      rw [Nat.add_mod,Nat.mod_eq_of_lt (a := k) (by omega)]
      exact Nat.mod_eq_of_lt (by omega)
    have hcell : base+hi%n+k = base+(hi+k)%n := by omega
    rw [blit_succ,hcell]
    exact hk.store (hs k (by omega))

/-- A stream that goes on has the same positions before. -/
theorem append (h : Keeps mem base n hi stream) (more : List α) :
    Keeps mem base n hi (stream++more) := by
  intro p hp hpn
  have hs := h p hp hpn
  rw [List.getElem?_append_left (List.getElem?_eq_some_iff.mp hs).1]
  exact hs

end Keeps

end

end ZZ9K.Math
