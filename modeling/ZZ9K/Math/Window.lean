import Mathlib.Data.List.Basic
import Mathlib.Logic.Function.Basic

namespace ZZ9K.Math

/-- Cyclic successor below `n`. -/
def next (n i : Nat) : Nat := if n ≤ i+1 then 0 else i+1

/-- The position `i` places after `h` on a circle of `n`. -/
def place (n h i : Nat) : Nat := if h+i < n then h+i else h+i-n

/-- How far `t` is ahead of `h` on a circle of `n`. -/
def ahead (n h t : Nat) : Nat := if h ≤ t then t-h else t+n-h

/-- The cells from `h` up to but not including `t`, going round the circle. -/
def window {α : Type} (f : Nat → α) (n h t : Nat) : List α :=
  (List.range (ahead n h t)).map fun i => f (place n h i)

variable {α β : Type} (f : Nat → α) {n h t : Nat}

theorem next_lt (hn : 0 < n) : next n h < n := by
  unfold next
  split_ifs <;> omega

theorem ahead_lt (hh : h < n) (ht : t < n) : ahead n h t < n := by
  unfold ahead
  split_ifs <;> omega

theorem ahead_eq_zero (hh : h < n) : ahead n h t = 0 ↔ h = t := by
  unfold ahead
  split_ifs <;> omega

/-- One cell stays empty: the window is full when the next tail would meet the head. -/
theorem ahead_full (hh : h < n) (ht : t < n) : ahead n h t = n-1 ↔ next n t = h := by
  unfold ahead next
  split_ifs <;> omega

theorem ahead_push (hh : h < n) (ht : t < n) (hf : next n t ≠ h) :
    ahead n h (next n t) = ahead n h t+1 := by
  unfold ahead next at *
  split_ifs at * <;> omega

theorem ahead_pop (hh : h < n) (ht : t < n) (he : h ≠ t) :
    ahead n h t = ahead n (next n h) t+1 := by
  unfold ahead next
  split_ifs <;> omega

theorem place_ahead (hh : h < n) (ht : t < n) : place n h (ahead n h t) = t := by
  unfold place ahead
  split_ifs <;> omega

theorem place_ne (hh : h < n) {i : Nat} (hi : i < ahead n h t) :
    place n h i ≠ t := by
  unfold place ahead at *
  split_ifs at * <;> omega

theorem place_zero (hh : h < n) : place n h 0 = h := by
  simp [place,hh]

theorem place_succ (hh : h < n) (ht : t < n) {i : Nat} (hi : i+1 < ahead n h t) :
    place n h (i+1) = place n (next n h) i := by
  unfold place next ahead at *
  split_ifs at * <;> omega

@[simp] theorem window_length : (window f n h t).length = ahead n h t := by
  simp [window]

theorem window_nil (hh : h < n) : window f n h t = [] ↔ h = t := by
  rw [← List.length_eq_zero_iff,window_length,ahead_eq_zero hh]

/-- Writing the first free cell leaves the queued ones alone. -/
theorem window_update (hh : h < n) (x : α) :
    window (Function.update f t x) n h t = window f n h t := by
  apply List.map_congr_left
  intro i hi
  rw [Function.update_of_ne (place_ne hh (List.mem_range.mp hi))]

theorem window_push (hh : h < n) (ht : t < n) (hf : next n t ≠ h) :
    window f n h (next n t) = window f n h t++[f t] := by
  unfold window
  rw [ahead_push hh ht hf,List.range_succ,List.map_append]
  simp [place_ahead hh ht]

theorem window_pop (hh : h < n) (ht : t < n) (he : h ≠ t) :
    window f n h t = f h :: window f n (next n h) t := by
  unfold window
  have hd := ahead_pop hh ht he
  rw [hd,List.range_succ_eq_map,List.map_cons,place_zero hh,List.map_map]
  congr 1
  apply List.map_congr_left
  intro i hi
  exact congrArg f (place_succ hh ht (by have := List.mem_range.mp hi; omega))

theorem map_window (g : α → β) : (window f n h t).map g = window (fun i => g (f i)) n h t := by
  simp [window,Function.comp_def]

end ZZ9K.Math
