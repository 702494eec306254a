import Mathlib.Data.List.Basic
import Mathlib.Data.Nat.Basic

namespace ZZ9K.Math

/-- The multiples of `d` below `n` in order: 0, d, 2d and so on -/
def multiples (d n : Nat) : List Nat := (List.range ((n+d-1)/d)).map (·*d)

/-- What a loop collects that starts at `s` and goes on by `d` as long as it is below `n` -/
def strideLoop {α : Type} (f : Nat → α) (n d : Nat) (hd : 0 < d) (s : Nat) : List α :=
  if s < n then f s::strideLoop f n d hd (s+d) else []
termination_by n-s

variable {d : Nat}

@[simp] theorem multiples_zero (d : Nat) : multiples d 0 = [] := by
  cases d with
  | zero => rfl
  | succ d =>
    have h : (0+(d+1)-1)/(d+1) = 0 := Nat.div_eq_of_lt (by omega)
    rw [multiples,h]
    rfl

theorem length_multiples (d n : Nat) : (multiples d n).length = (n+d-1)/d := by
  rw [multiples,List.length_map,List.length_range]

theorem multiples_one (n : Nat) : multiples 1 n = List.range n := by
  simp [multiples]

theorem lt_of_mem_multiples (hd : 0 < d) {n s : Nat} (hs : s ∈ multiples d n) : s < n := by
  obtain ⟨i,hi,rfl⟩ := List.mem_map.mp hs
  have h := (Nat.le_div_iff_mul_le hd).mp (Nat.succ_le_of_lt (List.mem_range.mp hi))
  rw [Nat.succ_mul] at h
  omega

/-- One more place below the bound adds it if it is a multiple. -/
theorem multiples_succ (hd : 0 < d) (n : Nat) :
    multiples d (n+1) = if n%d = 0 then multiples d n++[n] else multiples d n := by
  have hstep : (n+1+d-1)/d = n/d+1 := by
    rw [show n+1+d-1 = n+d by omega,Nat.add_div_right n hd]
  split_ifs with hn
  · have hround : (n+d-1)/d = n/d := by
      obtain ⟨q,rfl⟩ := Nat.dvd_of_mod_eq_zero hn
      rw [Nat.mul_div_cancel_left q hd,Nat.add_sub_assoc hd,Nat.mul_add_div hd,
        Nat.div_eq_of_lt (by omega),Nat.add_zero]
    rw [multiples,multiples,hstep,hround,List.range_succ,List.map_append]
    simp only [List.map_cons,List.map_nil]
    rw [Nat.div_mul_cancel (Nat.dvd_of_mod_eq_zero hn)]
  · have hround : (n+d-1)/d = n/d+1 := by
      have hmod := Nat.mod_lt n hd
      have hsplit := Nat.div_add_mod n d
      have : n+d-1 = d*(n/d+1)+(n%d-1) := by
        rw [Nat.mul_add,Nat.mul_one]
        omega
      have hsmall : (n%d-1)/d = 0 := Nat.div_eq_of_lt (by omega)
      rw [this,Nat.mul_add_div hd,hsmall,Nat.add_zero]
    rw [multiples,multiples,hstep,hround]

theorem filter_range_multiples (hd : 0 < d) (n : Nat) :
    (List.range n).filter (·%d = 0) = multiples d n := by
  induction n with
  | zero => exact (multiples_zero d).symm
  | succ n ih =>
    rw [List.range_succ,List.filter_append,ih,multiples_succ hd]
    by_cases hn : n%d = 0
    · simp [hn]
    · simp [hn]

/-- From a multiple on, the multiples begin anew. -/
theorem multiples_add (hd : 0 < d) {a : Nat} (ha : a%d = 0) (n : Nat) :
    multiples d (a+n) = multiples d a++(multiples d n).map (a+·) := by
  induction n with
  | zero => simp
  | succ n ih =>
    have hmod : (a+n)%d = n%d := by rw [Nat.add_mod,ha,Nat.zero_add,Nat.mod_mod]
    rw [← Nat.add_assoc,multiples_succ hd,multiples_succ hd,ih,hmod]
    split_ifs
    · rw [List.map_append,List.append_assoc]
      rfl
    · rfl

/-- The loop visits the multiples it has not passed. -/
theorem strideLoop_eq {α : Type} (f : Nat → α) (n : Nat) (hd : 0 < d) (i : Nat) :
    strideLoop f n d hd (i*d) = (List.range' i ((n+d-1)/d-i)).map fun j => f (j*d) := by
  rw [strideLoop]
  have hbound : i*d < n ↔ i < (n+d-1)/d := by
    have h := Nat.le_div_iff_mul_le hd (x := i+1) (y := n+d-1)
    rw [Nat.succ_mul] at h
    omega
  split_ifs with hi
  · have hlt := hbound.mp hi
    have hcount : (n+d-1)/d-i = (n+d-1)/d-(i+1)+1 := by omega
    rw [hcount,List.range'_succ,List.map_cons]
    have hnext : i*d+d = (i+1)*d := (Nat.succ_mul i d).symm
    rw [hnext,strideLoop_eq f n hd (i+1)]
  · have hcount : (n+d-1)/d-i = 0 := by omega
    rw [hcount]
    rfl
termination_by n-i*d
decreasing_by
  rw [Nat.succ_mul]
  omega

theorem strideLoop_zero {α : Type} (f : Nat → α) (n : Nat) (hd : 0 < d) :
    strideLoop f n d hd 0 = (multiples d n).map f := by
  have h := strideLoop_eq f n hd 0
  rw [Nat.zero_mul] at h
  rw [h,multiples,List.map_map,Nat.sub_zero,List.range_eq_range']
  rfl

end ZZ9K.Math
