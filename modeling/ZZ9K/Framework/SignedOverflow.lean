import Mathlib.Data.Int.Init
import ZZ9K.Framework.Overflow

namespace ZZ9K.Framework

/-- How a program cuts the exact result of an operation or a conversion down to a machine integer -/
class IntArith (M : Type → Type) where
  int32 : Int → M Int
  uint32 : Int → M Int
  uint64 : Int → M Int

/-- The integers of the machine wrap. -/
instance : IntArith Id where
  int32 x := x.bmod (2^32)
  uint32 x := x%2^32
  uint64 x := x%2^64

/-- Nothing overflows: where a result is out of the range of its type, there is none. -/
instance : IntArith Option where
  int32 x := if -2^31 ≤ x ∧ x < 2^31 then some x else none
  uint32 x := if 0 ≤ x ∧ x < 2^32 then some x else none
  uint64 x := if 0 ≤ x ∧ x < 2^64 then some x else none

section

open IntArith

theorem agrees_int32 (x : Int) : Agrees (int32 x) (int32 x) := by
  intro y hy
  obtain ⟨⟨hlow,hhigh⟩,rfl⟩ : (-2^31 ≤ x ∧ x < 2^31) ∧ x = y := by
    simpa [int32,IntArith.int32] using hy
  exact Int.bmod_eq_of_le (by omega) (by omega)

theorem agrees_uint32 (x : Int) : Agrees (uint32 x) (uint32 x) := by
  intro y hy
  obtain ⟨⟨hlow,hhigh⟩,rfl⟩ : (0 ≤ x ∧ x < 2^32) ∧ x = y := by
    simpa [uint32,IntArith.uint32] using hy
  exact Int.emod_eq_of_lt hlow hhigh

theorem agrees_uint64 (x : Int) : Agrees (uint64 x) (uint64 x) := by
  intro y hy
  obtain ⟨⟨hlow,hhigh⟩,rfl⟩ : (0 ≤ x ∧ x < 2^64) ∧ x = y := by
    simpa [uint64,IntArith.uint64] using hy
  exact Int.emod_eq_of_lt hlow hhigh

variable {α : Type} {f : Int → Option α} {x : Int}

theorem int32_some (hlow : -2^31 ≤ x) (hhigh : x < 2^31) : (int32 x : Option Int) = some x :=
  if_pos ⟨hlow,hhigh⟩

theorem uint32_some (hlow : 0 ≤ x) (hhigh : x < 2^32) : (uint32 x : Option Int) = some x :=
  if_pos ⟨hlow,hhigh⟩

theorem uint64_some (hlow : 0 ≤ x) (hhigh : x < 2^64) : (uint64 x : Option Int) = some x :=
  if_pos ⟨hlow,hhigh⟩

theorem some_bind (x : Int) : some x >>= f = f x := rfl

theorem int32_bind (hlow : -2^31 ≤ x) (hhigh : x < 2^31) : int32 x >>= f = f x := by
  rw [int32_some hlow hhigh]
  rfl

theorem uint32_bind (hlow : 0 ≤ x) (hhigh : x < 2^32) : uint32 x >>= f = f x := by
  rw [uint32_some hlow hhigh]
  rfl

theorem uint64_bind (hlow : 0 ≤ x) (hhigh : x < 2^64) : uint64 x >>= f = f x := by
  rw [uint64_some hlow hhigh]
  rfl

end

end ZZ9K.Framework
