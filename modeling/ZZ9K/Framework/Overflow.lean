import Mathlib.Data.UInt

namespace ZZ9K.Framework

/-- How a program forms sums, differences and products of machine words, and cuts a wide word down to a narrow
one -/
class WordArith (M : Type → Type) where
  add32 : UInt32 → UInt32 → M UInt32
  mul32 : UInt32 → UInt32 → M UInt32
  add64 : UInt64 → UInt64 → M UInt64
  mul64 : UInt64 → UInt64 → M UInt64
  sub32 : UInt32 → UInt32 → M UInt32
  sub64 : UInt64 → UInt64 → M UInt64
  narrow : UInt64 → M UInt32

/-- The words of the machine wrap, and a cast keeps the low bits. -/
instance : WordArith Id where
  add32 a b := a+b
  mul32 a b := a*b
  add64 a b := a+b
  mul64 a b := a*b
  sub32 a b := a-b
  sub64 a b := a-b
  narrow a := a.toUInt32

/-- Nothing overflows: where a result does not fit its word, there is none. -/
instance : WordArith Option where
  add32 a b := if a.toNat+b.toNat < 2^32 then some (a+b) else none
  mul32 a b := if a.toNat*b.toNat < 2^32 then some (a*b) else none
  add64 a b := if a.toNat+b.toNat < 2^64 then some (a+b) else none
  mul64 a b := if a.toNat*b.toNat < 2^64 then some (a*b) else none
  sub32 a b := if b.toNat ≤ a.toNat then some (a-b) else none
  sub64 a b := if b.toNat ≤ a.toNat then some (a-b) else none
  narrow a := if a.toNat < 2^32 then some a.toUInt32 else none

/-- What the program returns without overflow, it returns on the machine. -/
def Agrees {α : Type} (x : Option α) (a : Id α) : Prop := ∀ b, x = some b → a = b

/-- Nothing overflows, and the result has `Q`. -/
def Fits {α : Type} (x : Option α) (Q : α → Prop) : Prop := ∃ a, x = some a ∧ Q a

section

open WordArith

variable {α β : Type}

theorem agrees_pure (a : α) : Agrees (pure a) (pure a) := fun _ h => Option.some.inj h

theorem Agrees.bind {x : Option α} {a : Id α} {f : α → Option β} {g : α → Id β} (h : Agrees x a)
    (hf : ∀ b, Agrees (f b) (g b)) : Agrees (x >>= f) (a >>= g) := by
  intro c hc
  obtain ⟨b,hb,hc⟩ := Option.bind_eq_some_iff.mp hc
  rw [h b hb]
  exact hf b c hc

theorem agrees_if {p : Prop} [Decidable p] {a b : α} (h : a = b) :
    Agrees (if p then some a else none) b := by
  intro c hc
  split_ifs at hc
  exact h ▸ Option.some.inj hc

theorem agrees_add32 (a b : UInt32) : Agrees (add32 a b) (add32 a b) := agrees_if rfl

theorem agrees_mul32 (a b : UInt32) : Agrees (mul32 a b) (mul32 a b) := agrees_if rfl

theorem agrees_add64 (a b : UInt64) : Agrees (add64 a b) (add64 a b) := agrees_if rfl

theorem agrees_mul64 (a b : UInt64) : Agrees (mul64 a b) (mul64 a b) := agrees_if rfl

theorem agrees_sub32 (a b : UInt32) : Agrees (sub32 a b) (sub32 a b) := agrees_if rfl

theorem agrees_sub64 (a b : UInt64) : Agrees (sub64 a b) (sub64 a b) := agrees_if rfl

theorem agrees_narrow (a : UInt64) : Agrees (narrow a) (narrow a) := agrees_if rfl

theorem agrees_ite {p : Prop} [Decidable p] {x y : Option α} {a b : Id α} (hx : Agrees x a)
    (hy : Agrees y b) : Agrees (if p then x else y) (if p then a else b) := by
  split_ifs
  · exact hx
  · exact hy

theorem Fits.mono {x : Option α} {P Q : α → Prop} (h : Fits x P) (hPQ : ∀ a, P a → Q a) :
    Fits x Q := by
  obtain ⟨a,ha,hP⟩ := h
  exact ⟨a,ha,hPQ a hP⟩

theorem fits_pure {a : α} {Q : α → Prop} (h : Q a) : Fits (pure a) Q := ⟨a,rfl,h⟩

theorem Fits.bind {x : Option α} {P : α → Prop} {f : α → Option β} {Q : β → Prop} (h : Fits x P)
    (hf : ∀ a, P a → Fits (f a) Q) : Fits (x >>= f) Q := by
  obtain ⟨a,rfl,ha⟩ := h
  exact hf a ha

/-- A program that nowhere overflows returns the same on the machine. -/
theorem Fits.machine {x : Option α} {a : Id α} {Q : α → Prop} (h : Fits x Q) (ha : Agrees x a) :
    x = some (Id.run a) ∧ Q (Id.run a) := by
  obtain ⟨b,hb,hQ⟩ := h
  have he : a = b := ha b hb
  exact ⟨he ▸ hb,he ▸ hQ⟩

theorem fits_add32 {a b : UInt32} (h : a.toNat+b.toNat < 2^32) :
    Fits (add32 a b) fun c => c.toNat = a.toNat+b.toNat :=
  ⟨a+b,if_pos h,(UInt32.toNat_add ..).trans (Nat.mod_eq_of_lt h)⟩

theorem fits_mul32 {a b : UInt32} (h : a.toNat*b.toNat < 2^32) :
    Fits (mul32 a b) fun c => c.toNat = a.toNat*b.toNat :=
  ⟨a*b,if_pos h,(UInt32.toNat_mul ..).trans (Nat.mod_eq_of_lt h)⟩

theorem fits_add64 {a b : UInt64} (h : a.toNat+b.toNat < 2^64) :
    Fits (add64 a b) fun c => c.toNat = a.toNat+b.toNat :=
  ⟨a+b,if_pos h,(UInt64.toNat_add ..).trans (Nat.mod_eq_of_lt h)⟩

theorem fits_mul64 {a b : UInt64} (h : a.toNat*b.toNat < 2^64) :
    Fits (mul64 a b) fun c => c.toNat = a.toNat*b.toNat :=
  ⟨a*b,if_pos h,(UInt64.toNat_mul ..).trans (Nat.mod_eq_of_lt h)⟩

theorem fits_sub32 {a b : UInt32} (h : b.toNat ≤ a.toNat) :
    Fits (sub32 a b) fun c => c.toNat = a.toNat-b.toNat :=
  ⟨a-b,if_pos h,UInt32.toNat_sub_of_le a b (UInt32.le_iff_toNat_le.mpr h)⟩

theorem fits_sub64 {a b : UInt64} (h : b.toNat ≤ a.toNat) :
    Fits (sub64 a b) fun c => c.toNat = a.toNat-b.toNat :=
  ⟨a-b,if_pos h,UInt64.toNat_sub_of_le a b (UInt64.le_iff_toNat_le.mpr h)⟩

theorem fits_narrow {a : UInt64} (h : a.toNat < 2^32) :
    Fits (narrow a) fun c => c.toNat = a.toNat :=
  ⟨a.toUInt32,if_pos h,(UInt64.toNat_toUInt32 ..).trans (Nat.mod_eq_of_lt h)⟩

end

/-- Clearing the low bits of a word rounds it down. -/
theorem and_not_toNat {x mask : UInt32} {k : Nat} (h : (~~~mask).toNat = (2^(32-k)-1) <<< k) :
    (x &&& ~~~mask).toNat = x.toNat/2^k*2^k := by
  rw [UInt32.toNat_and,h]
  apply Nat.eq_of_testBit_eq
  intro i
  have hshift : x.toNat/2^k*2^k = (x.toNat >>> k) <<< k := by
    simp [Nat.shiftLeft_eq,Nat.shiftRight_eq_div_pow]
  rw [hshift,Nat.testBit_and,Nat.testBit_shiftLeft,Nat.testBit_shiftLeft,Nat.testBit_shiftRight,
    Nat.testBit_two_pow_sub_one]
  by_cases hk : k ≤ i
  · have hi : k+(i-k) = i := by omega
    by_cases h32 : i < 32
    · simp [hk,hi,show i-k < 32-k by omega]
    · have hlt : x.toNat < 2^i :=
        lt_of_lt_of_le x.toNat_lt (Nat.pow_le_pow_right (by decide) (by omega))
      simp [hk,hi,Nat.testBit_lt_two_pow hlt]
  · simp [hk]

end ZZ9K.Framework
