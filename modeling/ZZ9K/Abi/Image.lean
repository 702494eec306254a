import ZZ9K.Abi.BigEndian
import Mathlib.Logic.Function.Basic

namespace ZZ9K.Abi

/-- Bytes in memory, counted from a pointer -/
abbrev Image := Nat → UInt8

namespace Image

variable (m : Image)

def be16 (o : Nat) : UInt16 := getBe16 ⟨m o,m (o+1)⟩

def be32 (o : Nat) : UInt32 := getBe32 ⟨m o,m (o+1),m (o+2),m (o+3)⟩

/-- `memset` to zero -/
def clear (o n : Nat) : Image := fun k => if o ≤ k ∧ k < o+n then 0 else m k

def setBe16 (o : Nat) (v : UInt16) : Image := fun k =>
  if k = o then (putBe16 v).b0 else if k = o+1 then (putBe16 v).b1 else m k

def setBe32 (o : Nat) (v : UInt32) : Image := fun k =>
  if k = o then (putBe32 v).b0 else if k = o+1 then (putBe32 v).b1
  else if k = o+2 then (putBe32 v).b2 else if k = o+3 then (putBe32 v).b3 else m k

@[simp] theorem be16_setBe16 (o : Nat) (v : UInt16) : (m.setBe16 o v).be16 o = v := by
  have h := getBe16_putBe16 v
  simp [be16,setBe16]
  exact h

@[simp] theorem be32_setBe32 (o : Nat) (v : UInt32) : (m.setBe32 o v).be32 o = v := by
  have h := getBe32_putBe32 v
  simp [be32,setBe32]
  exact h

theorem setBe16_of_disjoint {o k : Nat} (v : UInt16) (h : k < o ∨ o+2 ≤ k) :
    m.setBe16 o v k = m k := by
  have h0 : k ≠ o := by omega
  have h1 : k ≠ o+1 := by omega
  rw [setBe16,if_neg h0,if_neg h1]

theorem setBe32_of_disjoint {o k : Nat} (v : UInt32) (h : k < o ∨ o+4 ≤ k) :
    m.setBe32 o v k = m k := by
  have h0 : k ≠ o := by omega
  have h1 : k ≠ o+1 := by omega
  have h2 : k ≠ o+2 := by omega
  have h3 : k ≠ o+3 := by omega
  rw [setBe32,if_neg h0,if_neg h1,if_neg h2,if_neg h3]

/-- A field that is stored elsewhere does not change what is read here. -/
theorem be32_setBe32_of_disjoint {o k : Nat} (v : UInt32) (h : k+4 ≤ o ∨ o+4 ≤ k) :
    (m.setBe32 o v).be32 k = m.be32 k := by
  simp only [be32]
  rw [setBe32_of_disjoint,setBe32_of_disjoint,setBe32_of_disjoint,setBe32_of_disjoint]
  all_goals omega

theorem be16_setBe32_of_disjoint {o k : Nat} (v : UInt32) (h : k+2 ≤ o ∨ o+4 ≤ k) :
    (m.setBe32 o v).be16 k = m.be16 k := by
  simp only [be16]
  rw [setBe32_of_disjoint,setBe32_of_disjoint]
  all_goals omega

theorem be32_setBe16_of_disjoint {o k : Nat} (v : UInt16) (h : k+4 ≤ o ∨ o+2 ≤ k) :
    (m.setBe16 o v).be32 k = m.be32 k := by
  simp only [be32]
  rw [setBe16_of_disjoint,setBe16_of_disjoint,setBe16_of_disjoint,setBe16_of_disjoint]
  all_goals omega

theorem be16_setBe16_of_disjoint {o k : Nat} (v : UInt16) (h : k+2 ≤ o ∨ o+2 ≤ k) :
    (m.setBe16 o v).be16 k = m.be16 k := by
  simp only [be16]
  rw [setBe16_of_disjoint,setBe16_of_disjoint]
  all_goals omega

end Image

end ZZ9K.Abi
