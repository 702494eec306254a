import Mathlib.Logic.Relation
import Mathlib.Data.List.Infix

namespace ZZ9K.Framework

/-- A queue with its history: what ever went in, what ever came out, what is inside. -/
@[ext] structure Fifo (α : Type) where
  pushed : List α
  popped : List α
  queue : List α

namespace Fifo

variable {α : Type}

def empty : Fifo α := ⟨[],[],[]⟩

/-- Something enters at the back, provided the bound leaves room. -/
def Push (cap : Nat) (f g : Fifo α) : Prop :=
  ∃ x, f.queue.length < cap ∧ g.pushed = f.pushed++[x] ∧ g.popped = f.popped ∧
    g.queue = f.queue++[x]

/-- The front leaves. -/
def Pop (f g : Fifo α) : Prop :=
  ∃ x, f.queue = x :: g.queue ∧ g.pushed = f.pushed ∧ g.popped = f.popped++[x]

/-- One step of the bounded queue, or none. -/
def Step (cap : Nat) (f g : Fifo α) : Prop := g = f ∨ Push cap f g ∨ Pop f g

/-- Nothing is lost, duplicated or reordered, and the bound holds. -/
def Conserves (cap : Nat) (f : Fifo α) : Prop :=
  f.pushed = f.popped++f.queue ∧ f.queue.length ≤ cap

theorem conserves_empty (cap : Nat) : Conserves cap (empty : Fifo α) := ⟨rfl,Nat.zero_le cap⟩

theorem Push.conserves {cap : Nat} {f g : Fifo α} (h : Push cap f g) (hf : Conserves cap f) :
    Conserves cap g := by
  obtain ⟨x,hroom,hi,ho,hq⟩ := h
  refine ⟨?_,?_⟩
  · rw [hi,ho,hq,hf.1,List.append_assoc]
  · rw [hq,List.length_append,List.length_singleton]
    omega

theorem Pop.conserves {cap : Nat} {f g : Fifo α} (h : Pop f g) (hf : Conserves cap f) :
    Conserves cap g := by
  obtain ⟨x,hq,hi,ho⟩ := h
  have hlen := hf.2
  rw [hq,List.length_cons] at hlen
  refine ⟨?_,by omega⟩
  rw [hi,ho,hf.1,hq,List.append_assoc,List.singleton_append]

theorem Step.conserves {cap : Nat} {f g : Fifo α} (h : Step cap f g) (hf : Conserves cap f) :
    Conserves cap g := by
  rcases h with rfl | h | h
  · exact hf
  · exact h.conserves hf
  · exact h.conserves hf

/-- What came out is always the beginning of what went in. -/
theorem Conserves.popped_prefix {cap : Nat} {f : Fifo α} (h : Conserves cap f) :
    f.popped <+: f.pushed := ⟨f.queue,h.1.symm⟩

end Fifo

/-- Two bounded queues side by side, each moving on its own. -/
def PairStep {α β : Type} (m n : Nat) (f g : Fifo α × Fifo β) : Prop :=
  Fifo.Step m f.1 g.1 ∧ Fifo.Step n f.2 g.2

end ZZ9K.Framework
