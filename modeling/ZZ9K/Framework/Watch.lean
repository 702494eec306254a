import ZZ9K.Framework.Ask

namespace ZZ9K.Framework

/-- A thing that a program may harm: which answers can come at all, which can come while the thing
is whole, and which questions harm it, with their answers -/
structure Watch (C : Type) (A : C → Type) where
  possible : Answered C A → Prop
  whole : Answered C A → Prop
  harms : Answered C A → Prop

namespace Watch

variable {C : Type} {A : C → Type} {α β : Type} (w : Watch C A)

/-- Whatever can be answered, the program ends with `R`. -/
def Sure (R : α → Prop) : Ask C A α → Prop
  | .ret a => R a
  | .ask c k => ∀ x, w.possible ⟨c,x⟩ → Sure R (k x)

/-- From where the thing is whole, the program ends with `Q`, or with `R` where it did harm. -/
def Ends (Q R : α → Prop) : Ask C A α → Prop
  | .ret a => Q a
  | .ask c k => ∀ x, w.possible ⟨c,x⟩ → w.whole ⟨c,x⟩ →
    (w.harms ⟨c,x⟩ → w.Sure R (k x)) ∧ (¬w.harms ⟨c,x⟩ → Ends Q R (k x))

/-- The program ends with `Q` and does no harm. -/
abbrev Spares (Q : α → Prop) (p : Ask C A α) : Prop := w.Ends Q (fun _ => False) p

/-- The same answers, with nothing to harm -/
def calm : Watch C A := {w with whole := fun _ => True,harms := fun _ => False}

/-- The answers of a log can all come, each where it does. -/
def Allows : List (Answered C A) → Prop
  | [] => True
  | e::log => w.possible e ∧ w.whole e ∧ (w.harms e → ∀ d ∈ log, w.possible d) ∧
    (¬w.harms e → Allows log)

variable {w} {Q Q' R R' : α → Prop}

@[simp] theorem sure_ret {a : α} : w.Sure R (.ret a : Ask C A α) ↔ R a := Iff.rfl

@[simp] theorem ends_ret {a : α} : w.Ends Q R (.ret a : Ask C A α) ↔ Q a := Iff.rfl

theorem sure_mono {p : Ask C A α} (h : w.Sure R p) (hR : ∀ a, R a → R' a) : w.Sure R' p := by
  induction p with
  | ret a => exact hR a h
  | ask c k ih => exact fun x hx => ih x (h x hx)

theorem ends_mono {p : Ask C A α} (h : w.Ends Q R p) (hQ : ∀ a, Q a → Q' a)
    (hR : ∀ a, R a → R' a) : w.Ends Q' R' p := by
  induction p with
  | ret a => exact hQ a h
  | ask c k ih =>
    intro x hx hw
    obtain ⟨hharm,hkeep⟩ := h x hx hw
    exact ⟨fun hh => sure_mono (hharm hh) hR,fun hh => ih x (hkeep hh)⟩

/-- What does no harm ends like anything that may do harm. -/
theorem Spares.ends {p : Ask C A α} (h : w.Spares Q p) (hQ : ∀ a, Q a → Q' a) : w.Ends Q' R p :=
  ends_mono h hQ fun _ hf => hf.elim

theorem sure_bind {R : α → Prop} {R' : β → Prop} {p : Ask C A α} {f : α → Ask C A β}
    (hp : w.Sure R p) (hf : ∀ a, R a → w.Sure R' (f a)) : w.Sure R' (p >>= f) := by
  induction p with
  | ret a => exact hf a hp
  | ask c k ih => exact fun x hx => ih x (hp x hx)

theorem ends_bind {Q R : α → Prop} {Q' R' : β → Prop} {p : Ask C A α} {f : α → Ask C A β}
    (hp : w.Ends Q R p) (hQ : ∀ a, Q a → w.Ends Q' R' (f a))
    (hR : ∀ a, R a → w.Sure R' (f a)) : w.Ends Q' R' (p >>= f) := by
  induction p with
  | ret a => exact hQ a hp
  | ask c k ih =>
    intro x hx hw
    obtain ⟨hharm,hkeep⟩ := hp x hx hw
    exact ⟨fun hh => sure_bind (hharm hh) hR,fun hh => ih x (hkeep hh)⟩

/-- A part that does no harm may stand before any other. -/
theorem Spares.bind {Q : α → Prop} {Q' R' : β → Prop} {p : Ask C A α} {f : α → Ask C A β}
    (hp : w.Spares Q p) (hQ : ∀ a, Q a → w.Ends Q' R' (f a)) : w.Ends Q' R' (p >>= f) :=
  ends_bind hp hQ fun _ hf => hf.elim

/-- A question that does no harm may stand before anything. -/
theorem ends_step {Q R : α → Prop} {c : C} {f : A c → Ask C A α}
    (hc : ∀ x, w.possible ⟨c,x⟩ → w.whole ⟨c,x⟩ → ¬w.harms ⟨c,x⟩)
    (hf : ∀ x, w.possible ⟨c,x⟩ → w.whole ⟨c,x⟩ → w.Ends Q R (f x)) :
    w.Ends Q R (.ask c .ret >>= f) :=
  fun x hx hw => ⟨fun hh => absurd hh (hc x hx hw),fun _ => hf x hx hw⟩

/-- Where nothing is there to harm, the two judgements are one. -/
theorem sure_iff_calm {p : Ask C A α} : w.Sure R p ↔ w.calm.Spares R p := by
  induction p with
  | ret a => rfl
  | ask c k ih =>
    constructor
    · exact fun h x hx _ => ⟨fun hh => hh.elim,fun _ => (ih x).mp (h x hx)⟩
    · exact fun h x hx => (ih x).mpr ((h x hx trivial).2 id)

/-- A program whose questions are all harmless spares the thing. -/
theorem spares_of_all {p : Ask C A α} (h : p.All fun c => ∀ x, ¬w.harms ⟨c,x⟩) :
    w.Spares (fun _ => True) p := by
  induction p with
  | ret a => trivial
  | ask c k ih => exact fun x _ _ => ⟨fun hh => absurd hh (h.1 x),fun _ => ih x (h.2 x)⟩

theorem Sure.run {p : Ask C A α} {log : List (Answered C A)} {a : α} (h : w.Sure R p)
    (hr : p.Runs log a) (ha : ∀ e ∈ log, w.possible e) : R a := by
  induction hr with
  | ret a => exact h
  | ask x hr ih =>
    have hhead := h x (ha _ (List.mem_cons_self ..))
    exact ih hhead fun e he => ha e (List.mem_cons_of_mem _ he)

/-- A run does no harm and ends with `Q`, or it ends with `R`. -/
theorem Ends.run {p : Ask C A α} {log : List (Answered C A)} {a : α} (h : w.Ends Q R p)
    (hr : p.Runs log a) (ha : w.Allows log) : (∀ e ∈ log, ¬w.harms e) ∧ Q a ∨ R a := by
  induction hr with
  | ret a => exact Or.inl ⟨fun e he => (nomatch he),h⟩
  | @ask c k log a x hr ih =>
    obtain ⟨hpossible,hwhole,hafter,hbefore⟩ := ha
    obtain ⟨hharm,hkeep⟩ := h x hpossible hwhole
    by_cases hh : w.harms ⟨c,x⟩
    · exact Or.inr ((hharm hh).run hr (hafter hh))
    · rcases ih (hkeep hh) (hbefore hh) with ⟨hnone,hQ⟩ | hR
      · left
        constructor
        · intro e he
          rcases List.mem_cons.mp he with rfl | he
          · exact hh
          · exact hnone e he
        · exact hQ
      · exact Or.inr hR

theorem Spares.run {p : Ask C A α} {log : List (Answered C A)} {a : α} (h : w.Spares Q p)
    (hr : p.Runs log a) (ha : w.Allows log) : (∀ e ∈ log, ¬w.harms e) ∧ Q a :=
  (Ends.run h hr ha).resolve_right id

end Watch

end ZZ9K.Framework
