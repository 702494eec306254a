import ZZ9K.Framework.Ask

namespace ZZ9K.Framework

/-- A program that asks its environment and may give up for a reason -/
abbrev Attempt (C : Type) (A : C → Type) (ε α : Type) := ExceptT ε (Ask C A) α

namespace Attempt

variable {C : Type} {A : C → Type} {ε α β : Type}

/-- One question -/
def put (c : C) : Attempt C A ε (A c) := ExceptT.mk (.ask c fun x => .ret (.ok x))

/-- What becomes of a program that returned, or that gave up -/
def Outcome {S : Type} (Q : α → S → Prop) (E : ε → S → Prop) : Except ε α → S → Prop
  | .ok a,s => Q a s
  | .error e,s => E e s

variable (w : World C A)

/-- What has to hold before the program for `Q` to hold of its result and the state after it, and `E`
where it gives up -/
def wp (p : Attempt C A ε α) (Q : α → w.State → Prop) (E : ε → w.State → Prop) (s : w.State) : Prop :=
  w.wp p.run (Outcome Q E) s

variable {w} {Q : α → w.State → Prop} {E : ε → w.State → Prop} {s : w.State}

@[simp] theorem wp_pure (a : α) : wp w (pure a : Attempt C A ε α) Q E s ↔ Q a s := Iff.rfl

@[simp] theorem wp_throw (e : ε) : wp w (throw e : Attempt C A ε α) Q E s ↔ E e s := Iff.rfl

@[simp] theorem wp_put (c : C) {Q : A c → w.State → Prop} : wp w (put c : Attempt C A ε (A c)) Q E s ↔
    ∀ x, w.allowed s ⟨c,x⟩ → Q x (w.next s ⟨c,x⟩) := Iff.rfl

theorem wp_bind {p : Attempt C A ε α} {f : α → Attempt C A ε β} {Q : β → w.State → Prop} :
    wp w (p >>= f) Q E s ↔ wp w p (fun a s => wp w (f a) Q E s) E s := by
  have hrun : (p >>= f).run = p.run >>= fun r => match r with
    | .ok a => (f a).run
    | .error e => .ret (.error e) := rfl
  rw [wp,hrun,World.wp_bind,wp]
  constructor
  · refine fun h => w.wp_mono h fun r s hr => ?_
    cases r <;> exact hr
  · refine fun h => w.wp_mono h fun r s hr => ?_
    cases r <;> exact hr

theorem wp_mono {p : Attempt C A ε α} {R : α → w.State → Prop} (h : wp w p Q E s)
    (hQR : ∀ a s, Q a s → R a s) : wp w p R E s := by
  refine w.wp_mono h fun r s hr => ?_
  cases r with
  | ok a => exact hQR a s hr
  | error e => exact hr

/-- A program in sequence, by what its head brings about -/
theorem wp_step {p : Attempt C A ε α} {f : α → Attempt C A ε β} {R : β → w.State → Prop}
    (h : wp w p Q E s) (hf : ∀ a s, Q a s → wp w (f a) R E s) : wp w (p >>= f) R E s :=
  wp_bind.mpr (wp_mono h hf)

/-- A question in sequence -/
theorem wp_ask {c : C} {f : A c → Attempt C A ε β} {R : β → w.State → Prop}
    (h : ∀ x, w.allowed s ⟨c,x⟩ → wp w (f x) R E (w.next s ⟨c,x⟩)) : wp w (put c >>= f) R E s :=
  wp_bind.mpr h

end Attempt

end ZZ9K.Framework
