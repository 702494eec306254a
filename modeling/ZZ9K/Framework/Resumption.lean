import Mathlib.Logic.Relation
import Mathlib.Logic.Function.Basic

namespace ZZ9K.Framework

/-- A sequential program over shared state: it returns, or makes one atomic change and
continues with what it saw before that change. -/
inductive Res (σ α : Type) : Type
  | ret (a : α)
  | step (upd : σ → σ) (k : σ → Res σ α)

namespace Res

variable {σ α β γ : Type}

def bind : Res σ α → (α → Res σ β) → Res σ β
  | ret a, f => f a
  | step upd k, f => step upd fun s => (k s).bind f

instance : Monad (Res σ) where
  pure := ret
  bind := bind

/-- One indivisible access that reads and writes the state. -/
def atomic (f : σ → α × σ) : Res σ α := step (fun s => (f s).2) fun s => ret (f s).1

def load (f : σ → α) : Res σ α := step id fun s => ret (f s)

def store (f : σ → σ) : Res σ Unit := step f fun _ => ret ()

/-- The program run alone, with nobody touching the state in between. -/
def run : Res σ α → σ → α × σ
  | ret a, s => (a,s)
  | step upd k, s => (k s).run (upd s)

@[simp] theorem pure_eq (a : α) : (pure a : Res σ α) = ret a := rfl

@[simp] theorem ret_bind (a : α) (f : α → Res σ β) : (ret a >>= f) = f a := rfl

@[simp] theorem step_bind (upd : σ → σ) (k : σ → Res σ α) (f : α → Res σ β) :
    (step upd k >>= f) = step upd fun s => k s >>= f := rfl

theorem bind_assoc (p : Res σ α) (f : α → Res σ β) (g : β → Res σ γ) :
    (p >>= f) >>= g = p >>= fun a => f a >>= g := by
  induction p with
  | ret a => rfl
  | step upd k ih =>
    simp only [step_bind]
    exact congrArg _ (funext ih)

@[simp] theorem atomic_bind (g : σ → α × σ) (f : α → Res σ β) :
    (atomic g >>= f) = step (fun s => (g s).2) fun s => f (g s).1 := rfl

@[simp] theorem load_bind (g : σ → α) (f : α → Res σ β) :
    (load g >>= f) = step id fun s => f (g s) := rfl

@[simp] theorem store_bind (g : σ → σ) (f : Unit → Res σ β) :
    (store g >>= f) = step g fun _ => f () := rfl

@[simp] theorem run_ret (a : α) (s : σ) : (ret a : Res σ α).run s = (a,s) := rfl

@[simp] theorem run_step (upd : σ → σ) (k : σ → Res σ α) (s : σ) :
    (step upd k).run s = (k s).run (upd s) := rfl

theorem run_bind (p : Res σ α) (f : α → Res σ β) (s : σ) :
    (p >>= f).run s = (f (p.run s).1).run (p.run s).2 := by
  induction p generalizing s with
  | ret a => rfl
  | step upd k ih => exact ih s (upd s)

/-- What is left of the program, and the state, after `k` steps of it alone. -/
def advance : Nat → Res σ α → σ → Res σ α × σ
  | 0,p,s => (p,s)
  | _+1,ret a,s => (ret a,s)
  | k+1,step upd f,s => advance k (f s) (upd s)

def done : Res σ α → Bool
  | ret _ => true
  | step _ _ => false

/-- The program on one component of a larger state -/
def zoom {τ : Type} (get : τ → σ) (set : σ → τ → τ) : Res σ α → Res τ α
  | ret a => ret a
  | step upd k => step (fun t => set (upd (get t)) t) fun t => (k (get t)).zoom get set

theorem run_advance (k : Nat) (p : Res σ α) (s : σ) :
    (p.advance k s).1.run (p.advance k s).2 = p.run s := by
  induction k generalizing p s with
  | zero => rfl
  | succ k ih =>
    cases p with
    | ret a => rfl
    | step upd f => exact ih (f s) (upd s)

/-- The first `k` steps of the program run alone meet `C`. -/
def Along (C : σ → σ → Prop) : Nat → Res σ α → σ → Prop
  | 0,_,_ => True
  | _+1,ret _,_ => True
  | k+1,step upd f,s => C s (upd s) ∧ Along C k (f s) (upd s)

instance decidableAlong (C : σ → σ → Prop) [∀ s t, Decidable (C s t)] :
    (k : Nat) → (p : Res σ α) → (s : σ) → Decidable (Along C k p s)
  | 0,_,_ => .isTrue trivial
  | _+1,ret _,_ => .isTrue trivial
  | k+1,step upd f,s =>
      have := decidableAlong C k (f s) (upd s)
      inferInstanceAs (Decidable (C s (upd s) ∧ Along C k (f s) (upd s)))

theorem Along.mono {C C' : σ → σ → Prop} (hC : ∀ s t, C s t → C' s t) {k : Nat} {p : Res σ α}
    {s : σ} (h : Along C k p s) : Along C' k p s := by
  induction k generalizing p s with
  | zero => trivial
  | succ k ih =>
    cases p with
    | ret a => trivial
    | step upd f => exact ⟨hC _ _ h.1,ih h.2⟩

theorem along_true (k : Nat) (p : Res σ α) (s : σ) : Along (fun _ _ => True) k p s := by
  induction k generalizing p s with
  | zero => trivial
  | succ k ih =>
    cases p with
    | ret a => trivial
    | step upd f => exact ⟨trivial,ih (f s) (upd s)⟩

end Res

/-- Several programs over one state; a party that has returned is idle. -/
structure Config (ι σ : Type) where
  prog : ι → Res σ Unit
  state : σ

/-- The operations each party may begin, the changes the surroundings may make on their own,
and the parties that may stop dead in the middle of an operation. -/
structure System (ι σ : Type) where
  ops : ι → Res σ Unit → Prop
  env : σ → σ → Prop
  halts : ι → Prop

section

variable {ι σ α β : Type}

def Config.set [DecidableEq ι] (c : Config ι σ) (i : ι) (p : Res σ Unit) (s : σ) : Config ι σ :=
  ⟨Function.update c.prog i p,s⟩

inductive Step [DecidableEq ι] (S : System ι σ) : Config ι σ → Config ι σ → Prop
  | start (c : Config ι σ) (i : ι) (p : Res σ Unit) (hi : c.prog i = .ret ())
      (hp : S.ops i p) : Step S c (c.set i p c.state)
  | move (c : Config ι σ) (i : ι) (upd : σ → σ) (k : σ → Res σ Unit)
      (hi : c.prog i = .step upd k) : Step S c (c.set i (k c.state) (upd c.state))
  | env (c : Config ι σ) (s : σ) (hs : S.env c.state s) : Step S c ⟨c.prog,s⟩
  | halt (c : Config ι σ) (i : ι) (hi : S.halts i) : Step S c (c.set i (.ret ()) c.state)

/-- Runs whose every step keeps to the condition `C` on the states around it. -/
def Reach [DecidableEq ι] (S : System ι σ) (C : σ → σ → Prop) : Config ι σ → Config ι σ → Prop :=
  Relation.ReflTransGen fun c d => Step S c d ∧ C c.state d.state

/-- What a proof about interleavings promises: an invariant, what holds whenever a party is
idle, what each party's steps guarantee to the others, and the condition the steps of the
considered runs meet. -/
structure Discipline (ι σ : Type) where
  inv : σ → Prop
  rest : ι → σ → Prop := fun _ _ => True
  guar : ι → σ → σ → Prop
  cond : σ → σ → Prop

variable (S : System ι σ) (D : Discipline ι σ)

/-- No step of anyone but `i` falsifies `P`. -/
def Stable (i : ι) (P : σ → Prop) : Prop :=
  ∀ s t, D.inv s → D.inv t → D.cond s t → (S.env s t ∨ ∃ j, j ≠ i ∧ D.guar j s t) → P s → P t

/-- Every step of the program, taken from a state that satisfies the invariant and the
assertion reached so far, keeps the invariant, meets the guarantee of `i` and establishes the
next assertion, which the others cannot falsify. -/
def Sat (i : ι) : Res σ α → (σ → Prop) → (α → σ → Prop) → Prop
  | .ret a, P, Q => ∀ s, D.inv s → P s → Q a s
  | .step upd k, P, Q => ∀ s, D.inv s → P s → D.cond s (upd s) →
      D.inv (upd s) ∧ D.guar i s (upd s) ∧
        ∃ P', Stable S D i P' ∧ P' (upd s) ∧ Sat i (k s) P' Q

theorem stable_true (i : ι) : Stable S D i fun _ => True := fun _ _ _ _ _ _ _ => trivial

theorem stable_const (i : ι) (p : Prop) : Stable S D i fun _ => p := fun _ _ _ _ _ _ h => h

theorem Stable.and {S : System ι σ} {D : Discipline ι σ} {i : ι} {P Q : σ → Prop}
    (hP : Stable S D i P) (hQ : Stable S D i Q) : Stable S D i fun s => P s ∧ Q s :=
  fun s t hs ht hc hr h => ⟨hP s t hs ht hc hr h.1,hQ s t hs ht hc hr h.2⟩

variable {S D}

theorem Sat.conseq {i : ι} {p : Res σ α} {P P' : σ → Prop} {Q Q' : α → σ → Prop}
    (h : Sat S D i p P Q) (hP : ∀ s, D.inv s → P' s → P s)
    (hQ : ∀ a s, D.inv s → Q a s → Q' a s) : Sat S D i p P' Q' := by
  induction p generalizing P P' with
  | ret a => exact fun s hs hp => hQ a s hs (h s hs (hP s hs hp))
  | step upd k ih =>
    intro s hs hp hc
    obtain ⟨hi,hg,A,hst,hA,hk⟩ := h s hs (hP s hs hp) hc
    exact ⟨hi,hg,A,hst,hA,ih s hk (fun _ _ h => h)⟩

theorem Sat.pre {i : ι} {p : Res σ α} {P P' : σ → Prop} {Q : α → σ → Prop}
    (h : Sat S D i p P Q) (hP : ∀ s, D.inv s → P' s → P s) : Sat S D i p P' Q :=
  h.conseq hP fun _ _ _ hq => hq

theorem Sat.bind {i : ι} {p : Res σ α} {f : α → Res σ β} {P : σ → Prop}
    {Q : α → σ → Prop} {R : β → σ → Prop} (hp : Sat S D i p P Q)
    (hf : ∀ a, Sat S D i (f a) (Q a) R) : Sat S D i (p >>= f) P R := by
  induction p generalizing P with
  | ret a => exact (hf a).pre fun s hs h => hp s hs h
  | step upd k ih =>
    intro s hs h hc
    obtain ⟨hi,hg,A,hst,hA,hk⟩ := hp s hs h hc
    exact ⟨hi,hg,A,hst,hA,ih s hk⟩

/-- What holds of some value may be assumed of a fixed one. -/
theorem Sat.exists {ν : Type} {i : ι} {p : Res σ α} {P : ν → σ → Prop} {Q : α → σ → Prop}
    (h : ∀ x, Sat S D i p (P x) Q) : Sat S D i p (fun s => ∃ x, P x s) Q := by
  cases p with
  | ret a => exact fun s hs ⟨x,hx⟩ => h x s hs hx
  | step upd k => exact fun s hs ⟨x,hx⟩ hc => h x s hs hx hc

/-- What is known of the values alone may be used in the proof. -/
theorem Sat.assume {i : ι} {c : Prop} {p : Res σ α} {P : σ → Prop} {Q : α → σ → Prop}
    (h : c → Sat S D i p P Q) : Sat S D i p (fun s => c ∧ P s) Q := by
  cases p with
  | ret a => exact fun s hs ⟨hc,hp⟩ => h hc s hs hp
  | step upd k => exact fun s hs ⟨hc,hp⟩ hd => h hc s hs hp hd

theorem Sat.ite {i : ι} {c : Prop} [Decidable c] {p q : Res σ α} {P : σ → Prop}
    {Q : α → σ → Prop} (hp : c → Sat S D i p P Q) (hq : ¬c → Sat S D i q P Q) :
    Sat S D i (if c then p else q) P Q := by
  by_cases h : c
  · rw [if_pos h]
    exact hp h
  · rw [if_neg h]
    exact hq h

theorem Sat.atomic {i : ι} {f : σ → α × σ} {P : σ → Prop} {Q : α → σ → Prop}
    (h : ∀ s, D.inv s → P s → D.cond s (f s).2 →
      D.inv (f s).2 ∧ D.guar i s (f s).2 ∧ Q (f s).1 (f s).2)
    (hQ : ∀ a, Stable S D i (Q a)) : Sat S D i (Res.atomic f) P Q := by
  intro s hs hP hc
  obtain ⟨hi,hg,hq⟩ := h s hs hP hc
  exact ⟨hi,hg,Q (f s).1,hQ _,hq,fun _ _ h => h⟩

theorem Sat.store {i : ι} {f : σ → σ} {P Q : σ → Prop}
    (h : ∀ s, D.inv s → P s → D.cond s (f s) → D.inv (f s) ∧ D.guar i s (f s) ∧ Q (f s))
    (hQ : Stable S D i Q) : Sat S D i (Res.store f) P fun _ => Q :=
  Sat.atomic (f := fun s => ((),f s)) h fun _ => hQ

theorem Sat.load {i : ι} {f : σ → α} {P : σ → Prop} {Q : α → σ → Prop}
    (h : ∀ s, D.inv s → P s → D.guar i s s ∧ Q (f s) s)
    (hQ : ∀ a, Stable S D i (Q a)) : Sat S D i (Res.load f) P Q :=
  Sat.atomic (f := fun s => (f s,s)) (fun s hs hP _ => ⟨hs,h s hs hP⟩) hQ

/-- A program on a component on which nothing else depends leaves everything else as it is. -/
theorem Sat.zoom {τ : Type} {S : System ι τ} {D : Discipline ι τ} {i : ι} (p : Res σ α)
    {get : τ → σ} {set : σ → τ → τ} {P : τ → Prop} (hinv : ∀ x t, D.inv t → D.inv (set x t))
    (hguar : ∀ x t, D.guar i t (set x t)) (hstable : Stable S D i P)
    (hP : ∀ x t, P t → P (set x t)) : Sat S D i (p.zoom get set) P fun _ => P := by
  induction p with
  | ret a => exact fun _ _ h => h
  | step upd k ih =>
    intro t ht h _
    exact ⟨hinv _ t ht,hguar _ t,P,hstable,hP _ t h,ih (get t)⟩

/-- A step after which nothing about the state needs to be remembered. -/
theorem Sat.forget {i : ι} {upd : σ → σ} {k : σ → Res σ α} {P : σ → Prop}
    {Q : α → σ → Prop}
    (h : ∀ s, D.inv s → P s → D.cond s (upd s) → D.inv (upd s) ∧ D.guar i s (upd s))
    (hk : ∀ s, Sat S D i (k s) (fun _ => True) Q) : Sat S D i (.step upd k) P Q := by
  intro s hs hp hc
  obtain ⟨hi,hg⟩ := h s hs hp hc
  exact ⟨hi,hg,fun _ => True,stable_true S D i,trivial,hk s⟩

/-- What a proof under a discipline has to supply: every operation is verified from rest to
rest, nobody disturbs a party at rest, and the surroundings keep the invariant. -/
structure Sound (S : System ι σ) (D : Discipline ι σ) : Prop where
  ops : ∀ i p, S.ops i p → Sat S D i p (D.rest i) fun _ => D.rest i
  rest : ∀ i, Stable S D i (D.rest i)
  halts : ∀ i s, S.halts i → D.inv s → D.rest i s
  env : ∀ s t, D.inv s → S.env s t → D.cond s t → D.inv t

/-- Where a configuration of a disciplined run stands: the invariant holds, and what is left
of every party's program is verified from an assertion that holds now. -/
def Verified (S : System ι σ) (D : Discipline ι σ) (c : Config ι σ) : Prop :=
  D.inv c.state ∧ ∀ i, ∃ P, Stable S D i P ∧ P c.state ∧
    Sat S D i (c.prog i) P fun _ => D.rest i

theorem verified_idle (hS : Sound S D) {c : Config ι σ} (hc : ∀ i, c.prog i = .ret ())
    (hi : D.inv c.state) (hr : ∀ i, D.rest i c.state) : Verified S D c := by
  refine ⟨hi,fun i => ⟨D.rest i,hS.rest i,hr i,?_⟩⟩
  rw [hc i]
  exact fun _ _ h => h

theorem Verified.rest {c : Config ι σ} (hv : Verified S D c) {i : ι}
    (hi : c.prog i = .ret ()) : D.rest i c.state := by
  obtain ⟨P,_,hP,hsat⟩ := hv.2 i
  rw [hi] at hsat
  exact hsat c.state hv.1 hP

variable [DecidableEq ι]

private theorem verified_set {c : Config ι σ} (hv : Verified S D c) (i : ι)
    (p : Res σ Unit) (s : σ) (hi : D.inv s)
    (hp : ∃ P, Stable S D i P ∧ P s ∧ Sat S D i p P fun _ => D.rest i)
    (hrest : ∀ j, j ≠ i → ∀ P, Stable S D j P → P c.state → P s) :
    Verified S D (c.set i p s) := by
  refine ⟨hi,fun j => ?_⟩
  by_cases hj : j = i
  · subst j
    simpa [Config.set] using hp
  · obtain ⟨P,hst,hP,hsat⟩ := hv.2 j
    exact ⟨P,hst,hrest j hj P hst hP,by simpa [Config.set,hj] using hsat⟩

/-- One step of a disciplined run, by any party or by the surroundings. -/
theorem verified_step (hS : Sound S D) {c d : Config ι σ} (hv : Verified S D c)
    (hs : Step S c d) (hc : D.cond c.state d.state) :
    Verified S D d ∧ ((∃ i, D.guar i c.state d.state) ∨ S.env c.state d.state ∨
      d.state = c.state) := by
  cases hs with
  | start i p hi hp =>
    exact ⟨verified_set hv i p c.state hv.1 ⟨D.rest i,hS.rest i,hv.rest hi,hS.ops i p hp⟩
      (fun _ _ _ _ h => h),Or.inr (Or.inr rfl)⟩
  | move i upd k hi =>
    obtain ⟨P,_,hP,hsat⟩ := hv.2 i
    rw [hi] at hsat
    obtain ⟨hinv,hg,P',hst',hP',hk⟩ := hsat c.state hv.1 hP hc
    refine ⟨verified_set hv i _ _ hinv ⟨P',hst',hP',hk⟩ ?_,Or.inl ⟨i,hg⟩⟩
    intro j hj A hA hAc
    exact hA c.state (upd c.state) hv.1 hinv hc (Or.inr ⟨i,Ne.symm hj,hg⟩) hAc
  | env s he =>
    have hinv := hS.env c.state s hv.1 he hc
    refine ⟨⟨hinv,fun i => ?_⟩,Or.inr (Or.inl he)⟩
    obtain ⟨P,hst,hP,hsat⟩ := hv.2 i
    exact ⟨P,hst,hst c.state s hv.1 hinv hc (Or.inl he) hP,hsat⟩
  | halt i hi =>
    exact ⟨verified_set hv i _ c.state hv.1
      ⟨D.rest i,hS.rest i,hS.halts i c.state hi hv.1,fun _ _ h => h⟩
      (fun _ _ _ _ h => h),Or.inr (Or.inr rfl)⟩

/-- Every configuration of a disciplined run satisfies the invariant. -/
theorem verified_reach (hS : Sound S D) {c d : Config ι σ} (hv : Verified S D c)
    (hr : Reach S D.cond c d) : Verified S D d := by
  induction hr with
  | refl => exact hv
  | tail _ hs ih => exact (verified_step hS ih hs.1 hs.2).1

/-- A party that nobody interrupts takes `k` steps. -/
theorem reach_advance {S : System ι σ} {C : σ → σ → Prop} (i : ι) (k : Nat) {c : Config ι σ}
    (h : (c.prog i).Along C k c.state) :
    Reach S C c (c.set i ((c.prog i).advance k c.state).1 ((c.prog i).advance k c.state).2) := by
  obtain ⟨f,s⟩ := c
  simp only [Config.set] at h ⊢
  generalize hp : f i = p at h ⊢
  induction k generalizing f s p with
  | zero =>
    simp only [Res.advance,← hp,Function.update_eq_self]
    exact .refl
  | succ k ih =>
    cases p with
    | ret a =>
      simp only [Res.advance,← hp,Function.update_eq_self]
      exact .refl
    | step upd g =>
      refine .head ⟨.move _ i upd g hp,h.1⟩ ?_
      have hrest := ih (Function.update f i (g s)) (upd s) (g s) (by simp) h.2
      simpa [Reach,Config.set,Res.advance] using hrest

/-- A party that nobody interrupts finishes within `k` steps. -/
theorem reach_finish {S : System ι σ} {C : σ → σ → Prop} (i : ι) (k : Nat) {c : Config ι σ}
    (h : (c.prog i).Along C k c.state) (hd : ((c.prog i).advance k c.state).1.done = true) :
    Reach S C c (c.set i (.ret ()) ((c.prog i).run c.state).2) := by
  have hrun := reach_advance (S := S) i k h
  rw [← Res.run_advance k]
  cases hp : ((c.prog i).advance k c.state).1 with
  | ret a => rwa [hp] at hrun
  | step upd f => simp [hp,Res.done] at hd

private theorem reach_solo_prog (S : System ι σ) (i : ι) (p : Res σ Unit) (f : ι → Res σ Unit)
    (s : σ) : Reach S (fun _ _ => True) ⟨Function.update f i p,s⟩
      ⟨Function.update f i (.ret ()),(p.run s).2⟩ := by
  induction p generalizing s with
  | ret a => exact .refl
  | step upd k ih =>
    refine .head ⟨.move _ i upd k (by simp),trivial⟩ ?_
    simp only [Config.set,Function.update_idem]
    exact ih s (upd s)

/-- An operation that nobody interrupts takes the state where running it alone does. -/
theorem reach_solo {S : System ι σ} {c : Config ι σ} (i : ι) {p : Res σ Unit}
    (hi : c.prog i = .ret ()) (hp : S.ops i p) :
    Reach S (fun _ _ => True) c ⟨c.prog,(p.run c.state).2⟩ := by
  have hend : Function.update c.prog i (.ret ()) = c.prog := by
    rw [← hi,Function.update_eq_self]
  have h := reach_solo_prog S i p c.prog c.state
  rw [hend] at h
  exact .head ⟨.start c i p hi hp,trivial⟩ h

theorem reach_along {S : System ι σ} {C : σ → σ → Prop} {c : Config ι σ} (i : ι) (k : Nat)
    {p : Res σ Unit} (hi : c.prog i = .ret ()) (hp : S.ops i p) (h0 : C c.state c.state)
    (h : p.Along C k c.state) (hd : (p.advance k c.state).1.done = true) :
    Reach S C c ⟨c.prog,(p.run c.state).2⟩ := by
  have hend : Function.update c.prog i (.ret ()) = c.prog := by
    rw [← hi,Function.update_eq_self]
  have hrun := reach_finish (S := S) (C := C) i k (c := c.set i p c.state)
    (by simpa [Config.set] using h) (by simpa [Config.set] using hd)
  simp only [Config.set,Function.update_self,Function.update_idem,hend] at hrun
  exact .head ⟨.start c i p hi hp,h0⟩ hrun

/-- What the steps of a disciplined run keep holds in all its configurations. -/
theorem reach_invariant (hS : Sound S D) {I : σ → Prop} {c d : Config ι σ}
    (hguar : ∀ i s t, D.inv s → D.guar i s t → D.cond s t → I s → I t)
    (henv : ∀ s t, D.inv s → S.env s t → D.cond s t → I s → I t)
    (hv : Verified S D c) (hI : I c.state) (hr : Reach S D.cond c d) : I d.state := by
  induction hr with
  | refl => exact hI
  | tail hr hs ih =>
    have hv' := verified_reach hS hv hr
    rcases (verified_step hS hv' hs.1 hs.2).2 with ⟨i,hg⟩ | he | heq
    · exact hguar i _ _ hv'.1 hg hs.2 ih
    · exact henv _ _ hv'.1 he hs.2 ih
    · rw [heq]
      exact ih

end

end ZZ9K.Framework
