import Mathlib.Data.List.Basic

namespace ZZ9K.Framework

/-- A sequential program that asks its environment: it returns, or puts a question and goes on
with the answer. -/
inductive Ask (C : Type) (A : C → Type) (α : Type) : Type
  | ret (a : α)
  | ask (c : C) (k : A c → Ask C A α)

/-- A question with the answer it got -/
abbrev Answered (C : Type) (A : C → Type) := (c : C) × A c

/-- Which answers an environment gives in a state, and how it moves on with one -/
structure World (C : Type) (A : C → Type) where
  State : Type
  allowed : State → Answered C A → Prop
  next : State → Answered C A → State

namespace Ask

variable {C : Type} {A : C → Type} {α β : Type}

def bind : Ask C A α → (α → Ask C A β) → Ask C A β
  | ret a,f => f a
  | ask c k,f => ask c fun x => (k x).bind f

instance : Monad (Ask C A) where
  pure := ret
  bind := bind

/-- One question as a program -/
def one (c : C) : Ask C A (A c) := ask c ret

@[simp] theorem pure_eq (a : α) : (pure a : Ask C A α) = ret a := rfl

@[simp] theorem ret_bind (a : α) (f : α → Ask C A β) : (ret a >>= f) = f a := rfl

@[simp] theorem ask_bind (c : C) (k : A c → Ask C A α) (f : α → Ask C A β) :
    (ask c k >>= f) = ask c fun x => k x >>= f := rfl

@[simp] theorem one_bind (c : C) (f : A c → Ask C A β) : (one c >>= f) = ask c f := rfl

/-- The program returns `a` after these questions and answers. -/
inductive Runs : Ask C A α → List (Answered C A) → α → Prop
  | ret (a : α) : Runs (.ret a) [] a
  | ask {c : C} {k : A c → Ask C A α} {log : List (Answered C A)} {a : α} (x : A c)
      (h : Runs (k x) log a) : Runs (.ask c k) (⟨c,x⟩::log) a

theorem runs_ret {log : List (Answered C A)} {a b : α} :
    Runs (.ret a : Ask C A α) log b ↔ log = [] ∧ b = a := by
  constructor
  · rintro ⟨⟩
    exact ⟨rfl,rfl⟩
  · rintro ⟨rfl,rfl⟩
    exact .ret _

theorem runs_ask {c : C} {k : A c → Ask C A α} {log : List (Answered C A)} {a : α} :
    Runs (.ask c k) log a ↔ ∃ x rest, log = ⟨c,x⟩::rest ∧ Runs (k x) rest a := by
  constructor
  · rintro ⟨⟩
    exact ⟨_,_,rfl,‹_›⟩
  · rintro ⟨x,rest,rfl,h⟩
    exact .ask x h

/-- A program in sequence runs in sequence. -/
theorem runs_bind {p : Ask C A α} {f : α → Ask C A β} {log : List (Answered C A)} {b : β} :
    Runs (p >>= f) log b ↔ ∃ a log₁ log₂, Runs p log₁ a ∧ Runs (f a) log₂ b ∧
      log = log₁++log₂ := by
  induction p generalizing log with
  | ret a =>
    simp only [ret_bind,runs_ret]
    constructor
    · exact fun h => ⟨a,[],log,⟨rfl,rfl⟩,h,rfl⟩
    · rintro ⟨_,_,_,⟨rfl,rfl⟩,h,rfl⟩
      exact h
  | ask c k ih =>
    simp only [ask_bind,runs_ask,ih]
    constructor
    · rintro ⟨x,rest,rfl,a,log₁,log₂,hp,hf,rfl⟩
      exact ⟨a,_,log₂,⟨x,log₁,rfl,hp⟩,hf,rfl⟩
    · rintro ⟨a,_,log₂,⟨x,log₁,rfl,hp⟩,hf,rfl⟩
      exact ⟨x,_,rfl,a,log₁,log₂,hp,hf,rfl⟩

/-- Whether the program puts just these questions, and what it returns on their answers -/
def replay [DecidableEq C] : Ask C A α → List (Answered C A) → Option α
  | ret a,[] => some a
  | ask c k,⟨d,x⟩::log => if h : d = c then (k (h ▸ x)).replay log else none
  | _,_ => none

theorem runs_of_replay [DecidableEq C] {p : Ask C A α} {log : List (Answered C A)} {a : α}
    (h : p.replay log = some a) : Runs p log a := by
  induction p generalizing log with
  | ret b =>
    cases log with
    | nil => exact Option.some.inj h ▸ .ret b
    | cons e log => cases h
  | ask c k ih =>
    cases log with
    | nil => cases h
    | cons e log =>
      obtain ⟨d,x⟩ := e
      rw [replay] at h
      split_ifs at h with hd
      obtain rfl := hd
      exact .ask x (ih x h)

/-- Whatever the answers, the program puts only questions with `P`. -/
def All (P : C → Prop) : Ask C A α → Prop
  | ret _ => True
  | ask c k => P c ∧ ∀ x, (k x).All P

@[simp] theorem all_ret (P : C → Prop) (a : α) : (ret a : Ask C A α).All P := trivial

@[simp] theorem all_ask (P : C → Prop) (c : C) (k : A c → Ask C A α) :
    (ask c k).All P ↔ P c ∧ ∀ x, (k x).All P := Iff.rfl

theorem all_bind {P : C → Prop} {p : Ask C A α} {f : α → Ask C A β} (hp : p.All P)
    (hf : ∀ a, (f a).All P) : (p >>= f).All P := by
  induction p with
  | ret a => exact hf a
  | ask c k ih => exact ⟨hp.1,fun x => ih x (hp.2 x)⟩

theorem all_step {P : C → Prop} {c : C} {f : A c → Ask C A α} (hc : P c) (hf : ∀ x, (f x).All P) :
    (ask c ret >>= f).All P :=
  ⟨hc,hf⟩

theorem All.mono {P Q : C → Prop} {p : Ask C A α} (h : p.All P) (hPQ : ∀ c, P c → Q c) :
    p.All Q := by
  induction p with
  | ret a => trivial
  | ask c k ih => exact ⟨hPQ c h.1,fun x => ih x (h.2 x)⟩

/-- A program that puts its questions through another interface: `f` says as what, and `g` reads
the answers back. -/
def translate {D : Type} {B : D → Type} (f : C → D) (g : ∀ c, B (f c) → A c) :
    Ask C A α → Ask D B α
  | ret a => ret a
  | ask c k => ask (f c) fun x => (k (g c x)).translate f g

theorem all_translate {D : Type} {B : D → Type} (f : C → D) (g : ∀ c, B (f c) → A c)
    {P : D → Prop} (hP : ∀ c, P (f c)) (p : Ask C A α) : (p.translate f g).All P := by
  induction p with
  | ret a => trivial
  | ask c k ih => exact ⟨hP c,fun x => ih (g c x)⟩

/-- A loop: rounds of `body`, at most `fuel` of them, until one says what the loop ends with -/
def iterate {σ : Type} (body : σ → Ask C A (β ⊕ σ)) : Nat → σ → Ask C A (Option β)
  | 0,_ => ret none
  | fuel+1,s => body s >>= fun
      | .inl b => ret (some b)
      | .inr s => iterate body fuel s

theorem all_iterate {σ : Type} {P : C → Prop} {body : σ → Ask C A (β ⊕ σ)}
    (h : ∀ s, (body s).All P) (fuel : Nat) (s : σ) : (iterate body fuel s).All P := by
  induction fuel generalizing s with
  | zero => trivial
  | succ fuel ih =>
    rw [iterate]
    refine all_bind (h s) fun r => ?_
    cases r with
    | inl b => trivial
    | inr s' => exact ih s'

/-- All questions of a run are among those the program puts. -/
theorem All.log {P : C → Prop} {p : Ask C A α} {log : List (Answered C A)} {a : α} (h : p.All P)
    (hr : Runs p log a) : ∀ e ∈ log, P e.1 := by
  induction hr with
  | ret a => exact fun e he => nomatch he
  | ask x hr ih =>
    intro e he
    cases he with
    | head => exact h.1
    | tail _ he => exact ih (h.2 x) e he

end Ask

namespace World

variable {C : Type} {A : C → Type} {α β : Type} (w : World C A)

/-- The answers of a log are all allowed, each in the state it is given in. -/
def Allows : w.State → List (Answered C A) → Prop
  | _,[] => True
  | s,e::log => w.allowed s e ∧ Allows (w.next s e) log

/-- The state after a log -/
def after (s : w.State) (log : List (Answered C A)) : w.State := log.foldl w.next s

/-- What has to hold before the program for `Q` to hold of its result and the state after it -/
def wp : Ask C A α → (α → w.State → Prop) → w.State → Prop
  | .ret a,Q,s => Q a s
  | .ask c k,Q,s => ∀ x, w.allowed s ⟨c,x⟩ → wp (k x) Q (w.next s ⟨c,x⟩)

@[simp] theorem wp_ret (a : α) (Q : α → w.State → Prop) (s : w.State) :
    w.wp (.ret a : Ask C A α) Q s ↔ Q a s := Iff.rfl

@[simp] theorem wp_ask (c : C) (k : A c → Ask C A α) (Q : α → w.State → Prop) (s : w.State) :
    w.wp (.ask c k) Q s ↔ ∀ x, w.allowed s ⟨c,x⟩ → w.wp (k x) Q (w.next s ⟨c,x⟩) := Iff.rfl

theorem wp_bind {p : Ask C A α} {f : α → Ask C A β} {Q : β → w.State → Prop} {s : w.State} :
    w.wp (p >>= f) Q s ↔ w.wp p (fun a s => w.wp (f a) Q s) s := by
  induction p generalizing s with
  | ret a => rfl
  | ask c k ih =>
    constructor
    · exact fun h x hx => ih x |>.mp (h x hx)
    · exact fun h x hx => ih x |>.mpr (h x hx)

theorem wp_map {p : Ask C A α} {f : α → β} {Q : β → w.State → Prop} {s : w.State} :
    w.wp (f <$> p) Q s ↔ w.wp p (fun a s => Q (f a) s) s :=
  w.wp_bind

theorem wp_mono {p : Ask C A α} {Q R : α → w.State → Prop} {s : w.State} (h : w.wp p Q s)
    (hQR : ∀ a s, Q a s → R a s) : w.wp p R s := by
  induction p generalizing s with
  | ret a => exact hQR a s h
  | ask c k ih => exact fun x hx => ih x (h x hx)

theorem wp_always {p : Ask C A α} {Q : α → w.State → Prop} (h : ∀ a s, Q a s) (s : w.State) :
    w.wp p Q s := by
  induction p generalizing s with
  | ret a => exact h a s
  | ask c k ih => exact fun x _ => ih x _

theorem wp_and {p : Ask C A α} {Q R : α → w.State → Prop} {s : w.State} (hQ : w.wp p Q s)
    (hR : w.wp p R s) : w.wp p (fun a s => Q a s ∧ R a s) s := by
  induction p generalizing s with
  | ret a => exact ⟨hQ,hR⟩
  | ask c k ih => exact fun x hx => ih x (hQ x hx) (hR x hx)

/-- What every allowed answer preserves holds after every program. -/
theorem wp_invariant {I : w.State → Prop} {P : C → Prop} {p : Ask C A α}
    (hI : ∀ s c x, P c → I s → w.allowed s ⟨c,x⟩ → I (w.next s ⟨c,x⟩)) (hp : p.All P)
    {s : w.State} (hs : I s) : w.wp p (fun _ s => I s) s := by
  induction p generalizing s with
  | ret a => exact hs
  | ask c k ih => exact fun x hx => ih x (hp.2 x) (hI s c x hp.1 hs hx)

/-- The environment behind an interface that puts its questions as `f` says -/
abbrev comap {D : Type} (f : D → C) : World D fun d => A (f d) where
  State := w.State
  allowed s e := w.allowed s ⟨f e.1,e.2⟩
  next s e := w.next s ⟨f e.1,e.2⟩

theorem wp_translate {D : Type} (f : D → C) {p : Ask D (fun d => A (f d)) α}
    {Q : α → w.State → Prop} {s : w.State} :
    w.wp (p.translate f fun _ x => x) Q s ↔ (w.comap f).wp p Q s := by
  induction p generalizing s with
  | ret a => rfl
  | ask d k ih =>
    constructor
    · exact fun h x hx => (ih x).mp (h x hx)
    · exact fun h x hx => (ih x).mpr (h x hx)

section

variable {σ : Type} (I : σ → w.State → Prop) (Q : β → w.State → Prop) (μ : σ → Nat)

/-- What a round of a loop has to bring about: `Q` where the loop ends, and else the invariant `I`
again with less of `μ` left -/
def round (s : σ) : β ⊕ σ → w.State → Prop
  | .inl b,v => Q b v
  | .inr s',v => I s' v ∧ μ s' < μ s

/-- What a loop then brings about: `Q`, or `I` with all fuel spent -/
def looped (fuel : Nat) (s : σ) : Option β → w.State → Prop
  | some b,v => Q b v
  | none,v => fuel ≤ μ s ∧ ∃ s', I s' v

variable {I Q μ}

/-- A loop whose rounds keep `I` and lessen `μ` ends well, or has spent its fuel with `I` still
true; more fuel than `μ` is never spent. -/
theorem wp_iterate {body : σ → Ask C A (β ⊕ σ)}
    (h : ∀ s v, I s v → w.wp (body s) (w.round I Q μ s) v) (fuel : Nat) {s : σ} {v : w.State}
    (hs : I s v) : w.wp (Ask.iterate body fuel s) (w.looped I Q μ fuel s) v := by
  induction fuel generalizing s v with
  | zero => exact ⟨Nat.zero_le _,s,hs⟩
  | succ fuel ih =>
    rw [Ask.iterate,wp_bind]
    refine w.wp_mono (h s v hs) fun r v hr => ?_
    cases r with
    | inl b => exact hr
    | inr s' =>
      refine w.wp_mono (ih hr.1) fun r v hr' => ?_
      cases r with
      | some b => exact hr'
      | none =>
        have hlt := hr.2
        have hle := hr'.1
        exact ⟨by omega,hr'.2⟩

end

section

variable {σ : Type} (I : σ → w.State → Prop) (Q : β → w.State → Prop) (μ : σ → w.State → Nat)

/-- What a round of a loop has to bring about where the measure may depend on the environment: `Q`
where the loop ends, and else `I` again with less than `left` left -/
def lessened (left : Nat) : β ⊕ σ → w.State → Prop
  | .inl b,v => Q b v
  | .inr s,v => I s v ∧ μ s v < left

variable {I Q μ}

/-- A loop whose rounds keep `I` and lessen `μ` ends well with fuel for it. -/
theorem wp_iterate_total {body : σ → Ask C A (β ⊕ σ)}
    (h : ∀ s v, I s v → w.wp (body s) (w.lessened I Q μ (μ s v)) v) {fuel : Nat} {s : σ}
    {v : w.State} (hs : I s v) (hfuel : μ s v < fuel) :
    w.wp (Ask.iterate body fuel s) (fun r v => ∃ b, r = some b ∧ Q b v) v := by
  induction fuel generalizing s v with
  | zero => exact absurd hfuel (Nat.not_lt_zero _)
  | succ fuel ih =>
    rw [Ask.iterate,wp_bind]
    refine w.wp_mono (h s v hs) fun r v' hr => ?_
    cases r with
    | inl b => exact ⟨b,rfl,hr⟩
    | inr s' => exact ih hr.1 (Nat.lt_of_lt_of_le hr.2 (Nat.le_of_lt_succ hfuel))

end

/-- The precondition is sound for runs. -/
theorem wp_sound {p : Ask C A α} {Q : α → w.State → Prop} {s : w.State} {a : α}
    {log : List (Answered C A)} (h : w.wp p Q s) (hr : p.Runs log a) (ha : w.Allows s log) :
    Q a (w.after s log) := by
  induction hr generalizing s with
  | ret a => exact h
  | ask x hr ih => exact ih (h x ha.1) ha.2

/-- The program can return `a` and leave the environment in the state `t`. -/
def Reaches (p : Ask C A α) (s : w.State) (a : α) (t : w.State) : Prop :=
  ∃ log, p.Runs log a ∧ w.Allows s log ∧ w.after s log = t

theorem reaches_ret (a : α) (s : w.State) : w.Reaches (.ret a : Ask C A α) s a s :=
  ⟨[],.ret a,trivial,rfl⟩

variable {w} in
theorem reaches_ask {c : C} {k : A c → Ask C A α} {s t : w.State} {a : α} (x : A c)
    (hx : w.allowed s ⟨c,x⟩) (h : w.Reaches (k x) (w.next s ⟨c,x⟩) a t) :
    w.Reaches (.ask c k) s a t := by
  obtain ⟨log,hr,ha,ht⟩ := h
  exact ⟨⟨c,x⟩::log,.ask x hr,⟨hx,ha⟩,ht⟩

variable {w} in
theorem reaches_bind {p : Ask C A α} {f : α → Ask C A β} {s t u : w.State} {a : α} {b : β}
    (hp : w.Reaches p s a t) (hf : w.Reaches (f a) t b u) : w.Reaches (p >>= f) s b u := by
  obtain ⟨log,hr,ha,ht⟩ := hp
  induction hr generalizing s with
  | ret a =>
    cases ht
    exact hf
  | ask x hr ih => exact reaches_ask x ha.1 (ih hf ha.2 ht)

variable {w} in
/-- Two ways to go on from a head reach the same where they do after all the head can return. -/
theorem reaches_onward {p : Ask C A α} {f g : α → Ask C A β} {s t : w.State} {b : β}
    (h : w.wp p (fun a s => w.Reaches (f a) s b t → w.Reaches (g a) s b t) s)
    (hr : w.Reaches (p >>= f) s b t) : w.Reaches (p >>= g) s b t := by
  induction p generalizing s with
  | ret a => exact h hr
  | ask c k ih =>
    obtain ⟨log,hlog,ha,ht⟩ := hr
    obtain ⟨x,rest,rfl,hrest⟩ := Ask.runs_ask.mp hlog
    exact reaches_ask x ha.1 (ih x (h x ha.1) ⟨rest,hrest,ha.2,ht⟩)

variable {w} in
/-- Whatever the precondition promises, it promises of what the program can reach. -/
theorem wp_reaches {p : Ask C A α} {Q : α → w.State → Prop} {s t : w.State} {a : α}
    (h : w.wp p Q s) (hr : w.Reaches p s a t) : Q a t := by
  obtain ⟨log,hr,ha,rfl⟩ := hr
  exact w.wp_sound h hr ha

/-- The environment that may answer anything and keeps the log -/
abbrev logged (C : Type) (A : C → Type) : World C A where
  State := List (Answered C A)
  allowed _ _ := True
  next log e := log++[e]

theorem logged_allows (log₀ log : List (Answered C A)) : (logged C A).Allows log₀ log := by
  induction log generalizing log₀ with
  | nil => trivial
  | cons e log ih => exact ⟨trivial,ih _⟩

theorem logged_after (log₀ log : List (Answered C A)) :
    (logged C A).after log₀ log = log₀++log := by
  induction log generalizing log₀ with
  | nil => exact (List.append_nil _).symm
  | cons e log ih =>
    have hstep : (logged C A).after log₀ (e::log) = (logged C A).after (log₀++[e]) log := rfl
    rw [hstep,ih,List.append_assoc,List.singleton_append]

/-- What is shown of every log holds of every run. -/
theorem logged_sound {p : Ask C A α} {Q : α → List (Answered C A) → Prop} {a : α}
    {log : List (Answered C A)} (h : (logged C A).wp p Q []) (hr : p.Runs log a) : Q a log := by
  have := (logged C A).wp_sound h hr (logged_allows [] log)
  rwa [logged_after,List.nil_append] at this

end World

end ZZ9K.Framework
