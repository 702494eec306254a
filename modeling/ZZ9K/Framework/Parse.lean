import ZZ9K.Framework.Reading

namespace ZZ9K.Framework

/-- How a parser ends that does not succeed: it fails, or a loop of it has run out of fuel. -/
inductive ParseStop
  | failed
  | starved
  deriving DecidableEq

/-- A parser over a buffer, with a cursor -/
def Parse (β α : Type) : Type := Nat → Reading β (Except ParseStop α × Nat)

namespace Parse

variable {β α γ σ : Type}

def ret (a : α) : Parse β α := fun pos => .ret (.ok a,pos)

def bind (p : Parse β α) (f : α → Parse β γ) : Parse β γ := fun pos =>
  p pos >>= fun
    | (.ok a,pos) => f a pos
    | (.error e,pos) => .ret (.error e,pos)

instance : Monad (Parse β) where
  pure := ret
  bind := bind

def fail : Parse β α := fun pos => .ret (.error .failed,pos)

/-- Where the cursor is -/
def position : Parse β Nat := fun pos => .ret (.ok pos,pos)

/-- What is at a place of the buffer, wherever the cursor is -/
def peek (i : Nat) : Parse β β := fun pos => .ask i fun b => .ret (.ok b,pos)

def advance (n : Nat) : Parse β Unit := fun pos => .ret (.ok (),pos+n)

/-- A loop: rounds of `body`, at most `fuel` of them, until one says what the loop ends with -/
def loop (body : σ → Parse β (γ ⊕ σ)) : Nat → σ → Parse β γ
  | 0,_ => fun pos => .ret (.error .starved,pos)
  | fuel+1,s => body s >>= fun
      | .inl c => ret c
      | .inr s => loop body fuel s

section

variable (data : List β)

/-- From a place of the buffer the parser reads only what is in it, leaves the cursor in it and not
before where it was, and either fails or meets `Q`. -/
def Meets (p : Parse β α) (Q : α → Nat → Prop) (pos : Nat) : Prop :=
  ∃ r pos', Reading.onBuffer data (p pos) = some (r,pos') ∧ pos ≤ pos' ∧ pos' ≤ data.length ∧
    match r with
    | .ok a => Q a pos'
    | .error e => e = .failed

/-- On the buffer the parser succeeds, with `a` and the cursor at `pos'`. -/
def Yields (p : Parse β α) (pos : Nat) (a : α) (pos' : Nat) : Prop :=
  Reading.onBuffer data (p pos) = some (.ok a,pos')

end

section

variable {data : List β} {p : Parse β α} {f : α → Parse β γ} {Q : α → Nat → Prop}
  {R : γ → Nat → Prop} {pos : Nat}

theorem meets_ret {a : α} (hpos : pos ≤ data.length) (h : Q a pos) : (ret a).Meets data Q pos :=
  ⟨.ok a,pos,rfl,Nat.le_refl _,hpos,h⟩

theorem meets_pure {a : α} (hpos : pos ≤ data.length) (h : Q a pos) :
    (pure a : Parse β α).Meets data Q pos := meets_ret hpos h

theorem meets_fail (hpos : pos ≤ data.length) : (fail : Parse β α).Meets data Q pos :=
  ⟨.error .failed,pos,rfl,Nat.le_refl _,hpos,rfl⟩

theorem meets_position {Q : Nat → Nat → Prop} (hpos : pos ≤ data.length) (h : Q pos pos) :
    (position : Parse β Nat).Meets data Q pos :=
  ⟨.ok pos,pos,rfl,Nat.le_refl _,hpos,h⟩

theorem meets_peek {Q : β → Nat → Prop} {i : Nat} (hpos : pos ≤ data.length) (hi : i < data.length)
    (h : Q data[i] pos) : (peek i).Meets data Q pos := by
  refine ⟨.ok data[i],pos,?_,Nat.le_refl _,hpos,h⟩
  exact Reading.onBuffer_ask data hi _

theorem meets_advance {Q : Unit → Nat → Prop} {n : Nat} (hpos : pos+n ≤ data.length)
    (h : Q () (pos+n)) : (advance n).Meets data Q pos :=
  ⟨.ok (),pos+n,rfl,Nat.le_add_right _ _,hpos,h⟩

theorem onBuffer_bind (p : Parse β α) (f : α → Parse β γ) (pos : Nat) :
    Reading.onBuffer data ((p >>= f) pos) = (Reading.onBuffer data (p pos)).bind fun
      | (.ok a,pos) => Reading.onBuffer data (f a pos)
      | (.error e,pos) => some (.error e,pos) := by
  show Reading.onBuffer data (bind p f pos) = _
  rw [bind,Reading.onBuffer_bind]
  congr 1
  funext r
  rcases r with ⟨e | a,pos⟩ <;> rfl

theorem meets_bind (h : p.Meets data (fun a pos => (f a).Meets data R pos) pos) :
    (p >>= f).Meets data R pos := by
  obtain ⟨r,pos',hr,hle,hlen,hq⟩ := h
  unfold Meets
  rw [onBuffer_bind,hr]
  cases r with
  | error e => exact ⟨.error e,pos',rfl,hle,hlen,hq⟩
  | ok a =>
    obtain ⟨r',pos'',hr',hle',hlen',hq'⟩ := hq
    exact ⟨r',pos'',hr',Nat.le_trans hle hle',hlen',hq'⟩

theorem Meets.mono {R : α → Nat → Prop} (h : p.Meets data Q pos)
    (hQR : ∀ a pos',pos ≤ pos' → pos' ≤ data.length → Q a pos' → R a pos') :
    p.Meets data R pos := by
  obtain ⟨r,pos',hr,hle,hlen,hq⟩ := h
  refine ⟨r,pos',hr,hle,hlen,?_⟩
  cases r with
  | error e => exact hq
  | ok a => exact hQR a pos' hle hlen hq

/-- A loop ends if each of its rounds that goes on moves the cursor. -/
theorem meets_loop {body : σ → Parse β (γ ⊕ σ)} {I : σ → Nat → Prop}
    (hround : ∀ s pos,I s pos → (body s).Meets data
      (fun r pos' => match r with
        | .inl c => R c pos'
        | .inr s => I s pos' ∧ pos < pos') pos)
    {fuel : Nat} (hfuel : data.length-pos < fuel) {s : σ} (h : I s pos) :
    (loop body fuel s).Meets data R pos := by
  induction fuel generalizing s pos with
  | zero => omega
  | succ fuel ih =>
    refine meets_bind ((hround s pos h).mono ?_)
    intro r pos' hle hlen hr
    cases r with
    | inl c => exact meets_ret hlen hr
    | inr s =>
      obtain ⟨hs,hlt⟩ := hr
      exact ih (by omega) hs

theorem Meets.yields (h : p.Meets data Q pos) {a : α} {pos' : Nat}
    (hy : p.Yields data pos a pos') : Q a pos' ∧ pos ≤ pos' ∧ pos' ≤ data.length := by
  obtain ⟨r,pos'',hr,hle,hlen,hq⟩ := h
  unfold Yields at hy
  rw [hr] at hy
  cases hy
  exact ⟨hq,hle,hlen⟩

/-- Where it is known what the first part does, the second part decides. -/
theorem Yields.bind_iff {a : α} {pos' : Nat} (h : p.Yields data pos a pos') {c : γ} {pos'' : Nat} :
    (p >>= f).Yields data pos c pos'' ↔ (f a).Yields data pos' c pos'' := by
  unfold Yields at *
  rw [onBuffer_bind,h,Option.bind_some]

theorem Yields.iff_eq {a : α} {pos' : Nat} (h : p.Yields data pos a pos') {b : α} {pos'' : Nat} :
    p.Yields data pos b pos'' ↔ b = a ∧ pos'' = pos' := by
  unfold Yields at *
  rw [h]
  constructor
  · intro he
    cases he
    exact ⟨rfl,rfl⟩
  · rintro ⟨rfl,rfl⟩
    rfl

theorem Yields.bind {a : α} {pos' : Nat} (h : p.Yields data pos a pos') {c : γ} {pos'' : Nat}
    (hf : (f a).Yields data pos' c pos'') : (p >>= f).Yields data pos c pos'' := h.bind_iff.mpr hf

theorem Yields.meets_bind {a : α} {pos' : Nat} (h : p.Yields data pos a pos') (hle : pos ≤ pos')
    (hf : (f a).Meets data R pos') : (p >>= f).Meets data R pos := by
  obtain ⟨r,pos'',hr,hle',hlen,hq⟩ := hf
  unfold Meets
  rw [onBuffer_bind,h]
  exact ⟨r,pos'',hr,Nat.le_trans hle hle',hlen,hq⟩

theorem yields_position : (position : Parse β Nat).Yields data pos pos pos := rfl

theorem yields_peek {i : Nat} {b : β} (h : data[i]? = some b) : (peek i).Yields data pos b pos := by
  obtain ⟨hi,rfl⟩ := List.getElem?_eq_some_iff.mp h
  exact Reading.onBuffer_ask data hi _

theorem yields_advance {n : Nat} : (advance n : Parse β Unit).Yields data pos () (pos+n) := rfl

theorem yields_pure {a b : α} {pos' : Nat} :
    (pure a : Parse β α).Yields data pos b pos' ↔ b = a ∧ pos' = pos :=
  Yields.iff_eq (p := pure a) rfl

theorem not_yields_fail {a : α} {pos' : Nat} : ¬ (fail : Parse β α).Yields data pos a pos' := nofun

theorem yields_bind {c : γ} {pos'' : Nat} : (p >>= f).Yields data pos c pos'' ↔
    ∃ a pos',p.Yields data pos a pos' ∧ (f a).Yields data pos' c pos'' := by
  unfold Yields
  rw [onBuffer_bind]
  constructor
  · intro h
    cases hp : Reading.onBuffer data (p pos) with
    | none =>
      rw [hp] at h
      cases h
    | some r =>
      rw [hp] at h
      rcases r with ⟨e | a,pos'⟩
      · cases h
      · exact ⟨a,pos',rfl,h⟩
  · rintro ⟨a,pos',hp,hf⟩
    rw [hp]
    exact hf

/-- A loop ends with the round that ends it. -/
theorem Yields.loop_inl_iff {body : σ → Parse β (γ ⊕ σ)} {s : σ} {c : γ} {pos' : Nat}
    (h : (body s).Yields data pos (.inl c) pos') {fuel : Nat} {d : γ} {pos'' : Nat} :
    (loop body (fuel+1) s).Yields data pos d pos'' ↔ d = c ∧ pos'' = pos' := by
  rw [loop,h.bind_iff]
  exact yields_pure

/-- A loop goes on from where a round leaves it. -/
theorem Yields.loop_inr_iff {body : σ → Parse β (γ ⊕ σ)} {s s' : σ} {pos' : Nat}
    (h : (body s).Yields data pos (.inr s') pos') {fuel : Nat} {c : γ} {pos'' : Nat} :
    (loop body (fuel+1) s).Yields data pos c pos'' ↔ (loop body fuel s').Yields data pos' c pos'' := by
  rw [loop,h.bind_iff]

end

end Parse

end ZZ9K.Framework
