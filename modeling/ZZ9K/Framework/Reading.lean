import ZZ9K.Framework.Ask

namespace ZZ9K.Framework

variable {β α σ γ : Type}

/-- A program that reads a buffer, one place at a time -/
abbrev Reading (β α : Type) := Ask Nat (fun _ => β) α

namespace Reading

/-- What the program returns on a buffer, if it never reads beside it -/
def onBuffer (data : List β) : Reading β α → Option α
  | .ret a => some a
  | .ask i k => match data[i]? with
    | none => none
    | some c => onBuffer data (k c)

variable (data : List β)

@[simp] theorem onBuffer_ret (a : α) : onBuffer data (.ret a : Reading β α) = some a := rfl

theorem onBuffer_ask {i : Nat} (h : i < data.length) (k : β → Reading β α) :
    onBuffer data (.ask i k) = onBuffer data (k data[i]) := by
  rw [onBuffer,List.getElem?_eq_getElem h]

theorem onBuffer_bind (p : Reading β α) (f : α → Reading β γ) :
    onBuffer data (p >>= f) = (onBuffer data p).bind fun a => onBuffer data (f a) := by
  induction p with
  | ret a => rfl
  | ask i k ih =>
    rw [Ask.ask_bind,onBuffer,onBuffer]
    cases data[i]? with
    | none => rfl
    | some c => exact ih c

theorem onBuffer_map (p : Reading β α) (f : α → γ) :
    onBuffer data (f <$> p) = (onBuffer data p).map f := by
  change onBuffer data (p >>= fun a => .ret (f a)) = _
  rw [onBuffer_bind]
  cases onBuffer data p <;> rfl

/-- A loop goes on from where its first round leaves it. -/
theorem onBuffer_iterate (body : σ → Reading β (γ ⊕ σ)) (fuel : Nat) (s : σ) :
    onBuffer data (Ask.iterate body (fuel+1) s) = (onBuffer data (body s)).bind fun
      | .inl c => some (some c)
      | .inr s => onBuffer data (Ask.iterate body fuel s) := by
  rw [Ask.iterate,onBuffer_bind]
  cases onBuffer data (body s) with
  | none => rfl
  | some r => cases r <;> rfl

/-- A loop over so many places from `offset` on: `decide` may end it before it reads a place, and
else says what to do with it, and `last` ends it. -/
def scan (decide : σ → γ ⊕ (β → γ ⊕ σ)) (last : σ → γ) : Nat → Nat → σ → Reading β γ
  | 0,_,s => .ret (last s)
  | n+1,offset,s =>
    match decide s with
    | .inl c => .ret c
    | .inr f => .ask offset fun b =>
      match f b with
      | .inl c => .ret c
      | .inr s => scan decide last n (offset+1) s

/-- The same loop over a list -/
def scanList (decide : σ → γ ⊕ (β → γ ⊕ σ)) (last : σ → γ) : List β → σ → γ
  | [],s => last s
  | b::bs,s =>
    match decide s with
    | .inl c => c
    | .inr f =>
      match f b with
      | .inl c => c
      | .inr s => scanList decide last bs s

/-- A loop over places of the buffer is the loop over their contents. -/
theorem onBuffer_scan (decide : σ → γ ⊕ (β → γ ⊕ σ)) (last : σ → γ) (n offset : Nat) (s : σ)
    (h : offset+n ≤ data.length) : onBuffer data (scan decide last n offset s) =
      some (scanList decide last ((data.drop offset).take n) s) := by
  induction n generalizing offset s with
  | zero =>
    rw [List.take_zero]
    rfl
  | succ n ih =>
    have hlt : offset < data.length := by omega
    rw [List.drop_eq_getElem_cons hlt,List.take_succ_cons,scan,scanList]
    cases decide s with
    | inl c => rfl
    | inr f =>
      dsimp only
      rw [onBuffer_ask data hlt]
      cases f data[offset] with
      | inl c => rfl
      | inr s => exact ih (offset+1) s (by omega)

/-- All of so many places -/
def readAll (n offset : Nat) : Reading β (List β) :=
  scan (fun s => .inr fun b => .inr (s++[b])) id n offset []

/-- The places up to the first that does not meet `p`, at most so many -/
def readWhile (p : β → Bool) (n offset : Nat) : Reading β (List β) :=
  scan (fun s => .inr fun b => if p b then .inr (s++[b]) else .inl s) id n offset []

theorem onBuffer_readAll {n offset : Nat} (h : offset+n ≤ data.length) :
    onBuffer data (readAll n offset) = some ((data.drop offset).take n) := by
  rw [readAll,onBuffer_scan _ _ _ _ _ _ h]
  generalize (data.drop offset).take n = bs
  have hgo : ∀ s : List β,scanList (fun s => .inr fun b => .inr (s++[b])) id bs s = s++bs := by
    induction bs with
    | nil => exact fun s => (List.append_nil s).symm
    | cons b bs ih =>
      intro s
      have hrest := ih (s++[b])
      rw [List.append_assoc,List.singleton_append] at hrest
      exact hrest
  rw [hgo,List.nil_append]

theorem onBuffer_readWhile (p : β → Bool) {n offset : Nat} (h : offset+n ≤ data.length) :
    onBuffer data (readWhile p n offset) =
      some (((data.drop offset).take n).takeWhile p) := by
  rw [readWhile,onBuffer_scan _ _ _ _ _ _ h]
  generalize (data.drop offset).take n = bs
  have hgo : ∀ s : List β,scanList (fun s => .inr fun b => if p b then .inr (s++[b]) else .inl s) id
      bs s = s++bs.takeWhile p := by
    induction bs with
    | nil => exact fun s => (List.append_nil s).symm
    | cons b bs ih =>
      intro s
      have hrest := ih (s++[b])
      rw [List.append_assoc,List.singleton_append] at hrest
      rw [scanList,List.takeWhile_cons]
      cases hp : p b with
      | true =>
        simp only [hp,if_true]
        exact hrest
      | false => simp only [hp,Bool.false_eq_true,if_false,List.append_nil]
  rw [hgo,List.nil_append]

/-- What the program returns on a memory whose every place has a content -/
def onMemory (memory : Nat → β) : Reading β α → α
  | .ret a => a
  | .ask i k => onMemory memory (k (memory i))

@[simp] theorem onMemory_ret (memory : Nat → β) (a : α) :
    onMemory memory (.ret a : Reading β α) = a := rfl

@[simp] theorem onMemory_ask (memory : Nat → β) (i : Nat) (k : β → Reading β α) :
    onMemory memory (.ask i k) = onMemory memory (k (memory i)) := rfl

@[simp] theorem onMemory_bind (memory : Nat → β) (p : Reading β α) (f : α → Reading β γ) :
    onMemory memory (p >>= f) = onMemory memory (f (onMemory memory p)) := by
  induction p with
  | ret a => rfl
  | ask i k ih => exact ih (memory i)

@[simp] theorem onMemory_map (memory : Nat → β) (p : Reading β α) (f : α → γ) :
    onMemory memory (f <$> p) = f (onMemory memory p) :=
  onMemory_bind memory p _

/-- What a program returns on a buffer it returns in a memory that the buffer is the front of. -/
theorem onMemory_of_onBuffer {memory : Nat → β} (hm : ∀ i (h : i < data.length),memory i = data[i])
    {p : Reading β α} {a : α} (hp : onBuffer data p = some a) : onMemory memory p = a := by
  induction p with
  | ret b => exact Option.some.inj hp
  | ask i k ih =>
    by_cases h : i < data.length
    · rw [onBuffer_ask data h] at hp
      rw [onMemory_ask,hm i h]
      exact ih _ hp
    · rw [onBuffer,List.getElem?_eq_none (Nat.le_of_not_lt h)] at hp
      cases hp

/-- What is read beside the buffer is not read. -/
theorem onBuffer_readAll_none {n offset : Nat} (hn : 0 < n) (h : data.length < offset+n) :
    onBuffer data (readAll n offset) = none := by
  have hgo : ∀ s : List β,
      onBuffer data (scan (fun s => .inr fun b => .inr (s++[b])) id n offset s) = none := by
    induction n generalizing offset with
    | zero => exact absurd hn (Nat.lt_irrefl 0)
    | succ n ih =>
      intro s
      by_cases hlt : offset < data.length
      · rw [scan]
        exact (onBuffer_ask data hlt _).trans (ih (by omega) (by omega) _)
      · rw [scan,onBuffer,List.getElem?_eq_none (Nat.le_of_not_lt hlt)]
  exact hgo []

theorem onMemory_readAll (memory : Nat → β) (n offset : Nat) :
    onMemory memory (readAll n offset) = (List.range' offset n).map memory := by
  have hgo : ∀ s : List β,
      onMemory memory (scan (fun s => .inr fun b => .inr (s++[b])) id n offset s)
        = s++(List.range' offset n).map memory := by
    induction n generalizing offset with
    | zero => exact fun s => (List.append_nil s).symm
    | succ n ih =>
      intro s
      rw [scan,List.range'_succ,List.map_cons,← List.singleton_append,← List.append_assoc]
      exact ih (offset+1) _
  exact hgo []

end Reading

end ZZ9K.Framework
