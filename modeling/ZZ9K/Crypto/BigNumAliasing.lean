import ZZ9K.Crypto.BigNumMemory

namespace ZZ9K.Crypto

open ZZ9K.Framework ZZ9K.Math

/-- The limbs `i`, …, `i+n-1` of an array -/
def limbsFrom (mem : BnMemory) (p : BnPtr) (i n : Nat) : Bn :=
  (List.range' i n).map fun k => mem (p.place k)

section

variable {mem mem' : BnMemory} {p q : BnPtr}

theorem place_injective (p : BnPtr) : Function.Injective p.place := by
  intro i j h
  simpa [BnPtr.place] using h

theorem place_ne {i j : Nat} (h : p.array ≠ q.array) : p.place i ≠ q.place j :=
  fun heq => h (congrArg Prod.fst heq)

theorem bnAt_eq (mem : BnMemory) (p : BnPtr) (n : Nat) : bnAt mem p n = limbsFrom mem p 0 n := by
  rw [bnAt,limbsFrom,List.range_eq_range']

@[simp] theorem bnAt_length (mem : BnMemory) (p : BnPtr) (n : Nat) : (bnAt mem p n).length = n := by
  simp [bnAt]

@[simp] theorem limbsFrom_zero (i : Nat) : limbsFrom mem p i 0 = [] := rfl

@[simp] theorem limbsFrom_succ (i n : Nat) :
    limbsFrom mem p i (n+1) = mem (p.place i)::limbsFrom mem p (i+1) n := by
  simp [limbsFrom,List.range'_succ]

theorem limbsFrom_congr {i n : Nat}
    (h : ∀ k, i ≤ k → k < i+n → mem' (p.place k) = mem (p.place k)) :
    limbsFrom mem' p i n = limbsFrom mem p i n := by
  rw [limbsFrom,limbsFrom,List.map_inj_left]
  intro k hk
  have hrange := List.mem_range'_1.mp hk
  exact h k hrange.1 hrange.2

theorem bnAt_congr {n : Nat} (h : ∀ k, k < n → mem' (p.place k) = mem (p.place k)) :
    bnAt mem' p n = bnAt mem p n := by
  rw [bnAt_eq,bnAt_eq]
  exact limbsFrom_congr fun k _ hk => h k (by omega)

theorem limbsFrom_append (i n m : Nat) :
    limbsFrom mem p i n++limbsFrom mem p (i+n) m = limbsFrom mem p i (n+m) := by
  rw [limbsFrom,limbsFrom,limbsFrom,← List.map_append,List.range'_append_1]

end

/-- Nothing changes but places with `P`. -/
def Touches (P : BnPlace → Prop) (mem mem' : BnMemory) : Prop := ∀ x, ¬ P x → mem' x = mem x

/-- A place among the first `n` from a pointer on -/
def InRange (p : BnPtr) (n : Nat) (x : BnPlace) : Prop := ∃ i, i < n ∧ x = p.place i

section

variable {mem mem' mem'' : BnMemory} {P Q : BnPlace → Prop}

theorem Touches.trans (h : Touches P mem mem') (h' : Touches P mem' mem'') : Touches P mem mem'' :=
  fun x hx => (h' x hx).trans (h x hx)

theorem Touches.mono (h : Touches P mem mem') (hPQ : ∀ x, P x → Q x) : Touches Q mem mem' :=
  fun x hx => h x fun hP => hx (hPQ x hP)

theorem touches_update {x : BnPlace} (hx : P x) (v : UInt32) :
    Touches P mem (Function.update mem x v) := by
  intro y hy
  have hne : y ≠ x := fun heq => hy (heq ▸ hx)
  exact Function.update_of_ne hne v mem

theorem Touches.bnAt_eq (h : Touches P mem mem') {p : BnPtr} {n : Nat}
    (hp : ∀ i, i < n → ¬ P (p.place i)) : bnAt mem' p n = bnAt mem p n :=
  bnAt_congr fun i hi => h _ (hp i hi)

theorem not_inRange {p q : BnPtr} (h : p.array ≠ q.array) (n i : Nat) :
    ¬ InRange p n (q.place i) := by
  rintro ⟨j,-,heq⟩
  exact h (congrArg Prod.fst heq).symm

end

section

variable {mem : BnMemory} {σ : Type} {value : Nat → BnMemory → σ → UInt32}
  {carry : Nat → BnMemory → σ → σ}

/-- A loop over the first limbs of an array changes nothing else. -/
theorem sweep_touches (r : BnPtr) (n : Nat) (s : σ) :
    Touches (InRange r n) mem (sweep r.place value carry 0 n mem s).1 := by
  intro x hx
  apply sweep_other
  intro k _ hk heq
  exact hx ⟨k,by omega,heq⟩

/-- A loop that reads nothing it has stored before -/
theorem bnAt_sweep {r : BnPtr} {n : Nat} {s : σ}
    (h : Undisturbed r.place value carry 0 n mem) :
    bnAt (sweep r.place value carry 0 n mem s).1 r n = swept value carry mem 0 n s ∧
      (sweep r.place value carry 0 n mem s).2 = carried carry mem 0 n s := by
  rw [bnAt_eq]
  exact sweep_eq h (place_injective r) s

end

section

variable (mem : BnMemory)

theorem bnCopyAt_touches (r a : BnPtr) (n : Nat) :
    Touches (InRange r n) mem (bnCopyAt mem r a n) :=
  sweep_touches r n ()

theorem bnCopyAt_value {r a : BnPtr} (h : r.array ≠ a.array) (n : Nat) :
    bnAt (bnCopyAt mem r a n) r n = bnAt mem a n := by
  have hread : Undisturbed r.place (fun i mem (_ : Unit) => mem (a.place i)) (fun _ _ s => s) 0 n
      mem := by
    intro k mem' _ _ hsame s
    exact ⟨hsame _ fun j _ _ => (place_ne h).symm,rfl⟩
  rw [bnCopyAt,(bnAt_sweep hread).1,swept_map fun i mem => mem (a.place i),bnAt_eq,limbsFrom]

theorem bnClearAt_touches (r : BnPtr) (n : Nat) : Touches (InRange r n) mem (bnClearAt mem r n) :=
  sweep_touches r n ()

theorem bnClearAt_value (r : BnPtr) (n : Nat) :
    bnAt (bnClearAt mem r n) r n = List.replicate n 0 := by
  rw [bnClearAt,(bnAt_sweep fun _ _ _ _ _ _ => ⟨rfl,rfl⟩).1,swept_map fun _ _ => 0,
    List.map_const',List.length_range']

theorem bnExtendAt_touches (mm m : BnPtr) (n : Nat) :
    Touches (InRange mm (n+1)) mem (bnExtendAt mem mm m n) :=
  sweep_touches mm (n+1) ()

theorem bnExtendAt_value {mm m : BnPtr} (h : mm.array ≠ m.array) (n : Nat) :
    bnAt (bnExtendAt mem mm m n) mm (n+1) = bnAt mem m n++[0] := by
  have hread : Undisturbed mm.place (fun i mem (_ : Unit) => if i < n then mem (m.place i) else 0)
      (fun _ _ s => s) 0 (n+1) mem := by
    intro k mem' _ _ hsame s
    dsimp only
    rw [hsame _ fun j _ _ => (place_ne h).symm]
    exact ⟨rfl,rfl⟩
  have hlimbs : (List.range n).map (fun i => if i < n then mem (m.place i) else 0) = bnAt mem m n := by
    rw [bnAt,List.map_inj_left]
    exact fun i hi => if_pos (List.mem_range.mp hi)
  rw [bnExtendAt,(bnAt_sweep hread).1,swept_map fun i mem => if i < n then mem (m.place i) else 0,
    ← List.range_eq_range',List.range_succ,List.map_append,hlimbs,List.map_singleton,
    if_neg (Nat.lt_irrefl n)]

theorem bnSubAt_touches (r a b : BnPtr) (len : Nat) :
    Touches (InRange r len) mem (bnSubAt mem r a b len) :=
  sweep_touches r len 0

theorem swept_sub (a b : BnPtr) (i n : Nat) (borrow : UInt32) :
    swept (fun i mem borrow => ((mem (a.place i)).toUInt64-(mem (b.place i)).toUInt64-
        UInt32.toUInt64 borrow).toUInt32)
      (fun i mem borrow => ((((mem (a.place i)).toUInt64-(mem (b.place i)).toUInt64-
        UInt32.toUInt64 borrow) >>> 32) &&& 1).toUInt32) mem i n borrow =
      (bnSub (limbsFrom mem a i n) (limbsFrom mem b i n) borrow).1 := by
  induction n generalizing i borrow with
  | zero => rfl
  | succ n ih =>
    rw [swept,ih,limbsFrom_succ,limbsFrom_succ,bnSub]

/-- The result of `bn_sub` may be its first operand. -/
theorem bnSubAt_value {r b : BnPtr} (h : r.array ≠ b.array) (len : Nat) :
    bnAt (bnSubAt mem r r b len) r len = (bnSub (bnAt mem r len) (bnAt mem b len) 0).1 := by
  have hread : Undisturbed r.place
      (fun i mem borrow => ((mem (r.place i)).toUInt64-(mem (b.place i)).toUInt64-
        UInt32.toUInt64 borrow).toUInt32)
      (fun i mem borrow => ((((mem (r.place i)).toUInt64-(mem (b.place i)).toUInt64-
        UInt32.toUInt64 borrow) >>> 32) &&& 1).toUInt32) 0 len mem := by
    intro k mem' _ _ hsame s
    have hr : mem' (r.place k) = mem (r.place k) := by
      apply hsame
      intro j _ hjk heq
      have := place_injective r heq
      omega
    dsimp only
    rw [hr,hsame (b.place k) fun j _ _ => (place_ne h).symm]
    exact ⟨rfl,rfl⟩
  rw [bnSubAt,(bnAt_sweep hread).1,bnAt_eq,bnAt_eq]
  exact swept_sub mem r b 0 len 0

theorem bnShlAt_touches (p : BnPtr) (n : Nat) : Touches (InRange p n) mem (bnShlAt mem p n).1 :=
  sweep_touches p n 0

theorem swept_shl (p : BnPtr) (i n : Nat) (carry : UInt32) (hc : carry.toNat ≤ 1) :
    swept (fun k (mem : BnMemory) (carry : UInt32) => (mem (p.place k) <<< 1) ||| carry)
        (fun k mem _ => mem (p.place k) >>> 31) mem i n carry =
      bnShl (limbsFrom mem p i n) carry ∧
    2*bnNat (limbsFrom mem p i n)+carry.toNat = bnNat (bnShl (limbsFrom mem p i n) carry)+2^(32*n)*
      (carried (fun k (mem : BnMemory) (_ : UInt32) => mem (p.place k) >>> 31) mem i n carry).toNat := by
  induction n generalizing i carry with
  | zero => simp [swept,carried,bnShl]
  | succ n ih =>
    obtain ⟨hlow,hhigh⟩ := shlLimb (mem (p.place i)) carry hc
    have hlimb := (mem (p.place i)).toNat_lt
    obtain ⟨hlist,hvalue⟩ := ih (i+1) (mem (p.place i) >>> 31) (by omega)
    rw [swept,carried,limbsFrom_succ,bnShl,hlist]
    refine ⟨rfl,?_⟩
    have hpow : 2^(32*(n+1)) = 2^32*2^(32*n) := by
      rw [Nat.mul_succ,Nat.add_comm,pow_add]
    rw [bnNat_cons,bnNat_cons,hpow,Nat.mul_assoc,hlow]
    rw [hhigh] at hvalue
    have hsplit := Nat.mod_add_div (2*(mem (p.place i)).toNat+carry.toNat) (2^32)
    omega

/-- The shift, and the bit that it loses -/
theorem bnShlAt_value (p : BnPtr) (n : Nat) :
    bnAt (bnShlAt mem p n).1 p n = bnShl (bnAt mem p n) 0 ∧
      2*bnNat (bnAt mem p n) = bnNat (bnShl (bnAt mem p n) 0)+2^(32*n)*(bnShlAt mem p n).2.toNat := by
  have hread : Undisturbed p.place
      (fun k (mem : BnMemory) (carry : UInt32) => (mem (p.place k) <<< 1) ||| carry)
      (fun k mem _ => mem (p.place k) >>> 31) 0 n mem := by
    intro k mem' _ _ hsame s
    have hp : mem' (p.place k) = mem (p.place k) := by
      apply hsame
      intro j _ hjk heq
      have := place_injective p heq
      omega
    dsimp only
    rw [hp]
    exact ⟨rfl,rfl⟩
  obtain ⟨hlimbs,hcarry⟩ := bnAt_sweep (s := 0) hread
  obtain ⟨hlist,hvalue⟩ := swept_shl mem p 0 n 0 (Nat.zero_le 1)
  rw [bnShlAt,hlimbs,hcarry,bnAt_eq,hlist]
  exact ⟨rfl,hvalue⟩

/-- The inner loop of `bn_mul`: the limb behind the row takes the last carry. -/
theorem swept_mulRow (r a b : BnPtr) (x j n : Nat) (carry : UInt64) (z : UInt32) (rest : Bn) :
    bnMulRow (mem (a.place x)) (limbsFrom mem b j n) (limbsFrom mem r (x+j) n++z::rest) carry =
      swept (fun j (mem : BnMemory) carry => (carry+((mem (a.place x)).toUInt64*
          (mem (b.place j)).toUInt64+(mem (r.place (x+j))).toUInt64)).toUInt32)
        (fun j mem carry => (carry+((mem (a.place x)).toUInt64*
          (mem (b.place j)).toUInt64+(mem (r.place (x+j))).toUInt64)) >>> 32) mem j n carry++
      (carried (fun j (mem : BnMemory) carry => (carry+((mem (a.place x)).toUInt64*
          (mem (b.place j)).toUInt64+(mem (r.place (x+j))).toUInt64)) >>> 32) mem j n
            carry).toUInt32::rest := by
  induction n generalizing j carry with
  | zero => rfl
  | succ n ih =>
    rw [limbsFrom_succ,limbsFrom_succ,List.cons_append,bnMulRow,swept,carried,List.cons_append]
    exact congrArg _ (ih (j+1) _)

/-- Nothing that the factors are in is in the product. -/
def Apart (r : BnPtr) (n : Nat) (a : BnPtr) (m : Nat) : Prop :=
  ∀ i j, i < n → j < m → r.place i ≠ a.place j

theorem bnMulRowAt_other (r a b : BnPtr) (len i : Nat) {x : BnPlace}
    (hx : ∀ k, i ≤ k → k < i+len → x ≠ r.place k) :
    (bnMulRowAt mem r a b len i).1 x = mem x := by
  apply sweep_other
  intro k _ hk
  exact hx (i+k) (by omega) (by omega)

theorem bnMulRowAt_value {r a b : BnPtr} {len i n : Nat} (ha : Apart r (2*len) a len)
    (hb : Apart r (2*len) b len) (hi : i+(n+1) = len) :
    bnMulRow (mem (a.place i)) (limbsFrom mem b 0 len) (limbsFrom mem r i (n+1+len)) 0 =
      limbsFrom (Function.update (bnMulRowAt mem r a b len i).1 (r.place (i+len))
        (bnMulRowAt mem r a b len i).2.toUInt32) r i (n+1+len) := by
  have hread : Undisturbed (fun j => r.place (i+j))
      (fun j (mem : BnMemory) carry => (carry+((mem (a.place i)).toUInt64*
        (mem (b.place j)).toUInt64+(mem (r.place (i+j))).toUInt64)).toUInt32)
      (fun j mem carry => (carry+((mem (a.place i)).toUInt64*
        (mem (b.place j)).toUInt64+(mem (r.place (i+j))).toUInt64)) >>> 32) 0 len mem := by
    intro k mem' _ hk hsame s
    have hra : mem' (a.place i) = mem (a.place i) :=
      hsame _ fun j _ hjk => (ha (i+j) i (by omega) (by omega)).symm
    have hrb : mem' (b.place k) = mem (b.place k) :=
      hsame _ fun j _ hjk => (hb (i+j) k (by omega) (by omega)).symm
    have hrr : mem' (r.place (i+k)) = mem (r.place (i+k)) := by
      apply hsame
      intro j _ hjk heq
      have := place_injective r heq
      omega
    dsimp only
    rw [hra,hrb,hrr]
    exact ⟨rfl,rfl⟩
  have hplace : Function.Injective fun j => r.place (i+j) := by
    intro j k heq
    have := place_injective r heq
    omega
  obtain ⟨hrow,hcarry⟩ := sweep_eq hread hplace 0
  have hlimbs : limbsFrom (bnMulRowAt mem r a b len i).1 r i len =
      (List.range' 0 len).map fun k => (bnMulRowAt mem r a b len i).1 (r.place (i+k)) := by
    rw [limbsFrom,List.range'_eq_map_range,← List.range_eq_range',List.map_map]
    rfl
  have hsplit : ∀ mem : BnMemory, limbsFrom mem r i (n+1+len) =
      limbsFrom mem r i len++mem (r.place (i+len))::limbsFrom mem r (i+len+1) n := by
    intro mem
    rw [← limbsFrom_succ,limbsFrom_append,Nat.add_comm len]
  have hlow : limbsFrom (Function.update (bnMulRowAt mem r a b len i).1 (r.place (i+len))
      (bnMulRowAt mem r a b len i).2.toUInt32) r i len =
        limbsFrom (bnMulRowAt mem r a b len i).1 r i len := by
    apply limbsFrom_congr
    intro k _ hk
    exact Function.update_of_ne (fun heq => by have := place_injective r heq; omega) _ _
  have hhigh : limbsFrom (Function.update (bnMulRowAt mem r a b len i).1 (r.place (i+len))
      (bnMulRowAt mem r a b len i).2.toUInt32) r (i+len+1) n = limbsFrom mem r (i+len+1) n := by
    apply limbsFrom_congr
    intro k hk _
    rw [Function.update_of_ne fun heq => by have := place_injective r heq; omega]
    apply bnMulRowAt_other
    intro j _ hj heq
    have := place_injective r heq
    omega
  have hvalues := swept_mulRow mem r a b i 0 len 0 (mem (r.place (i+len)))
    (limbsFrom mem r (i+len+1) n)
  rw [Nat.add_zero] at hvalues
  rw [hsplit,hsplit,hlow,hhigh,Function.update_self,hvalues,hlimbs,bnMulRowAt,hrow,hcarry]

theorem bnMulLoopAt_succ (r a b : BnPtr) (len i n : Nat) :
    bnMulLoopAt r a b len i (n+1) mem = bnMulLoopAt r a b len (i+1) n
      (Function.update (bnMulRowAt mem r a b len i).1 (r.place (i+len))
        (bnMulRowAt mem r a b len i).2.toUInt32) := rfl

theorem bnMulLoopAt_other (r a b : BnPtr) (len i n : Nat) {x : BnPlace}
    (hx : ∀ k, i ≤ k → k < i+n+len → x ≠ r.place k) : bnMulLoopAt r a b len i n mem x = mem x := by
  induction n generalizing i mem with
  | zero => rfl
  | succ n ih =>
    rw [bnMulLoopAt_succ,ih _ _ fun k hik hk => hx k (by omega) (by omega),
      Function.update_of_ne (hx (i+len) (by omega) (by omega))]
    exact bnMulRowAt_other mem r a b len i fun k hik hk => hx k hik (by omega)

theorem bnMulLoopAt_value {r a b : BnPtr} {len i n : Nat} (ha : Apart r (2*len) a len)
    (hb : Apart r (2*len) b len) (hi : i+n = len) :
    limbsFrom (bnMulLoopAt r a b len i n mem) r i (n+len) =
      bnMulLoop (limbsFrom mem a i n) (limbsFrom mem b 0 len) (limbsFrom mem r i (n+len)) := by
  induction n generalizing i mem with
  | zero => rfl
  | succ n ih =>
    -- One round changes neither factor.
    have hrest : ∀ (p : BnPtr) (j m : Nat), Apart r (2*len) p len → j+m ≤ len →
        limbsFrom (Function.update (bnMulRowAt mem r a b len i).1 (r.place (i+len))
          (bnMulRowAt mem r a b len i).2.toUInt32) p j m = limbsFrom mem p j m := by
      intro p j m hp hjm
      apply limbsFrom_congr
      intro k hjk hk
      rw [Function.update_of_ne (hp (i+len) k (by omega) (by omega)).symm]
      exact bnMulRowAt_other mem r a b len i fun l _ hl => (hp l k (by omega) (by omega)).symm
    have hfirst : bnMulLoopAt r a b len (i+1) n
        (Function.update (bnMulRowAt mem r a b len i).1 (r.place (i+len))
          (bnMulRowAt mem r a b len i).2.toUInt32) (r.place i) =
        Function.update (bnMulRowAt mem r a b len i).1 (r.place (i+len))
          (bnMulRowAt mem r a b len i).2.toUInt32 (r.place i) := by
      apply bnMulLoopAt_other
      intro k hik _ heq
      have := place_injective r heq
      omega
    have hsucc : n+1+len = n+len+1 := by omega
    rw [show limbsFrom mem a i (n+1) = _ from limbsFrom_succ i n,bnMulLoop,bnMulRowAt_value mem ha hb hi,
      bnMulLoopAt_succ,hsucc,limbsFrom_succ,limbsFrom_succ,ih _ (by omega),
      hrest a _ _ ha (by omega),hrest b _ _ hb (by omega),hfirst]

theorem bnMulAt_touches (r a b : BnPtr) (len : Nat) :
    Touches (InRange r (2*len)) mem (bnMulAt mem r a b len) := by
  intro x hx
  rw [bnMulAt,bnMulLoopAt_other _ _ _ _ _ _ _ fun k _ hk heq => hx ⟨k,by omega,heq⟩]
  exact bnClearAt_touches mem r (2*len) x hx

/-- `bn_mul`, where the product overlaps neither factor -/
theorem bnMulAt_value {r a b : BnPtr} {len : Nat} (ha : Apart r (2*len) a len)
    (hb : Apart r (2*len) b len) :
    bnAt (bnMulAt mem r a b len) r (2*len) = bnMul (bnAt mem a len) (bnAt mem b len) := by
  have hclear := bnClearAt_touches mem r (2*len)
  have hclean : ∀ p, Apart r (2*len) p len →
      bnAt (bnClearAt mem r (2*len)) p len = bnAt mem p len := by
    intro p hp
    apply hclear.bnAt_eq
    rintro j hj ⟨i,hi,heq⟩
    exact hp i j hi hj heq.symm
  have hloop := bnMulLoopAt_value (bnClearAt mem r (2*len)) ha hb (Nat.zero_add len)
  rw [← two_mul,← bnAt_eq,← bnAt_eq,← bnAt_eq,← bnAt_eq,bnClearAt_value,hclean a ha,
    hclean b hb] at hloop
  rw [bnMulAt,hloop,bnMul,bnAt_length,bnAt_length,two_mul]

end

end ZZ9K.Crypto
