import ZZ9K.Crypto.BigNumAliasing

namespace ZZ9K.Crypto

open ZZ9K.Framework ZZ9K.Math

section Division

variable (mem : BnMemory)

/-- The bit goes in the lowest limb. -/
theorem bnAt_orLow (p : BnPtr) (n : Nat) (bit : UInt32) :
    bnAt (Function.update mem (p.place 0) (mem (p.place 0) ||| bit)) p (n+1) =
      bnOrLow (bnAt mem p (n+1)) bit := by
  have hrest : limbsFrom (Function.update mem (p.place 0) (mem (p.place 0) ||| bit)) p (0+1) n =
      limbsFrom mem p (0+1) n := by
    apply limbsFrom_congr
    intro k hk _
    exact Function.update_of_ne (fun heq => by have := place_injective p heq; omega) _ _
  rw [bnAt_eq,bnAt_eq,limbsFrom_succ,limbsFrom_succ,bnOrLow,hrest,Function.update_self]

/-- `acc` of `bn_mod`, shifted, with the next bit in it -/
def modShifted (n : Nat) (bit : UInt32) : BnMemory :=
  Function.update (bnShlAt mem modAcc (n+1)).1 (modAcc.place 0)
    ((bnShlAt mem modAcc (n+1)).1 (modAcc.place 0) ||| bit)

theorem bnModStepAt_eq (bit : Bool) (n : Nat) :
    bnModStepAt mem bit n =
      (if bnCmp (bnAt (modShifted mem n (if bit then 1 else 0)) modAcc (n+1))
          (bnAt (modShifted mem n (if bit then 1 else 0)) modModulus (n+1)) ≠ .lt then
        bnSubAt (modShifted mem n (if bit then 1 else 0)) modAcc modAcc modModulus (n+1)
      else modShifted mem n (if bit then 1 else 0),decide ((bnShlAt mem modAcc (n+1)).2 ≠ 0)) := rfl

theorem modShifted_touches (n : Nat) (bit : UInt32) :
    Touches (InRange modAcc (n+1)) mem (modShifted mem n bit) := by
  have hfirst : InRange modAcc (n+1) (modAcc.place 0) := ⟨0,Nat.succ_pos n,rfl⟩
  exact (bnShlAt_touches mem modAcc (n+1)).trans (touches_update hfirst _)

theorem modShifted_value (n : Nat) (bit : UInt32) :
    bnAt (modShifted mem n bit) modAcc (n+1) = bnOrLow (bnShl (bnAt mem modAcc (n+1)) 0) bit := by
  rw [modShifted,bnAt_orLow,(bnShlAt_value mem modAcc (n+1)).1]

theorem bnModStepAt_touches (bit : Bool) (n : Nat) :
    Touches (InRange modAcc (n+1)) mem (bnModStepAt mem bit n).1 := by
  have hshift := modShifted_touches mem n (if bit then 1 else 0)
  rw [bnModStepAt_eq]
  generalize modShifted mem n (if bit then 1 else 0) = shifted at *
  dsimp only
  split_ifs with hcmp
  · exact hshift.trans (bnSubAt_touches shifted modAcc modAcc modModulus (n+1))
  · exact hshift

/-- In a round of `bn_mod` the accumulator is below the modulus first: no bit leaves its highest
limb. -/
theorem bnModStepAt_value {m : Bn} (bit : Bool) (hmm : bnAt mem modModulus (m.length+1) = m++[0])
    (hacc : bnNat (bnAt mem modAcc (m.length+1)) < bnNat m) :
    bnAt (bnModStepAt mem bit m.length).1 modAcc (m.length+1) =
      bnModStep (m++[0]) bit (bnAt mem modAcc (m.length+1)) ∧
    (bnModStepAt mem bit m.length).2 = false := by
  have hvalue := (bnShlAt_value mem modAcc (m.length+1)).2
  have hcarry : (bnShlAt mem modAcc (m.length+1)).2 = 0 := by
    by_contra hne
    have hpos : 0 < (bnShlAt mem modAcc (m.length+1)).2.toNat :=
      Nat.pos_of_ne_zero fun h => hne (UInt32.toNat_inj.mp h)
    have hm := bnNat_lt m
    have hpow : 2^(32*(m.length+1)) = 2^(32*m.length)*2^32 := by rw [Nat.mul_succ,pow_add]
    have hle := Nat.le_mul_of_pos_right (2^(32*(m.length+1))) hpos
    omega
  rw [bnModStepAt_eq,bnModStep,hcarry]
  generalize (if bit then 1 else 0 : UInt32) = low
  have hmod : bnAt (modShifted mem m.length low) modModulus (m.length+1) = m++[0] :=
    ((modShifted_touches mem m.length low).bnAt_eq fun k _ =>
      not_inRange (by decide) _ k).trans hmm
  rw [modShifted_value,hmod]
  refine ⟨?_,rfl⟩
  split_ifs with hcmp
  · rw [bnSubAt_value _ (by decide),modShifted_value,hmod]
  · exact modShifted_value mem m.length low

theorem bnModLoopAt_touches (x : BnPtr) (xlen n i : Nat) :
    Touches (InRange modAcc (n+1)) mem (bnModLoopAt x xlen n i mem).1 := by
  induction i generalizing mem with
  | zero => exact fun _ _ => rfl
  | succ i ih => exact (bnModStepAt_touches mem _ n).trans (ih _)

/-- The accumulator is the remainder of the bits seen so far. -/
theorem bnModLoopAt_value {m X : Bn} {x : BnPtr} (hm : 0 < bnNat m) (hx : x.array ≠ .acc) {i : Nat}
    (hX : bnAt mem x X.length = X) (hmm : bnAt mem modModulus (m.length+1) = m++[0])
    (hacc : bnNat (bnAt mem modAcc (m.length+1)) = bnNat X/2^i%bnNat m) :
    bnAt (bnModLoopAt x X.length m.length i mem).1 modAcc (m.length+1) =
      scanBits (bnBit X) (bnModStep (m++[0])) i (bnAt mem modAcc (m.length+1)) ∧
    (bnModLoopAt x X.length m.length i mem).2 = false := by
  induction i generalizing mem with
  | zero => exact ⟨rfl,rfl⟩
  | succ i ih =>
    obtain ⟨hstep,hover⟩ := bnModStepAt_value mem (bnBit X i) hmm (hacc ▸ Nat.mod_lt _ hm)
    have htouch := bnModStepAt_touches mem (bnBit X i) m.length
    have hX' : bnAt (bnModStepAt mem (bnBit X i) m.length).1 x X.length = X :=
      (htouch.bnAt_eq fun k _ => not_inRange (Ne.symm hx) _ k).trans hX
    have hmm' : bnAt (bnModStepAt mem (bnBit X i) m.length).1 modModulus (m.length+1) = m++[0] :=
      (htouch.bnAt_eq fun k _ => not_inRange (by decide) _ k).trans hmm
    have hnext : bnNat X/2^i = 2*(bnNat X/2^(i+1))+(bnBit X i).toNat := by
      have hdiv : bnNat X/2^(i+1) = bnNat X/2^i/2 := by rw [Nat.pow_succ,Nat.div_div_eq_div_mul]
      have htest : ((bnNat X).testBit i).toNat = bnNat X/2^i%2 := Nat.toNat_testBit (bnNat X) i
      rw [bnBit_testBit,hdiv,htest]
      omega
    have hvalue := (bnModStep_value hm (bnBit X i) (bnAt_length _ _ _) hacc).2
    rw [← hnext,← hstep] at hvalue
    obtain ⟨hrest,hlater⟩ := ih _ hX' hmm' hvalue
    simp only [bnModLoopAt,hX,hover,hlater,hrest,hstep,scanBits,Bool.or_self,and_self]

/-- The places that `bn_mod` changes besides the result -/
def ModLocal (n : Nat) (x : BnPlace) : Prop := InRange modAcc (n+1) x ∨ InRange modModulus (n+1) x

/-- A pointer that none of the local arrays of `bn_mod` is under -/
def BnPtr.NotMod (p : BnPtr) : Prop := p.array ≠ .acc ∧ p.array ≠ .mm

theorem BnPtr.NotMod.not_local {p : BnPtr} (hp : p.NotMod) (n i : Nat) :
    ¬ ModLocal n (p.place i) := by
  intro h
  cases h with
  | inl h => exact not_inRange (q := p) (Ne.symm hp.1) _ i h
  | inr h => exact not_inRange (q := p) (Ne.symm hp.2) _ i h

/-- `bn_mod` up to its last loop -/
def modReduced (x : BnPtr) (xlen : Nat) (m : BnPtr) (n : Nat) : BnMemory × Bool :=
  bnModLoopAt x xlen n (bnBitlen (bnAt mem x xlen))
    (bnExtendAt (bnClearAt mem modAcc (n+1)) modModulus m n)

theorem bnModAt_eq (r x : BnPtr) (xlen : Nat) (m : BnPtr) (n : Nat) :
    bnModAt mem r x xlen m n =
      (bnCopyAt (modReduced mem x xlen m n).1 r modAcc n,(modReduced mem x xlen m n).2) := rfl

theorem modStart_touches (m : BnPtr) (n : Nat) :
    Touches (ModLocal n) mem (bnExtendAt (bnClearAt mem modAcc (n+1)) modModulus m n) := by
  have hclear := (bnClearAt_touches mem modAcc (n+1)).mono (Q := ModLocal n) fun _ h => .inl h
  exact hclear.trans ((bnExtendAt_touches _ modModulus m n).mono fun _ h => .inr h)

theorem modReduced_touches (x : BnPtr) (xlen : Nat) (m : BnPtr) (n : Nat) :
    Touches (ModLocal n) mem (modReduced mem x xlen m n).1 :=
  (modStart_touches mem m n).trans ((bnModLoopAt_touches _ _ _ _ _).mono fun _ h => .inl h)

theorem bnModAt_touches (r x : BnPtr) (xlen : Nat) (m : BnPtr) (n : Nat) :
    Touches (fun y => InRange r n y ∨ ModLocal n y) mem (bnModAt mem r x xlen m n).1 :=
  ((modReduced_touches mem x xlen m n).mono fun _ h => .inr h).trans
    ((bnCopyAt_touches _ r modAcc n).mono fun _ h => .inl h)

theorem bnAt_take (p : BnPtr) (n k : Nat) : (bnAt mem p (n+k)).take n = bnAt mem p n := by
  rw [bnAt_eq,bnAt_eq,← limbsFrom_append,List.take_left' (by simp [limbsFrom])]

/-- The result of `bn_mod` may be anywhere in memory that is not local. -/
theorem bnModAt_value {r x m : BnPtr} (hr : r.NotMod) (hx : x.NotMod) (hm : m.NotMod) (xlen : Nat)
    {n : Nat} (hpos : 0 < bnNat (bnAt mem m n)) :
    bnAt (bnModAt mem r x xlen m n).1 r n = bnMod (bnAt mem x xlen) (bnAt mem m n) ∧
      (bnModAt mem r x xlen m n).2 = false := by
  have hstart := modStart_touches mem m n
  have hX := hstart.bnAt_eq (p := x) (n := xlen) fun i _ => hx.not_local n i
  have hM : bnAt (bnClearAt mem modAcc (n+1)) m n = bnAt mem m n :=
    (bnClearAt_touches mem modAcc (n+1)).bnAt_eq fun i _ =>
      not_inRange (Ne.symm hm.1) _ i
  have hmm := bnExtendAt_value (bnClearAt mem modAcc (n+1))
    (show modModulus.array ≠ m.array from Ne.symm hm.2) n
  rw [hM] at hmm
  have hacc : bnAt (bnExtendAt (bnClearAt mem modAcc (n+1)) modModulus m n) modAcc (n+1) =
      List.replicate (n+1) 0 := by
    rw [(bnExtendAt_touches _ modModulus m n).bnAt_eq fun i _ => not_inRange (by decide) _ i]
    exact bnClearAt_value mem modAcc (n+1)
  obtain ⟨hloop,hover⟩ := bnModLoopAt_value (m := bnAt mem m n) (X := bnAt mem x xlen) (x := x)
    (i := bnBitlen (bnAt mem x xlen)) (bnExtendAt (bnClearAt mem modAcc (n+1)) modModulus m n)
    hpos hx.1 (by rw [bnAt_length,hX]) (by rw [bnAt_length,hmm])
    (by rw [bnAt_length,hacc,bnNat_replicate,Nat.div_eq_of_lt (lt_bnBitlen _),Nat.zero_mod])
  rw [bnAt_length,bnAt_length,hacc] at hloop
  rw [bnAt_length,bnAt_length] at hover
  refine ⟨?_,hover⟩
  rw [bnModAt_eq,bnCopyAt_value _ hr.1,← bnAt_take _ modAcc n 1]
  rw [bnMod,bnAt_length]
  exact congrArg (List.take n) hloop

end Division

section Product

variable (mem : BnMemory)

/-- The places that `bn_mulmod` changes besides the result -/
def MulmodLocal (n : Nat) (x : BnPlace) : Prop := InRange mulmodProd (2*n) x ∨ ModLocal n x

/-- A pointer that none of the local arrays of `bn_mulmod` is under -/
def BnPtr.NotMulmod (p : BnPtr) : Prop := p.array ≠ .prod ∧ p.NotMod

theorem BnPtr.NotMulmod.not_local {p : BnPtr} (hp : p.NotMulmod) (n i : Nat) :
    ¬ MulmodLocal n (p.place i) := by
  intro h
  cases h with
  | inl h => exact not_inRange (q := p) (Ne.symm hp.1) _ i h
  | inr h => exact hp.2.not_local n i h

theorem bnMulmodAt_touches (r a b m : BnPtr) (n : Nat) :
    Touches (fun y => InRange r n y ∨ MulmodLocal n y) mem (bnMulmodAt mem r a b m n) := by
  have hmul := bnMulAt_touches mem mulmodProd a b n
  refine (hmul.mono fun _ h => .inr (.inl h)).trans ((bnModAt_touches _ _ _ _ _ _).mono ?_)
  intro y hy
  exact hy.imp id fun h => .inr h

/-- The result of `bn_mulmod` may be either factor, or the modulus. -/
theorem bnMulmodAt_value {r a b m : BnPtr} (hr : r.NotMulmod) (ha : a.NotMulmod)
    (hb : b.NotMulmod) (hm : m.NotMulmod) {n : Nat} (hpos : 0 < bnNat (bnAt mem m n)) :
    bnAt (bnMulmodAt mem r a b m n) r n =
      bnMulmod (bnAt mem a n) (bnAt mem b n) (bnAt mem m n) := by
  have hmod : bnAt (bnMulAt mem mulmodProd a b n) m n = bnAt mem m n :=
    (bnMulAt_touches mem mulmodProd a b n).bnAt_eq fun i _ => not_inRange (Ne.symm hm.1) _ i
  have haparta : Apart mulmodProd (2*n) a n := fun i j _ _ => place_ne (Ne.symm ha.1)
  have hapartb : Apart mulmodProd (2*n) b n := fun i j _ _ => place_ne (Ne.symm hb.1)
  have hprod := bnMulAt_value mem haparta hapartb
  have hvalue := (bnModAt_value (bnMulAt mem mulmodProd a b n) (x := mulmodProd) hr.2
    ⟨by decide,by decide⟩ hm.2 (2*n) (hmod.symm ▸ hpos)).1
  rw [hmod,hprod] at hvalue
  exact hvalue

end Product

section Power

variable (mem : BnMemory)

/-- A pointer into the caller's memory -/
def BnPtr.Given (p : BnPtr) : Prop := p.array = .caller

theorem BnPtr.Given.notMulmod {p : BnPtr} (hp : p.Given) : p.NotMulmod := by
  have hcaller : p.array = .caller := hp
  rw [BnPtr.NotMulmod,BnPtr.NotMod,hcaller]
  decide

theorem modexpPower_notMulmod : modexpPower.NotMulmod := ⟨by decide,by decide,by decide⟩

theorem modexpBase_notMulmod : modexpBase.NotMulmod := ⟨by decide,by decide,by decide⟩

/-- The places that the rounds of `bn_modexp` change -/
def PowerLocal (n : Nat) (x : BnPlace) : Prop := InRange modexpPower n x ∨ MulmodLocal n x

theorem BnPtr.NotMulmod.not_power {p : BnPtr} (hp : p.NotMulmod) (hpower : p.array ≠ .power)
    (n i : Nat) : ¬ PowerLocal n (p.place i) := by
  intro h
  cases h with
  | inl h => exact not_inRange (q := p) (Ne.symm hpower) _ i h
  | inr h => exact hp.not_local n i h

/-- A round of `bn_modexp` -/
def modexpRound (m : BnPtr) (n : Nat) (bit : Bool) : BnMemory :=
  if bit then
    bnMulmodAt (bnMulmodAt mem modexpPower modexpPower modexpPower m n) modexpPower modexpPower
      modexpBase m n
  else bnMulmodAt mem modexpPower modexpPower modexpPower m n

theorem modexpRound_touches (m : BnPtr) (n : Nat) (bit : Bool) :
    Touches (PowerLocal n) mem (modexpRound mem m n bit) := by
  have hsquare : Touches (PowerLocal n) mem
      (bnMulmodAt mem modexpPower modexpPower modexpPower m n) :=
    bnMulmodAt_touches mem modexpPower modexpPower modexpPower m n
  rw [modexpRound]
  cases bit with
  | false => exact hsquare
  | true => exact hsquare.trans (bnMulmodAt_touches _ modexpPower modexpPower modexpBase m n)

theorem modexpRound_value {m : BnPtr} (hm : m.Given) {n : Nat} (hpos : 0 < bnNat (bnAt mem m n))
    (bit : Bool) :
    bnAt (modexpRound mem m n bit) modexpPower n =
      bnModexpStep (bnAt mem modexpBase n) (bnAt mem m n) bit (bnAt mem modexpPower n) := by
  have hpower := modexpPower_notMulmod
  have hsquare := bnMulmodAt_value mem hpower hpower hpower hm.notMulmod hpos
  have htouch : Touches (PowerLocal n) mem
      (bnMulmodAt mem modexpPower modexpPower modexpPower m n) :=
    bnMulmodAt_touches mem modexpPower modexpPower modexpPower m n
  rw [modexpRound,bnModexpStep]
  cases bit with
  | false => exact hsquare
  | true =>
    have hcaller : m.array = .caller := hm
    have hmod := htouch.bnAt_eq (p := m) (n := n) fun i _ =>
      hm.notMulmod.not_power (by rw [hcaller]; decide) n i
    have hbase := htouch.bnAt_eq (p := modexpBase) (n := n) fun i _ =>
      modexpBase_notMulmod.not_power (by decide) n i
    have hprod := bnMulmodAt_value _ hpower hpower modexpBase_notMulmod hm.notMulmod
      (hmod.symm ▸ hpos)
    rw [hmod,hbase,hsquare] at hprod
    exact hprod

theorem bnModexpLoopAt_succ (exp : BnPtr) (explimbs : Nat) (m : BnPtr) (n i : Nat) :
    bnModexpLoopAt exp explimbs m n (i+1) mem = bnModexpLoopAt exp explimbs m n i
      (modexpRound mem m n (bnBit (bnAt (bnMulmodAt mem modexpPower modexpPower modexpPower m n)
        exp explimbs) i)) := rfl

theorem bnModexpLoopAt_touches (exp : BnPtr) (explimbs : Nat) (m : BnPtr) (n i : Nat) :
    Touches (PowerLocal n) mem (bnModexpLoopAt exp explimbs m n i mem) := by
  induction i generalizing mem with
  | zero => exact fun _ _ => rfl
  | succ i ih =>
    rw [bnModexpLoopAt_succ]
    exact (modexpRound_touches mem m n _).trans (ih _)

theorem bnModexpLoopAt_value {exp m : BnPtr} (hexp : exp.Given) (hm : m.Given) (explimbs : Nat)
    {n : Nat} (hpos : 0 < bnNat (bnAt mem m n)) (i : Nat) :
    bnAt (bnModexpLoopAt exp explimbs m n i mem) modexpPower n =
      scanBits (bnBit (bnAt mem exp explimbs))
        (bnModexpStep (bnAt mem modexpBase n) (bnAt mem m n)) i (bnAt mem modexpPower n) := by
  have hgiven : ∀ {p : BnPtr} (k i : Nat), p.Given → ¬ PowerLocal k (p.place i) := by
    intro p k i hp
    have hcaller : p.array = .caller := hp
    exact hp.notMulmod.not_power (by rw [hcaller]; decide) k i
  induction i generalizing mem with
  | zero => rfl
  | succ i ih =>
    have hsquare : Touches (PowerLocal n) mem
        (bnMulmodAt mem modexpPower modexpPower modexpPower m n) :=
      bnMulmodAt_touches mem modexpPower modexpPower modexpPower m n
    have hbit := hsquare.bnAt_eq (p := exp) (n := explimbs) fun i _ => hgiven n i hexp
    have htouch := modexpRound_touches mem m n (bnBit (bnAt mem exp explimbs) i)
    have hmod := htouch.bnAt_eq (p := m) (n := n) fun i _ => hgiven n i hm
    have hbase := htouch.bnAt_eq (p := modexpBase) (n := n) fun i _ =>
      modexpBase_notMulmod.not_power (by decide) n i
    have hexpt := htouch.bnAt_eq (p := exp) (n := explimbs) fun i _ => hgiven n i hexp
    rw [bnModexpLoopAt_succ,hbit,ih _ (hmod.symm ▸ hpos),hmod,hbase,hexpt,
      modexpRound_value mem hm hpos,scanBits]

/-- After the bits `k` of the exponent, one of them at least, `acc` is the power to `k`, reduced. -/
theorem bnModexp_bits {base exp m : Bn} {ebits : Nat} (hm : 0 < bnNat m) (hbits : 0 < ebits)
    (hexp : exp.length ≤ (ebits+31)/32) :
    bnNat (bnModexp base exp ebits m) = bnNat base^(bnNat exp%2^ebits)%bnNat m := by
  obtain ⟨n,rfl⟩ : ∃ n,ebits = n+1 := ⟨ebits-1,by omega⟩
  have hb : bnNat (bnMod base m) ≡ bnNat base [MOD bnNat m] := by
    rw [(bnMod_value base hm).1]
    exact Nat.mod_modEq _ _
  have hmlen : 0 < m.length := List.length_pos_of_ne_nil fun h => by simp [h] at hm
  -- The first round has reduced the accumulator, whether its bit is set or not.
  have hreduced : ∀ bit acc, bnNat (bnModexpStep (bnMod base m) m bit acc) < bnNat m := by
    intro bit acc
    rw [bnModexpStep]
    cases bit with
    | false => exact (bnMulmod_value acc acc hm).1 ▸ Nat.mod_lt _ hm
    | true => exact (bnMulmod_value _ (bnMod base m) hm).1 ▸ Nat.mod_lt _ hm
  have hstart : IsPower m (bnNat base) 0 (1::List.replicate (m.length-1) 0) :=
    ⟨by simp; omega,by simpa using Nat.ModEq.refl 1,fun h => absurd rfl h⟩
  have hfirst := bnModexpStep_isPower hm hb (bnBit exp n) hstart
  have hbit : ∀ i, i ≤ n → bnBit exp i = (bnNat exp%2^(n+1)).testBit i := by
    intro i hi
    rw [bnBit_testBit,Nat.testBit_mod_two_pow,decide_eq_true (Nat.lt_succ_of_le hi),
      Bool.true_and]
  have htop : bnNat exp%2^(n+1)/2^n = 2*0+(bnBit exp n).toNat := by
    have htest := Nat.toNat_testBit (bnNat exp%2^(n+1)) n
    have hlt : bnNat exp%2^(n+1) < 2^(n+1) := Nat.mod_lt _ (by positivity)
    have hdiv : bnNat exp%2^(n+1)/2^n < 2 := by
      rw [Nat.div_lt_iff_lt_mul (by positivity),Nat.mul_comm,← pow_succ]
      exact hlt
    rw [hbit n (Nat.le_refl n),htest,Nat.mod_eq_of_lt hdiv,Nat.mul_zero,Nat.zero_add]
  obtain ⟨-,hpow,hlt⟩ := scanBits_invariant
    (I := fun k acc => acc.length = m.length ∧ bnNat acc ≡ bnNat base^k [MOD bnNat m] ∧
      bnNat acc < bnNat m)
    (n := n) (fun i hi => hbit i (Nat.le_of_lt hi))
    (fun k bit acc hI =>
      have hnext := bnModexpStep_isPower hm hb bit ⟨hI.1,hI.2.1,fun _ => hI.2.2⟩
      ⟨hnext.1,hnext.2.1,hreduced bit acc⟩)
    (s := bnModexpStep (bnMod base m) m (bnBit exp n) (1::List.replicate (m.length-1) 0))
    (by rw [htop]; exact ⟨hfirst.1,hfirst.2.1,hreduced _ _⟩)
  rw [bnModexp,List.take_of_length_le hexp,scanBits]
  exact (Nat.mod_eq_of_lt hlt).symm.trans hpow

/-- `bn_modexp` up to its second loop -/
def modexpStart (base m : BnPtr) (n : Nat) : BnMemory :=
  (bnModAt (Function.update (bnCopyAt (bnClearAt mem modexpPower n) modexpBase base n)
    (modexpPower.place 0) 1) modexpBase modexpBase n m n).1

theorem bnModexpAt_eq (r base exp : BnPtr) (ebits : Nat) (m : BnPtr) (n : Nat) :
    bnModexpAt mem r base exp ebits m n =
      bnCopyAt (bnModexpLoopAt exp ((ebits+31)/32) m n ebits (modexpStart mem base m n)) r
        modexpPower n := rfl

/-- The places that `bn_modexp` changes besides the result -/
def ModexpLocal (n : Nat) (x : BnPlace) : Prop := InRange modexpBase n x ∨ PowerLocal n x

theorem BnPtr.Given.not_local {p : BnPtr} (hp : p.Given) (n i : Nat) :
    ¬ ModexpLocal n (p.place i) := by
  have hcaller : p.array = .caller := hp
  intro h
  cases h with
  | inl h => exact not_inRange (q := p) (by rw [hcaller]; decide) _ i h
  | inr h => exact hp.notMulmod.not_power (by rw [hcaller]; decide) n i h

theorem modexpFirst_touches {n : Nat} (hn : 0 < n) (base : BnPtr) :
    Touches (ModexpLocal n) mem
      (Function.update (bnCopyAt (bnClearAt mem modexpPower n) modexpBase base n)
        (modexpPower.place 0) 1) := by
  have hclear := (bnClearAt_touches mem modexpPower n).mono (Q := ModexpLocal n)
    fun _ h => .inr (.inl h)
  have hcopy := (bnCopyAt_touches (bnClearAt mem modexpPower n) modexpBase base n).mono
    (Q := ModexpLocal n) fun _ h => .inl h
  exact (hclear.trans hcopy).trans (touches_update (.inr (.inl ⟨0,hn,rfl⟩)) 1)

theorem modexpStart_touches {n : Nat} (hn : 0 < n) (base m : BnPtr) :
    Touches (ModexpLocal n) mem (modexpStart mem base m n) := by
  apply (modexpFirst_touches mem hn base).trans
  apply (bnModAt_touches _ modexpBase modexpBase n m n).mono
  intro y hy
  exact hy.imp id fun h => .inr (.inr h)

theorem bnModexpAt_touches {n : Nat} (hn : 0 < n) (r base exp : BnPtr) (ebits : Nat)
    (m : BnPtr) :
    Touches (fun y => InRange r n y ∨ ModexpLocal n y) mem
      (bnModexpAt mem r base exp ebits m n) := by
  rw [bnModexpAt_eq]
  have hstart := (modexpStart_touches mem hn base m).mono
    (Q := fun y => InRange r n y ∨ ModexpLocal n y) fun _ h => .inr h
  have hloop := (bnModexpLoopAt_touches (modexpStart mem base m n) exp ((ebits+31)/32) m n
    ebits).mono (Q := fun y => InRange r n y ∨ ModexpLocal n y) fun _ h => .inr (.inr h)
  exact (hstart.trans hloop).trans ((bnCopyAt_touches _ r modexpPower n).mono fun _ h => .inl h)

/-- Before the second loop `acc` is 1, and `b` the base, reduced. -/
theorem modexpStart_value {base m : BnPtr} (hbase : base.Given) (hm : m.Given) {n : Nat}
    (hpos : 0 < bnNat (bnAt mem m (n+1))) :
    bnAt (modexpStart mem base m (n+1)) modexpPower (n+1) = 1::List.replicate n 0 ∧
      bnAt (modexpStart mem base m (n+1)) modexpBase (n+1) =
        bnMod (bnAt mem base (n+1)) (bnAt mem m (n+1)) := by
  have hcaller : base.array = .caller := hbase
  have hread : bnAt (bnClearAt mem modexpPower (n+1)) base (n+1) = bnAt mem base (n+1) :=
    (bnClearAt_touches mem modexpPower (n+1)).bnAt_eq fun i _ =>
      not_inRange (by rw [hcaller]; decide) _ i
  have hcopy := bnCopyAt_value (bnClearAt mem modexpPower (n+1)) (r := modexpBase) (a := base)
    (by rw [hcaller]; decide) (n+1)
  rw [hread] at hcopy
  have hzero : bnAt (bnCopyAt (bnClearAt mem modexpPower (n+1)) modexpBase base (n+1))
      modexpPower (n+1) = 0::List.replicate n 0 := by
    rw [(bnCopyAt_touches _ modexpBase base (n+1)).bnAt_eq fun i _ => not_inRange (by decide) _ i,
      bnClearAt_value,List.replicate_succ]
  have hfirst := modexpFirst_touches mem (Nat.succ_pos n) base
  have hmod := hfirst.bnAt_eq (p := m) (n := n+1) fun i _ => hm.not_local (n+1) i
  rw [modexpStart]
  generalize bnCopyAt (bnClearAt mem modexpPower (n+1)) modexpBase base (n+1) = copied at *
  have hb : bnAt (Function.update copied (modexpPower.place 0) 1) modexpBase (n+1) =
      bnAt mem base (n+1) := by
    rw [← hcopy]
    exact bnAt_congr fun k _ => Function.update_of_ne (place_ne (by decide)) _ _
  have hone : bnAt (Function.update copied (modexpPower.place 0) 1) modexpPower (n+1) =
      1::List.replicate n 0 := by
    have hrest : limbsFrom (Function.update copied (modexpPower.place 0) 1) modexpPower (0+1) n =
        limbsFrom copied modexpPower (0+1) n := by
      apply limbsFrom_congr
      intro k hk _
      exact Function.update_of_ne
        (fun heq => by have := place_injective modexpPower heq; omega) _ _
    rw [bnAt_eq,limbsFrom_succ] at hzero
    rw [bnAt_eq,limbsFrom_succ,Function.update_self,hrest,(List.cons.inj hzero).2]
  have hvalue := (bnModAt_value (Function.update copied (modexpPower.place 0) 1)
    modexpBase_notMulmod.2 modexpBase_notMulmod.2 hm.notMulmod.2 (n+1) (hmod.symm ▸ hpos)).1
  rw [hb,hmod] at hvalue
  refine ⟨?_,hvalue⟩
  rw [← hone]
  apply (bnModAt_touches _ modexpBase modexpBase (n+1) m (n+1)).bnAt_eq
  intro i _ h
  cases h with
  | inl h => exact not_inRange (by decide) _ i h
  | inr h => exact modexpPower_notMulmod.2.not_local (n+1) i h

/-- The result of `bn_modexp` may be anywhere in the caller's memory. -/
theorem bnModexpAt_value {r base exp m : BnPtr} (hr : r.Given) (hbase : base.Given)
    (hexp : exp.Given) (hm : m.Given) (ebits : Nat) {n : Nat} (hpos : 0 < bnNat (bnAt mem m n)) :
    bnAt (bnModexpAt mem r base exp ebits m n) r n =
      bnModexp (bnAt mem base n) (bnAt mem exp ((ebits+31)/32)) ebits (bnAt mem m n) := by
  cases n with
  | zero => exact absurd hpos (Nat.lt_irrefl 0)
  | succ n =>
    have hcaller : r.array = .caller := hr
    have hstart := modexpStart_touches mem (Nat.succ_pos n) base m
    have hmod := hstart.bnAt_eq (p := m) (n := n+1) fun i _ => hm.not_local (n+1) i
    have hexpt := hstart.bnAt_eq (p := exp) (n := (ebits+31)/32) fun i _ => hexp.not_local (n+1) i
    obtain ⟨hpower,hb⟩ := modexpStart_value mem hbase hm hpos
    have hloop := bnModexpLoopAt_value (modexpStart mem base m (n+1)) hexp hm ((ebits+31)/32)
      (hmod.symm ▸ hpos) ebits
    rw [bnModexpAt_eq,bnCopyAt_value _ (by rw [hcaller]; decide),hloop,hmod,hexpt,hpower,hb,
      bnModexp,List.take_of_length_le (by rw [bnAt_length]),bnAt_length,Nat.add_sub_cancel]

end Power

section Core

variable (mem : BnMemory)

/-- A call writes `k` limbs of its result, and local limbs that there are. -/
def WritesWithin (r : BnPtr) (k : Nat) (mem' : BnMemory) : Prop :=
  Touches (fun x => InRange r k x ∨ x.1 ≠ .caller ∧ x.2 < x.1.size) mem mem'

theorem ModexpLocal.bounded {n : Nat} (hn : n ≤ bnMaxLimbs) {x : BnPlace} (h : ModexpLocal n x) :
    x.1 ≠ .caller ∧ x.2 < x.1.size := by
  have hlimbs : n ≤ 128 := hn
  rcases h with ⟨i,hi,rfl⟩ | ⟨i,hi,rfl⟩ | ⟨i,hi,rfl⟩ | ⟨i,hi,rfl⟩ | ⟨i,hi,rfl⟩ <;>
    simp [BnPtr.place,BnArray.size,bnMaxLimbs,modexpBase,modexpPower,mulmodProd,modAcc,
      modModulus] <;> omega

/-- The big numbers are exact up to 4096 bits: the product, the remainder without a bit that leaves
the accumulator, and the product and the power of a modulus, whatever of the caller's limbs the
result is stored over. The full product alone needs a place apart. `bn_mod` is called with the local
arrays of the others, too. -/
theorem bnCore_exact {n : Nat} (hn : n ≤ bnMaxLimbs) {r m : BnPtr} (hr : r.Given) (hm : m.Given) :
    (∀ a b, Apart r (2*n) a n → Apart r (2*n) b n →
      bnNat (bnAt (bnMulAt mem r a b n) r (2*n)) = bnNat (bnAt mem a n)*bnNat (bnAt mem b n) ∧
      WritesWithin mem r (2*n) (bnMulAt mem r a b n)) ∧
    (bnNat (bnAt mem m n) ≠ 0 →
      (∀ q x xlen, q.NotMod → x.NotMod →
        bnNat (bnAt (bnModAt mem q x xlen m n).1 q n) =
          bnNat (bnAt mem x xlen)%bnNat (bnAt mem m n) ∧
        (bnModAt mem q x xlen m n).2 = false ∧
        WritesWithin mem q n (bnModAt mem q x xlen m n).1) ∧
      (∀ a b, a.Given → b.Given →
        bnNat (bnAt (bnMulmodAt mem r a b m n) r n) =
          bnNat (bnAt mem a n)*bnNat (bnAt mem b n)%bnNat (bnAt mem m n) ∧
        WritesWithin mem r n (bnMulmodAt mem r a b m n)) ∧
      ∀ base exp ebits, base.Given → exp.Given → 1 ≤ ebits →
        bnNat (bnAt (bnModexpAt mem r base exp ebits m n) r n) =
          bnNat (bnAt mem base n)^(bnNat (bnAt mem exp ((ebits+31)/32))%2^ebits)%
            bnNat (bnAt mem m n) ∧
        WritesWithin mem r n (bnModexpAt mem r base exp ebits m n)) := by
  constructor
  · intro a b ha hb
    refine ⟨?_,(bnMulAt_touches mem r a b n).mono fun _ h => .inl h⟩
    rw [bnMulAt_value mem ha hb,bnMul_value]
  · intro hzero
    have hpos := Nat.pos_of_ne_zero hzero
    have hlimbs : 0 < n := by
      apply Nat.pos_of_ne_zero
      rintro rfl
      exact hzero rfl
    refine ⟨?_,?_,?_⟩
    · intro q x xlen hq hx
      obtain ⟨hvalue,hover⟩ := bnModAt_value mem hq hx hm.notMulmod.2 xlen hpos
      refine ⟨by rw [hvalue,(bnMod_value _ hpos).1],hover,?_⟩
      apply (bnModAt_touches mem q x xlen m n).mono
      exact fun y h => h.imp id fun h => ModexpLocal.bounded hn (.inr (.inr (.inr h)))
    · intro a b ha hb
      refine ⟨?_,?_⟩
      · rw [bnMulmodAt_value mem hr.notMulmod ha.notMulmod hb.notMulmod hm.notMulmod hpos,
          (bnMulmod_value _ _ hpos).1]
      · apply (bnMulmodAt_touches mem r a b m n).mono
        exact fun y h => h.imp id fun h => ModexpLocal.bounded hn (.inr (.inr h))
    · intro base exp ebits hbase hexp hebits
      refine ⟨?_,?_⟩
      · rw [bnModexpAt_value mem hr hbase hexp hm ebits hpos]
        exact bnModexp_bits hpos hebits (by rw [bnAt_length])
      · apply (bnModexpAt_touches mem hlimbs r base exp ebits m).mono
        exact fun y h => h.imp id (ModexpLocal.bounded hn)

/-- A modulus, two factors and an exponent -/
def smallNumbers : BnMemory := fun x => [7,10,12,5].getD x.2 0

theorem bnCore_exact_small :
    bnNat (bnAt (bnMulAt smallNumbers ⟨.caller,4⟩ ⟨.caller,1⟩ ⟨.caller,2⟩ 1) ⟨.caller,4⟩ 2) = 120 ∧
    bnNat (bnAt (bnModAt smallNumbers ⟨.caller,1⟩ ⟨.caller,1⟩ 2 ⟨.caller,0⟩ 1).1 ⟨.caller,1⟩ 1) =
      (10+2^32*12)%7 ∧
    bnNat (bnAt (bnMulmodAt smallNumbers ⟨.caller,1⟩ ⟨.caller,1⟩ ⟨.caller,2⟩ ⟨.caller,0⟩ 1)
      ⟨.caller,1⟩ 1) = 1 ∧
    bnNat (bnAt (bnModexpAt smallNumbers ⟨.caller,1⟩ ⟨.caller,1⟩ ⟨.caller,3⟩ 3 ⟨.caller,0⟩ 1)
      ⟨.caller,1⟩ 1) = 5 := by
  have hgiven : ∀ i, BnPtr.Given ⟨.caller,i⟩ := fun _ => rfl
  have hproduct := (bnCore_exact smallNumbers (n := 1) (r := ⟨.caller,4⟩) (m := ⟨.caller,0⟩)
    (by decide) (hgiven 4) (hgiven 0)).1 ⟨.caller,1⟩ ⟨.caller,2⟩
    (by intro i j _ hj heq; simp [BnPtr.place] at heq; omega)
    (by intro i j _ hj heq; simp [BnPtr.place] at heq; omega)
  obtain ⟨hmod,hmulmod,hmodexp⟩ := (bnCore_exact smallNumbers (n := 1) (r := ⟨.caller,1⟩)
    (m := ⟨.caller,0⟩) (by decide) (hgiven 1) (hgiven 0)).2 (by decide)
  exact ⟨hproduct.1,
    (hmod ⟨.caller,1⟩ ⟨.caller,1⟩ 2 (hgiven 1).notMulmod.2 (hgiven 1).notMulmod.2).1,
    (hmulmod ⟨.caller,1⟩ ⟨.caller,2⟩ (hgiven 1) (hgiven 2)).1,
    (hmodexp ⟨.caller,1⟩ ⟨.caller,3⟩ 3 (hgiven 1) (hgiven 3) (by decide)).1⟩

end Core

end ZZ9K.Crypto
