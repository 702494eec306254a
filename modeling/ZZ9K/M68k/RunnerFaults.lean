import ZZ9K.M68k.RunnerRuns

namespace ZZ9K.M68k

section

variable {size : UInt32}

theorem byteChecked_eq {memory : Memory size} {offset : UInt32} (h : offset < size) :
    byteChecked memory offset = some (byteAt memory offset) := by
  have hlt : offset.toNat < size.toNat := UInt32.lt_iff_toNat_lt.mp h
  rw [byteChecked,byteAt,Vector.getElem?_eq_getElem hlt,Option.getD_some]

theorem setChecked_eq {memory : Memory size} {offset : UInt32} (h : offset < size) (value : UInt8) :
    setChecked memory offset value = some (memory.setIfInBounds offset.toNat value) := if_pos h

/-- The place itself, of an access of so many bytes -/
theorem first_in_bounds {offset n : UInt32} (h : ¬(size < offset ∨ size-offset < n))
    (hn : 0 < n.toNat) : offset < size := by
  have h0 := (in_bounds h (k := 0) hn).1
  rwa [UInt32.add_zero] at h0

theorem readBe16Checked_eq (memory : Memory size) (offset : UInt32) :
    readBe16Checked memory offset = some (readBe16 memory offset) := by
  rw [readBe16Checked,readBe16]
  split_ifs with h
  · rfl
  · have h0 := first_in_bounds h (by decide)
    have h1 := (in_bounds h (k := 1) (by decide)).1
    simp [byteChecked_eq h0,byteChecked_eq h1]

theorem readU8Checked_eq (memory : Memory size) (offset : UInt32) :
    readU8Checked memory offset = some (readU8 memory offset) := by
  rw [readU8Checked,readU8]
  split_ifs with h
  · rfl
  · simp [byteChecked_eq (UInt32.not_le.mp h)]

theorem writeU8Checked_eq (memory : Memory size) (offset : UInt32) (value : UInt8) :
    writeU8Checked memory offset value = some (writeU8 memory offset value) := by
  rw [writeU8Checked,writeU8]
  split_ifs with h
  · rfl
  · simp [setChecked_eq (UInt32.not_le.mp h)]

theorem readBe32Checked_eq (memory : Memory size) (offset : UInt32) :
    readBe32Checked memory offset = some (readBe32 memory offset) := by
  rw [readBe32Checked,readBe32]
  split_ifs with h
  · rfl
  · have h0 := first_in_bounds h (by decide)
    have h1 := (in_bounds h (k := 1) (by decide)).1
    have h2 := (in_bounds h (k := 2) (by decide)).1
    have h3 := (in_bounds h (k := 3) (by decide)).1
    simp [byteChecked_eq h0,byteChecked_eq h1,byteChecked_eq h2,byteChecked_eq h3]

theorem writeBe32Checked_eq (memory : Memory size) (offset value : UInt32) :
    writeBe32Checked memory offset value = some (writeBe32 memory offset value) := by
  rw [writeBe32Checked,writeBe32]
  split_ifs with h
  · rfl
  · have h0 := first_in_bounds h (by decide)
    have h1 := (in_bounds h (k := 1) (by decide)).1
    have h2 := (in_bounds h (k := 2) (by decide)).1
    have h3 := (in_bounds h (k := 3) (by decide)).1
    simp [setChecked_eq h0,setChecked_eq h1,setChecked_eq h2,setChecked_eq h3]

theorem fetchWordChecked_eq (state : M68KState) (memory : Memory size) :
    fetchWordChecked state memory = some (fetchWord state memory) := by
  simp [fetchWordChecked,fetchWord,readBe16Checked_eq]

theorem fetchLongChecked_eq (state : M68KState) (memory : Memory size) :
    fetchLongChecked state memory = some (fetchLong state memory) := by
  simp [fetchLongChecked,fetchLong,readBe32Checked_eq]

/-- A branch goes on alike behind an access inside the memory. -/
theorem accessChecked_bind {α β : Type} (state : M68KState) (o : Option α)
    {f : α → ExceptT M68KState Option β} {g : α → Except M68KState β}
    (h : ∀ a,(f a).run = some (g a)) :
    (accessChecked state (some o) >>= f).run = some (access state o >>= g) := by
  cases o with
  | none => rfl
  | some a => exact h a

theorem executeChecked_eq (state : M68KState) (memory : Memory size) (instr : Instr) :
    (executeChecked state memory instr).run = some (execute state memory instr) := by
  cases instr with
  | moveq reg imm => rfl
  | addq field reg => rfl
  | subq field reg => rfl
  | addByte addrReg dataReg =>
    rw [executeChecked,execute,readU8Checked_eq]
    exact accessChecked_bind _ _ fun src => rfl
  | moveByte srcReg dstReg =>
    rw [executeChecked,execute,readU8Checked_eq]
    refine accessChecked_bind _ _ fun value => ?_
    rw [writeU8Checked_eq]
    exact accessChecked_bind _ _ fun memory => rfl
  | moveToAbs reg =>
    rw [executeChecked,execute,fetchLongChecked_eq]
    refine accessChecked_bind _ _ fun ⟨state,address⟩ => ?_
    dsimp only
    rw [writeBe32Checked_eq]
    exact accessChecked_bind _ _ fun memory => rfl
  | moveFromAbs reg =>
    rw [executeChecked,execute,fetchLongChecked_eq]
    refine accessChecked_bind _ _ fun ⟨state,address⟩ => ?_
    dsimp only
    rw [readBe32Checked_eq]
    exact accessChecked_bind _ _ fun value => rfl
  | rts =>
    rw [executeChecked,execute,readBe32Checked_eq]
    exact accessChecked_bind _ _ fun returnPc => rfl
  | dbra reg =>
    rw [executeChecked,execute,fetchWordChecked_eq]
    exact accessChecked_bind _ _ fun ⟨state,displacement⟩ => rfl

theorem runFromChecked_eq (state : M68KState) (memory : Memory size) (instructions left : Nat) :
    runFromChecked state memory instructions left =
      some (runFrom state memory instructions left) := by
  induction left generalizing state memory instructions with
  | zero => rfl
  | succ left ih =>
    rw [runFromChecked,runFrom,fetchWordChecked_eq]
    cases fetchWord state memory with
    | none => rfl
    | some fetched =>
      obtain ⟨next,opcode⟩ := fetched
      simp only [Option.bind_eq_bind,Option.bind_some]
      cases decode opcode with
      | none => rfl
      | some instr =>
        simp only [executeChecked_eq,Option.bind_some]
        cases execute next memory instr with
        | error faulted => rfl
        | ok done =>
          simp only
          split_ifs
          · rfl
          · exact ih _ _ _

theorem readU8_isSome {memory : Memory size} {offset : UInt32} :
    (readU8 memory offset).isSome ↔ Inside size offset 1 := by
  rw [readU8,Inside]
  split_ifs with h <;> rw [UInt32.le_iff_toNat_le] at h <;> simp <;> omega

theorem writeU8_isSome {memory : Memory size} {offset : UInt32} {value : UInt8} :
    (writeU8 memory offset value).isSome ↔ Inside size offset 1 := by
  rw [writeU8,Inside]
  split_ifs with h <;> rw [UInt32.le_iff_toNat_le] at h <;> simp <;> omega

/-- The bound of a wide access -/
theorem not_inside_iff {offset n : UInt32} :
    (size < offset ∨ size-offset < n) ↔ ¬Inside size offset n.toNat := by
  rw [Inside,UInt32.lt_iff_toNat_lt,UInt32.lt_iff_toNat_lt]
  by_cases h : size.toNat < offset.toNat
  · exact iff_of_true (.inl h) (by omega)
  · rw [UInt32.toNat_sub_of_le _ _ (UInt32.le_iff_toNat_le.mpr (by omega))]
    omega

theorem readBe16_isSome {memory : Memory size} {offset : UInt32} :
    (readBe16 memory offset).isSome ↔ Inside size offset 2 := by
  rw [readBe16]
  split_ifs with h
  · simpa using not_inside_iff.mp h
  · simpa using not_not.mp (mt not_inside_iff.mpr h)

theorem readBe32_isSome {memory : Memory size} {offset : UInt32} :
    (readBe32 memory offset).isSome ↔ Inside size offset 4 := by
  rw [readBe32]
  split_ifs with h
  · simpa using not_inside_iff.mp h
  · simpa using not_not.mp (mt not_inside_iff.mpr h)

theorem writeBe32_isSome {memory : Memory size} {offset value : UInt32} :
    (writeBe32 memory offset value).isSome ↔ Inside size offset 4 := by
  rw [writeBe32]
  split_ifs with h
  · simpa using not_inside_iff.mp h
  · simpa using not_not.mp (mt not_inside_iff.mpr h)

/-- What a branch leaves where an operand is outside: only `pc` may stand elsewhere. -/
def OnlyPc (state faulted : M68KState) : Prop :=
  faulted = state ∨ faulted = {state with pc := state.pc+4}

/-- A branch faults exactly where its operands are not all in the memory. -/
theorem execute_cases (state : M68KState) (memory : Memory size) (instr : Instr) :
    (Operands state memory instr ∧ ∃ done,execute state memory instr = .ok done) ∨
    (¬Operands state memory instr ∧ ∃ faulted,execute state memory instr = .error faulted ∧
      OnlyPc state faulted) := by
  cases instr with
  | moveq reg imm => exact .inl ⟨trivial,_,rfl⟩
  | addq field reg => exact .inl ⟨trivial,_,rfl⟩
  | subq field reg => exact .inl ⟨trivial,_,rfl⟩
  | addByte addrReg dataReg =>
    rw [Operands,← @readU8_isSome _ memory,execute]
    cases readU8 memory state.a[addrReg] with
    | none => exact .inr ⟨by simp,state,rfl,.inl rfl⟩
    | some src => exact .inl ⟨rfl,_,rfl⟩
  | moveByte srcReg dstReg =>
    rw [Operands,← @readU8_isSome _ memory,execute]
    cases readU8 memory state.a[srcReg] with
    | none => exact .inr ⟨by simp,state,rfl,.inl rfl⟩
    | some value =>
      rw [← @writeU8_isSome _ memory _ value]
      simp only [access,bind,Except.bind]
      cases writeU8 memory state.a[dstReg] value with
      | none => exact .inr ⟨by simp,state,rfl,.inl rfl⟩
      | some memory => exact .inl ⟨⟨rfl,rfl⟩,_,rfl⟩
  | moveToAbs reg =>
    rw [Operands,execute,fetchLong]
    cases readBe32 memory state.pc with
    | none => exact .inr ⟨by simp,state,rfl,.inl rfl⟩
    | some address =>
      simp only [Option.map_some,access,bind,Except.bind,Option.some.injEq,exists_eq_left']
      rw [← @writeBe32_isSome _ memory _ state.d[reg]]
      cases writeBe32 memory address state.d[reg] with
      | none => exact .inr ⟨by simp,_,rfl,.inr rfl⟩
      | some memory => exact .inl ⟨rfl,_,rfl⟩
  | moveFromAbs reg =>
    rw [Operands,execute,fetchLong]
    cases readBe32 memory state.pc with
    | none => exact .inr ⟨by simp,state,rfl,.inl rfl⟩
    | some address =>
      simp only [Option.map_some,access,bind,Except.bind,Option.some.injEq,exists_eq_left']
      rw [← @readBe32_isSome _ memory]
      cases readBe32 memory address with
      | none => exact .inr ⟨by simp,_,rfl,.inr rfl⟩
      | some value => exact .inl ⟨rfl,_,rfl⟩
  | rts =>
    rw [Operands,← @readBe32_isSome _ memory,execute]
    cases readBe32 memory state.a[7] with
    | none => exact .inr ⟨by simp,state,rfl,.inl rfl⟩
    | some returnPc => exact .inl ⟨rfl,_,rfl⟩
  | dbra reg =>
    rw [Operands,← @readBe16_isSome _ memory,execute,fetchWord]
    cases readBe16 memory state.pc with
    | none => exact .inr ⟨by simp,state,rfl,.inl rfl⟩
    | some displacement => exact .inl ⟨rfl,_,rfl⟩

/-- What one round of the loop does -/
inductive Round (size : UInt32)
  | next (state : M68KState) (memory : Memory size)
  | returned (state : M68KState) (memory : Memory size)
  | illegal (opcode : UInt16)
  | noOpcode
  | noOperand (faulted : M68KState) (opcode : UInt16)

def round (state : M68KState) (memory : Memory size) : Round size :=
  match fetchWord state memory with
  | none => .noOpcode
  | some (fetched,opcode) =>
    match decode opcode with
    | none => .illegal opcode
    | some instr =>
      match execute fetched memory instr with
      | .error faulted => .noOperand faulted opcode
      | .ok (next,memory) => if instr = .rts then .returned next memory else .next next memory

theorem runFrom_succ (state : M68KState) (memory : Memory size) (instructions left : Nat) :
    runFrom state memory instructions (left+1) =
      match round state memory with
      | .next next memory => runFrom next memory (instructions+1) left
      | .returned next memory => ⟨next,memory,.rts,instructions+1,0,0⟩
      | .illegal opcode => ⟨state,memory,.illegal,instructions,state.pc,opcode⟩
      | .noOpcode => ⟨state,memory,.oob,instructions,state.pc,0⟩
      | .noOperand faulted opcode => ⟨faulted,memory,.oob,instructions,state.pc,opcode⟩ := by
  rw [runFrom,round]
  cases fetchWord state memory with
  | none => rfl
  | some fetched =>
    obtain ⟨fetched,opcode⟩ := fetched
    dsimp only
    cases decode opcode with
    | none => rfl
    | some instr =>
      dsimp only
      cases execute fetched memory instr with
      | error faulted => rfl
      | ok done =>
        dsimp only
        split_ifs <;> rfl

/-- The operands of the instruction at `pc`, if there is one, are in the memory. -/
def OperandsInside (state : M68KState) (memory : Memory size) : Prop :=
  ∀ opcode,readBe16 memory state.pc = some opcode → ∀ instr,decode opcode = some instr →
    Operands {state with pc := state.pc+2} memory instr

theorem OnlyPc.pc_ne {state faulted : M68KState}
    (h : OnlyPc {state with pc := state.pc+2} faulted) :
    faulted.pc ≠ state.pc ∧ faulted = {state with pc := faulted.pc} := by
  have hstep : ∀ n : UInt32,n ≠ 0 → state.pc+n ≠ state.pc := fun n hn heq =>
    hn (add_eq_left.mp heq)
  obtain rfl | rfl := h
  · exact ⟨hstep 2 (by decide),rfl⟩
  · refine ⟨?_,rfl⟩
    dsimp only
    rw [add_assoc]
    exact hstep (2+4) (by decide)

/-- A round faults behind the opcode exactly where its operands are not in the memory, and leaves
`pc` there. -/
theorem round_cases (state : M68KState) (memory : Memory size) :
    (OperandsInside state memory ∧
      ∀ faulted opcode,round state memory ≠ .noOperand faulted opcode) ∨
    (¬OperandsInside state memory ∧ ∃ faulted opcode,
      round state memory = .noOperand faulted opcode ∧ faulted.pc ≠ state.pc ∧
        faulted = {state with pc := faulted.pc}) := by
  rw [OperandsInside,round,fetchWord]
  cases readBe16 memory state.pc with
  | none => exact .inl ⟨nofun,nofun⟩
  | some opcode =>
    simp only [Option.map_some,Option.some.injEq,forall_eq']
    cases decode opcode with
    | none => exact .inl ⟨nofun,nofun⟩
    | some instr =>
      simp only [Option.some.injEq,forall_eq']
      obtain ⟨hinside,done,hdone⟩ | ⟨houtside,faulted,hfaulted,honly⟩ :=
        execute_cases {state with pc := state.pc+2} memory instr
      · refine .inl ⟨hinside,?_⟩
        rw [hdone]
        dsimp only
        split_ifs <;> nofun
      · refine .inr ⟨houtside,faulted,opcode,?_,honly.pc_ne⟩
        rw [hfaulted]

/-- A run counts on from where it starts to count. -/
theorem runFrom_shift (state : M68KState) (memory : Memory size) (before instructions left : Nat) :
    runFrom state memory (before+instructions) left =
      {runFrom state memory instructions left with
        instructions := before+(runFrom state memory instructions left).instructions} := by
  induction left generalizing state memory instructions with
  | zero => rfl
  | succ left ih =>
    rw [runFrom_succ,runFrom_succ]
    cases round state memory with
    | next next memory => exact ih next memory (instructions+1)
    | returned next memory => rfl
    | illegal opcode => rfl
    | noOpcode => rfl
    | noOperand faulted opcode => rfl

theorem runFrom_instructions_le (state : M68KState) (memory : Memory size)
    (instructions left : Nat) :
    (runFrom state memory instructions left).instructions ≤ instructions+left := by
  induction left generalizing state memory instructions with
  | zero => exact Nat.le_refl _
  | succ left ih =>
    rw [runFrom_succ]
    cases round state memory with
    | next next memory =>
      have hle := ih next memory (instructions+1)
      dsimp only
      omega
    | returned next memory => dsimp only; omega
    | illegal opcode => dsimp only; omega
    | noOpcode => dsimp only; omega
    | noOperand faulted opcode => dsimp only; omega

/-- A run that reaches its limit goes on from there. -/
theorem runFrom_add {state : M68KState} {memory : Memory size} {instructions m : Nat}
    (h : (runFrom state memory instructions m).status = .limit) (n : Nat) :
    (runFrom state memory instructions m).instructions = instructions+m ∧
    runFrom state memory instructions (m+n) =
      runFrom (runFrom state memory instructions m).state
        (runFrom state memory instructions m).memory (instructions+m) n := by
  induction m generalizing state memory instructions with
  | zero =>
    rw [Nat.zero_add]
    exact ⟨rfl,rfl⟩
  | succ m ih =>
    rw [show m+1+n = (m+n)+1 by omega,runFrom_succ state memory instructions (m+n),
      runFrom_succ state memory instructions m]
    rw [runFrom_succ] at h
    cases hround : round state memory with
    | next next memory =>
      rw [hround] at h
      have hgo := ih h
      rw [Nat.add_assoc,Nat.add_comm 1 m] at hgo
      exact hgo
    | returned next memory => rw [hround] at h; cases h
    | illegal opcode => rw [hround] at h; cases h
    | noOpcode => rw [hround] at h; cases h
    | noOperand faulted opcode => rw [hround] at h; cases h

/-- A run that ends before its limit ends with one more round from where a shorter limit leaves
it. -/
theorem runFrom_last {state : M68KState} {memory : Memory size} {instructions left : Nat}
    (h : (runFrom state memory instructions left).status ≠ .limit) : ∃ k < left,
    (runFrom state memory instructions k).status = .limit ∧
      runFrom state memory instructions left =
        runFrom (runFrom state memory instructions k).state
          (runFrom state memory instructions k).memory (instructions+k) 1 := by
  induction left generalizing state memory instructions with
  | zero => exact absurd rfl h
  | succ left ih =>
    have hstop : (∀ next memory',round state memory ≠ .next next memory') →
        runFrom state memory instructions (left+1) = runFrom state memory instructions 1 := by
      intro hround
      rw [runFrom_succ,runFrom_succ]
      cases hend : round state memory with
      | next next memory' => exact absurd hend (hround next memory')
      | _ => rfl
    cases hround : round state memory with
    | next next memory' =>
      rw [runFrom_succ,hround] at h
      obtain ⟨k,hk,hlimit,hlast⟩ := ih h
      refine ⟨k+1,by omega,?_,?_⟩
      · rw [runFrom_succ,hround]
        exact hlimit
      · rw [runFrom_succ,runFrom_succ state memory _ k,hround,← Nat.add_assoc,Nat.add_right_comm]
        exact hlast
    | _ => exact ⟨0,by omega,rfl,hstop (by rw [hround]; nofun)⟩

/-- `before` is the run that stops at its limit just before the instruction that `result` stops
at. -/
structure StopsAt (state : M68KState) (memory : Memory size) (result : M68KResult size)
    (before : UInt32) : Prop where
  count : before.toNat = result.instructions
  limit : (m68kRun state memory before).status = .limit
  instructions : (m68kRun state memory before).instructions = result.instructions

/-- What a caller may rely on of a run with a limit -/
structure RunSound (state : M68KState) (memory : Memory size) (instructionLimit : UInt32) : Prop where
  bounded : (m68kRun state memory instructionLimit).instructions ≤ instructionLimit.toNat
  inside : runFromChecked state memory 0 instructionLimit.toNat =
    some (m68kRun state memory instructionLimit)
  precise : (m68kRun state memory instructionLimit).status = .illegal ∨
      (m68kRun state memory instructionLimit).status = .oob →
    ∃ before,StopsAt state memory (m68kRun state memory instructionLimit) before ∧
      (m68kRun state memory instructionLimit).state = (m68kRun state memory before).state ∧
      (m68kRun state memory instructionLimit).memory = (m68kRun state memory before).memory ∧
      (m68kRun state memory instructionLimit).faultPc = (m68kRun state memory before).state.pc
  resumes : (m68kRun state memory instructionLimit).status = .limit →
    ∀ n total : UInt32,total.toNat = instructionLimit.toNat+n.toNat →
      m68kRun state memory total =
        let first := m68kRun state memory instructionLimit
        let second := m68kRun first.state first.memory n
        {second with instructions := first.instructions+second.instructions}

/-- A run that faults leaves all but `pc` as it was before the instruction, and `pc` as well if the
operands of the instruction are in the memory. -/
theorem m68kRun_fault {state : M68KState} {memory : Memory size} {instructionLimit : UInt32}
    (h : (m68kRun state memory instructionLimit).status = .illegal ∨
      (m68kRun state memory instructionLimit).status = .oob) :
    ∃ before < instructionLimit,
      StopsAt state memory (m68kRun state memory instructionLimit) before ∧
      (m68kRun state memory instructionLimit).memory = (m68kRun state memory before).memory ∧
      (m68kRun state memory instructionLimit).faultPc = (m68kRun state memory before).state.pc ∧
      (m68kRun state memory instructionLimit).state = {(m68kRun state memory before).state with
        pc := (m68kRun state memory instructionLimit).state.pc} ∧
      (OperandsInside (m68kRun state memory before).state (m68kRun state memory before).memory →
        (m68kRun state memory instructionLimit).state = (m68kRun state memory before).state) := by
  have hend : (m68kRun state memory instructionLimit).status ≠ .limit := by
    obtain h | h := h <;> rw [h] <;> decide
  obtain ⟨k,hk,hlimit,hlast⟩ := runFrom_last hend
  have hcount := (runFrom_add hlimit 0).1
  have hbefore : (UInt32.ofNat k).toNat = k :=
    UInt32.toNat_ofNat_of_lt' (lt_trans hk instructionLimit.toNat_lt)
  have hrun : m68kRun state memory (UInt32.ofNat k) = runFrom state memory 0 k := by
    rw [m68kRun,hbefore]
  rw [Nat.zero_add] at hcount hlast
  generalize runFrom state memory 0 k = b at hlimit hcount hlast hrun
  refine ⟨UInt32.ofNat k,UInt32.lt_iff_toNat_lt.mpr (by omega),?_⟩
  rw [m68kRun,hlast,runFrom_succ] at h
  have hresult : m68kRun state memory instructionLimit = runFrom b.state b.memory k 1 := hlast
  rw [runFrom_succ] at hresult
  have hround := round_cases b.state b.memory
  have hstops : ∀ {r : M68KResult size},r.instructions = k → StopsAt state memory r (UInt32.ofNat k) :=
    fun {r} hr => ⟨hbefore.trans hr.symm,by rw [hrun]; exact hlimit,by rw [hrun,hr]; exact hcount⟩
  rw [hresult,hrun]
  cases hb : round b.state b.memory with
  | next next memory' => rw [hb] at h; exact absurd h (by simp [runFrom])
  | returned next memory' => rw [hb] at h; exact absurd h (by simp)
  | illegal opcode => exact ⟨hstops rfl,rfl,rfl,rfl,fun _ => rfl⟩
  | noOpcode => exact ⟨hstops rfl,rfl,rfl,rfl,fun _ => rfl⟩
  | noOperand faulted opcode =>
    obtain ⟨-,hno⟩ | ⟨houtside,faulted',opcode',heq,-,honly⟩ := hround
    · exact absurd hb (hno faulted opcode)
    · obtain ⟨rfl,rfl⟩ := Round.noOperand.inj (hb.symm.trans heq)
      exact ⟨hstops rfl,rfl,rfl,honly,fun hinside => absurd hinside houtside⟩

/-- A run is bounded, inside the memory and resumable in any case, and its faults are precise
exactly if no instruction on its way has an operand outside of the memory. -/
theorem m68kRun_sound (state : M68KState) (memory : Memory size) (instructionLimit : UInt32) :
    RunSound state memory instructionLimit ↔ ∀ before < instructionLimit,
      (m68kRun state memory before).status = .limit →
        OperandsInside (m68kRun state memory before).state
          (m68kRun state memory before).memory := by
  constructor
  · intro hsound before hbefore hlimit
    have hlt := UInt32.lt_iff_toNat_lt.mp hbefore
    -- the round behind the shorter run is one of the whole run
    obtain ⟨hcount,hgo⟩ := runFrom_add hlimit (instructionLimit.toNat-before.toNat)
    rw [Nat.zero_add,Nat.add_sub_cancel' hlt.le,
      show instructionLimit.toNat-before.toNat = instructionLimit.toNat-before.toNat-1+1 by omega,
      runFrom_succ] at hgo
    obtain ⟨hinside,-⟩ | ⟨-,faulted,opcode,hround,hpc,-⟩ := round_cases
      (m68kRun state memory before).state (m68kRun state memory before).memory
    · exact hinside
    have hresult : m68kRun state memory instructionLimit = ⟨faulted,
        (m68kRun state memory before).memory,.oob,before.toNat,
        (m68kRun state memory before).state.pc,opcode⟩ := by
      rw [m68kRun] at hround ⊢
      rw [hgo,hround]
      rfl
    obtain ⟨other,hstops,hstate,-⟩ := hsound.precise (.inr (by rw [hresult]))
    have hsame : other = before := by
      apply UInt32.toNat_inj.mp
      rw [hstops.count,hresult]
    rw [hsame,hresult] at hstate
    exact absurd (congrArg M68KState.pc hstate) hpc
  · intro hinside
    refine ⟨?_,?_,?_,?_⟩
    · have hle := runFrom_instructions_le state memory 0 instructionLimit.toNat
      rw [Nat.zero_add] at hle
      exact hle
    · exact runFromChecked_eq state memory 0 _
    · intro h
      obtain ⟨before,hlt,hstops,hmemory,hpc,-,hstate⟩ := m68kRun_fault h
      exact ⟨before,hstops,hstate (hinside before hlt hstops.limit),hmemory,hpc⟩
    · intro hlimit n total htotal
      obtain ⟨hcount,hgo⟩ := runFrom_add hlimit n.toNat
      rw [m68kRun,htotal,hgo]
      have hshift := runFrom_shift (m68kRun state memory instructionLimit).state
        (m68kRun state memory instructionLimit).memory (0+instructionLimit.toNat) 0 n.toNat
      rw [Nat.add_zero] at hshift
      refine hshift.trans ?_
      rw [← hcount]
      rfl

end

/-- `add.b (a0)+,d0` -/
def addByteImage : Memory 2 := #v[0xd0,0x18]

/-- All address registers point behind that image. -/
def behindImage : M68KState := ⟨Vector.replicate 8 0,Vector.replicate 8 2,0,0⟩

theorem m68kRun_not_sound : ¬∀ (size : UInt32) (state : M68KState) (memory : Memory size)
    (instructionLimit : UInt32),RunSound state memory instructionLimit := by
  intro h
  have hsound := h 2 behindImage addByteImage 1
  have hfault : (m68kRun behindImage addByteImage 1).status = .oob ∧
      (m68kRun behindImage addByteImage 1).instructions = 0 ∧
      (m68kRun behindImage addByteImage 1).state.pc = 2 := by decide
  obtain ⟨before,hstops,hstate,-⟩ := hsound.precise (.inr hfault.1)
  have hzero : before = 0 := UInt32.toNat_inj.mp (hstops.count.trans hfault.2.1)
  rw [hzero] at hstate
  exact absurd (hfault.2.2.symm.trans (congrArg M68KState.pc hstate)) (by decide)

end ZZ9K.M68k
