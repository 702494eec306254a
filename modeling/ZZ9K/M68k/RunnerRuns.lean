import ZZ9K.M68k.Flags

namespace ZZ9K.M68k

variable {size : UInt32}

/-- A machine stands where the runner stands: in its registers, its condition codes and the window
of its memory. -/
structure Matches (state : M68KState) (memory : Memory size) (m : Machine) : Prop where
  d : m.d = state.d
  a : m.a = state.a
  pc : m.pc = state.pc
  flags : FlagsMatch state m
  memory : ∀ i < size,m.memory i = byteAt memory i

theorem byteAt_set {memory : Memory size} {address : UInt32} (h : address < size) (value : UInt8) :
    byteAt (memory.setIfInBounds address.toNat value : Memory size) =
      Function.update (byteAt memory) address value := by
  funext i
  rw [UInt32.lt_iff_toNat_lt] at h
  by_cases hi : i = address
  · subst hi
    rw [Function.update_self,byteAt,Vector.getElem?_setIfInBounds_self_of_lt h]
    rfl
  · have hne : address.toNat ≠ i.toNat := fun he => hi (UInt32.toNat_inj.mp he).symm
    rw [Function.update_of_ne hi,byteAt,Vector.getElem?_setIfInBounds_ne hne]
    rfl

theorem be16 (b0 b1 : UInt8) :
    ((b0.toUInt16 <<< 8) ||| b1.toUInt16).toBitVec = b0.toBitVec++b1.toBitVec := by
  apply BitVec.eq_of_getLsbD_eq
  intro i hi
  simp only [UInt16.toBitVec_or,UInt16.toBitVec_shiftLeft,UInt8.toBitVec_toUInt16,
    BitVec.getLsbD_append]
  interval_cases i <;> simp

theorem be32 (b0 b1 b2 b3 : UInt8) : (b0.toUInt32 <<< 24 ||| b1.toUInt32 <<< 16 |||
    b2.toUInt32 <<< 8 ||| b3.toUInt32).toBitVec =
      (b0.toBitVec++b1.toBitVec : BitVec 16)++(b2.toBitVec++b3.toBitVec : BitVec 16) := by
  apply BitVec.eq_of_getLsbD_eq
  intro i hi
  simp only [UInt32.toBitVec_or,UInt32.toBitVec_shiftLeft,UInt8.toBitVec_toUInt32,
    BitVec.getLsbD_append]
  interval_cases i <;> simp

/-- Byte `k` of a long word, from the lowest on -/
theorem shift_byte (value shift : UInt32) (h : shift.toNat < 32) :
    (value >>> shift).toUInt8 = UInt8.ofBitVec (value.toBitVec.extractLsb' shift.toNat 8) := by
  apply UInt8.toNat_inj.mp
  rw [UInt32.toNat_toUInt8,UInt32.toNat_shiftRight,Nat.mod_eq_of_lt h]
  exact (BitVec.extractLsb'_toNat _ _ _).symm

section

variable {state : M68KState} {memory : Memory size} {m : Machine}

/-- Where a read of so many bytes is in bounds -/
theorem in_bounds {offset n : UInt32} (h : ¬ (size < offset ∨ size-offset < n)) {k : UInt32}
    (hk : k.toNat < n.toNat) :
    offset+k < size ∧ (offset+k).toNat = offset.toNat+k.toNat ∧
      offset.toNat+n.toNat ≤ size.toNat := by
  have hs := size.toNat_lt
  rw [not_or,UInt32.lt_iff_toNat_lt,UInt32.lt_iff_toNat_lt,Nat.not_lt,Nat.not_lt] at h
  rw [UInt32.toNat_sub_of_le _ _ (UInt32.le_iff_toNat_le.mpr h.1)] at h
  have hsum : (offset+k).toNat = offset.toNat+k.toNat := by
    rw [UInt32.toNat_add,Nat.mod_eq_of_lt]
    omega
  rw [UInt32.lt_iff_toNat_lt,hsum]
  omega

theorem Matches.word (hm : Matches state memory m) {offset : UInt32} {value : UInt16}
    (h : readBe16 memory offset = some value) : m.word offset = value.toBitVec := by
  unfold readBe16 at h
  split_ifs at h with hout
  have h0 := in_bounds hout (k := 0) (by decide)
  have h1 := in_bounds hout (k := 1) (by decide)
  rw [UInt32.add_zero] at h0
  rw [← Option.some.inj h,be16,Machine.word,hm.memory _ h0.1,hm.memory _ h1.1]

theorem Matches.long (hm : Matches state memory m) {offset value : UInt32}
    (h : readBe32 memory offset = some value) : m.long offset = value := by
  unfold readBe32 at h
  split_ifs at h with hout
  have h0 := in_bounds hout (k := 0) (by decide)
  have h1 := in_bounds hout (k := 1) (by decide)
  have h2 := in_bounds hout (k := 2) (by decide)
  have h3 := in_bounds hout (k := 3) (by decide)
  rw [UInt32.add_zero] at h0
  have hnext : offset+2+1 = offset+3 := UInt32.add_assoc offset 2 1
  apply UInt32.toBitVec_inj.mp
  rw [← Option.some.inj h,be32,Machine.long,Machine.word,Machine.word,hnext,hm.memory _ h0.1,
    hm.memory _ h1.1,hm.memory _ h2.1,hm.memory _ h3.1]

/-- A byte stored in both memories -/
theorem put_matches {mem : UInt32 → UInt8} (h : ∀ i < size,mem i = byteAt memory i)
    {address : UInt32} (haddress : address < size) (value : UInt8) :
    ∀ i < size,Function.update mem address value i =
      byteAt (memory.setIfInBounds address.toNat value : Memory size) i := by
  intro i hi
  rw [byteAt_set haddress]
  by_cases hat : i = address
  · rw [hat,Function.update_self,Function.update_self]
  · rw [Function.update_of_ne hat,Function.update_of_ne hat,h i hi]

theorem putLong_matches (hmem : ∀ i < size,m.memory i = byteAt memory i) {address value : UInt32}
    {memory' : Memory size} (h : writeBe32 memory address value = some memory') :
    ∀ i < size,(m.putLong address value).memory i = byteAt memory' i := by
  unfold writeBe32 at h
  split_ifs at h with hout
  have h0 := in_bounds hout (k := 0) (by decide)
  have h1 := in_bounds hout (k := 1) (by decide)
  have h2 := in_bounds hout (k := 2) (by decide)
  have h3 := in_bounds hout (k := 3) (by decide)
  rw [UInt32.add_zero] at h0
  have hlow : value.toUInt8 = UInt8.ofBitVec (value.toBitVec.extractLsb' 0 8) := rfl
  rw [← Option.some.inj h,shift_byte value 24 (by decide),shift_byte value 16 (by decide),
    shift_byte value 8 (by decide),hlow]
  exact put_matches (put_matches (put_matches (put_matches hmem h0.1 _) h1.1 _) h2.1 _) h3.1 _

theorem access_bind {α β : Type} {o : Option α} {f : α → Except M68KState β} {b : β}
    (h : (access state o >>= f) = .ok b) : ∃ value,o = some value ∧ f value = .ok b := by
  cases o with
  | none => exact absurd h nofun
  | some value => exact ⟨value,rfl,h⟩

/-- The low word of a register counted down from zero, below its upper word -/
theorem dbra_value {value : UInt32} (h : value &&& 0xffff = 0) :
    ((value-1) &&& 0xffff).toUInt16 = 0xffff ∧
      value.toBitVec.extractLsb' 0 16-1 = (0xffff : BitVec 16) ∧
      (value &&& 0xffff0000) ||| (0xffff : UInt16).toUInt32 =
        UInt32.ofBitVec (value.toBitVec.extractLsb' 16 16++(0xffff : BitVec 16)) := by
  have hlow : value.toNat%2^16 = 0 := by
    have hnat := congrArg UInt32.toNat h
    rw [UInt32.toNat_and] at hnat
    exact (Nat.and_two_pow_sub_one_eq_mod value.toNat 16).symm.trans hnat
  have hvalue := value.toNat_lt
  refine ⟨?_,?_,?_⟩
  · apply UInt16.toNat_inj.mp
    rw [UInt32.toNat_toUInt16,UInt32.toNat_and,UInt32.toNat_sub]
    rw [show (0xffff : UInt32).toNat = 2^16-1 from rfl,Nat.and_two_pow_sub_one_eq_mod]
    rw [show (1 : UInt32).toNat = 1 from rfl,show (0xffff : UInt16).toNat = 65535 from rfl]
    omega
  · apply BitVec.eq_of_toNat_eq
    rw [BitVec.toNat_sub,BitVec.extractLsb'_toNat,Nat.shiftRight_zero,UInt32.toNat_toBitVec,hlow]
    rfl
  · apply UInt32.toBitVec_inj.mp
    apply BitVec.eq_of_getLsbD_eq
    intro i hi
    simp only [UInt32.toBitVec_or,UInt32.toBitVec_and,UInt16.toBitVec_toUInt32,BitVec.getLsbD_or,
      BitVec.getLsbD_and,BitVec.getLsbD_append,BitVec.getLsbD_extractLsb']
    interval_cases i <;> simp

/-- The low byte of a register replaced -/
theorem byte_value (value : UInt32) (byte : UInt8) :
    (value &&& 0xffffff00) ||| byte.toUInt32 =
      UInt32.ofBitVec (value.toBitVec.extractLsb' 8 24++byte.toBitVec) := by
  apply UInt32.toBitVec_inj.mp
  apply BitVec.eq_of_getLsbD_eq
  intro i hi
  simp only [UInt32.toBitVec_or,UInt32.toBitVec_and,UInt8.toBitVec_toUInt32,BitVec.getLsbD_or,
    BitVec.getLsbD_and,BitVec.getLsbD_append,BitVec.getLsbD_extractLsb']
  interval_cases i <;> simp

variable {next : M68KState} {memory' : Memory size}

theorem moveq_matches (hm : Matches state memory m) {data : Fin 8} {immediate : BitVec 8}
    (h : execute {state with pc := state.pc+2} memory (.moveq data immediate) = .ok (next,memory')) :
    Matches next memory' (m.exec (.moveq data immediate)) := by
  obtain ⟨rfl,rfl⟩ := Prod.mk.inj (Except.ok.inj h)
  obtain ⟨hd,ha,hpc,hflags,hmem⟩ := hm
  have hvalue : UInt32.ofBitVec (immediate.signExtend 32) =
      (Int8.ofBitVec immediate).toInt32.toUInt32 := rfl
  rw [setLogicFlags_eq,Machine.exec,hvalue]
  refine ⟨?_,ha,?_,?_,hmem⟩
  · exact congrArg (fun d => d.set data (Int8.ofBitVec immediate).toInt32.toUInt32) hd
  · exact congrArg (·+2) hpc
  · exact hflags.logic (by rw [zero32]) _ rfl

theorem addq_matches (hm : Matches state memory m) {quick data : Fin 8}
    (h : execute {state with pc := state.pc+2} memory (.addq quick data) = .ok (next,memory')) :
    Matches next memory' (m.exec (.addq quick data)) := by
  obtain ⟨rfl,rfl⟩ := Prod.mk.inj (Except.ok.inj h)
  obtain ⟨hd,ha,hpc,hflags,hmem⟩ := hm
  rw [setAddFlags_eq,Machine.exec,hd]
  refine ⟨rfl,ha,congrArg (·+2) hpc,?_,hmem⟩
  exact FlagsMatch.replaced rfl rfl rfl (zero32 _) rfl rfl

theorem subq_matches (hm : Matches state memory m) {quick data : Fin 8}
    (h : execute {state with pc := state.pc+2} memory (.subq quick data) = .ok (next,memory')) :
    Matches next memory' (m.exec (.subq quick data)) := by
  obtain ⟨rfl,rfl⟩ := Prod.mk.inj (Except.ok.inj h)
  obtain ⟨hd,ha,hpc,hflags,hmem⟩ := hm
  rw [setSubFlags_eq,Machine.exec,hd]
  refine ⟨rfl,ha,congrArg (·+2) hpc,?_,hmem⟩
  exact FlagsMatch.replaced rfl rfl rfl (zero32 _) rfl rfl

theorem readU8_eq {address : UInt32} {value : UInt8} (h : readU8 memory address = some value) :
    address < size ∧ value = byteAt memory address := by
  unfold readU8 at h
  split_ifs at h with hout
  exact ⟨UInt32.not_le.mp hout,(Option.some.inj h).symm⟩

theorem writeU8_eq {address : UInt32} {value : UInt8}
    (h : writeU8 memory address value = some memory') :
    address < size ∧ memory' = memory.setIfInBounds address.toNat value := by
  unfold writeU8 at h
  split_ifs at h with hout
  exact ⟨UInt32.not_le.mp hout,(Option.some.inj h).symm⟩

theorem addByte_matches (hm : Matches state memory m) {addr data : Fin 8} (hne : addr ≠ 7)
    (h : execute {state with pc := state.pc+2} memory (.addByte addr data) = .ok (next,memory')) :
    Matches next memory' (m.exec (.addByte addr data)) := by
  obtain ⟨value,hread,h⟩ := access_bind h
  obtain ⟨hin,rfl⟩ := readU8_eq hread
  obtain ⟨rfl,rfl⟩ := Prod.mk.inj (Except.ok.inj h)
  obtain ⟨hd,ha,hpc,hflags,hmem⟩ := hm
  have hstep : Machine.byteStep addr = 1 := if_neg hne
  have hlow : state.d[data].toBitVec.extractLsb' 0 8 = state.d[data].toUInt8.toBitVec := rfl
  rw [setAddByteFlags_eq,Machine.exec,hd,ha,hmem _ hin,hstep,hlow]
  rw [← UInt8.toBitVec_add,← byte_value]
  refine ⟨rfl,rfl,congrArg (·+2) hpc,?_,hmem⟩
  exact FlagsMatch.replaced rfl rfl rfl (zero8 _) rfl rfl

theorem moveFromAbs_matches (hm : Matches state memory m) {data : Fin 8}
    (h : execute {state with pc := state.pc+2} memory (.moveFromAbs data) = .ok (next,memory')) :
    Matches next memory' (m.exec (.moveFromAbs data)) := by
  obtain ⟨⟨fetched,address⟩,hfetch,h⟩ := access_bind h
  obtain ⟨address',hlong,heq⟩ := Option.map_eq_some_iff.mp hfetch
  obtain ⟨rfl,rfl⟩ := Prod.mk.inj heq
  obtain ⟨value,hread,h⟩ := access_bind h
  obtain ⟨rfl,rfl⟩ := Prod.mk.inj (Except.ok.inj h)
  have haddress := hm.long hlong
  have hvalue := hm.long hread
  obtain ⟨hd,ha,hpc,hflags,hmem⟩ := hm
  rw [setLogicFlags_eq,Machine.exec,hpc,haddress,hvalue,hd]
  refine ⟨rfl,ha,(UInt32.add_assoc _ 2 4).symm,?_,hmem⟩
  exact hflags.logic (by rw [zero32]) _ rfl

theorem rts_matches (hm : Matches state memory m)
    (h : execute {state with pc := state.pc+2} memory .rts = .ok (next,memory')) :
    Matches next memory' (m.exec .rts) := by
  obtain ⟨returnPc,hread,h⟩ := access_bind h
  obtain ⟨rfl,rfl⟩ := Prod.mk.inj (Except.ok.inj h)
  have hpc := hm.long hread
  obtain ⟨hd,ha,-,hflags,hmem⟩ := hm
  rw [Machine.exec,ha,hpc]
  exact ⟨hd,rfl,rfl,⟨hflags.x,hflags.n,hflags.z,hflags.v,hflags.c⟩,hmem⟩

theorem dbra_matches (hm : Matches state memory m) {data : Fin 8}
    (hfaithful : Faithful state memory (.dbra data))
    (h : execute {state with pc := state.pc+2} memory (.dbra data) = .ok (next,memory')) :
    Matches next memory' (m.exec (.dbra data)) := by
  obtain ⟨⟨fetched,displacement⟩,hfetch,h⟩ := access_bind h
  obtain ⟨displacement',hread,heq⟩ := Option.map_eq_some_iff.mp hfetch
  obtain ⟨rfl,rfl⟩ := Prod.mk.inj heq
  obtain ⟨hcounter,hlow,hlong⟩ := dbra_value hfaithful
  obtain ⟨rfl,rfl⟩ := Prod.mk.inj (Except.ok.inj h)
  obtain ⟨hd,ha,hpc,hflags,hmem⟩ := hm
  dsimp only
  rw [hcounter,if_neg (not_not.mpr rfl),hlong,Machine.exec,hd]
  rw [hlow,if_pos rfl,hpc]
  exact ⟨rfl,ha,rfl,⟨hflags.x,hflags.n,hflags.z,hflags.v,hflags.c⟩,hmem⟩

/-- A long word stored leaves the condition codes to the program: they must be there already. -/
theorem moveToAbs_matches (hm : Matches state memory m) {data : Fin 8}
    (hfaithful : Faithful state memory (.moveToAbs data))
    (h : execute {state with pc := state.pc+2} memory (.moveToAbs data) = .ok (next,memory')) :
    Matches next memory' (m.exec (.moveToAbs data)) := by
  obtain ⟨⟨fetched,address⟩,hfetch,h⟩ := access_bind h
  obtain ⟨address',hread,heq⟩ := Option.map_eq_some_iff.mp hfetch
  obtain ⟨rfl,rfl⟩ := Prod.mk.inj heq
  obtain ⟨written,hwrite,h⟩ := access_bind h
  obtain ⟨rfl,rfl⟩ := Prod.mk.inj (Except.ok.inj h)
  obtain ⟨hn,hz,hv,hc⟩ := hfaithful
  have haddress := hm.long hread
  obtain ⟨hd,ha,hpc,hflags,hmem⟩ := hm
  rw [Machine.exec,hpc,haddress,hd]
  refine ⟨rfl,ha,(UInt32.add_assoc _ 2 4).symm,⟨hflags.x,hn.symm,?_,hv.symm,hc.symm⟩,
    putLong_matches hmem hwrite⟩
  exact (zero32 _).trans hz.symm

/-- A byte copied between two registers: where they are one, the source must stand at the next
address too. -/
theorem moveByte_matches (hm : Matches state memory m) {source dest : Fin 8}
    (hfaithful : Faithful state memory (.moveByte source dest))
    (h : execute {state with pc := state.pc+2} memory (.moveByte source dest) =
      .ok (next,memory')) : Matches next memory' (m.exec (.moveByte source dest)) := by
  obtain ⟨value,hread,h⟩ := access_bind h
  obtain ⟨written,hwrite,h⟩ := access_bind h
  obtain ⟨rfl,rfl⟩ := Prod.mk.inj (Except.ok.inj h)
  obtain ⟨hs,ht,hsame⟩ := hfaithful
  obtain ⟨hin,hvalue⟩ := readU8_eq hread
  obtain ⟨hin',hmemory⟩ := writeU8_eq hwrite
  obtain ⟨hd,ha,hpc,hflags,hmem⟩ := hm
  have hsource : Machine.byteStep source = 1 := if_neg hs
  have hdest : Machine.byteStep dest = 1 := if_neg ht
  rw [setLogicByteFlags_eq,Machine.exec,ha,hmem _ hin,← hvalue,hsource,hdest]
  refine ⟨hd,rfl,congrArg (·+2) hpc,?_,?_⟩
  · exact hflags.logic (by rw [zero8]) _ rfl
  · rw [hmemory]
    -- the address registers after the first operand
    let a := state.a.set source (state.a[source]+1)
    by_cases heq : source = dest
    · subst heq
      have haddress : a[source] = state.a[source]+1 := by simp [a]
      -- the code writes the byte over itself, the instruction one byte further on
      have hself : ∀ i,byteAt (memory.setIfInBounds state.a[source].toNat value : Memory size) i =
          byteAt memory i := by
        intro i
        rw [byteAt_set hin,hvalue]
        exact congrFun (Function.update_eq_self _ _) i
      intro i hi
      rw [hself]
      change Function.update m.memory a[source] value i = _
      rw [haddress]
      by_cases hat : i = state.a[source]+1
      · rw [hat,Function.update_self,hvalue]
        exact (hsame rfl (hat ▸ hi)).symm
      · rw [Function.update_of_ne hat]
        exact hmem i hi
    · have haddress : a[dest] = state.a[dest] := by
        have hne : source.val ≠ dest.val := fun he => heq (Fin.ext he)
        simp [a,hne]
      intro i hi
      change Function.update m.memory a[dest] value i = _
      rw [haddress]
      exact put_matches hmem hin' value i hi

/-- A branch of the runner that meets its condition does what its instruction does. -/
theorem execute_matches (hm : Matches state memory m) {instr : Instr}
    (hfaithful : Faithful state memory instr)
    (h : execute {state with pc := state.pc+2} memory instr = .ok (next,memory')) :
    Matches next memory' (m.exec instr) := by
  cases instr with
  | moveq data immediate => exact moveq_matches hm h
  | addq quick data => exact addq_matches hm h
  | subq quick data => exact subq_matches hm h
  | addByte addr data => exact addByte_matches hm hfaithful h
  | moveByte source dest => exact moveByte_matches hm hfaithful h
  | moveToAbs data => exact moveToAbs_matches hm hfaithful h
  | moveFromAbs data => exact moveFromAbs_matches hm h
  | rts => exact rts_matches hm h
  | dbra data => exact dbra_matches hm hfaithful h

end

/-- Every instruction that a run completes meets its condition. -/
def FaithfulRun (state : M68KState) (memory : Memory size) : Nat → Prop
  | 0 => True
  | left+1 => ∀ fetched opcode instr next memory',fetchWord state memory = some (fetched,opcode) →
      decode opcode = some instr → execute fetched memory instr = .ok (next,memory') →
        Faithful state memory instr ∧ FaithfulRun next memory' left

namespace Machine

theorem Step.unique {m m1 m2 : Machine} {i j : Instr} (h : m.Step i m1) (h' : m.Step j m2) :
    i = j ∧ m1 = m2 := by
  have heq : i = j := encode_injective (h.1.symm.trans h'.1)
  refine ⟨heq,?_⟩
  rw [h.2,h'.2,heq]

/-- As many steps lead to one machine only. -/
theorem Run.unique {m m1 m2 : Machine} {is js : List Instr} (hlen : is.length = js.length)
    (h : m.Run is m1) (h' : m.Run js m2) : is = js ∧ m1 = m2 := by
  induction is generalizing m js with
  | nil =>
    cases js with
    | nil => exact ⟨rfl,Eq.trans h (Eq.symm h')⟩
    | cons j js => exact absurd hlen nofun
  | cons i is ih =>
    cases js with
    | nil => exact absurd hlen nofun
    | cons j js =>
      obtain ⟨next,hstep,hrun⟩ := h
      obtain ⟨next',hstep',hrun'⟩ := h'
      obtain ⟨rfl,rfl⟩ := hstep.unique hstep'
      obtain ⟨rfl,rfl⟩ := ih (Nat.succ.inj hlen) hrun hrun'
      exact ⟨rfl,rfl⟩

end Machine

/-- How a run of the runner and a run of the machine stand to each other -/
def RunsAlike (result : M68KResult size) (m : Machine) (before : Nat) : Prop :=
  ∃ instrs m',m.Run instrs m' ∧ before+instrs.length = result.instructions ∧
    Matches result.state result.memory m'

/-- By induction on the instructions that are left -/
theorem runFrom_alike {state : M68KState} {memory : Memory size} {m : Machine}
    (hm : Matches state memory m) (before left : Nat) (hfaithful : FaithfulRun state memory left)
    (hend : (runFrom state memory before left).status = .rts ∨
      (runFrom state memory before left).status = .limit) :
    RunsAlike (runFrom state memory before left) m before := by
  induction left generalizing state memory m before with
  | zero => exact ⟨[],m,rfl,rfl,hm⟩
  | succ left ih =>
    rw [runFrom] at hend ⊢
    cases hfetch : fetchWord state memory with
    | none =>
      rw [hfetch] at hend
      exact absurd hend (by simp)
    | some fetched =>
      obtain ⟨fetched,opcode⟩ := fetched
      rw [hfetch] at hend
      dsimp only at hend ⊢
      cases hdecode : decode opcode with
      | none =>
        rw [hdecode] at hend
        exact absurd hend (by simp)
      | some instr =>
        rw [hdecode] at hend
        dsimp only at hend ⊢
        cases hexec : execute fetched memory instr with
        | error faulted =>
          rw [hexec] at hend
          exact absurd hend (by simp)
        | ok done =>
          obtain ⟨next,memory'⟩ := done
          rw [hexec] at hend
          dsimp only at hend ⊢
          obtain ⟨hmeets,hrest⟩ := hfaithful fetched opcode instr next memory' hfetch hdecode hexec
          obtain ⟨opcode',hread,heq⟩ := Option.map_eq_some_iff.mp hfetch
          obtain ⟨rfl,rfl⟩ := Prod.mk.inj heq
          have hnext := execute_matches hm hmeets hexec
          have hstep : m.Step instr (m.exec instr) := by
            refine ⟨?_,rfl⟩
            rw [hm.pc,hm.word hread,encode_of_decode hdecode]
          by_cases hrts : instr = .rts
          · rw [if_pos hrts]
            exact ⟨[instr],_,⟨_,hstep,rfl⟩,rfl,hnext⟩
          · rw [if_neg hrts] at hend ⊢
            obtain ⟨instrs,m',hrun,hcount,hlast⟩ := ih hnext (before+1) hrest hend
            refine ⟨instr::instrs,m',⟨_,hstep,hrun⟩,?_,hlast⟩
            rw [List.length_cons]
            omega

/-- An opcode word that is none of the instructions is reported as illegal. -/
theorem runFrom_illegal {state : M68KState} {memory : Memory size} {fetched : M68KState}
    {opcode : UInt16} (hfetch : fetchWord state memory = some (fetched,opcode))
    (hother : ∀ instr,encode instr ≠ opcode.toBitVec) (before left : Nat) :
    runFrom state memory before (left+1) =
      ⟨state,memory,.illegal,before,state.pc,opcode⟩ := by
  have hdecode : decode opcode = none := by
    cases h : decode opcode with
    | none => rfl
    | some instr => exact absurd (encode_of_decode h) (hother instr)
  rw [runFrom,hfetch]
  dsimp only
  rw [hdecode]

/-- The machine that stands where the runner stands -/
def machineOf (state : M68KState) (memory : Memory size) : Machine :=
  { d := state.d,a := state.a,pc := state.pc,x := state.flag ccrX,n := state.flag ccrN
    z := state.flag ccrZ,v := state.flag ccrV,c := state.flag ccrC,memory := byteAt memory }

theorem machineOf_matches (state : M68KState) (memory : Memory size) :
    Matches state memory (machineOf state memory) :=
  ⟨rfl,rfl,rfl,⟨rfl,rfl,rfl,rfl,rfl⟩,fun _ _ => rfl⟩

/-- All registers zero, as `zz9k_m68k_state_init` leaves them -/
def zeroState : M68KState := ⟨Vector.replicate 8 0,Vector.replicate 8 0,0,0⟩

/-- `moveq #-1,d0` -/
def moveqImage : Memory 2 := #v[0x70,0xff]

/-- `move.l d0,$8.l` -/
def moveImage : Memory 12 := #v[0x23,0xc0,0,0,0,8,0,0,0,0,0,0]

end ZZ9K.M68k
