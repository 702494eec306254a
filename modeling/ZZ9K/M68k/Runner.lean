import Mathlib.Data.UInt
import Mathlib.Logic.Function.Basic

namespace ZZ9K.M68k

/-- The instructions that the runner is for, with the fields of their opcode words -/
inductive Instr
  | moveq (data : Fin 8) (immediate : BitVec 8)
  | addq (quick data : Fin 8)
  | subq (quick data : Fin 8)
  | addByte (addr data : Fin 8)
  | moveByte (source dest : Fin 8)
  | moveToAbs (data : Fin 8)
  | moveFromAbs (data : Fin 8)
  | rts
  | dbra (data : Fin 8)
  deriving DecidableEq, Repr

/-- A register field -/
def field (r : Fin 8) : BitVec 3 := BitVec.ofFin r

/-- The opcode word of an instruction, field by field -/
def encode : Instr → BitVec 16
  | .moveq data immediate => 0b0111#4++field data++0b0#1++immediate
  | .addq quick data => 0b0101#4++field quick++0b0#1++0b10#2++0b000#3++field data
  | .subq quick data => 0b0101#4++field quick++0b1#1++0b10#2++0b000#3++field data
  | .addByte addr data => 0b1101#4++field data++0b000#3++0b011#3++field addr
  | .moveByte source dest => 0b0001#4++field dest++0b011#3++0b011#3++field source
  | .moveToAbs data => 0b0010#4++0b001#3++0b111#3++0b000#3++field data
  | .moveFromAbs data => 0b0010#4++field data++0b000#3++0b111#3++0b001#3
  | .rts => 0b0100111001110101#16
  | .dbra data => 0b0101#4++0b0001#4++0b11001#5++field data

/-- An MC68000 with a flat memory -/
structure Machine where
  d : Vector UInt32 8
  a : Vector UInt32 8
  pc : UInt32
  x : Bool
  n : Bool
  z : Bool
  v : Bool
  c : Bool
  memory : UInt32 → UInt8

namespace Machine

/-- The word at an address -/
def word (m : Machine) (address : UInt32) : BitVec 16 :=
  (m.memory address).toBitVec++(m.memory (address+1)).toBitVec

/-- The long word at an address -/
def long (m : Machine) (address : UInt32) : UInt32 :=
  UInt32.ofBitVec (m.word address++m.word (address+2))

/-- A byte stored -/
def putByte (m : Machine) (address : UInt32) (value : UInt8) : Machine :=
  {m with memory := Function.update m.memory address value}

/-- A long word stored -/
def putLong (m : Machine) (address value : UInt32) : Machine :=
  (((m.putByte address (UInt8.ofBitVec (value.toBitVec.extractLsb' 24 8))).putByte (address+1)
    (UInt8.ofBitVec (value.toBitVec.extractLsb' 16 8))).putByte (address+2)
      (UInt8.ofBitVec (value.toBitVec.extractLsb' 8 8))).putByte (address+3)
        (UInt8.ofBitVec (value.toBitVec.extractLsb' 0 8))

/-- How far a byte moves an address register on: the stack pointer stays even. -/
def byteStep (addr : Fin 8) : UInt32 := if addr = 7 then 2 else 1

/-- The condition codes of a move -/
def moved {w : Nat} (m : Machine) (value : BitVec w) : Machine :=
  {m with n := value.msb,z := value == 0,v := false,c := false}

/-- The condition codes of an addition -/
def added {w : Nat} (m : Machine) (dst src : BitVec w) : Machine :=
  {m with
    n := (dst+src).msb,z := dst+src == 0,v := dst.saddOverflow src,c := dst.uaddOverflow src
    x := dst.uaddOverflow src}

/-- The condition codes of a subtraction -/
def subtracted {w : Nat} (m : Machine) (dst src : BitVec w) : Machine :=
  {m with
    n := (dst-src).msb,z := dst-src == 0,v := dst.ssubOverflow src,c := dst.usubOverflow src
    x := dst.usubOverflow src}

/-- The operand of ADDQ and SUBQ: 0 stands for 8. -/
def quickData (quick : Fin 8) : UInt32 := if quick = 0 then 8 else UInt32.ofNat quick

/-- What an instruction does -/
def exec (m : Machine) : Instr → Machine
  | .moveq data immediate =>
    let value := UInt32.ofBitVec (immediate.signExtend 32)
    {m with d := m.d.set data value,pc := m.pc+2}.moved value.toBitVec
  | .addq quick data =>
    let dst := m.d[data]
    let src := quickData quick
    {m with d := m.d.set data (dst+src),pc := m.pc+2}.added dst.toBitVec src.toBitVec
  | .subq quick data =>
    let dst := m.d[data]
    let src := quickData quick
    {m with d := m.d.set data (dst-src),pc := m.pc+2}.subtracted dst.toBitVec src.toBitVec
  | .addByte addr data =>
    let src := (m.memory m.a[addr]).toBitVec
    let dst := m.d[data].toBitVec.extractLsb' 0 8
    let value := UInt32.ofBitVec (m.d[data].toBitVec.extractLsb' 8 24++(dst+src))
    {m with
      d := m.d.set data value,a := m.a.set addr (m.a[addr]+byteStep addr)
      pc := m.pc+2}.added dst src
  | .moveByte source dest =>
    let value := m.memory m.a[source]
    let m := {m with a := m.a.set source (m.a[source]+byteStep source),pc := m.pc+2}
    let address := m.a[dest]
    ({m with a := m.a.set dest (address+byteStep dest)}.putByte address value).moved value.toBitVec
  | .moveToAbs data =>
    ({m with pc := m.pc+6}.putLong (m.long (m.pc+2)) m.d[data]).moved m.d[data].toBitVec
  | .moveFromAbs data =>
    let value := m.long (m.long (m.pc+2))
    {m with d := m.d.set data value,pc := m.pc+6}.moved value.toBitVec
  | .rts => {m with a := m.a.set 7 (m.a[7]+4),pc := m.long m.a[7]}
  | .dbra data =>
    let counter := m.d[data].toBitVec.extractLsb' 0 16-1
    let value := UInt32.ofBitVec (m.d[data].toBitVec.extractLsb' 16 16++counter)
    let extension := m.pc+2
    {m with
      d := m.d.set data value
      pc := if counter = 0xffff then extension+2
        else extension+UInt32.ofBitVec ((m.word extension).signExtend 32)}

/-- One step, where the program counter stands at one of the instructions -/
def Step (m : Machine) (instr : Instr) (m' : Machine) : Prop :=
  m.word m.pc = encode instr ∧ m' = m.exec instr

/-- A run through the given instructions -/
def Run (m : Machine) : List Instr → Machine → Prop
  | [],m' => m' = m
  | instr::instrs,m' => ∃ next,m.Step instr next ∧ next.Run instrs m'

end Machine

/-- `ZZ9KM68KState` -/
structure M68KState where
  d : Vector UInt32 8
  a : Vector UInt32 8
  pc : UInt32
  sr : UInt16

/-- `memory` and `memory_size` -/
abbrev Memory (size : UInt32) := Vector UInt8 size.toNat

/-- `ZZ9KM68KStatus`, but for bad arguments -/
inductive M68KStatus
  | rts
  | limit
  | illegal
  | oob
  deriving DecidableEq, Repr

section

variable {size : UInt32}

/-- `memory[offset]` -/
def byteAt (memory : Memory size) (offset : UInt32) : UInt8 := memory[offset.toNat]?.getD 0

/-- `zz9k_m68k_read_be16` -/
def readBe16 (memory : Memory size) (offset : UInt32) : Option UInt16 :=
  if size < offset ∨ size-offset < 2 then none
  else some (((byteAt memory offset).toUInt16 <<< 8) ||| (byteAt memory (offset+1)).toUInt16)

/-- `zz9k_m68k_read_u8` -/
def readU8 (memory : Memory size) (offset : UInt32) : Option UInt8 :=
  if size ≤ offset then none else some (byteAt memory offset)

/-- `zz9k_m68k_write_u8` -/
def writeU8 (memory : Memory size) (offset : UInt32) (value : UInt8) : Option (Memory size) :=
  if size ≤ offset then none else some (memory.setIfInBounds offset.toNat value)

/-- `zz9k_m68k_read_be32` -/
def readBe32 (memory : Memory size) (offset : UInt32) : Option UInt32 :=
  if size < offset ∨ size-offset < 4 then none
  else some (((byteAt memory offset).toUInt32 <<< 24) |||
    ((byteAt memory (offset+1)).toUInt32 <<< 16) ||| ((byteAt memory (offset+2)).toUInt32 <<< 8) |||
      (byteAt memory (offset+3)).toUInt32)

/-- `zz9k_m68k_write_be32` -/
def writeBe32 (memory : Memory size) (offset value : UInt32) : Option (Memory size) :=
  if size < offset ∨ size-offset < 4 then none
  else
    let memory := memory.setIfInBounds offset.toNat (value >>> 24).toUInt8
    let memory := memory.setIfInBounds (offset+1).toNat (value >>> 16).toUInt8
    let memory := memory.setIfInBounds (offset+2).toNat (value >>> 8).toUInt8
    some (memory.setIfInBounds (offset+3).toNat value.toUInt8)

/-- `zz9k_m68k_fetch_word` -/
def fetchWord (state : M68KState) (memory : Memory size) : Option (M68KState × UInt16) :=
  (readBe16 memory state.pc).map fun opcode => ({state with pc := state.pc+2},opcode)

/-- `zz9k_m68k_fetch_long` -/
def fetchLong (state : M68KState) (memory : Memory size) : Option (M68KState × UInt32) :=
  (readBe32 memory state.pc).map fun value => ({state with pc := state.pc+4},value)

/-- `ZZ9K_M68K_CCR_C` and the other four -/
def ccrC : UInt16 := 0x0001
def ccrV : UInt16 := 0x0002
def ccrZ : UInt16 := 0x0004
def ccrN : UInt16 := 0x0008
def ccrX : UInt16 := 0x0010

/-- `zz9k_m68k_set_logic_flags` -/
def setLogicFlags (state : M68KState) (value : UInt32) : M68KState :=
  let sr := state.sr &&& ~~~(ccrN ||| ccrZ ||| ccrV ||| ccrC)
  let sr := if value = 0 then sr ||| ccrZ else sr
  let sr := if value &&& 0x80000000 ≠ 0 then sr ||| ccrN else sr
  {state with sr := sr}

/-- `zz9k_m68k_set_logic_byte_flags` -/
def setLogicByteFlags (state : M68KState) (value : UInt8) : M68KState :=
  let sr := state.sr &&& ~~~(ccrN ||| ccrZ ||| ccrV ||| ccrC)
  let sr := if value = 0 then sr ||| ccrZ else sr
  let sr := if value &&& 0x80 ≠ 0 then sr ||| ccrN else sr
  {state with sr := sr}

/-- The end of the three functions below: all five flags are replaced. -/
def replaceFlags (state : M68KState) (flags : UInt16) : M68KState :=
  {state with sr := (state.sr &&& ~~~(ccrX ||| ccrN ||| ccrZ ||| ccrV ||| ccrC)) ||| flags}

/-- `zz9k_m68k_set_add_flags` -/
def setAddFlags (state : M68KState) (src dst result : UInt32) : M68KState :=
  let flags := if result = 0 then ccrZ else 0
  let flags := if result &&& 0x80000000 ≠ 0 then flags ||| ccrN else flags
  let flags := if (~~~(dst ^^^ src) &&& (dst ^^^ result)) &&& 0x80000000 ≠ 0 then flags ||| ccrV
    else flags
  let flags := if result < dst then flags ||| (ccrC ||| ccrX) else flags
  replaceFlags state flags

/-- `zz9k_m68k_set_add_byte_flags` -/
def setAddByteFlags (state : M68KState) (src dst result : UInt8) : M68KState :=
  let wide := dst.toUInt32+src.toUInt32
  let flags := if result = 0 then ccrZ else 0
  let flags := if result &&& 0x80 ≠ 0 then flags ||| ccrN else flags
  let flags := if (~~~(dst ^^^ src) &&& (dst ^^^ result)) &&& 0x80 ≠ 0 then flags ||| ccrV
    else flags
  let flags := if 0xff < wide then flags ||| (ccrC ||| ccrX) else flags
  replaceFlags state flags

/-- `zz9k_m68k_set_sub_flags` -/
def setSubFlags (state : M68KState) (src dst result : UInt32) : M68KState :=
  let flags := if result = 0 then ccrZ else 0
  let flags := if result &&& 0x80000000 ≠ 0 then flags ||| ccrN else flags
  let flags := if ((dst ^^^ src) &&& (dst ^^^ result)) &&& 0x80000000 ≠ 0 then flags ||| ccrV
    else flags
  let flags := if dst < src then flags ||| (ccrC ||| ccrX) else flags
  replaceFlags state flags

/-- `(opcode >> shift) & 7U` -/
def registerField (opcode shift : UInt16) : Fin 8 :=
  ⟨((opcode >>> shift) &&& 7).toNat%8,Nat.mod_lt _ (by decide)⟩

/-- The conditions of `zz9k_m68k_run` on an opcode, in their order, with the fields that its
branches take -/
def decode (opcode : UInt16) : Option Instr :=
  if opcode &&& 0xf100 = 0x7000 then
    some (.moveq (registerField opcode 9) opcode.toUInt8.toBitVec)
  else if opcode &&& 0xf0c0 = 0x5080 ∧ (opcode >>> 3) &&& 7 = 0 then
    if opcode &&& 0x0100 ≠ 0 then some (.subq (registerField opcode 9) (registerField opcode 0))
    else some (.addq (registerField opcode 9) (registerField opcode 0))
  else if opcode &&& 0xf1f8 = 0xd018 then
    some (.addByte (registerField opcode 0) (registerField opcode 9))
  else if opcode &&& 0xf1f8 = 0x10d8 then
    some (.moveByte (registerField opcode 0) (registerField opcode 9))
  else if opcode &&& 0xfff8 = 0x23c0 then some (.moveToAbs (registerField opcode 0))
  else if opcode &&& 0xf1ff = 0x2039 then some (.moveFromAbs (registerField opcode 9))
  else if opcode = 0x4e75 then some .rts
  else if opcode &&& 0xfff8 = 0x51c8 then some (.dbra (registerField opcode 0))
  else none

/-- An access, or the way out with the registers as they stand where it is out of bounds -/
def access {α : Type} (state : M68KState) : Option α → Except M68KState α
  | some value => .ok value
  | none => .error state

/-- The branches of `zz9k_m68k_run`, with `pc` already behind the opcode; no branch has written to
the memory when it faults. -/
def execute (state : M68KState) (memory : Memory size) :
    Instr → Except M68KState (M68KState × Memory size)
  | .moveq reg imm =>
    let value := (Int8.ofBitVec imm).toInt32.toUInt32
    return (setLogicFlags {state with d := state.d.set reg value} value,memory)
  | .addq field reg =>
    let quick := if field = 0 then 8 else UInt32.ofNat field
    let dst := state.d[reg]
    let value := dst+quick
    return (setAddFlags {state with d := state.d.set reg value} quick dst value,memory)
  | .subq field reg =>
    let quick := if field = 0 then 8 else UInt32.ofNat field
    let dst := state.d[reg]
    let value := dst-quick
    return (setSubFlags {state with d := state.d.set reg value} quick dst value,memory)
  | .addByte addrReg dataReg => do
    let src ← access state (readU8 memory state.a[addrReg])
    let state := {state with a := state.a.set addrReg (state.a[addrReg]+1)}
    let dst := state.d[dataReg].toUInt8
    let value := dst+src
    let long := (state.d[dataReg] &&& 0xffffff00) ||| value.toUInt32
    return (setAddByteFlags {state with d := state.d.set dataReg long} src dst value,memory)
  | .moveByte srcReg dstReg => do
    let value ← access state (readU8 memory state.a[srcReg])
    let memory ← access state (writeU8 memory state.a[dstReg] value)
    let state := {state with a := state.a.set srcReg (state.a[srcReg]+1)}
    let state := {state with a := state.a.set dstReg (state.a[dstReg]+1)}
    return (setLogicByteFlags state value,memory)
  | .moveToAbs reg => do
    let (state,address) ← access state (fetchLong state memory)
    let memory ← access state (writeBe32 memory address state.d[reg])
    return (state,memory)
  | .moveFromAbs reg => do
    let (state,address) ← access state (fetchLong state memory)
    let value ← access state (readBe32 memory address)
    return (setLogicFlags {state with d := state.d.set reg value} value,memory)
  | .rts => do
    let returnPc ← access state (readBe32 memory state.a[7])
    return ({state with a := state.a.set 7 (state.a[7]+4),pc := returnPc},memory)
  | .dbra reg => do
    let (state,displacement) ← access state (fetchWord state memory)
    let upper := state.d[reg] &&& 0xffff0000
    let counter := ((state.d[reg]-1) &&& 0xffff).toUInt16
    let state := {state with d := state.d.set reg (upper ||| counter.toUInt32)}
    return (if counter ≠ 0xffff then
        {state with pc := state.pc+displacement.toInt16.toInt32.toUInt32}
      else state,memory)

/-- What `zz9k_m68k_run` leaves: the state, the memory and the result -/
structure M68KResult (size : UInt32) where
  state : M68KState
  memory : Memory size
  status : M68KStatus
  instructions : Nat
  faultPc : UInt32
  opcode : UInt16

/-- The loop of `zz9k_m68k_run`: `left` is the instruction limit less the instructions so far. -/
def runFrom (state : M68KState) (memory : Memory size) (instructions : Nat) :
    Nat → M68KResult size
  | 0 => ⟨state,memory,.limit,instructions,0,0⟩
  | left+1 =>
    match fetchWord state memory with
    | none => ⟨state,memory,.oob,instructions,state.pc,0⟩
    | some (next,opcode) =>
      match decode opcode with
      | none => ⟨state,memory,.illegal,instructions,state.pc,opcode⟩
      | some instr =>
        match execute next memory instr with
        | .error faulted => ⟨faulted,memory,.oob,instructions,state.pc,opcode⟩
        | .ok (next,memory) =>
          if instr = .rts then ⟨next,memory,.rts,instructions+1,0,0⟩
          else runFrom next memory (instructions+1) left

/-- `zz9k_m68k_run` -/
def m68kRun (state : M68KState) (memory : Memory size) (instructionLimit : UInt32) :
    M68KResult size :=
  runFrom state memory 0 instructionLimit.toNat

/-- A bit of the status register -/
def M68KState.flag (state : M68KState) (mask : UInt16) : Bool := state.sr &&& mask != 0

/-- What an instruction of the runner has to meet to do what the instruction does -/
def Faithful (state : M68KState) (memory : Memory size) : Instr → Prop
  | .addByte addr _ => addr ≠ 7
  | .moveByte source dest => source ≠ 7 ∧ dest ≠ 7 ∧ (source = dest →
      state.a[source]+1 < size →
        byteAt memory (state.a[source]+1) = byteAt memory state.a[source])
  | .moveToAbs data => state.flag ccrN = state.d[data].toBitVec.msb ∧
      state.flag ccrZ = (state.d[data] == 0) ∧ state.flag ccrV = false ∧ state.flag ccrC = false
  | .dbra data => state.d[data] &&& 0xffff = 0
  | _ => True

/-- So many places of the memory from `offset` on -/
def Inside (size offset : UInt32) (n : Nat) : Prop := offset.toNat+n ≤ size.toNat

/-- The operands of an instruction are in the memory, with `pc` behind the opcode. -/
def Operands (state : M68KState) (memory : Memory size) : Instr → Prop
  | .moveq _ _ => True
  | .addq _ _ => True
  | .subq _ _ => True
  | .addByte addrReg _ => Inside size state.a[addrReg] 1
  | .moveByte srcReg dstReg => Inside size state.a[srcReg] 1 ∧ Inside size state.a[dstReg] 1
  | .moveToAbs _ => ∃ address,readBe32 memory state.pc = some address ∧ Inside size address 4
  | .moveFromAbs _ => ∃ address,readBe32 memory state.pc = some address ∧ Inside size address 4
  | .rts => Inside size state.a[7] 4
  | .dbra _ => Inside size state.pc 2

/-! The runner with a look at every index: there is no result where one is outside of the memory. -/

def byteChecked (memory : Memory size) (offset : UInt32) : Option UInt8 := memory[offset.toNat]?

def setChecked (memory : Memory size) (offset : UInt32) (value : UInt8) : Option (Memory size) :=
  if offset < size then some (memory.setIfInBounds offset.toNat value) else none

def readBe16Checked (memory : Memory size) (offset : UInt32) : Option (Option UInt16) :=
  if size < offset ∨ size-offset < 2 then return none
  else do
    let b0 ← byteChecked memory offset
    let b1 ← byteChecked memory (offset+1)
    return some ((b0.toUInt16 <<< 8) ||| b1.toUInt16)

def readU8Checked (memory : Memory size) (offset : UInt32) : Option (Option UInt8) :=
  if size ≤ offset then return none
  else do
    let b ← byteChecked memory offset
    return some b

def writeU8Checked (memory : Memory size) (offset : UInt32) (value : UInt8) :
    Option (Option (Memory size)) :=
  if size ≤ offset then return none
  else do
    let memory ← setChecked memory offset value
    return some memory

def readBe32Checked (memory : Memory size) (offset : UInt32) : Option (Option UInt32) :=
  if size < offset ∨ size-offset < 4 then return none
  else do
    let b0 ← byteChecked memory offset
    let b1 ← byteChecked memory (offset+1)
    let b2 ← byteChecked memory (offset+2)
    let b3 ← byteChecked memory (offset+3)
    return some ((b0.toUInt32 <<< 24) ||| (b1.toUInt32 <<< 16) ||| (b2.toUInt32 <<< 8) |||
      b3.toUInt32)

def writeBe32Checked (memory : Memory size) (offset value : UInt32) :
    Option (Option (Memory size)) :=
  if size < offset ∨ size-offset < 4 then return none
  else do
    let memory ← setChecked memory offset (value >>> 24).toUInt8
    let memory ← setChecked memory (offset+1) (value >>> 16).toUInt8
    let memory ← setChecked memory (offset+2) (value >>> 8).toUInt8
    let memory ← setChecked memory (offset+3) value.toUInt8
    return some memory

def fetchWordChecked (state : M68KState) (memory : Memory size) :
    Option (Option (M68KState × UInt16)) := do
  let word ← readBe16Checked memory state.pc
  return word.map fun opcode => ({state with pc := state.pc+2},opcode)

def fetchLongChecked (state : M68KState) (memory : Memory size) :
    Option (Option (M68KState × UInt32)) := do
  let long ← readBe32Checked memory state.pc
  return long.map fun value => ({state with pc := state.pc+4},value)

def accessChecked {α : Type} (state : M68KState) (o : Option (Option α)) :
    ExceptT M68KState Option α :=
  .mk (o.map (access state))

def executeChecked (state : M68KState) (memory : Memory size) :
    Instr → ExceptT M68KState Option (M68KState × Memory size)
  | .addByte addrReg dataReg => do
    let src ← accessChecked state (readU8Checked memory state.a[addrReg])
    let state := {state with a := state.a.set addrReg (state.a[addrReg]+1)}
    let dst := state.d[dataReg].toUInt8
    let value := dst+src
    let long := (state.d[dataReg] &&& 0xffffff00) ||| value.toUInt32
    return (setAddByteFlags {state with d := state.d.set dataReg long} src dst value,memory)
  | .moveByte srcReg dstReg => do
    let value ← accessChecked state (readU8Checked memory state.a[srcReg])
    let memory ← accessChecked state (writeU8Checked memory state.a[dstReg] value)
    let state := {state with a := state.a.set srcReg (state.a[srcReg]+1)}
    let state := {state with a := state.a.set dstReg (state.a[dstReg]+1)}
    return (setLogicByteFlags state value,memory)
  | .moveToAbs reg => do
    let (state,address) ← accessChecked state (fetchLongChecked state memory)
    let memory ← accessChecked state (writeBe32Checked memory address state.d[reg])
    return (state,memory)
  | .moveFromAbs reg => do
    let (state,address) ← accessChecked state (fetchLongChecked state memory)
    let value ← accessChecked state (readBe32Checked memory address)
    return (setLogicFlags {state with d := state.d.set reg value} value,memory)
  | .rts => do
    let returnPc ← accessChecked state (readBe32Checked memory state.a[7])
    return ({state with a := state.a.set 7 (state.a[7]+4),pc := returnPc},memory)
  | .dbra reg => do
    let (state,displacement) ← accessChecked state (fetchWordChecked state memory)
    let upper := state.d[reg] &&& 0xffff0000
    let counter := ((state.d[reg]-1) &&& 0xffff).toUInt16
    let state := {state with d := state.d.set reg (upper ||| counter.toUInt32)}
    return (if counter ≠ 0xffff then
        {state with pc := state.pc+displacement.toInt16.toInt32.toUInt32}
      else state,memory)
  -- the other branches do not touch the memory
  | instr => .mk (some (execute state memory instr))

def runFromChecked (state : M68KState) (memory : Memory size) (instructions : Nat) :
    Nat → Option (M68KResult size)
  | 0 => some ⟨state,memory,.limit,instructions,0,0⟩
  | left+1 => do
    match ← fetchWordChecked state memory with
    | none => return ⟨state,memory,.oob,instructions,state.pc,0⟩
    | some (next,opcode) =>
      match decode opcode with
      | none => return ⟨state,memory,.illegal,instructions,state.pc,opcode⟩
      | some instr =>
        match ← (executeChecked next memory instr).run with
        | .error faulted => return ⟨faulted,memory,.oob,instructions,state.pc,opcode⟩
        | .ok (next,memory) =>
          if instr = .rts then return ⟨next,memory,.rts,instructions+1,0,0⟩
          else runFromChecked next memory (instructions+1) left

end

end ZZ9K.M68k
