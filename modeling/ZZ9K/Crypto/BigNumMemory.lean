import ZZ9K.Crypto.BigNumMod
import ZZ9K.Framework.Cells

namespace ZZ9K.Crypto

open ZZ9K.Framework ZZ9K.Math

/-- The arrays of limbs: the caller's memory, and the local ones of `bn_mulmod` (`prod`), of `bn_mod`
(`acc` and `mm`) and of `bn_modexp` (`power` for its `acc`, and `base` for its `b`) -/
inductive BnArray
  | caller
  | prod
  | acc
  | mm
  | power
  | base
  deriving DecidableEq

/-- How many limbs a local array has -/
def BnArray.size : BnArray → Nat
  | .caller => 0
  | .prod => 2*bnMaxLimbs
  | .acc => bnMaxLimbs+1
  | .mm => bnMaxLimbs+1
  | .power => bnMaxLimbs
  | .base => bnMaxLimbs

/-- A limb of an array -/
abbrev BnPlace := BnArray × Nat

abbrev BnMemory := BnPlace → UInt32

/-- A pointer to limbs -/
structure BnPtr where
  array : BnArray
  offset : Nat

/-- `p[i]` -/
def BnPtr.place (p : BnPtr) (i : Nat) : BnPlace := (p.array,p.offset+i)

/-- The `n` limbs from a pointer on -/
def bnAt (mem : BnMemory) (p : BnPtr) (n : Nat) : Bn := (List.range n).map fun i => mem (p.place i)

section

variable (mem : BnMemory)

/-- The last loop of `bn_mod` and of `bn_modexp`, and the first of the latter -/
def bnCopyAt (r a : BnPtr) (n : Nat) : BnMemory :=
  (sweep r.place (fun i mem (_ : Unit) => mem (a.place i)) (fun _ _ s => s) 0 n mem ()).1

/-- A loop that clears -/
def bnClearAt (r : BnPtr) (n : Nat) : BnMemory :=
  (sweep r.place (fun _ _ (_ : Unit) => 0) (fun _ _ s => s) 0 n mem ()).1

/-- `bn_sub`, without the borrow out -/
def bnSubAt (r a b : BnPtr) (len : Nat) : BnMemory :=
  (sweep r.place
    (fun i mem borrow => ((mem (a.place i)).toUInt64-(mem (b.place i)).toUInt64-
      UInt32.toUInt64 borrow).toUInt32)
    (fun i mem borrow => ((((mem (a.place i)).toUInt64-(mem (b.place i)).toUInt64-
      UInt32.toUInt64 borrow) >>> 32) &&& 1).toUInt32)
    0 len mem 0).1

/-- The inner loop of `bn_mul` in round `i`, and its last carry -/
def bnMulRowAt (r a b : BnPtr) (len i : Nat) : BnMemory × UInt64 :=
  sweep (fun j => r.place (i+j))
    (fun j mem carry => (carry+((mem (a.place i)).toUInt64*(mem (b.place j)).toUInt64+
      (mem (r.place (i+j))).toUInt64)).toUInt32)
    (fun j mem carry => (carry+((mem (a.place i)).toUInt64*(mem (b.place j)).toUInt64+
      (mem (r.place (i+j))).toUInt64)) >>> 32)
    0 len mem 0

/-- The outer loop of `bn_mul`, from round `i` on -/
def bnMulLoopAt (r a b : BnPtr) (len : Nat) : Nat → Nat → BnMemory → BnMemory
  | _,0,mem => mem
  | i,n+1,mem =>
    let (mem,carry) := bnMulRowAt mem r a b len i
    bnMulLoopAt r a b len (i+1) n (Function.update mem (r.place (i+len)) carry.toUInt32)

/-- `bn_mul` -/
def bnMulAt (r a b : BnPtr) (len : Nat) : BnMemory :=
  bnMulLoopAt r a b len 0 len (bnClearAt mem r (2*len))

/-- The shift of `bn_mod`, and the bit that leaves the highest limb -/
def bnShlAt (acc : BnPtr) (n : Nat) : BnMemory × UInt32 :=
  sweep acc.place (fun k mem carry => (mem (acc.place k) <<< 1) ||| carry)
    (fun k mem _ => mem (acc.place k) >>> 31) 0 n mem 0

/-- The first loop of `bn_mod` on `mm`; what it does on `acc` is `bnClearAt`. -/
def bnExtendAt (mm m : BnPtr) (n : Nat) : BnMemory :=
  (sweep mm.place (fun i mem (_ : Unit) => if i < n then mem (m.place i) else 0) (fun _ _ s => s)
    0 (n+1) mem ()).1

/-- `acc` and `mm` of `bn_mod` -/
def modAcc : BnPtr := ⟨.acc,0⟩

def modModulus : BnPtr := ⟨.mm,0⟩

/-- One round of `bn_mod`, and whether `acc` overflows in it -/
def bnModStepAt (bit : Bool) (n : Nat) : BnMemory × Bool :=
  let (mem,carry) := bnShlAt mem modAcc (n+1)
  let mem := Function.update mem (modAcc.place 0)
    (mem (modAcc.place 0) ||| if bit then 1 else 0)
  let mem :=
    if bnCmp (bnAt mem modAcc (n+1)) (bnAt mem modModulus (n+1)) ≠ .lt then
      bnSubAt mem modAcc modAcc modModulus (n+1)
    else mem
  (mem,carry ≠ 0)

/-- The rounds of `bn_mod`, and whether `acc` overflows in one of them -/
def bnModLoopAt (x : BnPtr) (xlen n : Nat) : Nat → BnMemory → BnMemory × Bool
  | 0,mem => (mem,false)
  | i+1,mem =>
    let (mem,spills) := bnModStepAt mem (bnBit (bnAt mem x xlen) i) n
    let (mem,later) := bnModLoopAt x xlen n i mem
    (mem,spills || later)

/-- `bn_mod`, and whether `acc` overflows -/
def bnModAt (r x : BnPtr) (xlen : Nat) (m : BnPtr) (n : Nat) : BnMemory × Bool :=
  let bits := bnBitlen (bnAt mem x xlen)
  let mem := bnClearAt mem modAcc (n+1)
  let mem := bnExtendAt mem modModulus m n
  let (mem,spills) := bnModLoopAt x xlen n bits mem
  (bnCopyAt mem r modAcc n,spills)

/-- `prod` of `bn_mulmod` -/
def mulmodProd : BnPtr := ⟨.prod,0⟩

/-- `bn_mulmod` -/
def bnMulmodAt (r a b m : BnPtr) (n : Nat) : BnMemory :=
  (bnModAt (bnMulAt mem mulmodProd a b n) r mulmodProd (2*n) m n).1

/-- `acc` and `b` of `bn_modexp` -/
def modexpPower : BnPtr := ⟨.power,0⟩

def modexpBase : BnPtr := ⟨.base,0⟩

/-- The rounds of `bn_modexp` -/
def bnModexpLoopAt (exp : BnPtr) (explimbs : Nat) (m : BnPtr) (n : Nat) :
    Nat → BnMemory → BnMemory
  | 0,mem => mem
  | i+1,mem =>
    let mem := bnMulmodAt mem modexpPower modexpPower modexpPower m n
    let mem :=
      if bnBit (bnAt mem exp explimbs) i then
        bnMulmodAt mem modexpPower modexpPower modexpBase m n
      else mem
    bnModexpLoopAt exp explimbs m n i mem

/-- `bn_modexp` -/
def bnModexpAt (r base exp : BnPtr) (ebits : Nat) (m : BnPtr) (n : Nat) : BnMemory :=
  let explimbs := (ebits+31)/32
  let mem := bnClearAt mem modexpPower n
  let mem := bnCopyAt mem modexpBase base n
  let mem := Function.update mem (modexpPower.place 0) 1
  let mem := (bnModAt mem modexpBase modexpBase n m n).1
  let mem := bnModexpLoopAt exp explimbs m n ebits mem
  bnCopyAt mem r modexpPower n

end

end ZZ9K.Crypto
