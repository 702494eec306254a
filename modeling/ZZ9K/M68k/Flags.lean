import ZZ9K.M68k.Decode

namespace ZZ9K.M68k

theorem flag_eq (state : M68KState) {mask : UInt16} {k : Nat} (hk : k < 16)
    (hmask : mask.toBitVec = BitVec.twoPow 16 k) :
    state.flag mask = state.sr.toBitVec.getLsbD k := by
  apply Bool.eq_iff_iff.mpr
  rw [M68KState.flag,bne_iff_ne,← and_bit _ hk,← hmask,← UInt16.toBitVec_and]
  exact not_congr UInt16.toBitVec_inj.symm

theorem flag_x (state : M68KState) : state.flag ccrX = state.sr.toBitVec.getLsbD 4 :=
  flag_eq state (by decide) rfl

theorem flag_n (state : M68KState) : state.flag ccrN = state.sr.toBitVec.getLsbD 3 :=
  flag_eq state (by decide) rfl

theorem flag_z (state : M68KState) : state.flag ccrZ = state.sr.toBitVec.getLsbD 2 :=
  flag_eq state (by decide) rfl

theorem flag_v (state : M68KState) : state.flag ccrV = state.sr.toBitVec.getLsbD 1 :=
  flag_eq state (by decide) rfl

theorem flag_c (state : M68KState) : state.flag ccrC = state.sr.toBitVec.getLsbD 0 :=
  flag_eq state (by decide) rfl

/-- The sign of a long word -/
theorem sign32 (value : UInt32) : value &&& 0x80000000 ≠ 0 ↔ value.toBitVec.msb = true := by
  rw [BitVec.msb_eq_getLsbD_last,← and_bit value.toBitVec (by decide),ne_eq,ne_eq,
    ← UInt32.toBitVec_inj,UInt32.toBitVec_and]
  rfl

/-- The sign of a byte -/
theorem sign8 (value : UInt8) : value &&& 0x80 ≠ 0 ↔ value.toBitVec.msb = true := by
  rw [BitVec.msb_eq_getLsbD_last,← and_bit value.toBitVec (by decide),ne_eq,ne_eq,
    ← UInt8.toBitVec_inj,UInt8.toBitVec_and]
  rfl

theorem zero32 (value : UInt32) : (value.toBitVec == 0) = (value == 0) := by
  apply Bool.eq_iff_iff.mpr
  rw [beq_iff_eq,beq_iff_eq,← UInt32.toBitVec_inj]
  rfl

theorem zero8 (value : UInt8) : (value.toBitVec == 0) = (value == 0) := by
  apply Bool.eq_iff_iff.mpr
  rw [beq_iff_eq,beq_iff_eq,← UInt8.toBitVec_inj]
  rfl

/-- The five condition codes of a machine are those of a status register. -/
structure FlagsMatch (state : M68KState) (m : Machine) : Prop where
  x : m.x = state.flag ccrX
  n : m.n = state.flag ccrN
  z : m.z = state.flag ccrZ
  v : m.v = state.flag ccrV
  c : m.c = state.flag ccrC

/-- The status register after `setLogicFlags` and `setLogicByteFlags` -/
def logicSr (sr : UInt16) (zero sign : Bool) : UInt16 :=
  let sr := sr &&& ~~~(ccrN ||| ccrZ ||| ccrV ||| ccrC)
  let sr := if zero then sr ||| ccrZ else sr
  if sign then sr ||| ccrN else sr

theorem logicSr_bits (sr : UInt16) (zero sign : Bool) :
    (logicSr sr zero sign).toBitVec.getLsbD 4 = sr.toBitVec.getLsbD 4 ∧
      (logicSr sr zero sign).toBitVec.getLsbD 3 = sign ∧
      (logicSr sr zero sign).toBitVec.getLsbD 2 = zero ∧
      (logicSr sr zero sign).toBitVec.getLsbD 1 = false ∧
      (logicSr sr zero sign).toBitVec.getLsbD 0 = false := by
  cases zero <;> cases sign <;>
    simp [logicSr,ccrN,ccrZ,ccrV,ccrC]

theorem setLogicFlags_eq (state : M68KState) (value : UInt32) : setLogicFlags state value =
    {state with sr := logicSr state.sr (value == 0) value.toBitVec.msb} := by
  have hsign := sign32 value
  rw [setLogicFlags,logicSr]
  by_cases hz : value = 0
  · subst hz
    rfl
  · have hzero : (value == 0) = false := beq_eq_false_iff_ne.mpr hz
    simp only [hsign,hzero,if_neg hz,Bool.false_eq_true,if_false]

theorem setLogicByteFlags_eq (state : M68KState) (value : UInt8) : setLogicByteFlags state value =
    {state with sr := logicSr state.sr (value == 0) value.toBitVec.msb} := by
  have hsign := sign8 value
  rw [setLogicByteFlags,logicSr]
  by_cases hz : value = 0
  · subst hz
    rfl
  · have hzero : (value == 0) = false := beq_eq_false_iff_ne.mpr hz
    simp only [hsign,hzero,if_neg hz,Bool.false_eq_true,if_false]

theorem FlagsMatch.logic {state state' : M68KState} {m : Machine} {w : Nat} {value : BitVec w}
    (h : FlagsMatch state m) (hsr : state'.sr = logicSr state.sr (value == 0) value.msb)
    (m' : Machine) (hx : m'.x = m.x) : FlagsMatch state' (m'.moved value) := by
  obtain ⟨hbx,hbn,hbz,hbv,hbc⟩ := logicSr_bits state.sr (value == 0) value.msb
  rw [← hsr] at hbx hbn hbz hbv hbc
  refine ⟨?_,?_,?_,?_,?_⟩
  · rw [flag_x,hbx,← flag_x,← h.x]
    exact hx
  · rw [flag_n,hbn]
    rfl
  · rw [flag_z,hbz]
    rfl
  · rw [flag_v,hbv]
    rfl
  · rw [flag_c,hbc]
    rfl

/-- The flags word of the three arithmetic functions -/
def arithFlags (zero sign overflow carry : Bool) : UInt16 :=
  let flags := if zero then ccrZ else 0
  let flags := if sign then flags ||| ccrN else flags
  let flags := if overflow then flags ||| ccrV else flags
  if carry then flags ||| (ccrC ||| ccrX) else flags

theorem arithFlags_bits (state : M68KState) (zero sign overflow carry : Bool) :
    let sr := (replaceFlags state (arithFlags zero sign overflow carry)).sr.toBitVec
    sr.getLsbD 4 = carry ∧ sr.getLsbD 3 = sign ∧ sr.getLsbD 2 = zero ∧
      sr.getLsbD 1 = overflow ∧ sr.getLsbD 0 = carry := by
  cases zero <;> cases sign <;> cases overflow <;> cases carry <;>
    simp [replaceFlags,arithFlags,ccrX,ccrN,ccrZ,ccrV,ccrC]

/-- The overflow of a sum, from the signs -/
theorem overflow32 (src dst : UInt32) :
    (~~~(dst ^^^ src) &&& (dst ^^^ (dst+src))).toBitVec.msb = true ↔
      dst.toBitVec.saddOverflow src.toBitVec = true := by
  rw [BitVec.saddOverflow_eq,UInt32.toBitVec_and,UInt32.toBitVec_not,UInt32.toBitVec_xor,
    UInt32.toBitVec_xor,UInt32.toBitVec_add,BitVec.msb_and,BitVec.msb_not,BitVec.msb_xor,
    BitVec.msb_xor]
  generalize dst.toBitVec.msb = p
  generalize src.toBitVec.msb = q
  generalize (dst.toBitVec+src.toBitVec).msb = r
  revert p q r
  decide

theorem overflow8 (src dst : UInt8) :
    (~~~(dst ^^^ src) &&& (dst ^^^ (dst+src))).toBitVec.msb = true ↔
      dst.toBitVec.saddOverflow src.toBitVec = true := by
  rw [BitVec.saddOverflow_eq,UInt8.toBitVec_and,UInt8.toBitVec_not,UInt8.toBitVec_xor,
    UInt8.toBitVec_xor,UInt8.toBitVec_add,BitVec.msb_and,BitVec.msb_not,BitVec.msb_xor,
    BitVec.msb_xor]
  generalize dst.toBitVec.msb = p
  generalize src.toBitVec.msb = q
  generalize (dst.toBitVec+src.toBitVec).msb = r
  revert p q r
  decide

/-- The overflow of a difference -/
theorem underflow32 (src dst : UInt32) :
    ((dst ^^^ src) &&& (dst ^^^ (dst-src))).toBitVec.msb = true ↔
      dst.toBitVec.ssubOverflow src.toBitVec = true := by
  rw [BitVec.ssubOverflow_eq,UInt32.toBitVec_and,UInt32.toBitVec_xor,
    UInt32.toBitVec_xor,UInt32.toBitVec_sub,BitVec.msb_and,BitVec.msb_xor,BitVec.msb_xor]
  generalize dst.toBitVec.msb = p
  generalize src.toBitVec.msb = q
  generalize (dst.toBitVec-src.toBitVec).msb = r
  revert p q r
  decide

/-- A sum of long words that carries is below either of them. -/
theorem carry32 (src dst : UInt32) :
    dst+src < dst ↔ dst.toBitVec.uaddOverflow src.toBitVec = true := by
  have hd := dst.toNat_lt
  have hs := src.toNat_lt
  rw [UInt32.lt_iff_toNat_lt,UInt32.toNat_add,BitVec.uaddOverflow,decide_eq_true_iff,
    UInt32.toNat_toBitVec,UInt32.toNat_toBitVec]
  omega

theorem carry8 (src dst : UInt8) :
    0xff < dst.toUInt32+src.toUInt32 ↔ dst.toBitVec.uaddOverflow src.toBitVec = true := by
  have hd := dst.toNat_lt
  have hs := src.toNat_lt
  rw [UInt32.lt_iff_toNat_lt,UInt32.toNat_add,BitVec.uaddOverflow,decide_eq_true_iff,
    UInt8.toNat_toBitVec,UInt8.toNat_toBitVec,UInt8.toNat_toUInt32,UInt8.toNat_toUInt32,
    show (0xff : UInt32).toNat = 255 from rfl]
  omega

theorem borrow32 (src dst : UInt32) :
    dst < src ↔ dst.toBitVec.usubOverflow src.toBitVec = true := by
  rw [UInt32.lt_iff_toNat_lt,BitVec.usubOverflow,decide_eq_true_iff]
  rfl

theorem setAddFlags_eq (state : M68KState) (src dst : UInt32) :
    setAddFlags state src dst (dst+src) = replaceFlags state (arithFlags (dst+src == 0)
      (dst+src).toBitVec.msb (dst.toBitVec.saddOverflow src.toBitVec)
      (dst.toBitVec.uaddOverflow src.toBitVec)) := by
  simp only [setAddFlags,arithFlags,sign32,overflow32,carry32,beq_iff_eq]

theorem setAddByteFlags_eq (state : M68KState) (src dst : UInt8) :
    setAddByteFlags state src dst (dst+src) = replaceFlags state (arithFlags (dst+src == 0)
      (dst+src).toBitVec.msb (dst.toBitVec.saddOverflow src.toBitVec)
      (dst.toBitVec.uaddOverflow src.toBitVec)) := by
  simp only [setAddByteFlags,arithFlags,sign8,overflow8,carry8,beq_iff_eq]

theorem setSubFlags_eq (state : M68KState) (src dst : UInt32) :
    setSubFlags state src dst (dst-src) = replaceFlags state (arithFlags (dst-src == 0)
      (dst-src).toBitVec.msb (dst.toBitVec.ssubOverflow src.toBitVec)
      (dst.toBitVec.usubOverflow src.toBitVec)) := by
  simp only [setSubFlags,arithFlags,sign32,underflow32,borrow32,beq_iff_eq]

theorem FlagsMatch.replaced {state state' : M68KState} {zero sign overflow carry : Bool}
    {m : Machine} (hsr : state'.sr = (replaceFlags state (arithFlags zero sign overflow carry)).sr)
    (hx : m.x = carry) (hn : m.n = sign) (hz : m.z = zero) (hv : m.v = overflow)
    (hc : m.c = carry) : FlagsMatch state' m := by
  obtain ⟨hbx,hbn,hbz,hbv,hbc⟩ := arithFlags_bits state zero sign overflow carry
  rw [← hsr] at hbx hbn hbz hbv hbc
  refine ⟨?_,?_,?_,?_,?_⟩
  · rw [flag_x,hbx,hx]
  · rw [flag_n,hbn,hn]
  · rw [flag_z,hbz,hz]
  · rw [flag_v,hbv,hv]
  · rw [flag_c,hbc,hc]

end ZZ9K.M68k
