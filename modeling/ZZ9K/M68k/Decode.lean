import ZZ9K.M68k.Runner
import Mathlib.Tactic.IntervalCases

namespace ZZ9K.M68k

/-- A masked comparison fixes the bits under the mask. -/
theorem bit_of_mask {w m c : BitVec 16} (h : w &&& m = c) (i : Nat) (hm : m.getLsbD i = true) :
    w.getLsbD i = c.getLsbD i := by
  rw [← h,BitVec.getLsbD_and,hm,Bool.and_true]

theorem field_registerField (opcode shift : UInt16) (h : shift.toNat < 16) :
    field (registerField opcode shift) = opcode.toBitVec.extractLsb' shift.toNat 3 := by
  apply BitVec.eq_of_toNat_eq
  have hand := Nat.and_two_pow_sub_one_eq_mod (opcode.toNat >>> shift.toNat) 3
  simp [field,registerField,BitVec.extractLsb'_toNat,UInt16.toNat_and,UInt16.toNat_shiftRight,
    Nat.mod_eq_of_lt h,hand]

theorem toBitVec_of_mask {opcode m c : UInt16} (h : opcode &&& m = c) :
    opcode.toBitVec &&& m.toBitVec = c.toBitVec := by
  rw [← h,UInt16.toBitVec_and]

theorem toBitVec_toUInt8 (opcode : UInt16) :
    opcode.toUInt8.toBitVec = opcode.toBitVec.extractLsb' 0 8 := rfl

/-- One bit of a word, by a mask with just that bit -/
theorem and_bit {w k : Nat} (x : BitVec w) (hk : k < w) :
    x &&& BitVec.twoPow w k ≠ 0 ↔ x.getLsbD k = true := by
  rw [BitVec.and_twoPow]
  cases x.getLsbD k
  · simp
  · simp only [if_true,iff_true]
    intro hzero
    have hbit := congrArg (fun v => v.getLsbD k) hzero
    simp [hk] at hbit

theorem bit8_of_mask {opcode : UInt16} (h : opcode &&& 0x0100 ≠ 0) :
    opcode.toBitVec.getLsbD 8 = true := by
  apply (and_bit opcode.toBitVec (by decide)).mp
  intro hzero
  apply h
  apply UInt16.toBitVec_inj.mp
  rw [UInt16.toBitVec_and]
  exact hzero

/-- What the runner takes for an instruction is that instruction. -/
theorem encode_of_decode {opcode : UInt16} {instr : Instr} (h : decode opcode = some instr) :
    encode instr = opcode.toBitVec := by
  have h9 := field_registerField opcode 9 (by decide)
  have h0 := field_registerField opcode 0 (by decide)
  have hshift9 : (9 : UInt16).toNat = 9 := rfl
  have hshift0 : (0 : UInt16).toNat = 0 := rfl
  rw [hshift9] at h9
  rw [hshift0] at h0
  unfold decode at h
  apply BitVec.eq_of_getLsbD_eq
  intro i hi
  split_ifs at h with hmoveq hquick hsub hadd hmove hto hfrom hrts hdbra
  · have hbit := bit_of_mask (toBitVec_of_mask hmoveq) i
    rw [← Option.some.inj h,encode,h9,toBitVec_toUInt8]
    simp only [BitVec.getLsbD_append,BitVec.getLsbD_extractLsb'] at hbit ⊢
    interval_cases i <;> simp_all
  · have hbit := bit_of_mask (toBitVec_of_mask hquick.1) i
    have hmode := bit_of_mask (toBitVec_of_mask hquick.2) (i-3)
    have h8 := bit8_of_mask hsub
    rw [← Option.some.inj h,encode,h9,h0]
    simp only [BitVec.getLsbD_append,BitVec.getLsbD_extractLsb',UInt16.toBitVec_shiftRight]
      at hbit hmode ⊢
    clear h h9 h0 hquick hsub
    interval_cases i <;> simp_all
  · have hbit := bit_of_mask (toBitVec_of_mask hquick.1) i
    have hmode := bit_of_mask (toBitVec_of_mask hquick.2) (i-3)
    have h8 := bit_of_mask (toBitVec_of_mask (not_not.mp hsub)) i
    rw [← Option.some.inj h,encode,h9,h0]
    simp only [BitVec.getLsbD_append,BitVec.getLsbD_extractLsb',UInt16.toBitVec_shiftRight]
      at hbit hmode h8 ⊢
    clear h h9 h0 hquick hsub
    interval_cases i <;> simp_all
  · have hbit := bit_of_mask (toBitVec_of_mask hadd) i
    rw [← Option.some.inj h,encode,h9,h0]
    simp only [BitVec.getLsbD_append,BitVec.getLsbD_extractLsb'] at hbit ⊢
    interval_cases i <;> simp_all
  · have hbit := bit_of_mask (toBitVec_of_mask hmove) i
    rw [← Option.some.inj h,encode,h9,h0]
    simp only [BitVec.getLsbD_append,BitVec.getLsbD_extractLsb'] at hbit ⊢
    interval_cases i <;> simp_all
  · have hbit := bit_of_mask (toBitVec_of_mask hto) i
    rw [← Option.some.inj h,encode,h0]
    simp only [BitVec.getLsbD_append,BitVec.getLsbD_extractLsb'] at hbit ⊢
    interval_cases i <;> simp_all
  · have hbit := bit_of_mask (toBitVec_of_mask hfrom) i
    rw [← Option.some.inj h,encode,h9]
    simp only [BitVec.getLsbD_append,BitVec.getLsbD_extractLsb'] at hbit ⊢
    interval_cases i <;> simp_all
  · rw [← Option.some.inj h,hrts]
    rfl
  · have hbit := bit_of_mask (toBitVec_of_mask hdbra) i
    rw [← Option.some.inj h,encode,h0]
    simp only [BitVec.getLsbD_append,BitVec.getLsbD_extractLsb'] at hbit ⊢
    interval_cases i <;> simp_all

theorem field_injective {r s : Fin 8} (h : field r = field s) : r = s := by
  apply Fin.ext
  exact congrArg BitVec.toNat h

/-- The runner knows every instruction by its opcode word. -/
theorem decode_encode (instr : Instr) : decode (UInt16.ofBitVec (encode instr)) = some instr := by
  cases instr with
  | moveq data immediate =>
    have h9 := field_registerField (UInt16.ofBitVec (encode (.moveq data immediate)))
      9 (by decide)
    have hmask : UInt16.ofBitVec (encode (.moveq data immediate)) &&& 0xf100 = 0x7000 := by
      apply UInt16.toBitVec_inj.mp
      apply BitVec.eq_of_getLsbD_eq
      intro i hi
      simp only [UInt16.toBitVec_and,encode,BitVec.getLsbD_and,BitVec.getLsbD_append]
      interval_cases i <;> simp
    have hdata : registerField (UInt16.ofBitVec (encode (.moveq data immediate))) 9 = data := by
      apply field_injective
      rw [h9]
      apply BitVec.eq_of_getLsbD_eq
      intro i hi
      simp only [encode,BitVec.getLsbD_extractLsb',BitVec.getLsbD_append]
      interval_cases i <;> simp
    have himm : (UInt16.ofBitVec (encode (.moveq data immediate))).toUInt8.toBitVec =
        immediate := by
      rw [toBitVec_toUInt8]
      apply BitVec.eq_of_getLsbD_eq
      intro i hi
      simp only [encode,BitVec.getLsbD_extractLsb',BitVec.getLsbD_append]
      interval_cases i <;> simp
    rw [decode,if_pos hmask,hdata,himm]
  | addq quick data => revert quick data; decide +kernel
  | subq quick data => revert quick data; decide +kernel
  | addByte addr data => revert addr data; decide +kernel
  | moveByte source dest => revert source dest; decide +kernel
  | moveToAbs data => revert data; decide +kernel
  | moveFromAbs data => revert data; decide +kernel
  | rts => rfl
  | dbra data => revert data; decide +kernel

theorem encode_injective {i j : Instr} (h : encode i = encode j) : i = j := by
  apply Option.some.inj
  rw [← decode_encode i,← decode_encode j,h]

end ZZ9K.M68k
