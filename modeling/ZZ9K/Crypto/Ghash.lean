import ZZ9K.Crypto.AesGcm
import ZZ9K.Math.ByteBits

namespace ZZ9K.Crypto

open ZZ9K.Math

section Bits

theorem leNat_testBit (bs : List UInt8) (i : Nat) :
    (leNat bs).testBit i = (bs.getD (i/8) 0).toNat.testBit (i%8) := by
  induction bs generalizing i with
  | nil => simp
  | cons b bs ih =>
    rw [leNat_cons,Nat.add_comm,show (256 : Nat) = 2^8 from rfl,
      Nat.testBit_two_pow_mul_add _ b.toNat_lt]
    split_ifs with hi
    · rw [Nat.div_eq_of_lt hi,Nat.mod_eq_of_lt hi]
      rfl
    · rw [ih,show i/8 = (i-8)/8+1 by omega,show i%8 = (i-8)%8 by omega]
      rfl

/-- The bits of a block are those of its bytes, the highest first. -/
theorem toBlock_getMsbD {bs : List UInt8} (h : bs.length = 16) {i : Nat} (hi : i < 128) :
    (toBlock bs).getMsbD i = (bs.getD (i/8) 0).toNat.testBit (7-i%8) := by
  have hplace : bs.reverse.getD ((128-1-i)/8) 0 = bs.getD (i/8) 0 := by
    rw [List.getD_eq_getElem?_getD,List.getD_eq_getElem?_getD,
      List.getElem?_reverse (by rw [h]; omega),h]
    congr 2
    omega
  rw [BitVec.getMsbD_eq_getLsbD,decide_eq_true hi,Bool.true_and,toBlock,BitVec.getLsbD_ofNat,
    decide_eq_true (by omega),Bool.true_and,beNat,leNat_testBit,hplace,
    show (128-1-i)%8 = 7-i%8 by omega]

theorem toBlock_ext {bs : List UInt8} (h : bs.length = 16) {b : BitVec 128}
    (hbits : ∀ i < 128,(bs.getD (i/8) 0).toNat.testBit (7-i%8) = b.getMsbD i) : toBlock bs = b :=
  BitVec.eq_of_getMsbD_eq fun i hi => (toBlock_getMsbD h hi).trans (hbits i hi)

theorem toBlock_xorBytes {a b : List UInt8} (ha : a.length = 16) (hb : b.length = 16) :
    toBlock (xorBytes 16 a b) = toBlock a ^^^ toBlock b := by
  apply toBlock_ext (xorBytes_length 16 a b)
  intro i hi
  rw [xorBytes_getD (by omega),UInt8.toNat_xor,Nat.testBit_xor,BitVec.getMsbD_xor,
    toBlock_getMsbD ha hi,toBlock_getMsbD hb hi]

theorem blockBytes_toBlock {bs : List UInt8} (h : bs.length = 16) : blockBytes (toBlock bs) = bs := by
  have hlt := beNat_lt bs
  have hbytes := beBytes_beNat bs
  rw [h] at hlt hbytes
  rw [blockBytes,toBlock,BitVec.toNat_ofNat,Nat.mod_eq_of_lt (by omega),hbytes]

theorem toBlock_blockBytes (b : BitVec 128) : toBlock (blockBytes b) = b := by
  rw [blockBytes,toBlock,beNat_beBytes,Nat.mod_eq_of_lt (by have := b.isLt; omega)]
  simp

@[simp] theorem blockBytes_length (b : BitVec 128) : (blockBytes b).length = 16 :=
  beBytes_length 16 _

theorem byte_low_bit (b : UInt8) : b &&& 1 ≠ 0 ↔ b.toNat.testBit 0 := by
  have h := byte_bit b (k := 0) (by decide)
  rw [show b >>> (0 : Nat).toUInt8 = b from UInt8.shiftRight_zero] at h
  exact h

end Bits

section Shift

@[simp] theorem ghashShiftFrom_length (before : UInt8) (bs : List UInt8) :
    (ghashShiftFrom before bs).length = bs.length := by
  induction bs generalizing before with
  | nil => rfl
  | cons b bs ih => simp [ghashShiftFrom,ih]

@[simp] theorem ghashShift_length (bs : List UInt8) : (ghashShift bs).length = bs.length := by
  cases bs <;> simp [ghashShift]

/-- A byte of the shift, with the one before it -/
theorem ghashShiftFrom_getD (before : UInt8) (bs : List UInt8) {i : Nat} (hi : i < bs.length) :
    (ghashShiftFrom before bs).getD i 0 =
      (bs.getD i 0 >>> 1) ||| ((before::bs).getD i 0 <<< 7) := by
  induction bs generalizing before i with
  | nil => exact absurd hi (Nat.not_lt_zero i)
  | cons b bs ih =>
    cases i with
    | zero => rfl
    | succ i => exact ih b (Nat.lt_of_succ_lt_succ hi)

theorem ghashShift_getD (bs : List UInt8) {i : Nat} (hi : i < bs.length) :
    (ghashShift bs).getD i 0 = (bs.getD i 0 >>> 1) ||| ((0::bs).getD i 0 <<< 7) := by
  cases bs with
  | nil => exact absurd hi (Nat.not_lt_zero i)
  | cons b bs =>
    cases i with
    | zero => exact (UInt8.or_zero).symm
    | succ i => exact ghashShiftFrom_getD b bs (Nat.lt_of_succ_lt_succ hi)

/-- The bits of a byte that moves on: its highest is the last of the byte before. -/
theorem shifted_testBit (a b : UInt8) {k : Nat} (hk : k < 8) :
    ((a >>> 1) ||| (b <<< 7)).toNat.testBit k =
      if k = 7 then b.toNat.testBit 0 else a.toNat.testBit (k+1) := by
  have ha := a.toNat_lt
  have hone : (1 : UInt8).toNat%8 = 1 := rfl
  have hseven : (7 : UInt8).toNat%8 = 7 := rfl
  rw [UInt8.toNat_or,UInt8.toNat_shiftRight,UInt8.toNat_shiftLeft,hone,hseven,Nat.testBit_or,
    Nat.testBit_shiftRight,Nat.testBit_mod_two_pow,Nat.testBit_shiftLeft]
  split_ifs with h7
  · have : a.toNat.testBit (1+7) = false := Nat.testBit_lt_two_pow ha
    simp [h7,this]
  · simp [show ¬7 ≤ k by omega,Nat.add_comm 1 k]

theorem toBlock_ghashShift {v : List UInt8} (h : v.length = 16) :
    toBlock (ghashShift v) = toBlock v >>> 1 := by
  apply toBlock_ext (by simp [h])
  intro i hi
  rw [ghashShift_getD _ (by omega),shifted_testBit _ _ (by omega),BitVec.getMsbD_ushiftRight]
  by_cases h0 : i = 0
  · subst h0
    simp
  · rw [toBlock_getMsbD h (by omega)]
    by_cases hbyte : i%8 = 0
    · rw [if_pos (by omega),show i/8 = (i-1)/8+1 by omega,show 7-(i-1)%8 = 0 by omega]
      simp [h0,hi]
    · rw [if_neg (by omega),show (i-1)/8 = i/8 by omega,show 7-(i-1)%8 = 7-i%8+1 by omega]
      simp [h0,hi]

end Shift

section Product

variable {x h : List UInt8}

theorem gcmRule_bytes : toBlock (0xe1::List.replicate 15 0) = gcmRule := by
  decide +kernel

/-- The first byte with the rule in it is the block with the rule in it. -/
theorem set_rule {v : List UInt8} (hv : v.length = 16) :
    toBlock (v.set 0 (v.getD 0 0 ^^^ 0xe1)) = toBlock v ^^^ gcmRule := by
  rw [← gcmRule_bytes,← toBlock_xorBytes hv rfl]
  congr 1
  apply ext_getD (by simp [hv])
  intro i hi
  rw [List.length_set,hv] at hi
  rw [xorBytes_getD hi]
  cases i with
  | zero =>
    obtain ⟨b,bs,rfl⟩ := List.exists_cons_of_length_pos (show 0 < v.length by omega)
    rfl
  | succ i =>
    have hzero : (List.replicate 15 (0 : UInt8)).getD i 0 = 0 := by
      rw [List.getD_eq_getElem _ _ (by rw [List.length_replicate]; omega),List.getElem_replicate]
    rw [List.getD_cons_succ,hzero,UInt8.xor_zero,List.getD_eq_getElem?_getD,
      List.getElem?_set_ne (Nat.succ_ne_zero i).symm,← List.getD_eq_getElem?_getD]

/-- The factor moves on by one place. -/
theorem toBlock_ghashNext {v : List UInt8} (hv : v.length = 16) :
    toBlock (ghashNext v) = shiftMod gcmRule (toBlock v) ∧ (ghashNext v).length = 16 := by
  have hlast : v.getD 15 0 &&& 1 ≠ 0 ↔ (toBlock v).getLsbD 0 = true := by
    have h := toBlock_getMsbD hv (i := 127) (by decide)
    have hlow : (toBlock v).getMsbD 127 = (toBlock v).getLsbD 0 := by
      simp [BitVec.getMsbD_eq_getLsbD]
    rw [byte_low_bit,← hlow,h]
  have hslen : (ghashShift v).length = 16 := by rw [ghashShift_length,hv]
  rw [ghashNext,shiftMod,← toBlock_ghashShift hv]
  by_cases hbit : (toBlock v).getLsbD 0 = true
  · rw [if_pos (hlast.mpr hbit),if_pos hbit]
    exact ⟨set_rule hslen,by rw [List.length_set,hslen]⟩
  · rw [if_neg (mt hlast.mp hbit),if_neg hbit]
    exact ⟨rfl,hslen⟩

/-- A round of the loop is one of the product. -/
theorem ghashMulStep_toBlock (hx : x.length = 16) {z v : List UInt8} (hz : z.length = 16)
    (hv : v.length = 16) {i : Nat} (hi : i < 128) :
    let s := ghashMulStep x (z,v) i
    s.1.length = 16 ∧ s.2.length = 16 ∧
      (toBlock s.1,toBlock s.2) = mulModStep gcmRule (toBlock x) (toBlock z,toBlock v) i := by
  have hand : i &&& 7 = i%8 := Nat.and_two_pow_sub_one_eq_mod i 3
  have hread : (x.getD (i >>> 3) 0 >>> (7-(i &&& 7)).toUInt8) &&& 1 ≠ 0 ↔
      (toBlock x).getMsbD i = true := by
    rw [toBlock_getMsbD hx hi,hand,byte_bit _ (by omega),Nat.shiftRight_eq_div_pow]
  obtain ⟨hnext,hnlen⟩ := toBlock_ghashNext hv
  rw [ghashMulStep,mulModStep]
  dsimp only
  rw [hnext]
  by_cases hbit : (toBlock x).getMsbD i = true
  · rw [if_pos (hread.mpr hbit),if_pos hbit,toBlock_xorBytes hz hv]
    exact ⟨xorBytes_length 16 z v,hnlen,rfl⟩
  · rw [if_neg (mt hread.mp hbit),if_neg hbit]
    exact ⟨hz,hnlen,rfl⟩

/-- After so many rounds -/
theorem ghashMulRounds_toBlock (hx : x.length = 16) (hh : h.length = 16) {k : Nat}
    (hk : k ≤ 128) :
    let s := (List.range k).foldl (ghashMulStep x) (List.replicate 16 0,h)
    s.1.length = 16 ∧ s.2.length = 16 ∧ (toBlock s.1,toBlock s.2) =
      (List.range k).foldl (mulModStep gcmRule (toBlock x)) (0#128,toBlock h) := by
  induction k with
  | zero => exact ⟨rfl,hh,by rw [List.range_zero]; rfl⟩
  | succ k ih =>
    obtain ⟨hz,hv,hrounds⟩ := ih (by omega)
    rw [List.range_succ,List.foldl_append,List.foldl_append,← hrounds]
    exact ghashMulStep_toBlock hx hz hv (by omega)

/-- `zz9k_ghash_mul` is the product of blocks. -/
theorem toBlock_ghashMul (hx : x.length = 16) (hh : h.length = 16) :
    (ghashMul x h).length = 16 ∧
      toBlock (ghashMul x h) = mulMod gcmRule (toBlock x) (toBlock h) := by
  obtain ⟨hlen,-,hrounds⟩ := ghashMulRounds_toBlock hx hh (le_refl 128)
  rw [ghashMul,mulMod,← hrounds]
  exact ⟨hlen,rfl⟩

end Product

section Update

theorem toBlocks_append {as : List UInt8} (h : as.length%16 = 0) (bs : List UInt8) :
    toBlocks (as++bs) = toBlocks as++toBlocks bs := by
  obtain ⟨q,hq⟩ := Nat.dvd_of_mod_eq_zero h
  have hdiv : (16*q+bs.length)/16 = q+bs.length/16 := by omega
  rw [toBlocks,toBlocks,toBlocks,List.length_append,hq,hdiv,Nat.mul_div_cancel_left q (by decide),
    List.range_add,List.map_append,List.map_map]
  congr 1
  · refine List.map_congr_left fun i hi => ?_
    have := List.mem_range.mp hi
    rw [List.drop_append_of_le_length (by omega),List.take_append_of_le_length (by simp; omega)]
  · refine List.map_congr_left fun i _ => ?_
    rw [Function.comp_apply,Nat.mul_add,← hq,← List.drop_drop,List.drop_left]

theorem toBlocks_block {block : List UInt8} (h : block.length = 16) :
    toBlocks block = [toBlock block] := by
  rw [toBlocks,h,Nat.div_self (by decide),List.range_one,List.map_singleton,List.drop_zero,
    List.take_of_length_le (by rw [h])]

@[simp] theorem pad16_nil : pad16 [] = [] := rfl

/-- The block that is taken off the head, and what is left -/
theorem pad16_block {data : List UInt8} (h : 0 < data.length) :
    pad16 data = ghashBlock data++pad16 (data.drop (min data.length 16)) := by
  by_cases hfull : 16 ≤ data.length
  · have hblock : ghashBlock data = data.take 16 := by
      apply ext_getD (by simp [ghashBlock,hfull])
      intro i hi
      have hlt : i < 16 := by simpa [ghashBlock] using hi
      simp [ghashBlock,List.getD_eq_getElem?_getD,hlt,hfull,show i < data.length by omega]
    have hmod : (data.length-16)%16 = data.length%16 := by omega
    rw [hblock,Nat.min_eq_right hfull,pad16,pad16,List.length_drop,hmod,← List.append_assoc,
      List.take_append_drop]
  · have hmod : data.length%16 = data.length := Nat.mod_eq_of_lt (by omega)
    have hzeros : (16-data.length)%16 = 16-data.length := Nat.mod_eq_of_lt (by omega)
    rw [Nat.min_eq_left (by omega),List.drop_length,pad16_nil,List.append_nil,pad16,hmod,hzeros]
    apply ext_getD (by simp [ghashBlock]; omega)
    intro i hi
    have hlt : i < 16 := by
      rw [List.length_append,List.length_replicate] at hi
      omega
    by_cases hin : i < data.length
    · rw [List.getD_append _ _ _ _ hin]
      simp [ghashBlock,List.getD_eq_getElem?_getD,hlt,hin]
    · rw [List.getD_append_right _ _ _ _ (by omega),
        List.getD_eq_getElem _ _ (by rw [List.length_replicate]; omega),List.getElem_replicate]
      simp [ghashBlock,List.getD_eq_getElem?_getD,hlt,hin]

/-- `zz9k_ghash_update` goes on with the blocks of its data, padded. -/
theorem toBlock_ghashUpdate {y h : List UInt8} (hy : y.length = 16) (hh : h.length = 16)
    (data : List UInt8) : (ghashUpdate y h data).length = 16 ∧
      toBlock (ghashUpdate y h data) = (toBlocks (pad16 data)).foldl
        (fun y x => mulMod gcmRule (y ^^^ x) (toBlock h)) (toBlock y) := by
  induction hn : data.length using Nat.strong_induction_on generalizing y data with
  | _ n ih =>
    rw [ghashUpdate]
    split_ifs with hpos
    · have hblock : (ghashBlock data).length = 16 := by simp [ghashBlock]
      have hxor := xorBytes_length 16 y (ghashBlock data)
      obtain ⟨hmul,hprod⟩ := toBlock_ghashMul hxor hh
      obtain ⟨hlen,hfold⟩ := ih _ (by simp; omega) hmul (data.drop (min data.length 16)) rfl
      refine ⟨hlen,?_⟩
      rw [hfold,hprod,toBlock_xorBytes hy hblock,pad16_block hpos,
        toBlocks_append (by rw [hblock]),toBlocks_block hblock]
      rfl
    · obtain rfl := List.length_eq_zero_iff.mp (show data.length = 0 by omega)
      exact ⟨hy,rfl⟩

end Update

section Field

/-- The second place -/
def gcmRoot : BitVec 128 := 1#128 <<< 126

/-- The root after 64 squarings -/
def gcmHalfway : BitVec 128 := 0x6f9945a9e519a7229d4c1ad657f8a686

/-- One over the difference of that from the root -/
def gcmUnit : BitVec 128 := 0x180da934bf53158251c13dbb149f5279

theorem gcmRoot_squarings :
    (fun v => mulMod gcmRule v v)^[2^6] gcmRoot = gcmHalfway := by
  decide +kernel

theorem gcmHalfway_squarings :
    (fun v => mulMod gcmRule v v)^[2^6] gcmHalfway = gcmRoot := by
  decide +kernel

theorem gcmUnit_mul : mulMod gcmRule (gcmHalfway ^^^ gcmRoot) gcmUnit = 1#128 <<< 127 := by
  decide +kernel

theorem gcm_irreducible : Irreducible (modulus gcmRule) := by
  have hroot : toRing gcmRule gcmRoot = AdjoinRoot.root (modulus gcmRule) := toRing_root gcmRule
  have hhalf : AdjoinRoot.root (modulus gcmRule)^2^2^6 = toRing gcmRule gcmHalfway := by
    rw [← hroot,← gcmRoot_squarings,toRing_squarings]
  have hback : toRing gcmRule gcmHalfway^2^2^6 = AdjoinRoot.root (modulus gcmRule) := by
    rw [← hroot,← gcmHalfway_squarings,toRing_squarings]
  refine irreducible_of_squarings (k := 6) (modulus_monic gcmRule) (modulus_natDegree gcmRule) ?_ ?_
  · rw [pow_succ 2 6,mul_two,pow_add 2,pow_mul,hhalf,hback]
  · refine IsUnit.of_mul_eq_one (toRing gcmRule gcmUnit) ?_
    have hsub : toRing gcmRule gcmHalfway-AdjoinRoot.root (modulus gcmRule) =
        toRing gcmRule (gcmHalfway ^^^ gcmRoot) := by
      rw [toRing_xor,hroot,sub_eq_iff_eq_add,add_assoc,adjoinRoot_add_self,add_zero]
    rw [hhalf,hsub,← toRing_mulMod,gcmUnit_mul]
    exact toRing_one gcmRule

end Field

end ZZ9K.Crypto
