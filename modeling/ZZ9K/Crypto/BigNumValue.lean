import ZZ9K.Crypto.BigNum
import ZZ9K.Crypto.Poly1305Tag
import Mathlib.Tactic.Ring
import Mathlib.Tactic.LinearCombination

namespace ZZ9K.Crypto

open ZZ9K.Math

/-- The number that limbs stand for -/
def bnNat (a : Bn) : Nat := Nat.ofDigits (2^32) (a.map UInt32.toNat)

@[simp] theorem bnNat_nil : bnNat [] = 0 := rfl

@[simp] theorem bnNat_cons (a : UInt32) (as : Bn) : bnNat (a::as) = a.toNat+2^32*bnNat as := by
  simp [bnNat,Nat.ofDigits_cons]

theorem bnNat_append (as bs : Bn) : bnNat (as++bs) = bnNat as+2^(32*as.length)*bnNat bs := by
  simp [bnNat,Nat.ofDigits_append,pow_mul]

theorem bnNat_lt (a : Bn) : bnNat a < 2^(32*a.length) := by
  induction a with
  | nil => simp
  | cons a as ih =>
    have ha := a.toNat_lt
    rw [bnNat_cons,List.length_cons,Nat.mul_succ,pow_add]
    omega

@[simp] theorem bnNat_replicate (n : Nat) : bnNat (List.replicate n 0) = 0 := by
  induction n with
  | zero => rfl
  | succ n ih => simp [List.replicate_succ,ih]

/-- The lowest limbs keep the number below their bound. -/
theorem bnNat_take (a : Bn) (n : Nat) : bnNat (a.take n) = bnNat a%2^(32*n) := by
  induction n generalizing a with
  | zero => simp [Nat.mod_one]
  | succ n ih =>
    cases a with
    | nil => simp
    | cons a as =>
      have ha := a.toNat_lt
      have hlow : (a.toNat+2^32*bnNat as)%2^32 = a.toNat := by omega
      have hhigh : (a.toNat+2^32*bnNat as)/2^32 = bnNat as := by omega
      rw [List.take_succ_cons,bnNat_cons,bnNat_cons,ih,Nat.mul_succ,Nat.add_comm (32*n),pow_add,
        Nat.mod_mul,hlow,hhigh]

theorem bnNat_drop (a : Bn) (n : Nat) : bnNat (a.drop n) = bnNat a/2^(32*n) := by
  induction n generalizing a with
  | zero => simp
  | succ n ih =>
    cases a with
    | nil => simp
    | cons a as =>
      have ha := a.toNat_lt
      have hhigh : (a.toNat+2^32*bnNat as)/2^32 = bnNat as := by omega
      rw [List.drop_succ_cons,bnNat_cons,ih,Nat.mul_succ,Nat.add_comm (32*n),pow_add,
        ← Nat.div_div_eq_div_mul,hhigh]

/-- Numbers of one length are the same only if their limbs are. -/
theorem bnNat_inj {a b : Bn} (h : a.length = b.length) (hab : bnNat a = bnNat b) : a = b := by
  induction a generalizing b with
  | nil => exact (List.length_eq_zero_iff.mp h.symm).symm
  | cons a as ih =>
    cases b with
    | nil => cases h
    | cons b bs =>
      have ha := a.toNat_lt
      have hb := b.toNat_lt
      rw [bnNat_cons,bnNat_cons] at hab
      have hhead : a = b := UInt32.toNat_inj.mp (by omega)
      have htail : as = bs := ih (Nat.succ.inj h) (by omega)
      rw [hhead,htail]

section Compare

/-- The high parts decide, and where they are the same the low ones. -/
theorem compare_parts {k x y X Y : Nat} (hx : x < k) (hy : y < k) :
    compare (x+k*X) (y+k*Y) = (compare X Y).then (compare x y) := by
  have hlow : ∀ {u v U V : Nat}, u < k → U < V → u+k*U < v+k*V := by
    intro u v U V hu hUV
    have := Nat.mul_le_mul_left k (Nat.succ_le_of_lt hUV)
    rw [Nat.mul_succ] at this
    omega
  rcases lt_trichotomy X Y with h | h | h
  · rw [compare_lt_iff_lt.mpr h,compare_lt_iff_lt.mpr (hlow hx h)]
    rfl
  · subst h
    rw [compare_eq_iff_eq.mpr rfl,Ordering.then]
    rcases lt_trichotomy x y with h | h | h
    · rw [compare_lt_iff_lt.mpr h,compare_lt_iff_lt.mpr (by omega)]
    · rw [compare_eq_iff_eq.mpr h,compare_eq_iff_eq.mpr (by omega)]
    · rw [compare_gt_iff_gt.mpr h,compare_gt_iff_gt.mpr (by omega)]
  · rw [compare_gt_iff_gt.mpr h,compare_gt_iff_gt.mpr (hlow hy h)]
    rfl

theorem compare_toNat (a b : UInt32) : compare a b = compare a.toNat b.toNat := by
  simp only [compare,compareOfLessAndEq,UInt32.lt_iff_toNat_lt,← UInt32.toNat_inj]

theorem bnCmp_compare {a b : Bn} (h : a.length = b.length) :
    bnCmp a b = compare (bnNat a) (bnNat b) := by
  induction a generalizing b with
  | nil =>
    obtain rfl := List.length_eq_zero_iff.mp h.symm
    rfl
  | cons a as ih =>
    cases b with
    | nil => cases h
    | cons b bs =>
      rw [bnCmp,ih (Nat.succ.inj h),compare_toNat,bnNat_cons,bnNat_cons,
        compare_parts a.toNat_lt b.toNat_lt]

theorem bnCmp_lt {a b : Bn} (h : a.length = b.length) : bnCmp a b = .lt ↔ bnNat a < bnNat b := by
  rw [bnCmp_compare h,compare_lt_iff_lt]

theorem bnCmp_eq {a b : Bn} (h : a.length = b.length) : bnCmp a b = .eq ↔ bnNat a = bnNat b := by
  rw [bnCmp_compare h,compare_eq_iff_eq]

end Compare

section AddSub

@[simp] theorem bnAdd_length {a b : Bn} (c : UInt32) (h : a.length = b.length) :
    (bnAdd a b c).1.length = a.length := by
  induction a generalizing b c with
  | nil => simp [bnAdd]
  | cons a as ih =>
    cases b with
    | nil => cases h
    | cons b bs => simp [bnAdd,ih _ (Nat.succ.inj h)]

@[simp] theorem bnSub_length {a b : Bn} (c : UInt32) (h : a.length = b.length) :
    (bnSub a b c).1.length = a.length := by
  induction a generalizing b c with
  | nil => simp [bnSub]
  | cons a as ih =>
    cases b with
    | nil => cases h
    | cons b bs => simp [bnSub,ih _ (Nat.succ.inj h)]

/-- One limb of a sum: the limb and the carry hold it. -/
theorem addLimb (a b c : UInt32) (hc : c.toNat ≤ 1) :
    (a.toUInt64+b.toUInt64+c.toUInt64).toUInt32.toNat+
        2^32*((a.toUInt64+b.toUInt64+c.toUInt64) >>> 32).toUInt32.toNat =
      a.toNat+b.toNat+c.toNat ∧
    ((a.toUInt64+b.toUInt64+c.toUInt64) >>> 32).toUInt32.toNat ≤ 1 := by
  have ha := a.toNat_lt
  have hb := b.toNat_lt
  have hsum : (a.toUInt64+b.toUInt64+c.toUInt64).toNat = a.toNat+b.toNat+c.toNat := by
    simp only [UInt64.toNat_add,UInt32.toNat_toUInt64]
    omega
  simp only [UInt64.toNat_toUInt32,UInt64.toNat_shiftRight,hsum,UInt64.reduceToNat,Nat.reduceMod,
    Nat.shiftRight_eq_div_pow]
  omega

/-- One limb of a difference: the borrow makes it up. -/
theorem subLimb (a b c : UInt32) (hc : c.toNat ≤ 1) :
    (a.toUInt64-b.toUInt64-c.toUInt64).toUInt32.toNat+b.toNat+c.toNat =
      a.toNat+2^32*(((a.toUInt64-b.toUInt64-c.toUInt64) >>> 32) &&& 1).toUInt32.toNat ∧
    (((a.toUInt64-b.toUInt64-c.toUInt64) >>> 32) &&& 1).toUInt32.toNat ≤ 1 := by
  have ha := a.toNat_lt
  have hb := b.toNat_lt
  have hlow : ∀ x : UInt64, (x &&& 1).toNat = x.toNat%2 := fun x => by
    rw [UInt64.toNat_and]
    exact Nat.and_two_pow_sub_one_eq_mod x.toNat 1
  have hdiff : (a.toUInt64-b.toUInt64-c.toUInt64).toNat =
      (a.toNat+2^64+2^64-b.toNat-c.toNat)%2^64 := by
    simp only [UInt64.toNat_sub,UInt32.toNat_toUInt64]
    omega
  simp only [UInt64.toNat_toUInt32,hlow,UInt64.toNat_shiftRight,hdiff,UInt64.reduceToNat,
    Nat.reduceMod,Nat.shiftRight_eq_div_pow]
  omega

theorem bnAdd_value {a b : Bn} {c : UInt32} (h : a.length = b.length) (hc : c.toNat ≤ 1) :
    bnNat (bnAdd a b c).1+2^(32*a.length)*(bnAdd a b c).2.toNat = bnNat a+bnNat b+c.toNat ∧
      (bnAdd a b c).2.toNat ≤ 1 := by
  induction a generalizing b c with
  | nil =>
    obtain rfl := List.length_eq_zero_iff.mp h.symm
    simpa [bnAdd] using hc
  | cons a as ih =>
    cases b with
    | nil => cases h
    | cons b bs =>
      obtain ⟨hlimb,hcarry⟩ := addLimb a b c hc
      obtain ⟨hvalue,hout⟩ := ih (Nat.succ.inj h) hcarry
      refine ⟨?_,hout⟩
      simp only [bnAdd,bnNat_cons,List.length_cons,Nat.mul_succ,pow_add]
      linear_combination hlimb+2^32*hvalue

theorem bnSub_value {a b : Bn} {c : UInt32} (h : a.length = b.length) (hc : c.toNat ≤ 1) :
    bnNat (bnSub a b c).1+bnNat b+c.toNat = bnNat a+2^(32*a.length)*(bnSub a b c).2.toNat ∧
      (bnSub a b c).2.toNat ≤ 1 := by
  induction a generalizing b c with
  | nil =>
    obtain rfl := List.length_eq_zero_iff.mp h.symm
    simpa [bnSub] using hc
  | cons a as ih =>
    cases b with
    | nil => cases h
    | cons b bs =>
      obtain ⟨hlimb,hcarry⟩ := subLimb a b c hc
      obtain ⟨hvalue,hout⟩ := ih (Nat.succ.inj h) hcarry
      refine ⟨?_,hout⟩
      simp only [bnSub,bnNat_cons,List.length_cons,Nat.mul_succ,pow_add]
      linear_combination hlimb+2^32*hvalue

/-- A difference that is not negative -/
theorem bnSub_of_le {a b : Bn} (h : a.length = b.length) (hle : bnNat b ≤ bnNat a) :
    bnNat (bnSub a b 0).1 = bnNat a-bnNat b := by
  obtain ⟨hvalue,hout⟩ := bnSub_value (c := 0) h (by decide)
  have hlt := bnNat_lt (bnSub a b 0).1
  rw [bnSub_length 0 h] at hlt
  have hzero : (0 : UInt32).toNat = 0 := rfl
  rcases Nat.le_one_iff_eq_zero_or_eq_one.mp hout with h0 | h1
  · rw [h0] at hvalue
    omega
  · rw [h1] at hvalue
    omega

end AddSub

section Product

/-- One limb of a row: the carry takes what the limb has no place for. -/
theorem mulLimb {x b r : UInt32} {c : UInt64} (hc : c.toNat < 2^32) :
    (c+(x.toUInt64*b.toUInt64+r.toUInt64)).toUInt32.toNat+
        2^32*((c+(x.toUInt64*b.toUInt64+r.toUInt64)) >>> 32).toNat =
      c.toNat+(x.toNat*b.toNat+r.toNat) ∧
    ((c+(x.toUInt64*b.toUInt64+r.toUInt64)) >>> 32).toNat < 2^32 := by
  have hprod : x.toNat*b.toNat ≤ (2^32-1)*(2^32-1) :=
    Nat.mul_le_mul (Nat.le_pred_of_lt x.toNat_lt) (Nat.le_pred_of_lt b.toNat_lt)
  have hr := r.toNat_lt
  have hsum : (c+(x.toUInt64*b.toUInt64+r.toUInt64)).toNat =
      c.toNat+(x.toNat*b.toNat+r.toNat) := by
    simp only [UInt64.toNat_add,UInt64.toNat_mul,UInt32.toNat_toUInt64]
    omega
  simp only [UInt64.toNat_toUInt32,UInt64.toNat_shiftRight,hsum,UInt64.reduceToNat,Nat.reduceMod,
    Nat.shiftRight_eq_div_pow]
  omega

/-- A row adds a multiple of `bs` in the limbs it covers and the one behind them. -/
theorem bnMulRow_value {x : UInt32} {bs r : Bn} (z : UInt32) (rest : Bn) {c : UInt64}
    (h : r.length = bs.length) (hc : c.toNat < 2^32) :
    ∃ low out,bnMulRow x bs (r++z::rest) c = low++out::rest ∧ low.length = bs.length ∧
      bnNat (low++[out]) = bnNat r+x.toNat*bnNat bs+c.toNat := by
  induction bs generalizing r c with
  | nil =>
    obtain rfl := List.length_eq_zero_iff.mp h
    refine ⟨[],c.toUInt32,rfl,rfl,?_⟩
    simpa using hc
  | cons b bs ih =>
    cases r with
    | nil => cases h
    | cons r rs =>
      obtain ⟨hlimb,hcarry⟩ := mulLimb (x := x) (b := b) (r := r) hc
      obtain ⟨low,out,hrow,hlen,hvalue⟩ := ih (Nat.succ.inj h) hcarry
      refine ⟨(c+(x.toUInt64*b.toUInt64+r.toUInt64)).toUInt32::low,out,?_,?_,?_⟩
      · rw [List.cons_append,bnMulRow,hrow]
        rfl
      · rw [List.length_cons,hlen,List.length_cons]
      · rw [List.cons_append,bnNat_cons,hvalue,bnNat_cons,bnNat_cons]
        linear_combination hlimb

/-- The rows so far are the product of the limbs so far: those not yet reached are zero. -/
theorem bnMulLoop_value {as b r : Bn} (h : r.length = b.length) :
    bnNat (bnMulLoop as b (r++List.replicate as.length 0)) = bnNat r+bnNat as*bnNat b ∧
      (bnMulLoop as b (r++List.replicate as.length 0)).length = as.length+b.length := by
  induction as generalizing r with
  | nil => simp [bnMulLoop,h]
  | cons a as ih =>
    obtain ⟨low,out,hrow,hlen,hvalue⟩ := bnMulRow_value (x := a) 0 (List.replicate as.length 0)
      h (c := 0) (by decide)
    obtain ⟨l,t,hcons⟩ := List.exists_cons_of_length_pos (l := low++[out]) (by simp)
    have ht : t.length = b.length := by
      have := congrArg List.length hcons
      simp [hlen] at this
      exact this.symm
    have hsplit : low++out::List.replicate as.length 0 = l::(t++List.replicate as.length 0) := by
      rw [← List.cons_append,← hcons,List.append_assoc]
      rfl
    obtain ⟨hprod,hlength⟩ := ih ht
    rw [hcons,bnNat_cons] at hvalue
    rw [List.length_cons,List.replicate_succ,bnMulLoop,hrow,hsplit]
    dsimp only
    rw [bnNat_cons,bnNat_cons,hprod,List.length_cons,hlength]
    refine ⟨?_,by omega⟩
    have hzero : (0 : UInt64).toNat = 0 := rfl
    rw [hzero] at hvalue
    linear_combination hvalue

theorem bnMul_value (a b : Bn) : bnNat (bnMul a b) = bnNat a*bnNat b := by
  have h : bnNat (bnMulLoop a b (List.replicate b.length 0++List.replicate a.length 0)) = _ :=
    (bnMulLoop_value List.length_replicate).1
  rw [List.replicate_append_replicate,bnNat_replicate,Nat.zero_add,Nat.add_comm b.length] at h
  exact h

theorem bnMul_length (a b : Bn) : (bnMul a b).length = a.length+b.length := by
  have h : (bnMulLoop a b (List.replicate b.length 0++List.replicate a.length 0)).length = _ :=
    (bnMulLoop_value List.length_replicate).2
  rw [List.replicate_append_replicate,Nat.add_comm b.length] at h
  exact h

end Product

section Bits

theorem toNat_low_bit (x : UInt32) : (x &&& 1).toNat = x.toNat%2 := by
  rw [UInt32.toNat_and]
  exact Nat.and_two_pow_sub_one_eq_mod x.toNat 1

/-- A bit of a limb -/
theorem limb_bit (a : UInt32) {i : Nat} (hi : i < 32) :
    (a >>> i.toUInt32) &&& 1 ≠ 0 ↔ a.toNat.testBit i := by
  have hshift : i.toUInt32.toNat%32 = i := by
    rw [Nat.toUInt32_eq,UInt32.toNat_ofNat']
    omega
  rw [Ne,← UInt32.toNat_inj,toNat_low_bit,UInt32.toNat_shiftRight,hshift,Nat.testBit,
    Nat.and_comm,Nat.and_one_is_mod]
  simp

/-- Limb `i` of a number -/
theorem getD_toNat (a : Bn) (i : Nat) : (a.getD i 0).toNat = bnNat a/2^(32*i)%2^32 := by
  induction i generalizing a with
  | zero =>
    cases a with
    | nil => simp
    | cons a as =>
      simp
  | succ i ih =>
    cases a with
    | nil => simp
    | cons a as =>
      have ha := a.toNat_lt
      have hhigh : (a.toNat+2^32*bnNat as)/2^32 = bnNat as := by omega
      rw [List.getD_cons_succ,ih,bnNat_cons,Nat.mul_succ,Nat.add_comm (32*i),pow_add,
        ← Nat.div_div_eq_div_mul,hhigh]

theorem bnBit_testBit (a : Bn) (i : Nat) : bnBit a i = (bnNat a).testBit i := by
  have hi := Nat.mod_lt i (show 0 < 32 by decide)
  have hlimb := limb_bit (a.getD (i/32) 0) hi
  rw [getD_toNat,Nat.testBit_mod_two_pow,decide_eq_true hi,Bool.true_and,Nat.testBit_div_two_pow,
    Nat.mod_add_div] at hlimb
  rw [bnBit]
  simpa using Bool.decide_congr hlimb

/-- A limb is below the bound its length gives. -/
theorem lt_limbBitlen {a : UInt32} {n : Nat} (hn : n ≤ 32) (h : a.toNat < 2^n) :
    a.toNat < 2^limbBitlen a n := by
  induction n with
  | zero => exact h
  | succ n ih =>
    rw [limbBitlen]
    split_ifs with hbit
    · exact h
    · rw [limb_bit a (by omega)] at hbit
      exact ih (by omega) (Nat.lt_pow_two_of_testBit _ fun i hi => by
        rcases Nat.eq_or_lt_of_le hi with rfl | hlt
        · exact Bool.eq_false_of_not_eq_true hbit
        · exact Nat.testBit_lt_two_pow (lt_of_lt_of_le h (Nat.pow_le_pow_right (by decide) hlt)))

theorem lt_bnBitlen (a : Bn) : bnNat a < 2^bnBitlen a := by
  induction a with
  | nil => exact Nat.one_pos
  | cons a as ih =>
    have ha := a.toNat_lt
    rw [bnNat_cons,bnBitlen]
    split_ifs with hzero
    · rw [pow_add]
      omega
    · rw [not_not] at hzero
      rw [hzero] at ih
      have := lt_limbBitlen (Nat.le_refl 32) ha
      omega

end Bits

end ZZ9K.Crypto
