import ZZ9K.Crypto.Poly1305Block

namespace ZZ9K.Crypto

/-- All limbs below 2^26 -/
structure Full (h : Limbs) : Prop where
  l0 : h.l0.toNat < 2^26
  l1 : h.l1.toNat < 2^26
  l2 : h.l2.toNat < 2^26
  l3 : h.l3.toNat < 2^26
  l4 : h.l4.toNat < 2^26

theorem Full.value_lt {h : Limbs} (hf : Full h) : h.value < 2^130 := by
  obtain ⟨h0,h1,h2,h3,h4⟩ := hf
  rw [Limbs.value]
  omega

theorem toNat_shift26 (x : UInt32) : (x >>> 26).toNat = x.toNat/2^26 := by
  rw [UInt32.toNat_shiftRight]
  exact Nat.shiftRight_eq_div_pow _ _

/-- One carry: the rest of a limb, and the next limb with the carry -/
theorem toNat_addCarry {x y : UInt32} (h : y.toNat+x.toNat/2^26 < 2^32) :
    (y+(x >>> 26)).toNat = y.toNat+x.toNat/2^26 := by
  rw [UInt32.toNat_add,toNat_shift26,Nat.mod_eq_of_lt h]

/-- The carries leave full limbs: a last carry into `l1` meets a limb that has just been carried
itself. -/
theorem carryLimbs_full {h : Limbs} (hc : Carried h) : Full (carryLimbs h) ∧
    (carryLimbs h).value ≡ h.value [MOD poly1305Prime] := by
  obtain ⟨a0,a1,a2,a3,a4⟩ := hc
  have e2 := toNat_addCarry (x := h.l1) (y := h.l2) (by omega)
  have e3 := toNat_addCarry (x := h.l2+(h.l1 >>> 26)) (y := h.l3) (by omega)
  have e4 := toNat_addCarry (x := h.l3+((h.l2+(h.l1 >>> 26)) >>> 26)) (y := h.l4) (by omega)
  generalize hx2 : h.l2+(h.l1 >>> 26) = x2 at e2 e3 e4
  generalize hx3 : h.l3+(x2 >>> 26) = x3 at e3 e4
  generalize hx4 : h.l4+(x3 >>> 26) = x4 at e4
  have e0 : (h.l0+(x4 >>> 26)*5).toNat = h.l0.toNat+x4.toNat/2^26*5 := by
    rw [UInt32.toNat_add,UInt32.toNat_mul,toNat_shift26,show (5 : UInt32).toNat = 5 from rfl]
    omega
  generalize hx0 : h.l0+(x4 >>> 26)*5 = x0 at e0
  have e1 := toNat_addCarry (x := x0) (y := h.l1 &&& 0x3ffffff) (by rw [toNat_low26]; omega)
  rw [toNat_low26] at e1
  have hk : carryLimbs h = ⟨x0 &&& 0x3ffffff,(h.l1 &&& (0x3ffffff : UInt32))+(x0 >>> 26),
      x2 &&& 0x3ffffff,x3 &&& 0x3ffffff,x4 &&& 0x3ffffff⟩ := by
    simp only [carryLimbs,hx2,hx3,hx4,hx0]
  rw [hk]
  constructor
  · constructor <;> simp only [toNat_low26,e1] <;> omega
  · have hsum : h.value = (h.l0.toNat+x4.toNat/2^26*5)%2^26+2^26*(h.l1.toNat%2^26+
        (h.l0.toNat+x4.toNat/2^26*5)/2^26)+2^52*(x2.toNat%2^26)+2^78*(x3.toNat%2^26)+
        2^104*(x4.toNat%2^26)+poly1305Prime*(x4.toNat/2^26) := by
      rw [Limbs.value,poly1305Prime]
      omega
    simp only [Limbs.value,toNat_low26,e1,e0] at hsum ⊢
    rw [hsum]
    exact (Nat.add_mul_mod_self_left _ _ _).symm

/-- The trial subtraction wraps exactly below the prime. -/
theorem lessPrime_value {h : Limbs} (hf : Full h) :
    (h.value < poly1305Prime → (lessPrime h).l4 >>> 31 = 1) ∧
      (poly1305Prime ≤ h.value → (lessPrime h).l4 >>> 31 = 0 ∧ Full (lessPrime h) ∧
        (lessPrime h).value+poly1305Prime = h.value) := by
  obtain ⟨a0,a1,a2,a3,a4⟩ := hf
  have e0 : (h.l0+5).toNat = h.l0.toNat+5 := by
    rw [UInt32.toNat_add,show (5 : UInt32).toNat = 5 from rfl]
    omega
  generalize hx0 : h.l0+5 = x0 at e0
  have e1 := toNat_addCarry (x := x0) (y := h.l1) (by omega)
  generalize hx1 : h.l1+(x0 >>> 26) = x1 at e1
  have e2 := toNat_addCarry (x := x1) (y := h.l2) (by omega)
  generalize hx2 : h.l2+(x1 >>> 26) = x2 at e2
  have e3 := toNat_addCarry (x := x2) (y := h.l3) (by omega)
  generalize hx3 : h.l3+(x2 >>> 26) = x3 at e3
  have e4 := toNat_addCarry (x := x3) (y := h.l4) (by omega)
  have hl4 : (lessPrime h).l4.toNat = (h.l4.toNat+x3.toNat/2^26+(2^32-2^26))%2^32 := by
    simp only [lessPrime,hx0,hx1,hx2,hx3]
    rw [UInt32.toNat_sub,e4]
    have hbit : ((1 : UInt32) <<< 26).toNat = 2^26 := by decide
    rw [hbit]
    omega
  have hbit : ∀ x : UInt32, (x >>> 31).toNat = x.toNat/2^31 := by
    intro x
    rw [UInt32.toNat_shiftRight]
    exact Nat.shiftRight_eq_div_pow _ _
  have hk : lessPrime h = ⟨x0 &&& 0x3ffffff,x1 &&& 0x3ffffff,x2 &&& 0x3ffffff,x3 &&& 0x3ffffff,
      (lessPrime h).l4⟩ := by
    simp only [lessPrime,hx0,hx1,hx2,hx3]
  constructor
  · intro hlt
    rw [Limbs.value,poly1305Prime] at hlt
    apply UInt32.toNat_inj.mp
    rw [hbit,hl4,show (1 : UInt32).toNat = 1 from rfl]
    omega
  · intro hge
    rw [Limbs.value,poly1305Prime] at hge
    refine ⟨?_,?_,?_⟩
    · apply UInt32.toNat_inj.mp
      rw [hbit,hl4,show (0 : UInt32).toNat = 0 from rfl]
      omega
    · rw [hk]
      constructor <;> simp only [toNat_low26,hl4] <;> omega
    · rw [hk,Limbs.value,Limbs.value,poly1305Prime]
      simp only [toNat_low26,hl4]
      omega

theorem selectLimbs_left {h g : Limbs} (hw : g.l4 >>> 31 = 1) : selectLimbs h g = h := by
  simp [selectLimbs,hw]

theorem selectLimbs_right {h g : Limbs} (hw : g.l4 >>> 31 = 0) : selectLimbs h g = g := by
  simp [selectLimbs,hw]

/-- The number of the pad -/
def SoftPoly1305.padNat (st : SoftPoly1305) : Nat :=
  st.pad0.toNat+2^32*st.pad1.toNat+2^64*st.pad2.toNat+2^96*st.pad3.toNat

theorem addPad_length (st : SoftPoly1305) (h : Limbs) : (addPad st h).length = 16 := rfl

/-- A word and a word of the pad, with the carry from below -/
theorem toNat_addWord {x p : UInt32} {c : UInt64} (hc : c.toNat < 2) :
    (x.toUInt64+p.toUInt64+c).toNat = x.toNat+p.toNat+c.toNat := by
  have hx := x.toNat_lt
  have hp := p.toNat_lt
  rw [UInt64.toNat_add,UInt64.toNat_add,UInt32.toNat_toUInt64,UInt32.toNat_toUInt64]
  omega

theorem toNat_shift32 (x : UInt64) : (x >>> 32).toNat = x.toNat/2^32 := by
  rw [UInt64.toNat_shiftRight]
  exact Nat.shiftRight_eq_div_pow _ _

theorem mul_pow_mod (x a b : Nat) : (x*2^a)%2^(a+b) = 2^a*(x%2^b) := by
  rw [Nat.mul_comm,pow_add]
  exact Nat.mul_mod_mul_left _ _ _

/-- The words packed from five limbs -/
theorem packed_value {l0 l1 l2 l3 : Nat} (l4 : Nat) (h0 : l0 < 2^26) (h1 : l1 < 2^26)
    (h2 : l2 < 2^26) (h3 : l3 < 2^26) :
    (l0+(l1*2^26)%2^32)+2^32*(l1/2^6+(l2*2^20)%2^32)+2^64*(l2/2^12+(l3*2^14)%2^32)+
        2^96*(l3/2^18+(l4*2^8)%2^32) =
      (l0+2^26*l1+2^52*l2+2^78*l3+2^104*l4)%2^128 := by
  have m1 : (l1*2^26)%2^32 = 2^26*(l1%2^6) := mul_pow_mod l1 26 6
  have m2 : (l2*2^20)%2^32 = 2^20*(l2%2^12) := mul_pow_mod l2 20 12
  have m3 : (l3*2^14)%2^32 = 2^14*(l3%2^18) := mul_pow_mod l3 14 18
  have m4 : (l4*2^8)%2^32 = 2^8*(l4%2^24) := mul_pow_mod l4 8 24
  have hsum : l0+2^26*l1+2^52*l2+2^78*l3+2^104*l4 = (l0+2^26*(l1%2^6))+
      2^32*(l1/2^6+2^20*(l2%2^12))+2^64*(l2/2^12+2^14*(l3%2^18))+
      2^96*(l3/2^18+2^8*(l4%2^24))+2^128*(l4/2^24) := by
    omega
  rw [m1,m2,m3,m4,hsum]
  apply Eq.symm
  apply Eq.trans (Nat.add_mul_mod_self_left _ _ _)
  apply Nat.mod_eq_of_lt
  omega

/-- Four words added to four, with the carries -/
theorem addWords_value {w0 w1 w2 w3 p0 p1 p2 p3 x0 x1 x2 x3 : Nat} (h0 : x0 = w0+p0)
    (h1 : x1 = w1+p1+x0/2^32) (h2 : x2 = w2+p2+x1/2^32) (h3 : x3 = w3+p3+x2/2^32) :
    x0%2^32+256^4*(x1%2^32)+256^(4+4)*(x2%2^32)+256^(4+4+4)*(x3%2^32) =
      (w0+2^32*w1+2^64*w2+2^96*w3+(p0+2^32*p1+2^64*p2+2^96*p3))%2^128 := by
  have hsum : w0+2^32*w1+2^64*w2+2^96*w3+(p0+2^32*p1+2^64*p2+2^96*p3) =
      x0%2^32+256^4*(x1%2^32)+256^(4+4)*(x2%2^32)+256^(4+4+4)*(x3%2^32)+2^128*(x3/2^32) := by
    omega
  rw [hsum]
  apply Eq.symm
  apply Eq.trans (Nat.add_mul_mod_self_left _ _ _)
  apply Nat.mod_eq_of_lt
  omega

/-- The words of full limbs do not overlap: the four of them are the limbs' number, modulo 2^128. -/
theorem addPad_value {st : SoftPoly1305} {h : Limbs} (hf : Full h) :
    leNat (addPad st h) = (h.value+st.padNat)%2^128 := by
  obtain ⟨a0,a1,a2,a3,-⟩ := hf
  have hall : ∀ x : UInt32, x &&& 0xffffffff = x := by
    intro x
    apply UInt32.toNat_inj.mp
    rw [UInt32.toNat_and]
    exact (Nat.and_two_pow_sub_one_eq_mod x.toNat 32).trans (Nat.mod_eq_of_lt x.toNat_lt)
  have e0 : (h.l0 ||| (h.l1 <<< 26)).toNat = h.l0.toNat+(h.l1.toNat*2^26)%2^32 := by
    have := toNat_pack h.l0 h.l1 0 26 (by decide) (by decide)
      (by simpa using a0)
    simpa using this
  have e1 := toNat_pack h.l1 h.l2 6 20 (by decide) (by decide)
    (by simp; omega)
  have e2 := toNat_pack h.l2 h.l3 12 14 (by decide) (by decide)
    (by simp; omega)
  have e3 := toNat_pack h.l3 h.l4 18 8 (by decide) (by decide)
    (by simp; omega)
  simp only [UInt32.reduceToNat] at e1 e2 e3
  have hw := packed_value h.l4.toNat a0 a1 a2 a3
  rw [← e0,← e1,← e2,← e3] at hw
  unfold addPad
  simp only [hall]
  generalize h.l0 ||| (h.l1 <<< 26) = w0 at *
  generalize (h.l1 >>> 6) ||| (h.l2 <<< 20) = w1 at *
  generalize (h.l2 >>> 12) ||| (h.l3 <<< 14) = w2 at *
  generalize (h.l3 >>> 18) ||| (h.l4 <<< 8) = w3 at *
  have f0 := toNat_addWord (x := w0) (p := st.pad0) (c := 0) (by decide)
  simp only [UInt64.add_zero,UInt64.toNat_zero,Nat.add_zero] at f0
  generalize w0.toUInt64+st.pad0.toUInt64 = x0 at *
  have b0 := w0.toNat_lt
  have p0 := st.pad0.toNat_lt
  have f1 := toNat_addWord (x := w1) (p := st.pad1) (c := x0 >>> 32)
    (by rw [toNat_shift32]; omega)
  generalize w1.toUInt64+st.pad1.toUInt64+(x0 >>> 32) = x1 at *
  have b1 := w1.toNat_lt
  have p1 := st.pad1.toNat_lt
  rw [toNat_shift32] at f1
  have f2 := toNat_addWord (x := w2) (p := st.pad2) (c := x1 >>> 32)
    (by rw [toNat_shift32]; omega)
  generalize w2.toUInt64+st.pad2.toUInt64+(x1 >>> 32) = x2 at *
  have b2 := w2.toNat_lt
  have p2 := st.pad2.toNat_lt
  rw [toNat_shift32] at f2
  have f3 := toNat_addWord (x := w3) (p := st.pad3) (c := x2 >>> 32)
    (by rw [toNat_shift32]; omega)
  generalize w3.toUInt64+st.pad3.toUInt64+(x2 >>> 32) = x3 at *
  have b3 := w3.toNat_lt
  have p3 := st.pad3.toNat_lt
  rw [toNat_shift32] at f3
  simp only [leNat_append,leNat_store32Le,store32Le_length,List.length_append,UInt64.toNat_toUInt32]
  rw [← Nat.mod_add_mod,Limbs.value,← hw,SoftPoly1305.padNat]
  exact addWords_value f0 f1 f2 f3

/-- The carried accumulator, brought below the prime: the trial subtraction takes it away just
where it fits. -/
theorem selectLimbs_value {h : Limbs} (hf : Full h) :
    Full (selectLimbs h (lessPrime h)) ∧
      (selectLimbs h (lessPrime h)).value = h.value%poly1305Prime := by
  obtain ⟨hbelow,habove⟩ := lessPrime_value hf
  have hlt := hf.value_lt
  by_cases hv : h.value < poly1305Prime
  · rw [selectLimbs_left (hbelow hv),Nat.mod_eq_of_lt hv]
    exact ⟨hf,rfl⟩
  · obtain ⟨hw,hg,hsum⟩ := habove (by omega)
    rw [selectLimbs_right hw,← hsum,Nat.add_mod_right,Nat.mod_eq_of_lt]
    · exact ⟨hg,rfl⟩
    · rw [poly1305Prime] at hsum ⊢
      omega

/-- What `zz9k_soft_poly1305_finish` puts out -/
theorem poly1305Finish_value {st : SoftPoly1305} (hc : Carried st.h) :
    (poly1305Finish st).length = 16 ∧
      leNat (poly1305Finish st) = (st.h.value%poly1305Prime+st.padNat)%2^128 := by
  obtain ⟨hf,hmod⟩ := carryLimbs_full hc
  obtain ⟨hs,hval⟩ := selectLimbs_value hf
  refine ⟨addPad_length _ _,?_⟩
  rw [poly1305Finish,addPad_value hs,hval,hmod]

end ZZ9K.Crypto
