import ZZ9K.Crypto.LimbValue

namespace ZZ9K.Crypto

open ZZ9K.Framework

def poly1305Prime : Nat := 2^130-5

/-- The limbs of a clamped key -/
structure Clamped (r : Limbs) : Prop where
  l0 : r.l0.toNat < 2^26
  l1 : r.l1.toNat < 2^26
  l2 : r.l2.toNat < 2^26
  l3 : r.l3.toNat < 2^26
  l4 : r.l4.toNat < 2^20

/-- The limbs of an accumulator between two blocks: carried, but for a last carry into `l1` -/
structure Carried (h : Limbs) : Prop where
  l0 : h.l0.toNat < 2^26
  l1 : h.l1.toNat < 2^26+2^6
  l2 : h.l2.toNat < 2^26
  l3 : h.l3.toNat < 2^26
  l4 : h.l4.toNat < 2^26

/-- The number of a block as it is added to the accumulator -/
def blockNat (block : List UInt8) (hibit : UInt32) : Nat :=
  (load32Le block).toNat+2^32*(load32Le (block.drop 4)).toNat+
    2^64*(load32Le (block.drop 8)).toNat+2^96*(load32Le (block.drop 12)).toNat+
    2^104*hibit.toNat

/-- The number of a column of the product -/
def columnNat (h w : Limbs) : Nat :=
  h.l0.toNat*w.l0.toNat+h.l1.toNat*w.l1.toNat+h.l2.toNat*w.l2.toNat+h.l3.toNat*w.l3.toNat+
    h.l4.toNat*w.l4.toNat

/-- All limbs of `h` up to `B` and those of `w` up to `S` together -/
theorem fits_productSum {h w : Limbs} {B S : Nat} (h0 : h.l0.toNat ≤ B) (h1 : h.l1.toNat ≤ B)
    (h2 : h.l2.toNat ≤ B) (h3 : h.l3.toNat ≤ B) (h4 : h.l4.toNat ≤ B)
    (hS : w.l0.toNat+w.l1.toNat+w.l2.toNat+w.l3.toNat+w.l4.toNat ≤ S) (hBS : B*S < 2^58) :
    Fits (productSum h w) fun d => d.toNat = columnNat h w ∧ d.toNat ≤ B*S := by
  have b0 := Nat.mul_le_mul_right w.l0.toNat h0
  have b1 := Nat.mul_le_mul_right w.l1.toNat h1
  have b2 := Nat.mul_le_mul_right w.l2.toNat h2
  have b3 := Nat.mul_le_mul_right w.l3.toNat h3
  have b4 := Nat.mul_le_mul_right w.l4.toNat h4
  have hsum : B*w.l0.toNat+B*w.l1.toNat+B*w.l2.toNat+B*w.l3.toNat+B*w.l4.toNat ≤ B*S := by
    have := Nat.mul_le_mul_left B hS
    rwa [Nat.mul_add,Nat.mul_add,Nat.mul_add,Nat.mul_add] at this
  unfold productSum columnNat
  refine (fits_mul64 (by simp only [UInt32.toNat_toUInt64]; omega)).bind fun p0 e0 => ?_
  refine (fits_mul64 (by simp only [UInt32.toNat_toUInt64]; omega)).bind fun p1 e1 => ?_
  refine (fits_mul64 (by simp only [UInt32.toNat_toUInt64]; omega)).bind fun p2 e2 => ?_
  refine (fits_mul64 (by simp only [UInt32.toNat_toUInt64]; omega)).bind fun p3 e3 => ?_
  refine (fits_mul64 (by simp only [UInt32.toNat_toUInt64]; omega)).bind fun p4 e4 => ?_
  simp only [UInt32.toNat_toUInt64] at e0 e1 e2 e3 e4
  refine (fits_add64 (by omega)).bind fun d1 f1 => ?_
  refine (fits_add64 (by omega)).bind fun d2 f2 => ?_
  refine (fits_add64 (by omega)).bind fun d3 f3 => ?_
  refine (fits_add64 (by omega)).mono fun d4 f4 => ?_
  omega

theorem toNat_carry (d : UInt64) : (d >>> 26).toNat = d.toNat/2^26 := by
  rw [UInt64.toNat_shiftRight]
  exact Nat.shiftRight_eq_div_pow _ _

theorem toNat_rest (d : UInt64) : (d.toUInt32 &&& 0x3ffffff).toNat = d.toNat%2^26 := by
  rw [toNat_low26,UInt64.toNat_toUInt32]
  omega

/-- The columns of the product, with the wrapped ones multiplied by 5, stand for the product. -/
theorem columns_modEq (h r : Limbs) (s1 s2 s3 s4 : UInt32) (e1 : s1.toNat = r.l1.toNat*5)
    (e2 : s2.toNat = r.l2.toNat*5) (e3 : s3.toNat = r.l3.toNat*5) (e4 : s4.toNat = r.l4.toNat*5) :
    columnNat h ⟨r.l0,s4,s3,s2,s1⟩+2^26*columnNat h ⟨r.l1,r.l0,s4,s3,s2⟩+
      2^52*columnNat h ⟨r.l2,r.l1,r.l0,s4,s3⟩+2^78*columnNat h ⟨r.l3,r.l2,r.l1,r.l0,s4⟩+
      2^104*columnNat h ⟨r.l4,r.l3,r.l2,r.l1,r.l0⟩ ≡ h.value*r.value [MOD poly1305Prime] := by
  simp only [columnNat,e1,e2,e3,e4,Limbs.value]
  generalize h.l0.toNat = h0
  generalize h.l1.toNat = h1
  generalize h.l2.toNat = h2
  generalize h.l3.toNat = h3
  generalize h.l4.toNat = h4
  generalize r.l0.toNat = r0
  generalize r.l1.toNat = r1
  generalize r.l2.toNat = r2
  generalize r.l3.toNat = r3
  generalize r.l4.toNat = r4
  -- what lies at 2^130 and above
  have hover : (h0+2^26*h1+2^52*h2+2^78*h3+2^104*h4)*(r0+2^26*r1+2^52*r2+2^78*r3+2^104*r4) =
      (h0*r0+h1*(r4*5)+h2*(r3*5)+h3*(r2*5)+h4*(r1*5)+2^26*(h0*r1+h1*r0+h2*(r4*5)+h3*(r3*5)+
        h4*(r2*5))+2^52*(h0*r2+h1*r1+h2*r0+h3*(r4*5)+h4*(r3*5))+2^78*(h0*r3+h1*r2+h2*r1+h3*r0+
        h4*(r4*5))+2^104*(h0*r4+h1*r3+h2*r2+h3*r1+h4*r0))+
      poly1305Prime*(h1*r4+h2*r3+h3*r2+h4*r1+2^26*(h2*r4+h3*r3+h4*r2)+2^52*(h3*r4+h4*r3)+
        2^78*(h4*r4)) := by
    rw [poly1305Prime]
    ring
  rw [hover]
  exact (Nat.add_mul_mod_self_left _ _ _).symm

/-- One round of carries keeps the number, up to multiples of the prime. -/
theorem carried_modEq {d0 d1 d2 d3 d4 : Nat} (e0 c0 e1 c1 e2 c2 e3 c3 e4 c4 : Nat)
    (h0 : e0 = d0%2^26) (k0 : c0 = d0/2^26) (h1 : e1 = (d1+c0)%2^26) (k1 : c1 = (d1+c0)/2^26)
    (h2 : e2 = (d2+c1)%2^26) (k2 : c2 = (d2+c1)/2^26) (h3 : e3 = (d3+c2)%2^26)
    (k3 : c3 = (d3+c2)/2^26) (h4 : e4 = (d4+c3)%2^26) (k4 : c4 = (d4+c3)/2^26) :
    (e0+c4*5)%2^26+2^26*(e1+(e0+c4*5)/2^26)+2^52*e2+2^78*e3+2^104*e4 ≡
      d0+2^26*d1+2^52*d2+2^78*d3+2^104*d4 [MOD poly1305Prime] := by
  have hsum : d0+2^26*d1+2^52*d2+2^78*d3+2^104*d4 =
      (e0+c4*5)%2^26+2^26*(e1+(e0+c4*5)/2^26)+2^52*e2+2^78*e3+2^104*e4+poly1305Prime*c4 := by
    rw [poly1305Prime]
    omega
  rw [hsum]
  exact (Nat.add_mul_mod_self_left _ _ _).symm

theorem agrees_productSum (h w : Limbs) : Agrees (productSum h w) (productSum h w) := by
  unfold productSum
  repeat refine Agrees.bind (agrees_mul64 _ _) fun _ => ?_
  repeat refine Agrees.bind (agrees_add64 _ _) fun _ => ?_
  exact agrees_add64 _ _

theorem agrees_block (st : SoftPoly1305) (block : List UInt8) (hibit : UInt32) :
    Agrees (poly1305BlockWith st block hibit) (poly1305BlockWith st block hibit) := by
  unfold poly1305BlockWith
  repeat first
    | exact agrees_pure _
    | refine Agrees.bind (agrees_productSum _ _) fun _ => ?_
    | refine Agrees.bind (agrees_add32 _ _) fun _ => ?_
    | refine Agrees.bind (agrees_mul32 _ _) fun _ => ?_
    | refine Agrees.bind (agrees_add64 _ _) fun _ => ?_
    | refine Agrees.bind (agrees_narrow _) fun _ => ?_

/-- The block function on a state with clamped `r` and carried `h`: no word overflows, the state
stays so, and the accumulator is `(h+block)*r` modulo the prime. -/
theorem fits_block {st : SoftPoly1305} (block : List UInt8) {hibit : UInt32} (hr : Clamped st.r)
    (hh : Carried st.h) (hb : hibit = 0 ∨ hibit = fullBlockBit) :
    Fits (poly1305BlockWith st block hibit) fun st' => ({st' with h := st.h} : SoftPoly1305) = st ∧
      Carried st'.h ∧
      st'.h.value ≡ (st.h.value+blockNat block hibit)*st.r.value [MOD poly1305Prime] := by
  obtain ⟨r0,r1,r2,r3,r4⟩ := hr
  obtain ⟨a0,a1,a2,a3,a4⟩ := hh
  have hbit : hibit.toNat ≤ 2^24 := by
    rcases hb with rfl | rfl <;> decide
  unfold poly1305BlockWith
  dsimp only
  refine (fits_mul32 (by simp; omega)).bind fun s1 e1 => ?_
  refine (fits_mul32 (by simp; omega)).bind fun s2 e2 => ?_
  refine (fits_mul32 (by simp; omega)).bind fun s3 e3 => ?_
  refine (fits_mul32 (by simp; omega)).bind fun s4 e4 => ?_
  rw [show (5 : UInt32).toNat = 5 from rfl] at e1 e2 e3 e4
  obtain ⟨number,hblock⟩ : ∃ number, number = blockNat block hibit := ⟨_,rfl⟩
  rw [← hblock]
  rw [blockNat] at hblock
  generalize load32Le block = t0 at hblock ⊢
  generalize load32Le (block.drop 4) = t1 at hblock ⊢
  generalize load32Le (block.drop 8) = t2 at hblock ⊢
  generalize load32Le (block.drop 12) = t3 at hblock ⊢
  have ht0 := t0.toNat_lt
  have ht1 := t1.toNat_lt
  have ht2 := t2.toNat_lt
  have ht3 := t3.toNat_lt
  have p0 := toNat_low26 t0
  have p1 : ((t0 >>> 26 ||| t1 <<< 6) &&& 0x3ffffff).toNat = (t0.toNat/2^26+t1.toNat*2^6%2^32)%2^26 := by
    rw [toNat_low26,toNat_piece1]
  have p2 : ((t1 >>> 20 ||| t2 <<< 12) &&& 0x3ffffff).toNat = (t1.toNat/2^20+t2.toNat*2^12%2^32)%2^26 := by
    rw [toNat_low26,toNat_piece2]
  have p3 : ((t2 >>> 14 ||| t3 <<< 18) &&& 0x3ffffff).toNat = (t2.toNat/2^14+t3.toNat*2^18%2^32)%2^26 := by
    rw [toNat_low26,toNat_piece3]
  have p4 : (t3 >>> 8 ||| hibit).toNat = t3.toNat/2^8+hibit.toNat := toNat_piece4 hb
  refine (fits_add32 (by omega)).bind fun h0 f0 => ?_
  refine (fits_add32 (by omega)).bind fun h1 f1 => ?_
  refine (fits_add32 (by omega)).bind fun h2 f2 => ?_
  refine (fits_add32 (by omega)).bind fun h3 f3 => ?_
  refine (fits_add32 (by omega)).bind fun h4 f4 => ?_
  have hvalue : (⟨h0,h1,h2,h3,h4⟩ : Limbs).value = st.h.value+number := by
    rw [hblock,Limbs.value,Limbs.value]
    dsimp only
    omega
  have column : ∀ w : Limbs, ∀ S, w.l0.toNat+w.l1.toNat+w.l2.toNat+w.l3.toNat+w.l4.toNat ≤ S →
      S ≤ 17*2^26 → Fits (productSum ⟨h0,h1,h2,h3,h4⟩ w) fun d =>
        d.toNat = columnNat ⟨h0,h1,h2,h3,h4⟩ w ∧ d.toNat ≤ (2^27+2^7)*S := by
    intro w S hw hS
    exact fits_productSum (by dsimp only; omega) (by dsimp only; omega) (by dsimp only; omega)
      (by dsimp only; omega) (by dsimp only; omega) hw (by omega)
  refine (column _ (17*2^26) (by dsimp only; omega) (le_refl _)).bind fun d0 g0 => ?_
  refine (column _ (17*2^26) (by dsimp only; omega) (le_refl _)).bind fun d1 g1 => ?_
  refine (column _ (17*2^26) (by dsimp only; omega) (le_refl _)).bind fun d2 g2 => ?_
  refine (column _ (17*2^26) (by dsimp only; omega) (le_refl _)).bind fun d3 g3 => ?_
  refine (column _ (5*2^26) (by dsimp only; omega) (by omega)).bind fun d4 g4 => ?_
  refine (fits_narrow (by rw [toNat_carry]; omega)).bind fun c0 k0 => ?_
  rw [toNat_carry] at k0
  refine (fits_add64 (by rw [UInt32.toNat_toUInt64]; omega)).bind fun x1 y1 => ?_
  rw [UInt32.toNat_toUInt64] at y1
  refine (fits_narrow (by rw [toNat_carry]; omega)).bind fun c1 k1 => ?_
  rw [toNat_carry] at k1
  refine (fits_add64 (by rw [UInt32.toNat_toUInt64]; omega)).bind fun x2 y2 => ?_
  rw [UInt32.toNat_toUInt64] at y2
  refine (fits_narrow (by rw [toNat_carry]; omega)).bind fun c2 k2 => ?_
  rw [toNat_carry] at k2
  refine (fits_add64 (by rw [UInt32.toNat_toUInt64]; omega)).bind fun x3 y3 => ?_
  rw [UInt32.toNat_toUInt64] at y3
  refine (fits_narrow (by rw [toNat_carry]; omega)).bind fun c3 k3 => ?_
  rw [toNat_carry] at k3
  refine (fits_add64 (by rw [UInt32.toNat_toUInt64]; omega)).bind fun x4 y4 => ?_
  rw [UInt32.toNat_toUInt64] at y4
  refine (fits_narrow (by rw [toNat_carry]; omega)).bind fun c4 k4 => ?_
  rw [toNat_carry] at k4
  refine (fits_mul32 (by simp; omega)).bind fun c5 k5 => ?_
  rw [show (5 : UInt32).toNat = 5 from rfl] at k5
  refine (fits_add32 (by rw [toNat_rest]; omega)).bind fun m0 n0 => ?_
  rw [toNat_rest] at n0
  have hshift : (m0 >>> 26).toNat = m0.toNat/2^26 := by
    rw [UInt32.toNat_shiftRight]
    exact Nat.shiftRight_eq_div_pow _ _
  have hm := m0.toNat_lt
  refine (fits_add32 (by rw [toNat_rest,hshift]; omega)).bind fun m1 n1 => ?_
  rw [toNat_rest,hshift] at n1
  refine fits_pure ⟨rfl,⟨?_,?_,?_,?_,?_⟩,?_⟩
  · dsimp only
    rw [toNat_low26]
    omega
  · dsimp only
    omega
  · dsimp only
    rw [toNat_rest]
    omega
  · dsimp only
    rw [toNat_rest]
    omega
  · dsimp only
    rw [toNat_rest]
    omega
  · have hcols := columns_modEq ⟨h0,h1,h2,h3,h4⟩ st.r s1 s2 s3 s4 e1 e2 e3 e4
    rw [← g0.1,← g1.1,← g2.1,← g3.1,← g4.1,hvalue] at hcols
    refine Nat.ModEq.trans ?_ hcols
    have hcarry := carried_modEq (d0.toNat%2^26) c0.toNat (x1.toNat%2^26) c1.toNat (x2.toNat%2^26)
      c2.toNat (x3.toNat%2^26) c3.toNat (x4.toNat%2^26) c4.toNat rfl k0 (y1 ▸ rfl) (y1 ▸ k1)
      (y2 ▸ rfl) (y2 ▸ k2) (y3 ▸ rfl) (y3 ▸ k3) (y4 ▸ rfl) (y4 ▸ k4)
    rw [Limbs.value]
    dsimp only
    rw [toNat_low26,toNat_rest,toNat_rest,toNat_rest,n1,n0,k5]
    exact hcarry

end ZZ9K.Crypto
