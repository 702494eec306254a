import ZZ9K.Crypto.P256Order

namespace ZZ9K.Crypto

open ZZ9K.Math WeierstrassCurve.Affine

section Coordinates

/-- The field elements of coordinates in limbs -/
def jacValue (T : Jac Bn) : Jac Fp := T.map fun a => (bnNat a : Fp)

/-- Coordinates below the prime, of a point of the curve or without a `Z` -/
def OnCurve (T : Jac Bn) : Prop :=
  IsFp T.X ∧ IsFp T.Y ∧ IsFp T.Z ∧
    (bnNat T.Z = 0 ∨
      p256Curve.Equation ((jacValue T).X/(jacValue T).Z^2) ((jacValue T).Y/(jacValue T).Z^3))

/-- Coordinates below the prime that stand for a point -/
structure Represents (T : Jac Bn) (P : p256Curve.Point) : Prop where
  x : IsFp T.X
  y : IsFp T.Y
  z : IsFp T.Z
  stands : (jacValue T).Stands P

variable {T U : Jac Bn} {P Q : p256Curve.Point}

theorem bnNat_cast_eq_zero {a : Bn} (ha : IsFp a) : (bnNat a : Fp) = 0 ↔ bnNat a = 0 :=
  feVal_eq_zero (a := ⟨a,ha⟩)

/-- Coordinates on the curve represent exactly one point. -/
theorem onCurve_iff : OnCurve T ↔ ∃! P,Represents T P := by
  constructor
  · rintro ⟨hX,hY,hZ,hcurve⟩
    have hcurve' := hcurve.imp_left (bnNat_cast_eq_zero hZ).mpr
    obtain ⟨P,hP⟩ := Jac.exists_stands p256_discriminant (T := jacValue T) hcurve'
    exact ⟨P,⟨hX,hY,hZ,hP⟩,fun Q hQ => hQ.stands.unique hP⟩
  · rintro ⟨P,⟨hX,hY,hZ,hP⟩,-⟩
    exact ⟨hX,hY,hZ,hP.equation.imp_left (bnNat_cast_eq_zero hZ).mp⟩

theorem represents_of (S : Jac Fe) (h : (S.map feVal).Stands P) :
    Represents (S.map Subtype.val) P := ⟨S.X.2,S.Y.2,S.Z.2,h⟩

theorem Represents.lift (h : Represents T P) :
    ∃ S : Jac Fe,S.map Subtype.val = T ∧ (S.map feVal).Stands P :=
  ⟨{X := ⟨T.X,h.x⟩,Y := ⟨T.Y,h.y⟩,Z := ⟨T.Z,h.z⟩},rfl,h.stands⟩

theorem Represents.double (h : Represents T P) : Represents (p256Double fpOps T) (P+P) := by
  obtain ⟨S,rfl,hS⟩ := h.lift
  rw [p256Double_map feOps_limbs]
  refine represents_of _ ?_
  rw [← p256Double_map feOps_field]
  exact p256Double_stands p256_two_ne_zero hS

theorem Represents.add (hT : Represents T P) (hU : Represents U Q) :
    Represents (p256Add fpOps T U) (P+Q) := by
  obtain ⟨S,rfl,hS⟩ := hT.lift
  obtain ⟨S',rfl,hS'⟩ := hU.lift
  rw [p256Add_map feOps_limbs]
  refine represents_of _ ?_
  rw [← p256Add_map feOps_field]
  exact p256Add_stands p256_two_ne_zero hS hS'

theorem Represents.scalar {k : Bn} (hk : k.length = 8) (h : Represents T P) :
    Represents (p256Scalar fpOps (bnBit k) T) (bnNat k • P) := by
  obtain ⟨S,rfl,hS⟩ := h.lift
  rw [p256Scalar_map feOps_limbs]
  refine represents_of _ ?_
  rw [← p256Scalar_map feOps_field]
  exact p256Scalar_stands p256_two_ne_zero hS (limbs_lt hk) fun i _ => bnBit_testBit k i

end Coordinates

section Affine

variable {T : Jac Bn} {x y : Fp} {hxy : p256Curve.Nonsingular x y}

theorem cast_fpMul (a b : Bn) : (bnNat (fpMul a b) : Fp) = (bnNat a : Fp)*(bnNat b : Fp) := by
  rw [(fpMul_value a b).2,ZMod.natCast_mod,Nat.cast_mul]

theorem fpOps_sqr (a : Bn) : fpOps.sqr a = fpMul a a := by simp only [FpOps.sqr,fpOps]

/-- A product in limbs that is a given element -/
theorem fpMul_val {a b : Bn} {z : Fp} (h : (bnNat a : Fp)*(bnNat b : Fp) = z) :
    (fpMul a b).length = 8 ∧ bnNat (fpMul a b) = z.val := by
  have hfp : IsFp (fpMul a b) := isFp_mod (fpMul_value a b)
  refine ⟨hfp.1,?_⟩
  rw [← h,← cast_fpMul,ZMod.val_natCast_of_lt hfp.2]

/-- The affine coordinates, as `p256_affine_x` and `zz9k_soft_p256_keygen` work them out -/
theorem Represents.affine (h : Represents T (.some x y hxy)) :
    fpIsZero T.Z = false ∧
      ((fpMul T.X (fpOps.sqr (fpInv T.Z))).length = 8 ∧
        bnNat (fpMul T.X (fpOps.sqr (fpInv T.Z))) = x.val) ∧
      ((fpMul T.Y (fpMul (fpOps.sqr (fpInv T.Z)) (fpInv T.Z))).length = 8 ∧
        bnNat (fpMul T.Y (fpMul (fpOps.sqr (fpInv T.Z)) (fpInv T.Z))) = y.val) := by
  obtain ⟨hZ,hX,hY⟩ := Jac.stands_some.mp h.stands
  change (bnNat T.Z : Fp) ≠ 0 at hZ
  change (bnNat T.X : Fp) = x*(bnNat T.Z : Fp)^2 at hX
  change (bnNat T.Y : Fp) = y*(bnNat T.Z : Fp)^3 at hY
  have hinv : (bnNat (fpInv T.Z) : Fp) = (bnNat T.Z : Fp)⁻¹ := fpInv_inv ⟨T.Z,h.z⟩
  have hsqr := fpOps_sqr (fpInv T.Z)
  refine ⟨?_,fpMul_val ?_,fpMul_val ?_⟩
  · rw [Bool.eq_false_iff,Ne,fpIsZero_iff,← bnNat_cast_eq_zero h.z]
    exact hZ
  · rw [hsqr,cast_fpMul,hinv,hX]
    field_simp
  · rw [hsqr,cast_fpMul,cast_fpMul,hinv,hY]
    field_simp

theorem p256AffineX_zero (h : Represents T 0) : p256AffineX T = none := by
  have hZ := h.stands.eq_zero_iff.mp rfl
  have hzero : fpIsZero T.Z = true := (fpIsZero_iff T.Z).mpr ((bnNat_cast_eq_zero h.z).mp hZ)
  rw [p256AffineX,if_pos hzero]

theorem p256AffineX_some (h : Represents T (.some x y hxy)) :
    ∃ a,p256AffineX T = some a ∧ a.length = 8 ∧ bnNat a = x.val := by
  obtain ⟨hzero,⟨hlen,hvalue⟩,-⟩ := h.affine
  refine ⟨_,?_,hlen,hvalue⟩
  rw [p256AffineX,if_neg (Bool.eq_false_iff.mp hzero)]

end Affine

section Valid

/-- `p256_b` as an element -/
def p256BFe : Fe := ⟨p256B,rfl,by decide⟩

theorem feVal_p256B : feVal p256BFe = (p256CurveB : Fp) := rfl

/-- The comparison of `p256_point_valid`, on elements -/
theorem p256PointValid_same (X Y : Fe) :
    bnCmp (fpOps.sqr Y.1) (fpAdd (fpSub (fpMul (fpOps.sqr X.1) X.1)
      (fpAdd (fpAdd X.1 X.1) X.1)) p256B) = .eq ↔
    feOps.same (feOps.sqr Y) (feOps.add (feOps.sub (feOps.mul (feOps.sqr X) X)
      (feOps.add (feOps.add X X) X)) p256BFe) = true := by
  have hsame : ∀ a b : Fe,feOps.same a b = true ↔ bnCmp a.1 b.1 = .eq :=
    fun _ _ => decide_eq_true_iff
  rw [hsame]
  simp only [FpOps.sqr,fpOps,feOps,p256BFe]

/-- `p256_point_valid` accepts the points of the curve. -/
theorem p256PointValid_iff {x y : Bn} (hx : x.length = 8) (hy : y.length = 8) :
    p256PointValid x y = true ↔ bnNat x < p256Prime ∧ bnNat y < p256Prime ∧
      p256Curve.Equation (bnNat x : Fp) (bnNat y : Fp) := by
  have hx' : x.length = p256P.length := hx
  have hy' : y.length = p256P.length := hy
  have hrange : bnCmp x p256P ≠ .lt ∨ bnCmp y p256P ≠ .lt ↔
      ¬(bnNat x < p256Prime ∧ bnNat y < p256Prime) := by
    rw [Ne,Ne,bnCmp_lt hx',bnCmp_lt hy',p256P_value,not_and_or]
  rw [p256PointValid]
  split_ifs with hbig
  all_goals rw [hrange] at hbig
  · exact iff_of_false nofun fun h => hbig ⟨h.1,h.2.1⟩
  · obtain ⟨hxp,hyp⟩ := not_not.mp hbig
    obtain ⟨X,rfl⟩ : ∃ X : Fe,X.1 = x := ⟨⟨x,hx,hxp⟩,rfl⟩
    obtain ⟨Y,rfl⟩ : ∃ Y : Fe,Y.1 = y := ⟨⟨y,hy,hyp⟩,rfl⟩
    rw [decide_eq_true_iff,p256PointValid_same,← feOps_field.same]
    simp only [← feOps_field.add,← feOps_field.sub,← feOps_field.mul,← feOps_field.sqr]
    simp only [fieldOps,FpOps.sqr,decide_eq_true_eq]
    rw [threeCurve_equation,← feVal_p256B]
    change _ ↔ bnNat X.1 < p256Prime ∧ bnNat Y.1 < p256Prime ∧
      feVal Y^2 = feVal X^3-3*feVal X+feVal p256BFe
    constructor
    · intro h
      exact ⟨hxp,hyp,by linear_combination h⟩
    · rintro ⟨-,-,h⟩
      linear_combination h

end Valid

end ZZ9K.Crypto
