import Mathlib.AlgebraicGeometry.EllipticCurve.Affine.Point
import Mathlib.Tactic.LinearCombination

namespace ZZ9K.Math

open WeierstrassCurve.Affine

/-- A point in Jacobian coordinates: `X/Z^2` and `Y/Z^3` -/
structure Jac (α : Type) where
  X : α
  Y : α
  Z : α

/-- The same coordinates in another representation -/
def Jac.map {α β : Type} (f : α → β) (T : Jac α) : Jac β := {X := f T.X,Y := f T.Y,Z := f T.Z}

variable {F : Type} [Field F] {b : F}

/-- The curve `y^2 = x^3-3x+b` -/
def threeCurve (b : F) : WeierstrassCurve.Affine F where
  a₁ := 0
  a₂ := 0
  a₃ := 0
  a₄ := -3
  a₆ := b

/-- The points beside the one at infinity, by their coordinates -/
def pointPairs (b : F) : Set (F × F) := {q | q.2^2 = q.1^3-3*q.1+b}

theorem threeCurve_equation {x y : F} : (threeCurve b).Equation x y ↔ y^2 = x^3-3*x+b := by
  rw [equation_iff]
  simp [threeCurve,sub_eq_add_neg]

/-- A point as a pair on the curve, if it is not the one at infinity -/
def toPair : (threeCurve b).Point → Option (pointPairs b)
  | .zero => none
  | .some x y h => some ⟨(x,y),threeCurve_equation.mp h.1⟩

@[simp] theorem threeCurve_negY (x y : F) : (threeCurve b).negY x y = -y := by
  simp [negY,threeCurve]

/-- The coordinates of a sum, on the line of slope `l` -/
theorem threeCurve_add (x₁ x₂ y l : F) : (threeCurve b).addX x₁ x₂ l = l^2-x₁-x₂ ∧
    (threeCurve b).addY x₁ x₂ y l = l*(x₁-(l^2-x₁-x₂))-y := by
  have haddX : (threeCurve b).addX x₁ x₂ l = l^2-x₁-x₂ := by simp [addX,threeCurve]
  refine ⟨haddX,?_⟩
  rw [addY,threeCurve_negY,negAddY,haddX]
  ring

/-- What Jacobian coordinates stand for; the point at infinity has no `Z`. -/
def Jac.Stands (T : Jac F) : (threeCurve b).Point → Prop
  | .zero => T.Z = 0
  | .some x y _ => T.Z ≠ 0 ∧ T.X = x*T.Z^2 ∧ T.Y = y*T.Z^3

theorem Jac.stands_zero {T : Jac F} : T.Stands (0 : (threeCurve b).Point) ↔ T.Z = 0 := Iff.rfl

theorem Jac.stands_some {T : Jac F} {x y : F} {h : (threeCurve b).Nonsingular x y} :
    T.Stands (Point.some x y h) ↔ T.Z ≠ 0 ∧ T.X = x*T.Z^2 ∧ T.Y = y*T.Z^3 := Iff.rfl

/-- Only the point at infinity has no `Z`. -/
theorem Jac.Stands.eq_zero_iff {T : Jac F} {P : (threeCurve b).Point} (h : T.Stands P) :
    P = 0 ↔ T.Z = 0 := by
  cases P with
  | zero => exact iff_of_true rfl h
  | some x y hxy => exact iff_of_false (Point.some_ne_zero hxy) h.1

/-- Coordinates on the curve stand for a point. -/
theorem Jac.exists_stands (hΔ : (threeCurve b).Δ ≠ 0) {T : Jac F}
    (h : T.Z = 0 ∨ (threeCurve b).Equation (T.X/T.Z^2) (T.Y/T.Z^3)) :
    ∃ P : (threeCurve b).Point,T.Stands P := by
  by_cases hZ : T.Z = 0
  · exact ⟨0,hZ⟩
  · have heq := h.resolve_left hZ
    refine ⟨.some _ _ ((equation_iff_nonsingular_of_Δ_ne_zero hΔ).mp heq),hZ,?_,?_⟩
    · field_simp
    · field_simp

/-- A point is on the curve in its coordinates. -/
theorem Jac.Stands.equation {T : Jac F} {P : (threeCurve b).Point} (h : T.Stands P) :
    T.Z = 0 ∨ (threeCurve b).Equation (T.X/T.Z^2) (T.Y/T.Z^3) := by
  cases P with
  | zero => exact Or.inl h
  | some x y hxy =>
    obtain ⟨hZ,hX,hY⟩ := h
    right
    rw [hX,hY,mul_div_cancel_right₀ x (pow_ne_zero 2 hZ),
      mul_div_cancel_right₀ y (pow_ne_zero 3 hZ)]
    exact hxy.1

/-- Coordinates stand for one point. -/
theorem Jac.Stands.unique {T : Jac F} {P Q : (threeCurve b).Point} (hP : T.Stands P)
    (hQ : T.Stands Q) : P = Q := by
  cases P with
  | zero => exact (hQ.eq_zero_iff.mpr hP).symm
  | some x y hxy =>
    cases Q with
    | zero => exact absurd hQ hP.1
    | some x' y' hxy' =>
      obtain ⟨hZ,hX,hY⟩ := hP
      obtain ⟨-,hX',hY'⟩ := hQ
      have hx : x = x' := mul_right_cancel₀ (pow_ne_zero 2 hZ) (hX.symm.trans hX')
      have hy : y = y' := mul_right_cancel₀ (pow_ne_zero 3 hZ) (hY.symm.trans hY')
      subst hx hy
      rfl

variable [DecidableEq F]

/-- Twice a point that is its own negative -/
theorem Jac.Stands.double_zero {T : Jac F} {P : (threeCurve b).Point} (h : T.Stands P)
    (hzero : T.Z = 0 ∨ T.Y = 0) : P+P = 0 := by
  cases P with
  | zero => rfl
  | some x y hxy =>
    obtain ⟨hZ,-,hY⟩ := h
    have hy : y = 0 := by
      rw [hzero.resolve_left hZ] at hY
      exact (mul_eq_zero.mp hY.symm).resolve_right (pow_ne_zero 3 hZ)
    exact Point.add_self_of_Y_eq (by rw [threeCurve_negY,hy,neg_zero])

/-- The doubling of coordinates, along the tangent -/
def Jac.double (T : Jac F) : Jac F :=
  let S := 4*T.X*T.Y^2
  let M := 3*((T.X-T.Z^2)*(T.X+T.Z^2))
  let X3 := M^2-2*S
  {X := X3,Y := M*(S-X3)-8*T.Y^4,Z := 2*(T.Y*T.Z)}

theorem Jac.Stands.double {T : Jac F} {P : (threeCurve b).Point} (h2 : (2 : F) ≠ 0)
    (h : T.Stands P) (hZ : T.Z ≠ 0) (hY : T.Y ≠ 0) : T.double.Stands (P+P) := by
  cases P with
  | zero => exact absurd h hZ
  | some x y hxy =>
    obtain ⟨-,hXx,hYy⟩ := h
    have hy : y ≠ 0 := by
      rintro rfl
      exact hY (by rw [hYy,zero_mul])
    have h2y : y-(threeCurve b).negY x y ≠ 0 := by
      rw [threeCurve_negY,sub_neg_eq_add,← two_mul]
      exact mul_ne_zero h2 hy
    have hne : y ≠ (threeCurve b).negY x y := sub_ne_zero.mp h2y
    have hslope : (threeCurve b).slope x x y y*(2*y) = 3*(x^2-1) := by
      rw [slope_of_Y_ne rfl hne,show 2*y = y-(threeCurve b).negY x y from by
        rw [threeCurve_negY]; ring,div_mul_cancel₀ _ h2y]
      simp only [threeCurve]
      ring
    rw [Point.add_self_of_Y_ne hne]
    have hcoords := threeCurve_add (b := b) x x y ((threeCurve b).slope x x y y)
    refine ⟨mul_ne_zero h2 (mul_ne_zero hY hZ),?_,?_⟩
    · rw [hcoords.1]
      generalize (threeCurve b).slope x x y y = l at *
      simp only [Jac.double,hXx,hYy]
      linear_combination (-T.Z^8*(l*(2*y)+3*(x^2-1)))*hslope
    · rw [hcoords.2]
      generalize (threeCurve b).slope x x y y = l at *
      simp only [Jac.double,hXx,hYy]
      linear_combination (-T.Z^12*(12*x*y^2-((3*(x^2-1))^2+3*(x^2-1)*(l*(2*y))+(l*(2*y))^2)))*hslope

/-- The sum of coordinates, along the chord -/
def Jac.add (T U : Jac F) : Jac F :=
  let U1 := T.X*U.Z^2
  let S1 := T.Y*U.Z^3
  let H := U.X*T.Z^2-U1
  let R := U.Y*T.Z^3-S1
  let X3 := R^2-H^3-2*(U1*H^2)
  {X := X3,Y := R*(U1*H^2-X3)-S1*H^3,Z := H*T.Z*U.Z}

section Add

variable {T U : Jac F} {P Q : (threeCurve b).Point}

/-- Points of one `x`: the same, or opposite -/
theorem Jac.Stands.add_same_x (hT : T.Stands P) (hU : U.Stands Q) (hZT : T.Z ≠ 0) (hZU : U.Z ≠ 0)
    (hx : T.X*U.Z^2 = U.X*T.Z^2) :
    (T.Y*U.Z^3 = U.Y*T.Z^3 → P = Q) ∧ (T.Y*U.Z^3 ≠ U.Y*T.Z^3 → P+Q = 0) := by
  cases P with
  | zero => exact absurd hT hZT
  | some x y hxy =>
    cases Q with
    | zero => exact absurd hU hZU
    | some x' y' hxy' =>
      obtain ⟨-,hXT,hYT⟩ := hT
      obtain ⟨-,hXU,hYU⟩ := hU
      have hsame : x = x' := by
        refine mul_right_cancel₀ (mul_ne_zero (pow_ne_zero 2 hZT) (pow_ne_zero 2 hZU)) ?_
        rw [hXT,hXU] at hx
        linear_combination hx
      subst hsame
      rw [hYT,hYU]
      constructor
      · intro hy
        have : y = y' := by
          refine mul_right_cancel₀ (mul_ne_zero (pow_ne_zero 3 hZT) (pow_ne_zero 3 hZU)) ?_
          linear_combination hy
        subst this
        rfl
      · intro hy
        have hne : y ≠ y' := by
          rintro rfl
          exact hy (by ring)
        refine Point.add_of_Y_eq rfl ?_
        exact (Y_eq_of_X_eq hxy.1 hxy'.1 rfl).resolve_left hne

theorem Jac.Stands.add (hT : T.Stands P) (hU : U.Stands Q) (hZT : T.Z ≠ 0) (hZU : U.Z ≠ 0)
    (hx : T.X*U.Z^2 ≠ U.X*T.Z^2) : (T.add U).Stands (P+Q) := by
  cases P with
  | zero => exact absurd hT hZT
  | some x y hxy =>
    cases Q with
    | zero => exact absurd hU hZU
    | some x' y' hxy' =>
      obtain ⟨-,hXT,hYT⟩ := hT
      obtain ⟨-,hXU,hYU⟩ := hU
      have hne : x ≠ x' := by
        rintro rfl
        exact hx (by rw [hXT,hXU]; ring)
      have hslope : (threeCurve b).slope x x' y y'*(x-x') = y-y' := by
        rw [slope_of_X_ne hne,div_mul_cancel₀ _ (sub_ne_zero.mpr hne)]
      have hcoords := threeCurve_add (b := b) x x' y ((threeCurve b).slope x x' y y')
      rw [Point.add_of_X_ne hne]
      refine ⟨mul_ne_zero (mul_ne_zero (sub_ne_zero.mpr hx.symm) hZT) hZU,?_,?_⟩
      · rw [hcoords.1]
        generalize (threeCurve b).slope x x' y y' = l at *
        simp only [Jac.add,hXT,hYT,hXU,hYU]
        have hy : y' = y-l*(x-x') := by rw [hslope]; ring
        rw [hy]
        ring
      · rw [hcoords.2]
        generalize (threeCurve b).slope x x' y y' = l at *
        simp only [Jac.add,hXT,hYT,hXU,hYU]
        have hy : y' = y-l*(x-x') := by rw [hslope]; ring
        rw [hy]
        ring

end Add

-- Nothing is to compute a multiple of a point to see which of the two cases it is.
attribute [irreducible] Jac.Stands

end ZZ9K.Math
