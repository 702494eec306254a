import ZZ9K.Crypto.BigNumBytes
import ZZ9K.Crypto.P256Limbs

namespace ZZ9K.Crypto

open ZZ9K.Math WeierstrassCurve.Affine

section Public

/-- A point of the curve as the byte 4 and its coordinates, highest byte first -/
def PublicPoint (bytes : List UInt8) (Q : p256Curve.Point) : Prop :=
  ∃ X Y : List UInt8,bytes = 0x04::(X++Y) ∧ X.length = 32 ∧ Y.length = 32 ∧
    beNat X < p256Prime ∧ beNat Y < p256Prime ∧
    ∃ h,Q = .some (beNat X : Fp) (beNat Y : Fp) h

theorem p256_nonsingular_iff (x y : Fp) : p256Curve.Nonsingular x y ↔ p256Curve.Equation x y :=
  (equation_iff_nonsingular_of_Δ_ne_zero p256_discriminant).symm

variable {bytes : List UInt8} {Q : p256Curve.Point}

theorem PublicPoint.unique {Q' : p256Curve.Point} (h : PublicPoint bytes Q)
    (h' : PublicPoint bytes Q') : Q = Q' := by
  obtain ⟨X,Y,rfl,hX,-,-,-,hxy,rfl⟩ := h
  obtain ⟨X',Y',heq,hX',-,-,-,hxy',rfl⟩ := h'
  obtain ⟨rfl,rfl⟩ := List.append_inj (List.cons.inj heq).2 (hX.trans hX'.symm)
  rfl

theorem PublicPoint.ne_zero (h : PublicPoint bytes Q) : Q ≠ 0 := by
  obtain ⟨X,Y,-,-,-,-,-,hxy,rfl⟩ := h
  exact Point.some_ne_zero hxy

theorem p256Small_one_represents {x y : Bn} (hx : IsFp x) (hy : IsFp y)
    (hxy : p256Curve.Nonsingular (bnNat x : Fp) (bnNat y : Fp)) :
    Represents {X := x,Y := y,Z := p256Small 1} (.some _ _ hxy) := by
  have hone : IsFp (p256Small 1) := ⟨rfl,by decide⟩
  refine ⟨hx,hy,hone,Jac.stands_some.mpr ⟨?_,?_,?_⟩⟩
  · simp [jacValue,Jac.map,p256Small]
  · simp [jacValue,Jac.map,p256Small]
  · simp [jacValue,Jac.map,p256Small]

/-- `p256_load_public` takes the points of the curve. -/
theorem p256LoadPublic_cases (hlen : bytes.length = 65) :
    (∃ T Q,p256LoadPublic bytes = some T ∧ PublicPoint bytes Q ∧ Represents T Q) ∨
      (p256LoadPublic bytes = none ∧ ∀ Q,¬PublicPoint bytes Q) := by
  obtain ⟨tag,rest,rfl⟩ : ∃ tag rest,bytes = tag::rest :=
    List.exists_cons_of_length_eq_add_one hlen
  have hrest : rest.length = 64 := by simpa using hlen
  obtain ⟨X,Y,rfl,hX,hY⟩ : ∃ X Y : List UInt8,rest = X++Y ∧ X.length = 32 ∧ Y.length = 32 :=
    ⟨rest.take 32,rest.drop 32,(List.take_append_drop 32 rest).symm,by simp [hrest],
      by simp [hrest]⟩
  have hsplit : ∀ Q,PublicPoint (tag::(X++Y)) Q ↔ tag = 0x04 ∧ beNat X < p256Prime ∧
      beNat Y < p256Prime ∧ ∃ h,Q = .some (beNat X : Fp) (beNat Y : Fp) h := by
    intro Q
    constructor
    · rintro ⟨X',Y',heq,hX',-,hQ⟩
      obtain ⟨htag,hcoords⟩ := List.cons.inj heq
      obtain ⟨rfl,rfl⟩ := List.append_inj hcoords (hX.trans hX'.symm)
      exact ⟨htag,hQ⟩
    · rintro ⟨rfl,hQ⟩
      exact ⟨X,Y,rfl,hX,hY,hQ⟩
  have htake : ((tag::(X++Y)).drop 1).take 32 = X := by
    rw [List.drop_succ_cons,List.drop_zero,List.take_left' hX]
  have hdrop : ((tag::(X++Y)).drop 33).take 32 = Y := by
    rw [List.drop_succ_cons,List.drop_left' hX,List.take_of_length_le hY.le]
  have hXv : bnNat (bnFromBe 8 X) = beNat X := bnFromBe_value hX
  have hYv : bnNat (bnFromBe 8 Y) = beNat Y := bnFromBe_value hY
  have hvalid := p256PointValid_iff (bnFromBe_length 8 X) (bnFromBe_length 8 Y)
  simp only [hsplit,p256LoadPublic,htake,hdrop,List.getD_cons_zero]
  split_ifs with htag hbad
  · exact Or.inr ⟨rfl,fun Q h => htag h.1⟩
  · refine Or.inr ⟨rfl,?_⟩
    rintro Q ⟨-,hx,hy,hxy,-⟩
    rw [Bool.not_eq_true',Bool.eq_false_iff,Ne,hvalid,hXv,hYv] at hbad
    exact hbad ⟨hx,hy,(p256_nonsingular_iff _ _).mp hxy⟩
  · rw [Bool.not_eq_true',Bool.not_eq_false,hvalid] at hbad
    obtain ⟨hx,hy,heq⟩ := hbad
    have hxy := (p256_nonsingular_iff _ _).mpr heq
    refine Or.inl ⟨_,.some _ _ hxy,rfl,⟨not_not.mp htag,hXv ▸ hx,hYv ▸ hy,?_⟩,
      p256Small_one_represents ⟨bnFromBe_length 8 X,hx⟩ ⟨bnFromBe_length 8 Y,hy⟩ hxy⟩
    simp only [hXv,hYv] at hxy ⊢
    exact ⟨hxy,trivial⟩

theorem p256G_represents : Represents p256G basePoint :=
  p256Small_one_represents ⟨rfl,by decide⟩ ⟨rfl,by decide⟩ _

theorem p256InRange_iff {d : Bn} (hd : d.length = 8) :
    p256InRange d = true ↔ 1 ≤ bnNat d ∧ bnNat d < p256Order := by
  have hd' : d.length = p256N.length := hd
  rw [p256InRange,Bool.not_eq_true',Bool.or_eq_false_iff,Bool.eq_false_iff,Ne,fpIsZero_iff,
    decide_eq_false_iff_not,not_not,bnCmp_lt hd',p256N_value,Nat.one_le_iff_ne_zero]

end Public

section Agreement

variable {key bytes : List UInt8}

/-- A multiple in the range of the scalars -/
theorem Represents.in_range {T : Jac Bn} {Q : p256Curve.Point} (hT : Represents T Q) (hQ : Q ≠ 0)
    (hkey : key.length = 32) (hpos : 1 ≤ beNat key) (hlt : beNat key < p256Order) :
    ∃ x y,∃ h : p256Curve.Nonsingular x y,beNat key • Q = .some x y h ∧
      Represents (p256Scalar fpOps (bnBit (bnFromBe 8 key)) T) (.some x y h) := by
  have hR := hT.scalar (bnFromBe_length 8 key)
  rw [bnFromBe_value hkey] at hR
  have hne := nsmul_ne_zero hQ hpos hlt
  generalize beNat key • Q = R at *
  cases R with
  | zero => exact absurd rfl hne
  | some x y h => exact ⟨x,y,h,rfl,hR⟩

theorem p256InRange_key (hkey : key.length = 32) :
    p256InRange (bnFromBe 8 key) = true ↔ 1 ≤ beNat key ∧ beNat key < p256Order := by
  rw [p256InRange_iff (bnFromBe_length 8 key),bnFromBe_value hkey]

/-- `zz9k_soft_p256_ecdh` takes a point of the curve and a scalar in the range, and gives the first
coordinate of the multiple. -/
theorem p256Ecdh_cases (hkey : key.length = 32) (hbytes : bytes.length = 65) :
    (∃ Q x y,∃ h : p256Curve.Nonsingular x y,PublicPoint bytes Q ∧
      (1 ≤ beNat key ∧ beNat key < p256Order) ∧ beNat key • Q = .some x y h ∧
        p256Ecdh key bytes = some (beBytes 32 x.val)) ∨
      (p256Ecdh key bytes = none ∧
        ¬((∃ Q,PublicPoint bytes Q) ∧ 1 ≤ beNat key ∧ beNat key < p256Order)) := by
  rcases p256LoadPublic_cases hbytes with ⟨T,Q,hload,hQ,hT⟩ | ⟨hload,hQ⟩
  · rw [p256Ecdh,hload]
    dsimp only
    split_ifs with hrange
    · rw [Bool.not_eq_true',Bool.eq_false_iff,Ne,p256InRange_key hkey] at hrange
      exact Or.inr ⟨rfl,fun h => hrange h.2⟩
    · rw [Bool.not_eq_true',Bool.not_eq_false,p256InRange_key hkey] at hrange
      obtain ⟨x,y,h,hmul,hR⟩ := hT.in_range hQ.ne_zero hkey hrange.1 hrange.2
      obtain ⟨a,ha,hlen,hvalue⟩ := p256AffineX_some hR
      refine Or.inl ⟨Q,x,y,h,hQ,hrange,hmul,?_⟩
      rw [ha]
      dsimp only
      rw [bnToBe_eq,hlen,hvalue]
  · refine Or.inr ⟨?_,fun ⟨⟨Q,h⟩,_⟩ => hQ Q h⟩
    rw [p256Ecdh,hload]

/-- `zz9k_soft_p256_keygen` takes a scalar in the range and gives the multiple of the base point. -/
theorem p256Keygen_cases (hkey : key.length = 32) :
    ((1 ≤ beNat key ∧ beNat key < p256Order) ∧ ∃ x y,∃ h : p256Curve.Nonsingular x y,
      beNat key • basePoint = .some x y h ∧
        p256Keygen key = some (0x04::(beBytes 32 x.val++beBytes 32 y.val))) ∨
      (p256Keygen key = none ∧ ¬(1 ≤ beNat key ∧ beNat key < p256Order)) := by
  rw [p256Keygen]
  dsimp only
  split_ifs with hrange hzero
  all_goals try rw [Bool.not_eq_true',Bool.not_eq_false,p256InRange_key hkey] at hrange
  · rw [Bool.not_eq_true',Bool.eq_false_iff,Ne,p256InRange_key hkey] at hrange
    exact Or.inr ⟨rfl,hrange⟩
  · obtain ⟨x,y,h,-,hR⟩ := p256G_represents.in_range basePoint_ne_zero hkey hrange.1 hrange.2
    exact absurd hzero (Bool.eq_false_iff.mp hR.affine.1)
  · obtain ⟨x,y,h,hmul,hR⟩ := p256G_represents.in_range basePoint_ne_zero hkey hrange.1 hrange.2
    obtain ⟨-,⟨hxlen,hx⟩,⟨hylen,hy⟩⟩ := hR.affine
    refine Or.inl ⟨hrange,x,y,h,hmul,?_⟩
    rw [bnToBe_eq,bnToBe_eq,hxlen,hx,hylen,hy]

/-- The points in limbs are the group of the curve, and the key agreement works in it. -/
theorem p256_group :
    (∀ T,OnCurve T ↔ ∃! P,Represents T P) ∧
    (∀ T P,Represents T P → Represents (p256Double fpOps T) (P+P)) ∧
    (∀ T U P Q,Represents T P → Represents U Q → Represents (p256Add fpOps T U) (P+Q)) ∧
    (∀ T P (k : Bn),k.length = 8 → Represents T P →
      Represents (p256Scalar fpOps (bnBit k) T) (bnNat k • P)) ∧
    (∀ (key : Vector UInt8 32) (point : Vector UInt8 65),
      ((p256Ecdh key.toList point.toList).isSome ↔ (∃ Q,PublicPoint point.toList Q) ∧
        1 ≤ beNat key.toList ∧ beNat key.toList < p256Order) ∧
      ∀ secret,p256Ecdh key.toList point.toList = some secret →
        ∃ Q x y,∃ h : p256Curve.Nonsingular x y,PublicPoint point.toList Q ∧
          beNat key.toList • Q = .some x y h ∧ secret = beBytes 32 x.val) ∧
    (∀ key : Vector UInt8 32,
      ((p256Keygen key.toList).isSome ↔
        1 ≤ beNat key.toList ∧ beNat key.toList < p256Order) ∧
      ∀ point,p256Keygen key.toList = some point →
        ∃ x y,∃ h : p256Curve.Nonsingular x y,beNat key.toList • basePoint = .some x y h ∧
          point = 0x04::(beBytes 32 x.val++beBytes 32 y.val)) := by
  refine ⟨fun T => onCurve_iff,fun T P h => h.double,fun T U P Q hT hU => hT.add hU,
    fun T P k hk h => h.scalar hk,fun key point => ?_,fun key => ?_⟩
  · rcases p256Ecdh_cases key.length_toList point.length_toList with
      ⟨Q,x,y,h,hQ,hrange,hmul,hsome⟩ | ⟨hnone,hbad⟩
    · rw [hsome]
      refine ⟨iff_of_true rfl ⟨⟨Q,hQ⟩,hrange⟩,?_⟩
      rintro secret ⟨⟩
      exact ⟨Q,x,y,h,hQ,hmul,rfl⟩
    · rw [hnone]
      exact ⟨iff_of_false Bool.false_ne_true hbad,nofun⟩
  · rcases p256Keygen_cases key.length_toList with ⟨hrange,x,y,h,hmul,hsome⟩ | ⟨hnone,hbad⟩
    · rw [hsome]
      refine ⟨iff_of_true rfl hrange,?_⟩
      rintro point ⟨⟩
      exact ⟨x,y,h,hmul,rfl⟩
    · rw [hnone]
      exact ⟨iff_of_false Bool.false_ne_true hbad,nofun⟩

end Agreement

section Signature

variable {a w : Bn}

theorem p256N_pos : 0 < bnNat p256N := by decide

/-- A product modulo the order -/
theorem bnMulmod_order {z : ZMod p256Order} (hz : (bnNat w : ZMod p256Order) = z) :
    (bnMulmod a w p256N).length = 8 ∧
      bnNat (bnMulmod a w p256N) = ((bnNat a : ZMod p256Order)*z).val := by
  obtain ⟨hvalue,hlen⟩ := bnMulmod_value a w p256N_pos
  refine ⟨hlen,?_⟩
  rw [hvalue,p256N_value,← hz,← Nat.cast_mul,ZMod.val_natCast]

/-- The inverse modulo the order, by the power of two less -/
theorem bnModexp_inverse (s : Bn) :
    (bnNat (bnModexp s (bnSub p256N (p256Small 2) 0).1 256 p256N) : ZMod p256Order) =
      (bnNat s : ZMod p256Order)⁻¹ := by
  have hexp : bnNat (bnSub p256N (p256Small 2) 0).1 = p256Order-2 := by decide
  have hpow := (@bnModexp_value p256N s (bnSub p256N (p256Small 2) 0).1 256 p256N_pos
    (by decide) (by decide) (by decide)).1
  rw [p256N_value,hexp] at hpow
  rw [hpow,ZMod.natCast_mod,Nat.cast_pow]
  exact pow_sub_two (by decide) _

/-- The comparison at the end, for a point that is not the one at infinity -/
theorem affineX_compare {T : Jac Bn} {R : p256Curve.Point} (hT : Represents T R) {r : Bn}
    (hr : r.length = 8) :
    (p256AffineX T = none ∧ R = 0) ∨
      ∃ a x y,∃ h : p256Curve.Nonsingular x y,p256AffineX T = some a ∧ R = .some x y h ∧
        (bnCmp (bnMod a p256N) r = .eq ↔ x.val%p256Order = bnNat r) := by
  cases R with
  | zero => exact Or.inl ⟨p256AffineX_zero hT,rfl⟩
  | some x y hxy =>
    obtain ⟨a,ha,-,hvalue⟩ := p256AffineX_some hT
    obtain ⟨hmod,hlen⟩ := bnMod_value (m := p256N) a p256N_pos
    have hmr : (bnMod a p256N).length = r.length := hlen.trans hr.symm
    refine Or.inr ⟨a,x,y,hxy,ha,rfl,?_⟩
    rw [bnCmp_eq hmr,hmod,hvalue,p256N_value]

/-- `zz9k_soft_ecdsa_verify_p256` accepts the signatures under the public point. -/
theorem ecdsaVerifyP256_iff (r s hash : Vector UInt8 32) (point : Vector UInt8 65) :
    ecdsaVerifyP256 r.toList s.toList hash.toList point.toList = true ↔
      (1 ≤ beNat r.toList ∧ beNat r.toList < p256Order) ∧
      (1 ≤ beNat s.toList ∧ beNat s.toList < p256Order) ∧
      ∃ Q,PublicPoint point.toList Q ∧ ∃ x y,∃ h : p256Curve.Nonsingular x y,
        ((beNat hash.toList : ZMod p256Order)*(beNat s.toList : ZMod p256Order)⁻¹).val • basePoint+
          ((beNat r.toList : ZMod p256Order)*(beNat s.toList : ZMod p256Order)⁻¹).val • Q =
            .some x y h ∧
        x.val%p256Order = beNat r.toList := by
  have hrlen := r.length_toList
  have hslen := s.length_toList
  have hsv : bnNat (bnFromBe 8 s.toList) = beNat s.toList := bnFromBe_value hslen
  have hrv : bnNat (bnFromBe 8 r.toList) = beNat r.toList := bnFromBe_value hrlen
  have hzv : bnNat (bnFromBe 8 hash.toList) = beNat hash.toList :=
    bnFromBe_value hash.length_toList
  rw [ecdsaVerifyP256]
  dsimp only
  split_ifs with hr hs
  · rw [Bool.not_eq_true',Bool.eq_false_iff,Ne,p256InRange_key hrlen] at hr
    exact iff_of_false id fun h => hr h.1
  · rw [Bool.not_eq_true',Bool.eq_false_iff,Ne,p256InRange_key hslen] at hs
    exact iff_of_false id fun h => hs h.2.1
  · rw [Bool.not_eq_true',Bool.not_eq_false,p256InRange_key hrlen] at hr
    rw [Bool.not_eq_true',Bool.not_eq_false,p256InRange_key hslen] at hs
    rcases p256LoadPublic_cases point.length_toList with ⟨T,Q,hload,hQ,hT⟩ | ⟨hload,hQ⟩
    · have hw := bnModexp_inverse (bnFromBe 8 s.toList)
      generalize bnModexp (bnFromBe 8 s.toList) (bnSub p256N (p256Small 2) 0).1 256 p256N = w at *
      obtain ⟨hlen1,hu1⟩ := bnMulmod_order (a := bnFromBe 8 hash.toList) hw
      obtain ⟨hlen2,hu2⟩ := bnMulmod_order (a := bnFromBe 8 r.toList) hw
      have hsum := (p256G_represents.scalar hlen1).add (hT.scalar hlen2)
      rw [hu1,hu2,hsv,hrv,hzv] at hsum
      rw [hload]
      dsimp only
      rcases affineX_compare hsum (bnFromBe_length 8 r.toList) with
        ⟨hnone,hzero⟩ | ⟨a,x,y,hxy,hsome,hR,hcompare⟩
      · rw [hnone]
        refine iff_of_false Bool.false_ne_true ?_
        rintro ⟨-,-,Q',hQ',x,y,hxy,heq,-⟩
        obtain rfl := hQ.unique hQ'
        exact Point.some_ne_zero hxy (heq.symm.trans hzero)
      · rw [hsome]
        dsimp only
        rw [decide_eq_true_iff,hcompare,hrv]
        constructor
        · intro h
          exact ⟨hr,hs,Q,hQ,x,y,hxy,hR,h⟩
        · rintro ⟨-,-,Q',hQ',x',y',hxy',heq,h⟩
          obtain rfl := hQ.unique hQ'
          obtain ⟨rfl,-⟩ := Point.some.inj (hR.symm.trans heq)
          exact h
    · rw [hload]
      exact iff_of_false Bool.false_ne_true fun ⟨_,_,Q,h,_⟩ => hQ Q h

end Signature

end ZZ9K.Crypto
