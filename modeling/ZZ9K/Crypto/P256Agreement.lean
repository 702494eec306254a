import ZZ9K.Crypto.P256Api

namespace ZZ9K.Crypto

open ZZ9K.Math WeierstrassCurve.Affine

/-- A key that `zz9k_soft_p256_ecdh` and `zz9k_soft_p256_keygen` take -/
def P256Key (key : List UInt8) : Prop := 1 ≤ beNat key ∧ beNat key < p256Order

section Point

theorem beNat_coordinate (x : Fp) : beNat (beBytes 32 x.val) = x.val := by
  have hsize : (256 : Nat)^32 = 2^256 := by decide
  rw [beNat_beBytes,hsize]
  exact Nat.mod_eq_of_lt (Nat.lt_trans (ZMod.val_lt x) p256Prime_bounds.2)

/-- The bytes of a point are read back as the point. -/
theorem publicPoint_beBytes {x y : Fp} (hxy : p256Curve.Nonsingular x y) :
    PublicPoint (0x04::(beBytes 32 x.val++beBytes 32 y.val)) (.some x y hxy) := by
  refine ⟨_,_,rfl,beBytes_length _ _,beBytes_length _ _,?_,?_,?_⟩
  · rw [beNat_coordinate]
    exact ZMod.val_lt x
  · rw [beNat_coordinate]
    exact ZMod.val_lt y
  · simp only [beNat_coordinate,ZMod.natCast_val,ZMod.cast_id]
    exact ⟨hxy,trivial⟩

/-- The secret that two parties get from a point, if the multiple is this one -/
theorem p256Ecdh_eq {key bytes : List UInt8} (hkey : key.length = 32) (hbytes : bytes.length = 65)
    (hrange : P256Key key) {Q : p256Curve.Point} (hQ : PublicPoint bytes Q) :
    ∃ x y,∃ h : p256Curve.Nonsingular x y,beNat key • Q = .some x y h ∧
      p256Ecdh key bytes = some (beBytes 32 x.val) := by
  rcases p256Ecdh_cases hkey hbytes with ⟨Q',x,y,h,hQ',-,hmul,hsecret⟩ | ⟨-,hbad⟩
  · obtain rfl := hQ.unique hQ'
    exact ⟨x,y,h,hmul,hsecret⟩
  · exact absurd ⟨⟨Q,hQ⟩,hrange⟩ hbad

theorem p256Ecdh_none {key bytes : List UInt8} (hkey : key.length = 32) (hbytes : bytes.length = 65)
    (hrange : ¬P256Key key) : p256Ecdh key bytes = none := by
  rcases p256Ecdh_cases hkey hbytes with ⟨-,-,-,-,-,hrange',-⟩ | ⟨hnone,-⟩
  · exact absurd hrange' hrange
  · exact hnone

end Point

/-- Two parties that exchange the points of their keys get the same secret, and they get one just where
both keys are in the range. -/
theorem p256_keyAgreement (a b : Vector UInt8 32) :
    (p256Keygen a.toList).bind (p256Ecdh b.toList) = (p256Keygen b.toList).bind (p256Ecdh a.toList) ∧
      (((p256Keygen a.toList).bind (p256Ecdh b.toList)).isSome = true ↔
        P256Key a.toList ∧ P256Key b.toList) := by
  have ha := a.length_toList
  have hb := b.length_toList
  have hlength : ∀ x y : Fp, (0x04::(beBytes 32 x.val++beBytes 32 y.val)).length = 65 := fun x y => by
    rw [List.length_cons,List.length_append,beBytes_length,beBytes_length]
  rcases p256Keygen_cases ha with ⟨hrangeA,xa,ya,hxya,hmulA,hpointA⟩ | ⟨hnoneA,hrangeA⟩
  · rcases p256Keygen_cases hb with ⟨hrangeB,xb,yb,hxyb,hmulB,hpointB⟩ | ⟨hnoneB,hrangeB⟩
    · obtain ⟨x,y,hxy,hmul,hsecret⟩ :=
        p256Ecdh_eq hb (hlength xa ya) hrangeB (publicPoint_beBytes hxya)
      obtain ⟨x',y',hxy',hmul',hsecret'⟩ :=
        p256Ecdh_eq ha (hlength xb yb) hrangeA (publicPoint_beBytes hxyb)
      have hsame : (.some x y hxy : p256Curve.Point) = .some x' y' hxy' := by
        calc (.some x y hxy : p256Curve.Point)
            = beNat b.toList • beNat a.toList • basePoint := by rw [hmulA,hmul]
          _ = beNat a.toList • beNat b.toList • basePoint := smul_comm _ _ _
          _ = .some x' y' hxy' := by rw [hmulB,hmul']
      obtain ⟨rfl,-⟩ := Point.some.inj hsame
      rw [hpointA,hpointB,Option.bind_some,Option.bind_some,hsecret,hsecret']
      exact ⟨rfl,iff_of_true rfl ⟨hrangeA,hrangeB⟩⟩
    · rw [hpointA,hnoneB,Option.bind_some,Option.bind_none,p256Ecdh_none hb (hlength xa ya) hrangeB]
      exact ⟨rfl,iff_of_false Bool.false_ne_true fun h => hrangeB h.2⟩
  · rcases p256Keygen_cases hb with ⟨hrangeB,xb,yb,hxyb,hmulB,hpointB⟩ | ⟨hnoneB,hrangeB⟩
    · rw [hpointB,hnoneA,Option.bind_some,Option.bind_none,p256Ecdh_none ha (hlength xb yb) hrangeA]
      exact ⟨rfl,iff_of_false Bool.false_ne_true fun h => hrangeA h.1⟩
    · rw [hnoneA,hnoneB,Option.bind_none]
      exact ⟨rfl,iff_of_false Bool.false_ne_true fun h => hrangeA h.1⟩

end ZZ9K.Crypto
