import MolphaVerifier.KeyPossession
import MolphaVerifier.SpecialSoundness

/-!
# Partial signatures over one nonce pair

The evidence of nonce reuse is a triple `(b, c, s)` with `s G = R1 + b R2 + c X`. The check moves
`b R2` to the left, evaluates each side by one recovery and one addition, and compares coordinates.
`verifyPartialSignatureEquation_exact` says what it returns on every input, and
`triples_not_malleable` what two accepted triples over one nonce pair amount to.
-/

namespace MolphaVerifier

open FixedBytes ShortWeierstrass SchnorrEquations

inductive NonceEquationError where
  | invalidNoncePoint
  | nonCanonicalScalar
  deriving DecidableEq, Repr

section Definitions

variable (prims : Primitives) (loading : KeyLoading prims.lib)

/-- Load a key from stored coordinates, with the curve check. The scratch buffer of the source is
overwritten before it is read. -/
def publicKeyFromAffineXy {lib : Libsecp256k1} (loading : KeyLoading lib) (x y : Bytes 32) :
    Except AttestationError lib.PublicKey :=
  if x = Vector.replicate 32 0 ∨ y = Vector.replicate 32 0 then .error .invalidAggregateSignature
  else
    match loading.parseFull (uncompressedBytes x y) with
    | some key => .ok key
    | none => .error .invalidAggregateSignature

/-- Recover `baseX⁻¹ (ecdsaS Base - ecdsaHash G)` for the point `Base = (baseX, baseY)`. -/
def recoverPoint (baseX baseY ecdsaS ecdsaHash : Bytes 32) : Option (Bytes 64) :=
  recoverLowS prims.secp256k1Recover ecdsaHash (lastByte baseY &&& 1) (baseX ++ ecdsaS)

/-- Add the two points of the right side and compare with the coordinates of the left. -/
def sumMatches (r1Point rightPoint : Affine prims.lib.Field) (left : Bytes 64) : Bool :=
  let right := prims.lib.addGeVar (prims.lib.fromGe r1Point) rightPoint
  if prims.lib.isInfinity right then false
  else
    let right := prims.lib.fromGej right
    let sumX := prims.lib.fillB32 (prims.lib.normalizeVar right.x)
    let sumY := prims.lib.fillB32 (prims.lib.normalizeVar right.y)
    sumX == leftHalf left && sumY == rightHalf left

/-- The verdict on well-formed evidence. -/
def equationVerdict (r1Point : Affine prims.lib.Field) (x r2 : SignerXy) (b c s : Bytes 32) :
    Bool :=
  -- recovery reads the first coordinate of its base as a scalar
  if !secp256k1ScalarIsValidNonzero r2.1 ∨ !secp256k1ScalarIsValidNonzero x.1 then false
  else
    match recoverPoint prims x.1 x.2 (mulMod c x.1) (Vector.replicate 32 0) with
    | none => false
    | some rightTerm =>
      match recoverPoint prims r2.1 r2.2 (negateModN (mulMod b r2.1))
          (negateModN (mulMod s r2.1)) with
      | none => false
      | some left =>
        match affineFromStoredSecpXy prims.lib (leftHalf rightTerm) (rightHalf rightTerm) with
        | .error _ => false
        | .ok rightPoint => sumMatches prims r1Point rightPoint left

/-- Check the partial-signature equation of the key `x` and the nonces `r1` and `r2`. -/
def verifyPartialSignatureEquation (x r1 r2 : SignerXy) (b c s : Bytes 32) :
    Except NonceEquationError Bool :=
  if [b, c, s].any fun scalar => !secp256k1ScalarIsValidNonzero scalar then
    .error .nonCanonicalScalar
  else
    match publicKeyFromAffineXy loading r1.1 r1.2 with
    | .error _ => .error .invalidNoncePoint
    | .ok r1Key =>
      match publicKeyFromAffineXy loading r2.1 r2.2 with
      | .error _ => .error .invalidNoncePoint
      | .ok _ => .ok (equationVerdict prims (loading.toAffine r1Key) x r2 b c s)

end Definitions

/-- The coordinates are the canonical encoding of the point. -/
structure StoredPoint (xy : SignerXy) (P : Secp256k1.Point) : Prop where
  x_lt : bytesToNat xy.1 < Secp256k1.p
  y_lt : bytesToNat xy.2 < Secp256k1.p
  coords : HasCoords P (toField xy.1) (toField xy.2)

/-- All three scalars are nonzero and below the order. -/
def CanonicalScalars (b c s : Bytes 32) : Prop :=
  ∀ scalar ∈ [b, c, s], 0 < bytesToNat scalar ∧ bytesToNat scalar < Secp256k1.n

def PartialEquation (X R1 R2 : Secp256k1.Point) (b c s : Bytes 32) : Prop :=
  toScalar s • Secp256k1.G = R1 + toScalar b • R2 + toScalar c • X

section Loading

variable {prims : Primitives} {R : FieldReading prims.lib} {loading : KeyLoading prims.lib}
  {xy : SignerXy} {P Q : Secp256k1.Point}

theorem StoredPoint.canonicalXy (h : StoredPoint xy P) : CanonicalXy xy :=
  canonicalXy_of_hasCoords h.x_lt h.y_lt h.coords

theorem StoredPoint.unique (h : StoredPoint xy P) (h' : StoredPoint xy Q) : P = Q :=
  h.coords.ext h'.coords

theorem storedPoint_fieldBytes {P : Secp256k1.Point} {x y : ZMod Secp256k1.p}
    (h : HasCoords P x y) : StoredPoint (fieldBytes x, fieldBytes y) P where
  x_lt := bytesToNat_fieldBytes_lt x
  y_lt := bytesToNat_fieldBytes_lt y
  coords := by
    rw [toField_fieldBytes, toField_fieldBytes]
    exact h

theorem publicKeyFromAffineXy_cases (hL : KeyLoadingExact prims.lib R loading) (xy : SignerXy) :
    (∃ P key, StoredPoint xy P ∧ publicKeyFromAffineXy loading xy.1 xy.2 = .ok key ∧
        R.affine (loading.toAffine key) = ⟨toField xy.1, toField xy.2, false⟩) ∨
      ((∀ P, ¬StoredPoint xy P) ∧
        publicKeyFromAffineXy loading xy.1 xy.2 = .error .invalidAggregateSignature) := by
  by_cases hzero : xy.1 = Vector.replicate 32 0 ∨ xy.2 = Vector.replicate 32 0
  · refine .inr ⟨fun P hP => ?_, by rw [publicKeyFromAffineXy, if_pos hzero]⟩
    have hx := hP.canonicalXy.x_pos
    have hy := hP.canonicalXy.y_pos
    rw [eq_replicate_zero_iff, eq_replicate_zero_iff] at hzero
    omega
  rw [publicKeyFromAffineXy, if_neg hzero]
  cases hparse : loading.parseFull (uncompressedBytes xy.1 xy.2) with
  | some key =>
    obtain ⟨hx, hy, ⟨P, hP⟩, haffine⟩ := hL.of_parse _ _ _ hparse
    exact .inl ⟨P, key, ⟨hx, hy, hP⟩, rfl, haffine⟩
  | none =>
    refine .inr ⟨fun P hP => ?_, rfl⟩
    obtain ⟨key, hkey⟩ := hL.exists_parse P _ _ hP.coords
    have hencode : encodeUncompressed (toField xy.1) (toField xy.2) =
        uncompressedBytes xy.1 xy.2 := by
      rw [encodeUncompressed, encodeXy, fieldBytes_toField hP.x_lt, fieldBytes_toField hP.y_lt]
      rfl
    rw [hencode, hparse] at hkey
    cases hkey

end Loading

section Terms

variable {prims : Primitives} {base : SignerXy} {P : Secp256k1.Point} {t h : Bytes 32}

/-- One side of the equation is the recovered combination over its base. -/
theorem recoverPoint_eq_some_iff (hRec : RecoverExact prims.secp256k1Recover)
    (hP : StoredPoint base P) (hx : bytesToNat base.1 < Secp256k1.n)
    (ht : bytesToNat t < Secp256k1.n) {out : Bytes 64} :
    recoverPoint prims base.1 base.2 t h = some out ↔ toScalar t ≠ 0 ∧ ∃ x y,
      HasCoords (recovered Secp256k1.G P (toScalar base.1) (toScalar t) (toScalar h)) x y ∧
        out = encodeXy x y := by
  rw [recoverPoint, lastByte_parity hP.y_lt, ← bytesToNat_pos_iff ht]
  exact recoverLowS_eq_some_iff hRec hP.coords ⟨hP.canonicalXy.x_pos, hx⟩ ht

theorem recoverPoint_keyTerm (hRec : RecoverExact prims.secp256k1Recover)
    (hP : StoredPoint base P) (hx : bytesToNat base.1 < Secp256k1.n) {c : Bytes 32}
    (hc : toScalar c ≠ 0) : ∃ x y, HasCoords (toScalar c • P) x y ∧
      recoverPoint prims base.1 base.2 (mulMod c base.1) (Vector.replicate 32 0) =
        some (encodeXy x y) := by
  have hr : toScalar base.1 ≠ 0 := (bytesToNat_pos_iff hx).mp hP.canonicalXy.x_pos
  have ht : toScalar (mulMod c base.1) ≠ 0 := by
    rw [toScalar_mulMod]
    exact mul_ne_zero hc hr
  have hzero : toScalar (Vector.replicate 32 0) = 0 := by
    rw [toScalar, eq_replicate_zero_iff.mp rfl, Nat.cast_zero]
  obtain ⟨x, y, hcoords⟩ := ne_zero_iff_exists_hasCoords.mp (smul_ne_zero hc hP.coords.ne_zero)
  refine ⟨x, y, hcoords, ?_⟩
  rw [recoverPoint_eq_some_iff hRec hP hx (bytesToNat_mulMod_lt _ _), hzero,
    recovered_zero_hash Secp256k1.G hr (toScalar_mulMod _ _)]
  exact ⟨ht, x, y, hcoords, rfl⟩

theorem recoverPoint_leftSide_iff (hRec : RecoverExact prims.secp256k1Recover)
    (hP : StoredPoint base P) (hx : bytesToNat base.1 < Secp256k1.n) {b s : Bytes 32}
    (hb : toScalar b ≠ 0) {out : Bytes 64} :
    recoverPoint prims base.1 base.2 (negateModN (mulMod b base.1))
        (negateModN (mulMod s base.1)) = some out ↔
      ∃ x y, HasCoords (nonce Secp256k1.G P (toScalar s) (toScalar b)) x y ∧
        out = encodeXy x y := by
  rw [recoverPoint, lastByte_parity hP.y_lt,
    recoverLowS_nonce_iff hRec hP.coords ⟨hP.canonicalXy.x_pos, hx⟩]
  exact and_iff_right hb

end Terms

section Verdict

variable {prims : Primitives} {R : FieldReading prims.lib} {loading : KeyLoading prims.lib}
  {r1Point : Affine prims.lib.Field} {x r1 r2 : SignerXy} {X R1 R2 Y : Secp256k1.Point}
  {b c s : Bytes 32} {xL yL xR yR x₁ y₁ : ZMod Secp256k1.p}

/-- The comparison is the equality of the two sides; a sum at infinity has no coordinates. -/
theorem sumMatches_iff (hF : FieldExact prims.lib R) (hS : SumExact prims.lib R)
    (hG : GroupExact prims.lib R) (hr1 : R.affine r1Point = ⟨x₁, y₁, false⟩)
    (hR1 : HasCoords R1 x₁ y₁) {rightPoint : Affine prims.lib.Field}
    (hright : R.affine rightPoint = ⟨xR, yR, false⟩) (hY : HasCoords Y xR yR) :
    sumMatches prims r1Point rightPoint (encodeXy xL yL) = true ↔ HasCoords (R1 + Y) xL yL := by
  have hfirst : (R.jacobian (prims.lib.fromGe r1Point)).Represents R1 := by
    rw [hS.jacobian_fromGe, hr1]
    exact Jacobian.represents_ofAffine rfl hR1
  have hsum := hG.represents_addGeVar _ rightPoint R1 Y hfirst (by rw [hright]) (by rwa [hright])
  rw [sumMatches]
  cases hinf : prims.lib.isInfinity
      (prims.lib.addGeVar (prims.lib.fromGe r1Point) rightPoint) with
  | true =>
    have hzero := hsum.infinity_iff.mp hinf
    simp only [if_true, Bool.false_eq_true, false_iff]
    exact fun h => h.ne_zero hzero
  | false =>
    obtain ⟨hz, hcoords⟩ := (Jacobian.represents_of_finite hinf).mp hsum
    have hge := hS.affine_fromGej _ hinf hz
    have hx := congrArg Affine.x hge
    have hy := congrArg Affine.y hge
    simp only [FieldReading.affine, Jacobian.toAffine] at hx hy
    simp only [Bool.false_eq_true, if_false, encodeXy, leftHalf_append, rightHalf_append,
      hF.fillB32_eq _ (hF.normalized_normalizeVar _), hF.val_normalizeVar, hx, hy,
      Bool.and_eq_true, beq_iff_eq, fieldBytes_injective.eq_iff]
    constructor
    · rintro ⟨rfl, rfl⟩
      exact hcoords
    · exact fun h => hcoords.unique h

theorem StoredPoint.scalarIsValid_iff (h : StoredPoint x X) :
    secp256k1ScalarIsValidNonzero x.1 = true ↔ bytesToNat x.1 < Secp256k1.n := by
  rw [secp256k1ScalarIsValidNonzero_iff]
  exact and_iff_right h.canonicalXy.x_pos

theorem CanonicalScalars.toScalar_ne_zero (h : CanonicalScalars b c s) :
    toScalar b ≠ 0 ∧ toScalar c ≠ 0 := by
  have hb := h b (by simp)
  have hc := h c (by simp)
  exact ⟨(bytesToNat_pos_iff hb.2).mp hb.1, (bytesToNat_pos_iff hc.2).mp hc.1⟩

theorem affineFromStoredSecpXy_encodeXy (hF : FieldExact prims.lib R) (hS : SumExact prims.lib R)
    (hY : HasCoords Y xR yR) : ∃ ge, affineFromStoredSecpXy prims.lib (leftHalf (encodeXy xR yR))
      (rightHalf (encodeXy xR yR)) = .ok ge ∧ R.affine ge = ⟨xR, yR, false⟩ := by
  have hstored : StoredPoint (fieldBytes xR, fieldBytes yR) Y := by
    refine ⟨?_, ?_, ?_⟩
    · exact bytesToNat_fieldBytes_lt xR
    · exact bytesToNat_fieldBytes_lt yR
    · rw [toField_fieldBytes, toField_fieldBytes]
      exact hY
  rw [encodeXy, leftHalf_append, rightHalf_append]
  rcases affineFromStoredSecpXy_cases hF hS (fieldBytes xR) (fieldBytes yR) with
    ⟨-, ge, hge, haffine⟩ | ⟨hnot, -⟩
  · refine ⟨ge, hge, ?_⟩
    rwa [toField_fieldBytes, toField_fieldBytes] at haffine
  · exact absurd hstored.canonicalXy hnot

theorem equationVerdict_of_not_scalar (hX : StoredPoint x X) (hR2 : StoredPoint r2 R2)
    (h : ¬(bytesToNat r2.1 < Secp256k1.n ∧ bytesToNat x.1 < Secp256k1.n)) :
    equationVerdict prims r1Point x r2 b c s = false := by
  rw [← hR2.scalarIsValid_iff, ← hX.scalarIsValid_iff] at h
  rw [equationVerdict, if_pos]
  simpa [Bool.not_eq_true', imp_iff_not_or] using h

theorem equationVerdict_of_rightTerm (hx2 : secp256k1ScalarIsValidNonzero r2.1 = true)
    (hx : secp256k1ScalarIsValidNonzero x.1 = true) {rightTerm : Bytes 64}
    (hright : recoverPoint prims x.1 x.2 (mulMod c x.1) (Vector.replicate 32 0) = some rightTerm)
    {rightPoint : Affine prims.lib.Field}
    (hload : affineFromStoredSecpXy prims.lib (leftHalf rightTerm) (rightHalf rightTerm) =
      .ok rightPoint) :
    equationVerdict prims r1Point x r2 b c s = true ↔ ∃ left,
      recoverPoint prims r2.1 r2.2 (negateModN (mulMod b r2.1)) (negateModN (mulMod s r2.1)) =
        some left ∧ sumMatches prims r1Point rightPoint left = true := by
  have hbases : ¬((!secp256k1ScalarIsValidNonzero r2.1) = true ∨
      (!secp256k1ScalarIsValidNonzero x.1) = true) := by
    rw [hx2, hx]
    decide
  rw [equationVerdict, if_neg hbases, hright]
  cases hleft : recoverPoint prims r2.1 r2.2 (negateModN (mulMod b r2.1))
      (negateModN (mulMod s r2.1)) with
  | none => simp
  | some left => simp [hload]

theorem partialEquation_iff : PartialEquation X R1 R2 b c s ↔
    nonce Secp256k1.G R2 (toScalar s) (toScalar b) = R1 + toScalar c • X := by
  rw [PartialEquation, nonce, sub_eq_iff_eq_add, add_right_comm]

/-- On canonical scalars and stored points the verdict is the equation, where it is evaluable. -/
theorem equationVerdict_iff (hF : FieldExact prims.lib R) (hS : SumExact prims.lib R)
    (hG : GroupExact prims.lib R) (hRec : RecoverExact prims.secp256k1Recover)
    (hX : StoredPoint x X) (hR2 : StoredPoint r2 R2) (hr1 : R.affine r1Point = ⟨x₁, y₁, false⟩)
    (hR1 : HasCoords R1 x₁ y₁) (hscalars : CanonicalScalars b c s) :
    equationVerdict prims r1Point x r2 b c s = true ↔ PartialEquation X R1 R2 b c s ∧
      bytesToNat r2.1 < Secp256k1.n ∧ bytesToNat x.1 < Secp256k1.n ∧
      R1 + toScalar c • X ≠ 0 := by
  obtain ⟨hb, hc⟩ := hscalars.toScalar_ne_zero
  by_cases hbases : bytesToNat r2.1 < Secp256k1.n ∧ bytesToNat x.1 < Secp256k1.n
  · obtain ⟨hx2, hx⟩ := hbases
    obtain ⟨xR, yR, hkeyTerm, hright⟩ := recoverPoint_keyTerm hRec hX hx hc
    obtain ⟨rightPoint, hload, haffine⟩ := affineFromStoredSecpXy_encodeXy hF hS hkeyTerm
    rw [equationVerdict_of_rightTerm (hR2.scalarIsValid_iff.mpr hx2)
      (hX.scalarIsValid_iff.mpr hx) hright hload, partialEquation_iff]
    constructor
    · rintro ⟨left, hleft, hmatches⟩
      obtain ⟨xL, yL, hnonce, rfl⟩ := (recoverPoint_leftSide_iff hRec hR2 hx2 hb).mp hleft
      have hsum := (sumMatches_iff hF hS hG hr1 hR1 haffine hkeyTerm).mp hmatches
      exact ⟨hnonce.ext hsum, hx2, hx, hsum.ne_zero⟩
    · rintro ⟨hequation, -, -, hne⟩
      obtain ⟨xL, yL, hsum⟩ := ne_zero_iff_exists_hasCoords.mp hne
      refine ⟨encodeXy xL yL, ?_, (sumMatches_iff hF hS hG hr1 hR1 haffine hkeyTerm).mpr hsum⟩
      rw [recoverPoint_leftSide_iff hRec hR2 hx2 hb, hequation]
      exact ⟨xL, yL, hsum, rfl⟩
  · rw [equationVerdict_of_not_scalar hX hR2 hbases]
    constructor
    · intro h
      cases h
    · rintro ⟨-, hx2, hx, -⟩
      exact absurd ⟨hx2, hx⟩ hbases

end Verdict

section Exactness

variable {prims : Primitives} {R : FieldReading prims.lib} {loading : KeyLoading prims.lib}
  {x r1 r2 : SignerXy} {X R1 R2 : Secp256k1.Point} {b c s b' c' s' : Bytes 32}

theorem any_not_scalarIsValid_iff :
    ([b, c, s].any fun scalar => !secp256k1ScalarIsValidNonzero scalar) = true ↔
      ¬CanonicalScalars b c s := by
  simp only [CanonicalScalars, List.any_eq_true, Bool.not_eq_true', ← Bool.not_eq_true,
    secp256k1ScalarIsValidNonzero_iff, not_forall, exists_prop]

/-- What the check returns, in the order of its conditions. -/
theorem verifyPartialSignatureEquation_cases (hL : KeyLoadingExact prims.lib R loading)
    (x r1 r2 : SignerXy) (b c s : Bytes 32) :
    (¬CanonicalScalars b c s ∧
        verifyPartialSignatureEquation prims loading x r1 r2 b c s = .error .nonCanonicalScalar) ∨
      (CanonicalScalars b c s ∧ ¬((∃ R1, StoredPoint r1 R1) ∧ ∃ R2, StoredPoint r2 R2) ∧
        verifyPartialSignatureEquation prims loading x r1 r2 b c s = .error .invalidNoncePoint) ∨
      (CanonicalScalars b c s ∧ ∃ R1 R2 r1Point, StoredPoint r1 R1 ∧ StoredPoint r2 R2 ∧
        R.affine r1Point = ⟨toField r1.1, toField r1.2, false⟩ ∧
        verifyPartialSignatureEquation prims loading x r1 r2 b c s =
          .ok (equationVerdict prims r1Point x r2 b c s)) := by
  rw [verifyPartialSignatureEquation]
  by_cases hscalars : CanonicalScalars b c s
  · rw [if_neg (fun h => any_not_scalarIsValid_iff.mp h hscalars)]
    rcases publicKeyFromAffineXy_cases hL r1 with ⟨R1, k1, hR1, hk1, haffine⟩ | ⟨hnone, herror⟩
    · rcases publicKeyFromAffineXy_cases hL r2 with ⟨R2, k2, hR2, hk2, -⟩ | ⟨hnone, herror⟩
      · exact .inr (.inr ⟨hscalars, R1, R2, _, hR1, hR2, haffine, by rw [hk1, hk2]⟩)
      · exact .inr (.inl ⟨hscalars, fun h => h.2.elim hnone, by rw [hk1, herror]⟩)
    · exact .inr (.inl ⟨hscalars, fun h => h.1.elim hnone, by rw [herror]⟩)
  · exact .inl ⟨hscalars, by rw [if_pos (any_not_scalarIsValid_iff.mpr hscalars)]⟩

/-- The equation holds and both recoveries and the addition can be evaluated. -/
structure AcceptedEquation (x r2 : SignerXy) (X R1 R2 : Secp256k1.Point) (b c s : Bytes 32) :
    Prop where
  equation : PartialEquation X R1 R2 b c s
  nonce_lt : bytesToNat r2.1 < Secp256k1.n
  key_lt : bytesToNat x.1 < Secp256k1.n
  right_ne_zero : R1 + toScalar c • X ≠ 0

theorem acceptedEquation_iff (hF : FieldExact prims.lib R) (hS : SumExact prims.lib R)
    (hG : GroupExact prims.lib R) (hRec : RecoverExact prims.secp256k1Recover)
    (hX : StoredPoint x X) (hR1 : StoredPoint r1 R1) (hR2 : StoredPoint r2 R2)
    {r1Point : Affine prims.lib.Field}
    (hr1 : R.affine r1Point = ⟨toField r1.1, toField r1.2, false⟩)
    (hscalars : CanonicalScalars b c s) :
    equationVerdict prims r1Point x r2 b c s = true ↔ AcceptedEquation x r2 X R1 R2 b c s := by
  rw [equationVerdict_iff hF hS hG hRec hX hR2 hr1 hR1.coords hscalars]
  constructor
  · rintro ⟨hequation, hx2, hx, hne⟩
    exact ⟨hequation, hx2, hx, hne⟩
  · intro h
    exact ⟨h.equation, h.nonce_lt, h.key_lt, h.right_ne_zero⟩

/-- What the check has to return for a registered key: an error for malformed evidence, otherwise
the verdict on the equation. -/
structure PartialSignatureExact (x r1 r2 : SignerXy) (X : Secp256k1.Point) (b c s : Bytes 32)
    (outcome : Except NonceEquationError Bool) : Prop where
  nonCanonicalScalar_iff : outcome = .error .nonCanonicalScalar ↔ ¬CanonicalScalars b c s
  invalidNoncePoint_iff : outcome = .error .invalidNoncePoint ↔ CanonicalScalars b c s ∧
    ¬((∃ R1, StoredPoint r1 R1) ∧ ∃ R2, StoredPoint r2 R2)
  ok_true_iff : CanonicalScalars b c s → ∀ R1 R2, StoredPoint r1 R1 → StoredPoint r2 R2 →
    (outcome = .ok true ↔ AcceptedEquation x r2 X R1 R2 b c s)
  ok_false_iff : CanonicalScalars b c s → ∀ R1 R2, StoredPoint r1 R1 → StoredPoint r2 R2 →
    (outcome = .ok false ↔ ¬AcceptedEquation x r2 X R1 R2 b c s)

/-- The check decides the equation of a registered key. -/
theorem verifyPartialSignatureEquation_exact (hF : FieldExact prims.lib R)
    (hS : SumExact prims.lib R) (hG : GroupExact prims.lib R)
    (hL : KeyLoadingExact prims.lib R loading) (hRec : RecoverExact prims.secp256k1Recover)
    (hX : StoredPoint x X) (r1 r2 : SignerXy) (b c s : Bytes 32) :
    PartialSignatureExact x r1 r2 X b c s
      (verifyPartialSignatureEquation prims loading x r1 r2 b c s) := by
  rcases verifyPartialSignatureEquation_cases hL x r1 r2 b c s with
    ⟨hscalars, hrun⟩ | ⟨hscalars, hnonces, hrun⟩ |
      ⟨hscalars, R1, R2, r1Point, hR1, hR2, hr1, hrun⟩
  · rw [hrun]
    constructor
    · exact iff_of_true rfl hscalars
    · exact iff_of_false (fun h => nomatch h) (fun h => hscalars h.1)
    · exact fun h => absurd h hscalars
    · exact fun h => absurd h hscalars
  · rw [hrun]
    constructor
    · exact iff_of_false (fun h => nomatch h) (fun h => h hscalars)
    · exact iff_of_true rfl ⟨hscalars, hnonces⟩
    · exact fun _ R1 R2 hR1 hR2 => absurd ⟨⟨R1, hR1⟩, R2, hR2⟩ hnonces
    · exact fun _ R1 R2 hR1 hR2 => absurd ⟨⟨R1, hR1⟩, R2, hR2⟩ hnonces
  · have hverdict := acceptedEquation_iff hF hS hG hRec hX hR1 hR2 hr1 hscalars
    rw [hrun]
    constructor
    · exact iff_of_false (fun h => nomatch h) (fun h => h hscalars)
    · exact iff_of_false (fun h => nomatch h) (fun h => h.2 ⟨⟨R1, hR1⟩, R2, hR2⟩)
    · intro _ Q1 Q2 hQ1 hQ2
      obtain rfl := hR1.unique hQ1
      obtain rfl := hR2.unique hQ2
      rw [Except.ok.injEq, hverdict]
    · intro _ Q1 Q2 hQ1 hQ2
      obtain rfl := hR1.unique hQ1
      obtain rfl := hR2.unique hQ2
      rw [Except.ok.injEq, ← Bool.not_eq_true, hverdict]

theorem equation_of_verifyPartialSignatureEquation (hF : FieldExact prims.lib R)
    (hS : SumExact prims.lib R) (hG : GroupExact prims.lib R)
    (hL : KeyLoadingExact prims.lib R loading) (hRec : RecoverExact prims.secp256k1Recover)
    (hX : StoredPoint x X)
    (h : verifyPartialSignatureEquation prims loading x r1 r2 b c s = .ok true) :
    CanonicalScalars b c s ∧ ∃ R1 R2, StoredPoint r1 R1 ∧ StoredPoint r2 R2 ∧
      PartialEquation X R1 R2 b c s := by
  rcases verifyPartialSignatureEquation_cases hL x r1 r2 b c s with
    ⟨-, hrun⟩ | ⟨-, -, hrun⟩ | ⟨hscalars, R1, R2, r1Point, hR1, hR2, hr1, hrun⟩
  · rw [hrun] at h
    cases h
  · rw [hrun] at h
    cases h
  · rw [hrun, Except.ok.injEq] at h
    have haccepted := (acceptedEquation_iff hF hS hG hRec hX hR1 hR2 hr1 hscalars).mp h
    exact ⟨hscalars, R1, R2, hR1, hR2, haccepted.equation⟩

theorem verifyPartialSignatureEquation_of_accepted (hF : FieldExact prims.lib R)
    (hS : SumExact prims.lib R) (hG : GroupExact prims.lib R)
    (hL : KeyLoadingExact prims.lib R loading) (hRec : RecoverExact prims.secp256k1Recover)
    (hX : StoredPoint x X) (hR1 : StoredPoint r1 R1) (hR2 : StoredPoint r2 R2)
    (hscalars : CanonicalScalars b c s) (h : AcceptedEquation x r2 X R1 R2 b c s) :
    verifyPartialSignatureEquation prims loading x r1 r2 b c s = .ok true := by
  rcases verifyPartialSignatureEquation_cases hL x r1 r2 b c s with
    ⟨hnot, -⟩ | ⟨-, hnot, -⟩ | ⟨-, Q1, Q2, r1Point, hQ1, hQ2, hr1, hrun⟩
  · exact absurd hscalars hnot
  · exact absurd ⟨⟨R1, hR1⟩, R2, hR2⟩ hnot
  · obtain rfl := hR1.unique hQ1
    obtain rfl := hR2.unique hQ2
    rw [hrun, (acceptedEquation_iff hF hS hG hRec hX hR1 hR2 hr1 hscalars).mpr h]

/-- The key term moved to the left, the equation is a Schnorr equation with the nonce
`R1 + b R2`. -/
theorem PartialEquation.nonce_eq (h : PartialEquation X R1 R2 b c s) :
    nonce Secp256k1.G X (toScalar s) (toScalar c) = R1 + toScalar b • R2 :=
  sub_eq_iff_eq_add.mpr h

/-- Two accepted triples over one nonce pair: the challenge pair determines the scalar, so different
triples have different challenge pairs modulo the order, and two challenges under one nonce
coefficient reveal the secret share. -/
theorem triples_not_malleable (hF : FieldExact prims.lib R) (hS : SumExact prims.lib R)
    (hG : GroupExact prims.lib R) (hL : KeyLoadingExact prims.lib R loading)
    (hRec : RecoverExact prims.secp256k1Recover) (hX : StoredPoint x X)
    (h : verifyPartialSignatureEquation prims loading x r1 r2 b c s = .ok true)
    (h' : verifyPartialSignatureEquation prims loading x r1 r2 b' c' s' = .ok true) :
    (b = b' → c = c' → s = s') ∧
      ((b, c, s) ≠ (b', c', s') → (toScalar b, toScalar c) ≠ (toScalar b', toScalar c')) ∧
      (b = b' → c ≠ c' →
        X = ((toScalar s - toScalar s') * (toScalar c - toScalar c')⁻¹) • Secp256k1.G) := by
  obtain ⟨hscalars, R1, R2, hR1, hR2, hequation⟩ :=
    equation_of_verifyPartialSignatureEquation hF hS hG hL hRec hX h
  obtain ⟨hscalars', Q1, Q2, hQ1, hQ2, hequation'⟩ :=
    equation_of_verifyPartialSignatureEquation hF hS hG hL hRec hX h'
  obtain rfl := hR1.unique hQ1
  obtain rfl := hR2.unique hQ2
  have hnonce := hequation.nonce_eq
  have hnonce' := hequation'.nonce_eq
  have hb : toScalar b = toScalar b' → b = b' :=
    eq_of_toScalar_eq (hscalars b (by simp)).2 (hscalars' b' (by simp)).2
  have hc : toScalar c = toScalar c' → c = c' :=
    eq_of_toScalar_eq (hscalars c (by simp)).2 (hscalars' c' (by simp)).2
  have hs : b = b' → c = c' → s = s' := by
    rintro rfl rfl
    have hscalar := scalar_eq_of_nonce_eq Secp256k1.hasCoords_G.ne_zero (hnonce.trans hnonce'.symm)
    exact eq_of_toScalar_eq (hscalars s (by simp)).2 (hscalars' s' (by simp)).2 hscalar
  refine ⟨hs, ?_, ?_⟩
  · intro hne hpair
    obtain ⟨hpairb, hpairc⟩ := Prod.mk.inj hpair
    have hbb := hb hpairb
    have hcc := hc hpairc
    exact hne (by rw [hbb, hcc, hs hbb hcc])
  · rintro rfl hne
    exact key_eq_of_nonce_eq (fun h => hne (hc h)) (hnonce.trans hnonce'.symm)

end Exactness

section Sample

def sampleXy : SignerXy := (fieldBytes Secp256k1.generatorX, fieldBytes Secp256k1.generatorY)

theorem storedPoint_sampleXy : StoredPoint sampleXy Secp256k1.G :=
  storedPoint_fieldBytes Secp256k1.hasCoords_G

variable {k : ℕ}

theorem natToBytes_scalar (hpos : 0 < k) (hk : k < 256) :
    0 < bytesToNat (natToBytes 32 k) ∧ bytesToNat (natToBytes 32 k) < Secp256k1.n := by
  have hn : 256 < Secp256k1.n := by norm_num [Secp256k1.n]
  rw [bytesToNat_natToBytes_of_lt (hk.trans (by norm_num))]
  omega

theorem canonicalScalars_sample (hpos : 0 < k) (hk : k < 254) :
    CanonicalScalars (natToBytes 32 1) (natToBytes 32 k) (natToBytes 32 (k + 2)) := by
  intro scalar hscalar
  simp only [List.mem_cons, List.not_mem_nil, or_false] at hscalar
  rcases hscalar with rfl | rfl | rfl
  · exact natToBytes_scalar one_pos (by norm_num)
  · exact natToBytes_scalar hpos (by omega)
  · exact natToBytes_scalar (by omega) (by omega)

theorem acceptedEquation_sample (hk : k < 254) :
    AcceptedEquation sampleXy sampleXy Secp256k1.G Secp256k1.G Secp256k1.G (natToBytes 32 1)
      (natToBytes 32 k) (natToBytes 32 (k + 2)) where
  equation := by
    rw [PartialEquation, toScalar_small (k := 1) (by norm_num), toScalar_small (k := k) (by omega),
      toScalar_small (k := k + 2) (by omega), Nat.cast_add, Nat.cast_one, Nat.cast_ofNat]
    module
  nonce_lt := by
    rw [sampleXy, bytesToNat_fieldBytes]
    exact Secp256k1.generatorX_val_lt
  key_lt := by
    rw [sampleXy, bytesToNat_fieldBytes]
    exact Secp256k1.generatorX_val_lt
  right_ne_zero := by
    have hn : 256 < Secp256k1.n := by norm_num [Secp256k1.n]
    have hsum : Secp256k1.G + toScalar (natToBytes 32 k) • Secp256k1.G =
        ((k + 1 : ℕ) : ZMod Secp256k1.n) • Secp256k1.G := by
      rw [toScalar_small (by omega), Nat.cast_add, Nat.cast_one]
      module
    have hne : ((k + 1 : ℕ) : ZMod Secp256k1.n) ≠ 0 := by
      rw [ne_eq, ZMod.natCast_eq_zero_iff]
      exact Nat.not_dvd_of_pos_of_lt (Nat.succ_pos k) (by omega)
    rw [hsum]
    exact smul_ne_zero hne Secp256k1.hasCoords_G.ne_zero

theorem verifyPartialSignatureEquation_sample (hpos : 0 < k) (hk : k < 254) :
    verifyPartialSignatureEquation (referencePrimitives sampleKeccak) referenceLoading sampleXy
      sampleXy sampleXy (natToBytes 32 1) (natToBytes 32 k) (natToBytes 32 (k + 2)) = .ok true :=
  verifyPartialSignatureEquation_of_accepted fieldExact_reference sumExact_reference
    groupExact_reference keyLoadingExact_reference recoverExact_reference storedPoint_sampleXy
    storedPoint_sampleXy storedPoint_sampleXy (canonicalScalars_sample hpos hk)
    (acceptedEquation_sample hk)

theorem verifyPartialSignatureEquation_exact_sample :
    verifyPartialSignatureEquation (referencePrimitives sampleKeccak) referenceLoading sampleXy
      sampleXy sampleXy (natToBytes 32 1) (natToBytes 32 1) (natToBytes 32 3) = .ok true :=
  ((verifyPartialSignatureEquation_exact fieldExact_reference sumExact_reference
    groupExact_reference keyLoadingExact_reference recoverExact_reference storedPoint_sampleXy
    sampleXy sampleXy (natToBytes 32 1) (natToBytes 32 1) (natToBytes 32 3)).ok_true_iff
    (canonicalScalars_sample one_pos (by norm_num)) _ _ storedPoint_sampleXy
    storedPoint_sampleXy).mpr (acceptedEquation_sample (by norm_num))

/-- Two triples under the challenges one and two give the share one. -/
theorem triples_not_malleable_sample :
    Secp256k1.G = ((toScalar (natToBytes 32 3) - toScalar (natToBytes 32 4)) *
      (toScalar (natToBytes 32 1) - toScalar (natToBytes 32 2))⁻¹) • Secp256k1.G := by
  have hne : natToBytes 32 1 ≠ natToBytes 32 2 := by
    rw [ne_eq, natToBytes_inj (by norm_num) (by norm_num)]
    norm_num
  exact (triples_not_malleable fieldExact_reference sumExact_reference groupExact_reference
    keyLoadingExact_reference recoverExact_reference storedPoint_sampleXy
    (verifyPartialSignatureEquation_sample one_pos (by norm_num))
    (verifyPartialSignatureEquation_sample two_pos (by norm_num))).2.2 rfl hne

end Sample

end MolphaVerifier
