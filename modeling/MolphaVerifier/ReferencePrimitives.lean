import MolphaVerifier.ExternalPrimitives

/-!
# An implementation of the parameters

Residues modulo the field prime, the Jacobian formulas, square roots by one power and recovery by
doubling and adding. It has every property that `ExternalPrimitives` states of the crates, so those
properties are consistent, and results that assume them can be run on concrete inputs.
-/

namespace MolphaVerifier

open FixedBytes ShortWeierstrass SchnorrEquations LucasCertificates

section LiftX

/-- A square root of `a`, if there is one: the field prime is three modulo four. -/
def squareRoot (a : ZMod Secp256k1.p) : ZMod Secp256k1.p :=
  powMod Secp256k1.p a.val ((Secp256k1.p + 1) / 4)

variable {a x y : ZMod Secp256k1.p} {v : UInt8}

theorem squareRoot_sq (h : y ^ 2 = a) : squareRoot a ^ 2 = a := by
  have hpow : squareRoot a = a ^ ((Secp256k1.p + 1) / 4) := by
    rw [squareRoot, powMod_eq (by norm_num [Secp256k1.p]), ZMod.natCast_mod, Nat.cast_pow,
      ZMod.natCast_zmod_val]
  rcases eq_or_ne y 0 with rfl | hy
  · have hne : (Secp256k1.p + 1) / 4 ≠ 0 := by norm_num [Secp256k1.p]
    rw [hpow, ← h, zero_pow two_ne_zero, zero_pow hne, zero_pow two_ne_zero]
  have hexp : 2 * ((Secp256k1.p + 1) / 4 * 2) = Secp256k1.p - 1 + 2 := by norm_num [Secp256k1.p]
  rw [hpow, ← pow_mul, ← h, ← pow_mul, hexp, pow_add, ZMod.pow_card_sub_one_eq_one hy, one_mul]

/-- The second coordinate of the point with first coordinate `x` and parity `v`. -/
def liftX (x : ZMod Secp256k1.p) (v : UInt8) : Option (ZMod Secp256k1.p) :=
  let y := squareRoot (Secp256k1.cubic x)
  if y ^ 2 = Secp256k1.cubic x then some (if parityOf y = v then y else -y) else none

theorem liftX_eq_some (hxy : OnCurve 7 x y) : liftX x (parityOf y) = some y := by
  have hsq := squareRoot_sq hxy
  have hroot : squareRoot (x ^ 3 + 7) ^ 2 = y ^ 2 := hsq.trans hxy.symm
  have hy : y ≠ 0 := by
    rintro rfl
    rw [OnCurve] at hxy
    exact Secp256k1.cube_add_seven_ne_zero x (by linear_combination -hxy)
  simp only [liftX, if_pos hsq, Option.some.injEq]
  rcases sq_eq_sq_iff_eq_or_eq_neg.mp hroot with h | h
  · rw [h, if_pos rfl]
  · have hparity : parityOf (squareRoot (x ^ 3 + 7)) ≠ parityOf y := by
      rw [h, parityOf_neg hy]
      rcases parityOf_lt_two y with hp | hp <;> rw [hp] <;> decide
    rw [if_neg hparity, h, neg_neg]

theorem onCurve_of_liftX (hv : v = 0 ∨ v = 1) (h : liftX x v = some y) :
    OnCurve 7 x y ∧ parityOf y = v := by
  simp only [liftX] at h
  split at h
  next hsq =>
    rw [Option.some.injEq] at h
    by_cases hparity : parityOf (squareRoot (x ^ 3 + 7)) = v
    · rw [if_pos hparity] at h
      subst h
      exact ⟨hsq, hparity⟩
    · rw [if_neg hparity] at h
      subst h
      have hy : squareRoot (x ^ 3 + 7) ≠ 0 := by
        intro hzero
        rw [hzero, zero_pow (by decide)] at hsq
        exact Secp256k1.cube_add_seven_ne_zero x hsq.symm
      refine ⟨by rw [OnCurve, neg_sq, hsq], ?_⟩
      rw [parityOf_neg hy]
      rcases parityOf_lt_two (squareRoot (x ^ 3 + 7)) with hp | hp <;>
        rcases hv with rfl | rfl <;> simp_all
  next => simp at h

theorem liftX_eq_none (h : ∀ y, ¬OnCurve 7 x y) (v : UInt8) : liftX x v = none := by
  simp only [liftX]
  rw [if_neg (show ¬squareRoot (x ^ 3 + 7) ^ 2 = x ^ 3 + 7 from h _)]

end LiftX

section Library

/-- Parse a compressed key by lifting its first coordinate. -/
def referenceParse (b : Bytes 33) : Option (ZMod Secp256k1.p × ZMod Secp256k1.p) :=
  let x := afterLead b
  if (leadByte b = 0x02 ∨ leadByte b = 0x03) ∧ bytesToNat x < Secp256k1.p then
    (liftX (toField x) (leadByte b &&& 1)).map fun y => (toField x, y)
  else none

def referenceLib : Libsecp256k1 where
  Field := ZMod Secp256k1.p
  setB32 b := if bytesToNat b < Secp256k1.p then some (toField b) else none
  sqr f := f ^ 2
  mul f g := f * g
  eqVar f g := f == g
  normalize f := f
  normalizeVar f := f
  isOdd f := f.val % 2 == 1
  fillB32 := fieldBytes
  setXy f g := ⟨f, g, false⟩
  jacobianDefault := ⟨0, 0, 0, false⟩
  fromGe := Jacobian.ofAffine
  addGeVar := Jacobian.addAffine
  isInfinity a := a.infinity
  fromGej := Jacobian.toAffine
  PublicKey := ZMod Secp256k1.p × ZMod Secp256k1.p
  parseCompressed := referenceParse
  serialize k := encodeUncompressed k.1 k.2
  serializeCompressed k := encodeCompressed k.1 k.2

/-- The field elements are the residues themselves. -/
def referenceReading : FieldReading referenceLib where
  val f := f
  Normalized _ := True

theorem fieldExact_reference : FieldExact referenceLib referenceReading where
  setB32_of_lt b h := ⟨toField b, by simp [referenceLib, h], rfl⟩
  setB32_of_ge b h := by simp [referenceLib, Nat.not_lt.mpr h]
  val_sqr _ := rfl
  val_mul _ _ := rfl
  eqVar_iff f g := beq_iff_eq
  val_normalize _ := rfl
  normalized_normalize _ := trivial
  val_normalizeVar _ := rfl
  normalized_normalizeVar _ := trivial
  isOdd_iff f _ := beq_iff_eq
  fillB32_eq _ _ := rfl

theorem sumExact_reference : SumExact referenceLib referenceReading where
  affine_setXy _ _ := rfl
  jacobian_fromGe _ := rfl
  proper_addGeVar _ _ ha hc hy := Jacobian.proper_addAffine Secp256k1.two_ne_zero hc hy ha
  affine_fromGej _ _ _ := rfl

theorem groupExact_reference : GroupExact referenceLib referenceReading where
  represents_addGeVar _ _ _ _ ha hc hQ :=
    Jacobian.represents_addAffine Secp256k1.two_ne_zero hc (Secp256k1.y_ne_zero hQ) ha hQ

theorem encodeCompressed_of_tag {b : Bytes 33} {y : ZMod Secp256k1.p}
    (htags : leadByte b = 0x02 ∨ leadByte b = 0x03) (hy : parityOf y = leadByte b &&& 1)
    (hx : bytesToNat (afterLead b) < Secp256k1.p) :
    encodeCompressed (toField (afterLead b)) y = b := by
  have htag : (if y.val % 2 = 1 then 0x03 else 0x02 : UInt8) = leadByte b := by
    clear hx
    rw [parityOf] at hy
    split at hy
    next hodd =>
      rcases htags with h | h <;> rw [h] at hy ⊢
      · exact absurd hy (by decide)
      · rw [if_pos hodd]
    next heven =>
      rcases htags with h | h <;> rw [h] at hy ⊢
      · rw [if_neg heven]
      · exact absurd hy (by decide)
  have hsplit : slice b 0 1 ++ afterLead b = b := slice_append_slice (n := 1) (m := 32) b
  have hhead : (#v[leadByte b] : Bytes 1) = slice b 0 1 := by
    ext i hi
    obtain rfl : i = 0 := by omega
    simp [leadByte]
  rw [encodeCompressed, fieldBytes_toField hx, htag, hhead, hsplit]

theorem referenceParse_encodeCompressed {x y : ZMod Secp256k1.p} (hxy : OnCurve 7 x y) :
    referenceParse (encodeCompressed x y) = some (x, y) := by
  have hlt := ZMod.val_lt x
  simp only [referenceParse, afterLead_encodeCompressed, bytesToNat_fieldBytes, toField_fieldBytes,
    encodeCompressed_parity, encodeCompressed_tag, hlt, and_self, if_true,
    liftX_eq_some hxy, Option.map_some]

theorem of_referenceParse {b : Bytes 33} {k : ZMod Secp256k1.p × ZMod Secp256k1.p}
    (h : referenceParse b = some k) : OnCurve 7 k.1 k.2 ∧ encodeCompressed k.1 k.2 = b := by
  simp only [referenceParse] at h
  split at h
  next hcond =>
    obtain ⟨y, hlift, rfl⟩ := Option.map_eq_some_iff.mp h
    have hv : leadByte b &&& 1 = 0 ∨ leadByte b &&& 1 = 1 := by
      rcases hcond.1 with h | h <;> rw [h] <;> decide
    obtain ⟨hxy, hparity⟩ := onCurve_of_liftX hv hlift
    exact ⟨hxy, encodeCompressed_of_tag hcond.1 hparity hcond.2⟩
  next => simp at h

theorem referenceLib_parseCompressed (b : Bytes 33) :
    referenceLib.parseCompressed b = referenceParse b := rfl

theorem keyParsingExact_reference : KeyParsingExact referenceLib where
  exists_parse _ x y hP := by
    refine ⟨(x, y), ?_⟩
    rw [referenceLib_parseCompressed, referenceParse_encodeCompressed hP.onCurve]
    rfl
  of_parse b k h := by
    rw [referenceLib_parseCompressed] at h
    obtain ⟨P, hP⟩ := Secp256k1.exists_hasCoords (of_referenceParse h).1
    exact ⟨P, k.1, k.2, hP, (of_referenceParse h).2.symm, rfl, rfl⟩

/-- Load a key by checking the curve equation. -/
def referenceLoading : KeyLoading referenceLib where
  parseFull b :=
    let x : Bytes 32 := leftHalf (afterLead b)
    let y : Bytes 32 := rightHalf (afterLead b)
    if leadByte b = 0x04 ∧ bytesToNat x < Secp256k1.p ∧ bytesToNat y < Secp256k1.p ∧
        toField y ^ 2 = Secp256k1.cubic (toField x) then some (toField x, toField y)
    else none
  toAffine k := ⟨k.1, k.2, false⟩

theorem keyLoadingExact_reference :
    KeyLoadingExact referenceLib referenceReading referenceLoading where
  exists_parse P x y hP := by
    refine ⟨(x, y), ?_⟩
    have hlead : leadByte (encodeUncompressed x y) = 0x04 := Vector.getElem_append_left (by omega)
    have hx := ZMod.val_lt x
    have hy := ZMod.val_lt y
    have hcurve : y ^ 2 = Secp256k1.cubic x := hP.onCurve
    simp only [referenceLoading, afterLead_encodeUncompressed, encodeXy, leftHalf_append,
      rightHalf_append, toField_fieldBytes, bytesToNat_fieldBytes, hlead, hx, hy, hcurve, and_self,
      if_true]
  of_parse x y k h := by
    have hafter : afterLead (uncompressedBytes x y) = x ++ y :=
      slice_append_right _ _
    simp only [referenceLoading, hafter, leftHalf_append, rightHalf_append] at h
    split at h
    next hcond =>
      obtain rfl := Option.some.inj h
      exact ⟨hcond.2.1, hcond.2.2.1, Secp256k1.exists_hasCoords hcond.2.2.2, rfl⟩
    next => cases h

end Library

section Recover

/-- `r⁻¹ (s R - h G)` for `R = (r, y)`, as a sum of two multiples. -/
def recoveredTriple (h r s : Bytes 32) (y : ZMod Secp256k1.p) : Jacobian (ZMod Secp256k1.p) :=
  let inverse := (toScalar r)⁻¹
  let a := Jacobian.scalarMul ⟨Secp256k1.generatorX, Secp256k1.generatorY, false⟩ 256
    (-(inverse * toScalar h)).val
  let b := Jacobian.scalarMul ⟨toField r, y, false⟩ 256 (inverse * toScalar s).val
  a.addAffine b.toAffine

/-- Recovery: lift `r`, then add the two multiples. -/
def referenceRecover (h : Bytes 32) (v : UInt8) (signature : Bytes 64) : Option (Bytes 64) :=
  let r : Bytes 32 := leftHalf signature
  let s : Bytes 32 := rightHalf signature
  if 1 ≤ bytesToNat r ∧ bytesToNat r < Secp256k1.n ∧ 1 ≤ bytesToNat s ∧
      bytesToNat s ≤ Secp256k1.n / 2 then
    (liftX (toField r) v).bind fun y =>
      let sum := recoveredTriple h r s y
      if sum.infinity then none else some (encodeXy sum.toAffine.x sum.toAffine.y)
  else none

theorem represents_addAffine_toAffine {a b : Jacobian (ZMod Secp256k1.p)} {P Q : Secp256k1.Point}
    (ha : a.Represents P) (hb : b.Represents Q) : (a.addAffine b.toAffine).Represents (P + Q) := by
  cases hinf : b.infinity with
  | true =>
    have hQ := (Jacobian.represents_of_infinity hinf).mp hb
    rw [hQ, add_zero, Jacobian.addAffine]
    by_cases hainf : a.infinity
    · rw [if_pos hainf]
      have hP := (Jacobian.represents_of_infinity hainf).mp ha
      exact .inl ⟨hinf, hP⟩
    · rw [if_neg hainf, if_pos (by exact hinf)]
      exact ha
  | false =>
    have hcoords := ((Jacobian.represents_of_finite hinf).mp hb).2
    exact Jacobian.represents_addAffine Secp256k1.two_ne_zero hinf
      (Secp256k1.y_ne_zero hcoords) ha hcoords

theorem represents_scalarMul_val (k : ZMod Secp256k1.n) {Q : Secp256k1.Point}
    {x y : ZMod Secp256k1.p} (hQ : HasCoords Q x y) :
    (Jacobian.scalarMul ⟨x, y, false⟩ 256 k.val).Represents (k • Q) := by
  have hlt : k.val < 2 ^ 256 :=
    (ZMod.val_lt k).trans (Secp256k1.n_lt_p.trans Secp256k1.p_lt_two_pow)
  have h := Jacobian.represents_scalarMul Secp256k1.two_ne_zero Secp256k1.cube_add_seven_ne_zero
    (c := ⟨x, y, false⟩) rfl hQ 256 hlt
  rwa [← Secp256k1.natCast_smul, ZMod.natCast_zmod_val] at h

theorem represents_recoveredTriple (h r s : Bytes 32) {Q : Secp256k1.Point}
    {y : ZMod Secp256k1.p} (hQ : HasCoords Q (toField r) y) : (recoveredTriple h r s y).Represents
      (recovered Secp256k1.G Q (toScalar r) (toScalar s) (toScalar h)) := by
  have hG := represents_scalarMul_val (-((toScalar r)⁻¹ * toScalar h)) Secp256k1.hasCoords_G
  have hR := represents_scalarMul_val ((toScalar r)⁻¹ * toScalar s) hQ
  have hsum := represents_addAffine_toAffine hG hR
  rwa [neg_smul, neg_add_eq_sub, ← smul_smul, ← smul_smul, ← smul_sub] at hsum

theorem referenceRecover_eq (h r s : Bytes 32) {Q : Secp256k1.Point} {y : ZMod Secp256k1.p}
    (hrange : 1 ≤ bytesToNat r ∧ bytesToNat r < Secp256k1.n ∧ 1 ≤ bytesToNat s ∧
      bytesToNat s ≤ Secp256k1.n / 2) (hQ : HasCoords Q (toField r) y) :
    referenceRecover h (parityOf y) (r ++ s) =
      if (recoveredTriple h r s y).infinity then none
      else some (encodeXy (recoveredTriple h r s y).toAffine.x (recoveredTriple h r s y).toAffine.y) := by
  simp only [referenceRecover, leftHalf_append, rightHalf_append, if_pos hrange,
    liftX_eq_some hQ.onCurve, Option.bind_some]

theorem recoverExact_reference : RecoverExact referenceRecover where
  of_out_of_range h v r s hrange := by
    simp only [referenceRecover, leftHalf_append, rightHalf_append, if_neg hrange]
  of_no_point h v r s _ hnone := by
    have hlift : liftX (toField r) v = none := by
      refine liftX_eq_none (fun y hxy => ?_) v
      obtain ⟨P, hP⟩ := Secp256k1.exists_hasCoords hxy
      exact hnone P y hP
    simp only [referenceRecover, leftHalf_append, rightHalf_append, hlift, Option.bind_none,
      ite_self]
  of_finite h r s Q y x' y' h₁ h₂ h₃ h₄ hQ hcoords := by
    have hsum := represents_recoveredTriple h r s hQ
    have hfin : (recoveredTriple h r s y).infinity = false := by
      rw [← Bool.not_eq_true, hsum.infinity_iff]
      exact hcoords.ne_zero
    obtain ⟨rfl, rfl⟩ := ((Jacobian.represents_of_finite hfin).mp hsum).2.unique hcoords
    rw [referenceRecover_eq h r s ⟨h₁, h₂, h₃, h₄⟩ hQ, hfin]
    rfl
  of_infinity h r s Q y hQ hzero := by
    by_cases hrange : 1 ≤ bytesToNat r ∧ bytesToNat r < Secp256k1.n ∧ 1 ≤ bytesToNat s ∧
        bytesToNat s ≤ Secp256k1.n / 2
    · have hsum := represents_recoveredTriple h r s hQ
      rw [referenceRecover_eq h r s hrange hQ, if_pos (hsum.infinity_iff.mpr hzero)]
    · simp only [referenceRecover, leftHalf_append, rightHalf_append, if_neg hrange]

end Recover

/-- The implementation with a given hash function. -/
def referencePrimitives (keccak : Keccak) : Primitives where
  lib := referenceLib
  secp256k1Recover := referenceRecover
  keccak := keccak

end MolphaVerifier
