import MolphaVerifier.ExternalPrimitives

/-!
# Recovery through a low-s instance

Possession proofs and partial signatures evaluate a combination `r⁻¹ (t R - h G)` by one recovery
call. The call rejects the upper half of the scalars, so `t` is normalized first, which negates `t`
and flips the parity of `R` together. `recoverLowS` is the pair of the two steps; it returns the
combination, and nothing when `t` is zero or the combination is infinity.
-/

namespace MolphaVerifier

open FixedBytes ShortWeierstrass SchnorrEquations

section Normalize

variable {v : UInt8} {r t : Bytes 32}

theorem xor_one_eq_sub (hv : v = 0 ∨ v = 1) : v ^^^ 1 = 1 - v := by
  rcases hv with rfl | rfl
  · decide
  · decide

theorem isZero_eq_false_iff {x : Bytes 32} : isZero x = false ↔ 0 < bytesToNat x := by
  rw [← Bool.not_eq_true, isZero_iff, Nat.pos_iff_ne_zero]

theorem toScalar_negateModN {z : Bytes 32} (h : bytesToNat z < Secp256k1.n) :
    toScalar (negateModN z) = -toScalar z := by
  rw [toScalar, bytesToNat_negateModN h, ZMod.natCast_mod, Nat.cast_sub h.le, ZMod.natCast_self,
    zero_sub, toScalar]

theorem bytesToNat_negateModN_lt {z : Bytes 32} (h : bytesToNat z < Secp256k1.n) :
    bytesToNat (negateModN z) < Secp256k1.n := by
  rw [bytesToNat_negateModN h]
  exact Nat.mod_lt _ n_pos

theorem bytesToNat_pos_iff {z : Bytes 32} (h : bytesToNat z < Secp256k1.n) :
    0 < bytesToNat z ↔ toScalar z ≠ 0 := by
  rw [ne_eq, toScalar_eq_zero_iff, Nat.mod_eq_of_lt h, Nat.pos_iff_ne_zero]

theorem secp256k1EcdsaNormalizeLowS_of_zero (ht : bytesToNat t = 0) :
    secp256k1EcdsaNormalizeLowS v (r ++ t) = .error .invalidSignature := by
  have hcmp := cmpBe_eq t secp256k1OrderHalf
  rw [bytesToNat_secp256k1OrderHalf, ht] at hcmp
  have hlow : ¬cmpBe t secp256k1OrderHalf = .gt := by
    rw [hcmp, compare_gt_iff_gt]
    exact Nat.not_lt_zero _
  simp only [secp256k1EcdsaNormalizeLowS, rightHalf_append, if_neg hlow]
  rw [if_pos ((isZero_iff t).mpr ht)]

theorem secp256k1EcdsaNormalizeLowS_of_low (hpos : 0 < bytesToNat t)
    (hle : bytesToNat t ≤ Secp256k1.n / 2) :
    secp256k1EcdsaNormalizeLowS v (r ++ t) = .ok (v, r ++ t) := by
  have hcmp := cmpBe_eq t secp256k1OrderHalf
  rw [bytesToNat_secp256k1OrderHalf] at hcmp
  have hlow : ¬cmpBe t secp256k1OrderHalf = .gt := by
    rw [hcmp, compare_gt_iff_gt]
    omega
  have hnonzero := isZero_eq_false_iff.mpr hpos
  simp only [secp256k1EcdsaNormalizeLowS, rightHalf_append, if_neg hlow, hnonzero,
    Bool.false_eq_true, if_false]

theorem secp256k1EcdsaNormalizeLowS_of_high (hgt : Secp256k1.n / 2 < bytesToNat t)
    (hlt : bytesToNat t < Secp256k1.n) :
    secp256k1EcdsaNormalizeLowS v (r ++ t) = .ok (v ^^^ 1, r ++ subBe secp256k1Order t) := by
  have hcmp := cmpBe_eq t secp256k1OrderHalf
  rw [bytesToNat_secp256k1OrderHalf] at hcmp
  have hhigh : cmpBe t secp256k1OrderHalf = .gt := by
    rw [hcmp, compare_gt_iff_gt]
    exact hgt
  have hnonzero : isZero (subBe secp256k1Order t) = false := by
    rw [isZero_eq_false_iff, bytesToNat_subBe_order hlt.le]
    omega
  simp only [secp256k1EcdsaNormalizeLowS, rightHalf_append, leftHalf_append, if_pos hhigh,
    hnonzero, Bool.false_eq_true, if_false]

/-- A nonzero canonical scalar stays or is negated, whichever is in the lower half, and the parity
flips with it. -/
theorem secp256k1EcdsaNormalizeLowS_eq_ok (hpos : 0 < bytesToNat t)
    (hlt : bytesToNat t < Secp256k1.n) : ∃ v' t',
    secp256k1EcdsaNormalizeLowS v (r ++ t) = .ok (v', r ++ t') ∧
      1 ≤ bytesToNat t' ∧ bytesToNat t' ≤ Secp256k1.n / 2 ∧
      (v' = v ∧ t' = t ∨ v' = v ^^^ 1 ∧ bytesToNat t' = Secp256k1.n - bytesToNat t ∧
        toScalar t' = -toScalar t) := by
  have hsub := bytesToNat_subBe_order hlt.le
  rcases Nat.lt_or_ge (Secp256k1.n / 2) (bytesToNat t) with hgt | hle
  · exact ⟨v ^^^ 1, subBe secp256k1Order t, secp256k1EcdsaNormalizeLowS_of_high hgt hlt, by omega,
      by omega, .inr ⟨rfl, hsub, toScalar_subBe_order hlt.le⟩⟩
  · exact ⟨v, t, secp256k1EcdsaNormalizeLowS_of_low hpos hle, hpos, hle, .inl ⟨rfl, rfl⟩⟩

end Normalize

/-- Normalize, then recover. -/
def recoverLowS (recover : Bytes 32 → UInt8 → Bytes 64 → Option (Bytes 64)) (hash : Bytes 32)
    (recoveryId : UInt8) (signature : Bytes 64) : Option (Bytes 64) :=
  match secp256k1EcdsaNormalizeLowS recoveryId signature with
  | .error _ => none
  | .ok (recoveryId, signature) => recover hash recoveryId signature

section Recover

variable {recover : Bytes 32 → UInt8 → Bytes 64 → Option (Bytes 64)} {hash r t : Bytes 32}
  {P : Secp256k1.Point} {y x' y' : ZMod Secp256k1.p}

theorem recoverLowS_of_zero (v : UInt8) (ht : bytesToNat t = 0) :
    recoverLowS recover hash v (r ++ t) = none := by
  rw [recoverLowS, secp256k1EcdsaNormalizeLowS_of_zero ht]

/-- The low-s instance has the same combination over the point of its own parity. -/
theorem exists_lowS_instance (hP : HasCoords P (toField r) y) (hpos : 0 < bytesToNat t)
    (hlt : bytesToNat t < Secp256k1.n) : ∃ t' Q yQ,
    recoverLowS recover hash (parityOf y) (r ++ t) = recover hash (parityOf yQ) (r ++ t') ∧
      1 ≤ bytesToNat t' ∧ bytesToNat t' ≤ Secp256k1.n / 2 ∧ HasCoords Q (toField r) yQ ∧
      recovered Secp256k1.G Q (toScalar r) (toScalar t') (toScalar hash) =
        recovered Secp256k1.G P (toScalar r) (toScalar t) (toScalar hash) := by
  obtain ⟨v', t', hnormal, hone, hhalf, hcase⟩ :=
    secp256k1EcdsaNormalizeLowS_eq_ok (v := parityOf y) (r := r) hpos hlt
  rw [recoverLowS, hnormal]
  rcases hcase with ⟨rfl, rfl⟩ | ⟨rfl, -, hneg⟩
  · exact ⟨t', P, y, rfl, hone, hhalf, hP, rfl⟩
  · refine ⟨t', -P, -y, ?_, hone, hhalf, hP.neg, ?_⟩
    · rw [parityOf_neg (Secp256k1.y_ne_zero hP)]
    · rw [hneg, recovered_neg_neg]

theorem recoverLowS_of_finite (hRec : RecoverExact recover) (hP : HasCoords P (toField r) y)
    (hr : 0 < bytesToNat r ∧ bytesToNat r < Secp256k1.n) (hpos : 0 < bytesToNat t)
    (hlt : bytesToNat t < Secp256k1.n)
    (hcoords : HasCoords
      (recovered Secp256k1.G P (toScalar r) (toScalar t) (toScalar hash)) x' y') :
    recoverLowS recover hash (parityOf y) (r ++ t) = some (encodeXy x' y') := by
  obtain ⟨t', Q, yQ, hrun, hone, hhalf, hQ, hsame⟩ := exists_lowS_instance hP hpos hlt
  rw [hrun]
  exact hRec.of_finite hash r t' Q yQ x' y' hr.1 hr.2 hone hhalf hQ (by rwa [hsame])

theorem recoverLowS_of_infinity (hRec : RecoverExact recover) (hP : HasCoords P (toField r) y)
    (hpos : 0 < bytesToNat t) (hlt : bytesToNat t < Secp256k1.n)
    (hzero : recovered Secp256k1.G P (toScalar r) (toScalar t) (toScalar hash) = 0) :
    recoverLowS recover hash (parityOf y) (r ++ t) = none := by
  obtain ⟨t', Q, yQ, hrun, -, -, hQ, hsame⟩ := exists_lowS_instance hP hpos hlt
  rw [hrun]
  exact hRec.of_infinity hash r t' Q yQ hQ (by rw [hsame, hzero])

/-- What comes back is the combination, for a nonzero `t` and a finite result. -/
theorem recoverLowS_eq_some_iff (hRec : RecoverExact recover) (hP : HasCoords P (toField r) y)
    (hr : 0 < bytesToNat r ∧ bytesToNat r < Secp256k1.n) (hlt : bytesToNat t < Secp256k1.n)
    {out : Bytes 64} :
    recoverLowS recover hash (parityOf y) (r ++ t) = some out ↔ 0 < bytesToNat t ∧
      ∃ x' y', HasCoords
        (recovered Secp256k1.G P (toScalar r) (toScalar t) (toScalar hash)) x' y' ∧
        out = encodeXy x' y' := by
  rcases Nat.eq_zero_or_pos (bytesToNat t) with hzero | hpos
  · simp [recoverLowS_of_zero _ hzero, hzero]
  by_cases hinf : recovered Secp256k1.G P (toScalar r) (toScalar t) (toScalar hash) = 0
  · rw [recoverLowS_of_infinity hRec hP hpos hlt hinf, hinf]
    constructor
    · intro h
      exact nomatch h
    · rintro ⟨-, x', y', hcoords, -⟩
      exact absurd rfl hcoords.ne_zero
  · obtain ⟨x', y', hcoords⟩ := ne_zero_iff_exists_hasCoords.mp hinf
    rw [recoverLowS_of_finite hRec hP hr hpos hlt hcoords, Option.some.injEq]
    constructor
    · rintro rfl
      exact ⟨hpos, x', y', hcoords, rfl⟩
    · rintro ⟨-, x₁, y₁, hcoords₁, rfl⟩
      obtain ⟨rfl, rfl⟩ := hcoords.unique hcoords₁
      rfl

/-- With `t = -e r` and `h = -s r` the combination is the Schnorr nonce `s G - e P`. -/
theorem recoverLowS_nonce_iff (hRec : RecoverExact recover) (hP : HasCoords P (toField r) y)
    (hr : 0 < bytesToNat r ∧ bytesToNat r < Secp256k1.n) {e s : Bytes 32} {out : Bytes 64} :
    recoverLowS recover (negateModN (mulMod s r)) (parityOf y) (r ++ negateModN (mulMod e r)) =
        some out ↔ toScalar e ≠ 0 ∧
      ∃ x' y', HasCoords (nonce Secp256k1.G P (toScalar s) (toScalar e)) x' y' ∧
        out = encodeXy x' y' := by
  have hne : toScalar r ≠ 0 := (bytesToNat_pos_iff hr.2).mp hr.1
  have hlt (z : Bytes 32) : bytesToNat (negateModN (mulMod z r)) < Secp256k1.n :=
    bytesToNat_negateModN_lt (bytesToNat_mulMod_lt z r)
  have hnegate (z : Bytes 32) : toScalar (negateModN (mulMod z r)) =
      -(toScalar z * toScalar r) := by
    rw [toScalar_negateModN (bytesToNat_mulMod_lt z r), toScalar_mulMod]
  have hpos : 0 < bytesToNat (negateModN (mulMod e r)) ↔ toScalar e ≠ 0 := by
    rw [bytesToNat_pos_iff (hlt e), hnegate, neg_ne_zero, mul_ne_zero_iff, and_iff_left hne]
  rw [recoverLowS_eq_some_iff hRec hP hr (hlt e), hpos,
    recovered_eq_nonce Secp256k1.G hne (hnegate e) (hnegate s)]

end Recover

end MolphaVerifier
