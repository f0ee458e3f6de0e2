import MolphaVerifier.KeyPossession

/-!
# The low-s normal form

A signature `(v, s)` and its mirror image `(1 - v, n - s)` name one product `s R`, since the two
parities name opposite points. Normalization picks the one of the two with `s ≤ n / 2`; recovery,
which looks at `s R` only, finds the same point from either.
-/

namespace MolphaVerifier

open FixedBytes ShortWeierstrass SchnorrEquations

/-- `(v', r, s')` is the low-s form of `(v, r, s)`: one of the signature and its mirror image, in the
lower half, which is its own form and that of the mirror image. -/
structure LowSForm (v : UInt8) (r s : Bytes 32) (v' : UInt8) (s' : Bytes 32) : Prop where
  normalized : secp256k1EcdsaNormalizeLowS v (r ++ s) = .ok (v', r ++ s')
  s_pos : 1 ≤ bytesToNat s'
  s_le : bytesToNat s' ≤ Secp256k1.n / 2
  sign : v' = v ∧ s' = s ∨ v' = 1 - v ∧ bytesToNat s' = Secp256k1.n - bytesToNat s
  idempotent : secp256k1EcdsaNormalizeLowS v' (r ++ s') = .ok (v', r ++ s')
  mirrored : ∀ mirror : Bytes 32, bytesToNat mirror = Secp256k1.n - bytesToNat s →
    secp256k1EcdsaNormalizeLowS (1 - v) (r ++ mirror) = .ok (v', r ++ s')

/-- The two signatures name one product `s R`, and recovery from the second finds the point of the
first. -/
structure NamesSamePoint (v : UInt8) (r s : Bytes 32) (v' : UInt8) (s' : Bytes 32) : Prop where
  product : ∀ (R R' : Secp256k1.Point) (y y' : ZMod Secp256k1.p), HasCoords R (toField r) y →
    parityOf y = v → HasCoords R' (toField r) y' → parityOf y' = v' →
    bytesToNat s' • R' = bytesToNat s • R
  recovery : ∀ recover, RecoverExact recover → 1 ≤ bytesToNat r → bytesToNat r < Secp256k1.n →
    ∀ (R : Secp256k1.Point) (y : ZMod Secp256k1.p), HasCoords R (toField r) y → parityOf y = v →
    ∀ (hash : Bytes 32) (out : Bytes 64), recover hash v' (r ++ s') = some out ↔
      ∃ x y, HasCoords (recovered Secp256k1.G R (toScalar r) (toScalar s) (toScalar hash)) x y ∧
        out = encodeXy x y

section Forms

variable {v v' : UInt8} {r s s' : Bytes 32}

theorem sub_xor_one_eq (hv : v = 0 ∨ v = 1) : (1 - v) ^^^ 1 = v := by
  rcases hv with rfl | rfl
  · decide
  · decide

/-- The order is odd, so the negation of a scalar in the lower half is in the upper one. -/
theorem half_lt_sub_of_le_half {k : ℕ} (h : k ≤ Secp256k1.n / 2) :
    Secp256k1.n / 2 < Secp256k1.n - k := by
  have hodd : Secp256k1.n % 2 = 1 := by norm_num [Secp256k1.n]
  omega

theorem lowSForm_of_low (hv : v = 0 ∨ v = 1) (hpos : 1 ≤ bytesToNat s)
    (hle : bytesToNat s ≤ Secp256k1.n / 2) : LowSForm v r s v s where
  normalized := secp256k1EcdsaNormalizeLowS_of_low hpos hle
  s_pos := hpos
  s_le := hle
  sign := .inl ⟨rfl, rfl⟩
  idempotent := secp256k1EcdsaNormalizeLowS_of_low hpos hle
  mirrored := by
    intro mirror hmirror
    have hn := n_pos
    have hhigh := half_lt_sub_of_le_half hle
    have hback : subBe secp256k1Order mirror = s := by
      refine bytesToNat_injective ?_
      rw [bytesToNat_subBe_order (by omega), hmirror]
      omega
    rw [secp256k1EcdsaNormalizeLowS_of_high (by omega) (by omega), hback, sub_xor_one_eq hv]

theorem lowSForm_of_high (hv : v = 0 ∨ v = 1) (hgt : Secp256k1.n / 2 < bytesToNat s)
    (hlt : bytesToNat s < Secp256k1.n) : LowSForm v r s (1 - v) (subBe secp256k1Order s) := by
  have hsub := bytesToNat_subBe_order hlt.le
  have hpos : 1 ≤ bytesToNat (subBe secp256k1Order s) := by omega
  have hle : bytesToNat (subBe secp256k1Order s) ≤ Secp256k1.n / 2 := by omega
  refine ⟨?_, hpos, hle, .inr ⟨rfl, hsub⟩, secp256k1EcdsaNormalizeLowS_of_low hpos hle, ?_⟩
  · rw [secp256k1EcdsaNormalizeLowS_of_high hgt hlt, xor_one_eq_sub hv]
  · intro mirror hmirror
    have hsame : mirror = subBe secp256k1Order s := bytesToNat_injective (hmirror.trans hsub.symm)
    rw [hsame]
    exact secp256k1EcdsaNormalizeLowS_of_low hpos hle

theorem exists_lowSForm (hv : v = 0 ∨ v = 1) (hpos : 1 ≤ bytesToNat s)
    (hlt : bytesToNat s < Secp256k1.n) : ∃ v' s', LowSForm v r s v' s' := by
  rcases Nat.lt_or_ge (Secp256k1.n / 2) (bytesToNat s) with hgt | hle
  · exact ⟨1 - v, subBe secp256k1Order s, lowSForm_of_high hv hgt hlt⟩
  · exact ⟨v, s, lowSForm_of_low hv hpos hle⟩

end Forms

section Points

variable {v v' : UInt8} {r s s' : Bytes 32} {R R' : Secp256k1.Point} {y y' : ZMod Secp256k1.p}

theorem toScalar_smul (s : Bytes 32) (R : Secp256k1.Point) : toScalar s • R = bytesToNat s • R :=
  Nat.cast_smul_eq_nsmul _ _ _

theorem eq_neg_of_parityOf_flip (hv : parityOf y = v) (hR : HasCoords R (toField r) y)
    (hR' : HasCoords R' (toField r) y') (hflip : parityOf y' = 1 - v) : R' = -R := by
  have hbit : v = 0 ∨ v = 1 := hv ▸ parityOf_lt_two y
  have hneg : parityOf (-y) = 1 - v := by
    rw [parityOf_neg (Secp256k1.y_ne_zero hR), hv, xor_one_eq_sub hbit]
  obtain rfl := eq_of_parityOf_eq hR' hR.neg (hflip.trans hneg.symm)
  exact hR'.ext hR.neg

theorem LowSForm.product (h : LowSForm v r s v' s') (hlt : bytesToNat s < Secp256k1.n)
    (hR : HasCoords R (toField r) y) (hv : parityOf y = v) (hR' : HasCoords R' (toField r) y')
    (hv' : parityOf y' = v') : bytesToNat s' • R' = bytesToNat s • R := by
  rcases h.sign with ⟨rfl, rfl⟩ | ⟨rfl, hs⟩
  · obtain rfl := eq_of_parityOf_eq hR' hR (hv'.trans hv.symm)
    rw [hR'.ext hR]
  · have hneg : toScalar s' = -toScalar s := by
      rw [toScalar, hs, Nat.cast_sub hlt.le, ZMod.natCast_self, zero_sub, toScalar]
    rw [eq_neg_of_parityOf_flip hv hR hR' hv', ← toScalar_smul, hneg, neg_smul_neg, toScalar_smul]

theorem LowSForm.namesSamePoint (h : LowSForm v r s v' s') (hpos : 1 ≤ bytesToNat s)
    (hlt : bytesToNat s < Secp256k1.n) : NamesSamePoint v r s v' s' where
  product := fun R R' y y' hR hv hR' hv' => h.product hlt hR hv hR' hv'
  recovery := by
    rintro recover hRec hrpos hrlt R y hR rfl hash out
    have hrun : recoverLowS recover hash (parityOf y) (r ++ s) = recover hash v' (r ++ s') := by
      rw [recoverLowS, h.normalized]
    rw [← hrun, recoverLowS_eq_some_iff hRec hR ⟨hrpos, hrlt⟩ hlt]
    exact and_iff_right hpos

end Points

/-- Every nonzero canonical `s` has a low-s form, which names the same point; and negation is that of
the scalars. -/
theorem low_s_normal_form (v : UInt8) (r s : Bytes 32) (hv : v = 0 ∨ v = 1)
    (hpos : 1 ≤ bytesToNat s) (hlt : bytesToNat s < Secp256k1.n) :
    (∃ v' s', LowSForm v r s v' s' ∧ NamesSamePoint v r s v' s') ∧
      ∀ z : Bytes 32, bytesToNat z < Secp256k1.n →
        bytesToNat (negateModN z) < Secp256k1.n ∧ toScalar (negateModN z) = -toScalar z := by
  obtain ⟨v', s', hform⟩ := exists_lowSForm (r := r) hv hpos hlt
  exact ⟨⟨v', s', hform, hform.namesSamePoint hpos hlt⟩,
    fun z hz => ⟨bytesToNat_negateModN_lt hz, toScalar_negateModN hz⟩⟩

/-- The smallest scalar of the upper half, over the first coordinate of the generator. -/
theorem low_s_normal_form_sample :
    (∃ v' s',
        LowSForm 0 (fieldBytes Secp256k1.generatorX) (natToBytes 32 (Secp256k1.n / 2 + 1)) v' s' ∧
        NamesSamePoint 0 (fieldBytes Secp256k1.generatorX) (natToBytes 32 (Secp256k1.n / 2 + 1))
          v' s') ∧
      ∀ z : Bytes 32, bytesToNat z < Secp256k1.n →
        bytesToNat (negateModN z) < Secp256k1.n ∧ toScalar (negateModN z) = -toScalar z := by
  have hvalue : bytesToNat (natToBytes 32 (Secp256k1.n / 2 + 1)) = Secp256k1.n / 2 + 1 :=
    bytesToNat_natToBytes_of_lt (by norm_num [Secp256k1.n])
  exact low_s_normal_form 0 _ _ (.inl rfl) (by omega) (by rw [hvalue]; norm_num [Secp256k1.n])

end MolphaVerifier
