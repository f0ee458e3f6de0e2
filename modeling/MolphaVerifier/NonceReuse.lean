import MolphaVerifier.PartialSignatures

/-!
# What the evidence of nonce reuse reveals

An accepted triple is one linear equation in the two nonces and the key, with the coefficients `1`,
`b` and `c`. Triples over one nonce pair reveal the key exactly when the row of the key alone is in
the span of their rows. Otherwise every point is the key of some nonce pair with the same triples.
-/

namespace MolphaVerifier

open FixedBytes SchnorrEquations

/-- A triple filed against a nonce pair. -/
structure EvidenceTriple where
  b : Bytes 32
  c : Bytes 32
  s : Bytes 32
  deriving DecidableEq

namespace EvidenceTriple

variable (triple : EvidenceTriple)

/-- The coefficients of the two nonces and of the key. -/
def row : ZMod Secp256k1.n × ZMod Secp256k1.n × ZMod Secp256k1.n :=
  (1, toScalar triple.b, toScalar triple.c)

/-- The key alone. -/
def keyRow : ZMod Secp256k1.n × ZMod Secp256k1.n × ZMod Secp256k1.n := (0, 0, 1)

/-- The triple passes the check against the nonce pair. -/
def PassesFor (prims : Primitives) (loading : KeyLoading prims.lib) (x r1 r2 : SignerXy) : Prop :=
  verifyPartialSignatureEquation prims loading x r1 r2 triple.b triple.c triple.s = .ok true

theorem map_row {V : Type*} [AddCommGroup V] [Module (ZMod Secp256k1.n) V]
    (u : ZMod Secp256k1.n × ZMod Secp256k1.n × ZMod Secp256k1.n →ₗ[ZMod Secp256k1.n] V) :
    u triple.row =
      u (1, 0, 0) + toScalar triple.b • u (0, 1, 0) + toScalar triple.c • u keyRow := by
  rw [← map_smul, ← map_smul, ← map_add, ← map_add, row, keyRow]
  congr 1
  ext <;> simp

end EvidenceTriple

open EvidenceTriple

/-- The points of the three coefficients. -/
noncomputable def rowPoints (R1 R2 X : Secp256k1.Point) :
    ZMod Secp256k1.n × ZMod Secp256k1.n × ZMod Secp256k1.n →ₗ[ZMod Secp256k1.n]
      Secp256k1.Point :=
  (LinearMap.toSpanSingleton _ _ R1).coprod
    ((LinearMap.toSpanSingleton _ _ R2).coprod (LinearMap.toSpanSingleton _ _ X))

section Rows

variable {X R1 R2 : Secp256k1.Point} {triple : EvidenceTriple}

@[simp] theorem rowPoints_apply (α β γ : ZMod Secp256k1.n) :
    rowPoints R1 R2 X (α, β, γ) = α • R1 + (β • R2 + γ • X) := rfl

theorem rowPoints_keyRow : rowPoints R1 R2 X keyRow = X := by
  simp [keyRow]

theorem partialEquation_iff_row : PartialEquation X R1 R2 triple.b triple.c triple.s ↔
    rowPoints R1 R2 X triple.row = toScalar triple.s • Secp256k1.G := by
  rw [PartialEquation, row, rowPoints_apply, one_smul, ← add_assoc]
  exact eq_comm

end Rows

section Evidence

variable {prims : Primitives} {R : FieldReading prims.lib} {loading : KeyLoading prims.lib}
  {x r1 r2 : SignerXy} {X : Secp256k1.Point} {m : ℕ} {evidence : Fin m → EvidenceTriple}

/-- Accepted triples over one nonce pair are rows of one map. -/
theorem exists_rowPoints (hF : FieldExact prims.lib R) (hS : SumExact prims.lib R)
    (hG : GroupExact prims.lib R) (hL : KeyLoadingExact prims.lib R loading)
    (hRec : RecoverExact prims.secp256k1Recover) (hX : StoredPoint x X)
    (h : ∀ i, (evidence i).PassesFor prims loading x r1 r2) :
    ∃ R1 R2, ∀ i, CanonicalScalars (evidence i).b (evidence i).c (evidence i).s ∧
      rowPoints R1 R2 X (evidence i).row = toScalar (evidence i).s • Secp256k1.G := by
  cases isEmpty_or_nonempty (Fin m) with
  | inl hempty => exact ⟨0, 0, fun i => hempty.elim i⟩
  | inr hnonempty =>
    obtain ⟨first⟩ := hnonempty
    obtain ⟨-, R1, R2, hR1, hR2, -⟩ :=
      equation_of_verifyPartialSignatureEquation hF hS hG hL hRec hX (h first)
    refine ⟨R1, R2, fun i => ?_⟩
    obtain ⟨hscalars, Q1, Q2, hQ1, hQ2, hequation⟩ :=
      equation_of_verifyPartialSignatureEquation hF hS hG hL hRec hX (h i)
    obtain rfl := hR1.unique hQ1
    obtain rfl := hR2.unique hQ2
    exact ⟨hscalars, partialEquation_iff_row.mp hequation⟩

/-- Evidence over one nonce pair reveals the key when the key's row is a combination of the rows of
the triples. Otherwise every key has a nonce pair with the same equations, against which the triples
pass where the three points are stored and the check can evaluate them. -/
theorem evidence_dichotomy (hF : FieldExact prims.lib R) (hS : SumExact prims.lib R)
    (hG : GroupExact prims.lib R) (hL : KeyLoadingExact prims.lib R loading)
    (hRec : RecoverExact prims.secp256k1Recover) (hX : StoredPoint x X)
    (h : ∀ i, (evidence i).PassesFor prims loading x r1 r2) :
    (∀ weights : Fin m → ZMod Secp256k1.n, ∑ i, weights i • (evidence i).row = keyRow →
        X = (∑ i, weights i * toScalar (evidence i).s) • Secp256k1.G) ∧
      ((¬∃ weights : Fin m → ZMod Secp256k1.n, ∑ i, weights i • (evidence i).row = keyRow) →
        ∀ Y, ∃ Q1 Q2,
          (∀ i, PartialEquation Y Q1 Q2 (evidence i).b (evidence i).c (evidence i).s) ∧
          ∀ y q1 q2, StoredPoint y Y → StoredPoint q1 Q1 → StoredPoint q2 Q2 →
            bytesToNat y.1 < Secp256k1.n → bytesToNat q2.1 < Secp256k1.n →
            ∀ i, Q1 + toScalar (evidence i).c • Y ≠ 0 →
              (evidence i).PassesFor prims loading y q1 q2) := by
  obtain ⟨R1, R2, hrows⟩ := exists_rowPoints hF hS hG hL hRec hX h
  constructor
  · intro weights hweights
    rw [← map_eq_of_weights (fun i => (hrows i).2) hweights, rowPoints_keyRow]
  · intro hnone Y
    rw [← Submodule.mem_span_range_iff_exists_fun] at hnone
    obtain ⟨u, hsame, hkey⟩ := exists_map_eq_of_notMem hnone (rowPoints R1 R2 X) Y
    have hequations (i : Fin m) : PartialEquation Y (u (1, 0, 0)) (u (0, 1, 0)) (evidence i).b
        (evidence i).c (evidence i).s := by
      rw [PartialEquation, ← (hrows i).2, ← hsame i, map_row, hkey]
    refine ⟨u (1, 0, 0), u (0, 1, 0), hequations, ?_⟩
    intro y q1 q2 hY hQ1 hQ2 hy hq2 i hne
    exact verifyPartialSignatureEquation_of_accepted hF hS hG hL hRec hY hQ1 hQ2 (hrows i).1
      ⟨hequations i, hq2, hy, hne⟩

end Evidence

section Leaks

variable (triple triple' : EvidenceTriple)

/-- Two triples reveal the key exactly when they share the nonce coefficient and have different
challenges. -/
theorem exists_weights_pair_iff :
    (∃ weights : Fin 2 → ZMod Secp256k1.n, ∑ i, weights i • (![triple, triple'] i).row = keyRow) ↔
      toScalar triple.b = toScalar triple'.b ∧ toScalar triple.c ≠ toScalar triple'.c := by
  constructor
  · rintro ⟨weights, hweights⟩
    simp only [Fin.sum_univ_two, Matrix.cons_val_zero, Matrix.cons_val_one, row, keyRow,
      Prod.smul_mk, Prod.mk_add_mk, Prod.mk.injEq, smul_eq_mul, mul_one] at hweights
    obtain ⟨hone, hb, hc⟩ := hweights
    have hopposite : weights 1 = -weights 0 := by linear_combination hone
    rw [hopposite] at hb hc
    have hne : weights 0 ≠ 0 := by
      intro hzero
      rw [hzero] at hc
      simp at hc
    refine ⟨?_, ?_⟩
    · have hproduct : weights 0 * (toScalar triple.b - toScalar triple'.b) = 0 := by
        linear_combination hb
      exact sub_eq_zero.mp ((mul_eq_zero.mp hproduct).resolve_left hne)
    · intro hsame
      rw [hsame] at hc
      simp at hc
  · rintro ⟨hb, hc⟩
    have hdifference : toScalar triple.c - toScalar triple'.c ≠ 0 := sub_ne_zero.mpr hc
    refine ⟨![(toScalar triple.c - toScalar triple'.c)⁻¹,
      -(toScalar triple.c - toScalar triple'.c)⁻¹], ?_⟩
    simp only [Fin.sum_univ_two, Matrix.cons_val_zero, Matrix.cons_val_one, row, keyRow,
      Prod.smul_mk, Prod.mk_add_mk, Prod.mk.injEq, smul_eq_mul, mul_one, hb]
    refine ⟨by ring, by ring, ?_⟩
    field_simp
    ring

theorem not_exists_weights_one :
    ¬∃ weights : Fin 1 → ZMod Secp256k1.n, ∑ i, weights i • (![triple] i).row = keyRow := by
  rintro ⟨weights, hweights⟩
  simp only [Fin.sum_univ_one, Matrix.cons_val_zero, row, keyRow, Prod.smul_mk, Prod.mk.injEq,
    smul_eq_mul, mul_one] at hweights
  obtain ⟨hzero, -, hone⟩ := hweights
  rw [hzero, zero_mul] at hone
  exact zero_ne_one hone

end Leaks

section Sample

/-- The accepted triple of the generator under the challenge `k`. -/
def sampleTriple (k : ℕ) : EvidenceTriple :=
  ⟨natToBytes 32 1, natToBytes 32 k, natToBytes 32 (k + 2)⟩

theorem passes_sampleTriple {k : ℕ} (hpos : 0 < k) (hk : k < 254) :
    (sampleTriple k).PassesFor (referencePrimitives sampleKeccak) referenceLoading sampleXy sampleXy
      sampleXy :=
  verifyPartialSignatureEquation_sample hpos hk

/-- The triples under the challenges one and two reveal the share one; the first alone is also a
triple of the key two. -/
theorem evidence_dichotomy_sample :
    (∃ weights : Fin 2 → ZMod Secp256k1.n,
      ∑ i, weights i • (![sampleTriple 1, sampleTriple 2] i).row = keyRow ∧
        Secp256k1.G = (∑ i, weights i * toScalar (![sampleTriple 1, sampleTriple 2] i).s) •
          Secp256k1.G) ∧
      ∃ Q1 Q2, PartialEquation (2 • Secp256k1.G) Q1 Q2 (sampleTriple 1).b (sampleTriple 1).c
        (sampleTriple 1).s := by
  have hpasses : ∀ i, (![sampleTriple 1, sampleTriple 2] i).PassesFor
      (referencePrimitives sampleKeccak) referenceLoading sampleXy sampleXy sampleXy := by
    rw [Fin.forall_fin_two]
    exact ⟨passes_sampleTriple one_pos (by norm_num), passes_sampleTriple two_pos (by norm_num)⟩
  have hpassesOne : ∀ i, (![sampleTriple 1] i).PassesFor (referencePrimitives sampleKeccak)
      referenceLoading sampleXy sampleXy sampleXy := by
    rw [Fin.forall_fin_one]
    exact passes_sampleTriple one_pos (by norm_num)
  have hchallenges : toScalar (sampleTriple 1).c ≠ toScalar (sampleTriple 2).c := by
    rw [sampleTriple, sampleTriple, toScalar_small (by norm_num), toScalar_small (by norm_num)]
    intro h
    exact (one_ne_zero : (1 : ZMod Secp256k1.n) ≠ 0) (by linear_combination -h)
  obtain ⟨weights, hweights⟩ :=
    (exists_weights_pair_iff (sampleTriple 1) (sampleTriple 2)).mpr ⟨rfl, hchallenges⟩
  obtain ⟨Q1, Q2, hequations, -⟩ := (evidence_dichotomy fieldExact_reference sumExact_reference
    groupExact_reference keyLoadingExact_reference recoverExact_reference storedPoint_sampleXy
    hpassesOne).2 (not_exists_weights_one _) (2 • Secp256k1.G)
  exact ⟨⟨weights, hweights, (evidence_dichotomy fieldExact_reference sumExact_reference
    groupExact_reference keyLoadingExact_reference recoverExact_reference storedPoint_sampleXy
    hpasses).1 weights hweights⟩, Q1, Q2, hequations 0⟩

end Sample

end MolphaVerifier
