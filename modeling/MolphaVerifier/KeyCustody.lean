import MolphaVerifier.AttemptedRuns
import MolphaVerifier.RotationAuthorization

/-!
# The custody of a signing key

A node's key is handed over from point to point: the new key proves possession and the old one signed
for it. Over any run of rotation attempts, failed ones among them, the keys a registered node can
come to store are exactly those that such a chain of handovers leads to, and every one of them has
proven possession.
-/

namespace MolphaVerifier

open FixedBytes ShortWeierstrass AttemptedRuns Relation

/-- The stored point `Q` hands over to another point, which proves possession over a digest that `Q`
signed. -/
def HandsOver (keccak : Keccak) (programId node : Bytes 32) (key newKey : SignerXy) : Prop :=
  ∃ Q proof K x y, UsableKey key Q ∧ ProvesNewKey keccak programId node proof K x y ∧ K ≠ Q ∧
    Authorizes keccak Q (toField key.1) (toField key.2)
      (keyRotationDigest keccak programId node proof.newPublicKeyCompressed) proof.oldKeySigS
      proof.oldKeyCommitment ∧
    newKey = (fieldBytes x, fieldBytes y)

/-- The pair is the coordinates of a point that proved possession over some node message. -/
def PossessionProven (keccak : Keccak) (key : SignerXy) : Prop :=
  ∃ publicKeyCompressed P x y programId subject r s, EncodesKey publicKeyCompressed P x y ∧
    PossessionHolds keccak P x y (deriveNodePopMessage keccak programId subject) r s ∧
    key = (fieldBytes x, fieldBytes y)

section Handovers

variable {prims : Primitives} {R : FieldReading prims.lib} {programId node : Bytes 32}
  {key newKey start : SignerXy} {proof : KeyRotationProof} {Q : Secp256k1.Point}

theorem UsableKey.storedPoint (h : UsableKey key Q) : StoredPoint key Q :=
  ⟨h.x_lt.trans Secp256k1.n_lt_p, h.y_lt, h.coords⟩

/-- A rotation of a stored point succeeds exactly with a proven new key that differs and the stored
point's signature. -/
theorem verifyKeyRotation_eq_ok_iff (hF : FieldExact prims.lib R) (hS : SumExact prims.lib R)
    (hK : KeyParsingExact prims.lib) (hRec : RecoverExact prims.secp256k1Recover)
    (hQ : UsableKey key Q) :
    verifyKeyRotation prims programId node key proof = .ok newKey ↔ ∃ K x y,
      ProvesNewKey prims.keccak programId node proof K x y ∧ K ≠ Q ∧
        Authorizes prims.keccak Q (toField key.1) (toField key.2)
          (keyRotationDigest prims.keccak programId node proof.newPublicKeyCompressed)
          proof.oldKeySigS proof.oldKeyCommitment ∧
        newKey = (fieldBytes x, fieldBytes y) := by
  have hauthorized : LiftedKeySigned prims.keccak programId node key proof ↔
      Authorizes prims.keccak Q (toField key.1) (toField key.2)
        (keyRotationDigest prims.keccak programId node proof.newPublicKeyCompressed)
        proof.oldKeySigS proof.oldKeyCommitment := by
    simp only [LiftedKeySigned, hQ.storedPoint.liftsTo_iff hQ.x_lt, and_assoc, exists_and_left,
      exists_eq_left]
  rcases verifyKeyRotation_cases hF hS hK hRec programId node key proof with
    ⟨hnone, hrun⟩ | ⟨K, x, y, hkey, hnot, hrun⟩ | ⟨K, x, y, hproves, hcases⟩
  · rw [hrun]
    refine iff_of_false (fun h => by cases h) ?_
    rintro ⟨K, x, y, hproves, -⟩
    exact hnone ⟨K, x, y, hproves.encodes⟩
  · rw [hrun]
    refine iff_of_false (fun h => by cases h) ?_
    rintro ⟨K', x', y', hproves, -⟩
    obtain ⟨rfl, rfl, rfl⟩ := hkey.unique hproves.encodes
    exact hnot hproves
  · rw [hproves.exists_iff, ← hauthorized]
    rw [hQ.storedPoint.bytes_eq_iff hproves.encodes.coords, ne_eq,
      hQ.storedPoint.bytes_eq_iff hproves.encodes.coords] at hcases
    rcases hcases with ⟨hsame, hrun⟩ | ⟨hchanged, ⟨hsigned, hrun⟩ | ⟨hunsigned, hrun⟩⟩
    · simp [hrun, hsame]
    · simp [hrun, hchanged, hsigned, eq_comm]
    · simp [hrun, hunsigned]

theorem succeeds_iff_handsOver (hF : FieldExact prims.lib R) (hS : SumExact prims.lib R)
    (hK : KeyParsingExact prims.lib) (hRec : RecoverExact prims.secp256k1Recover)
    (husable : ∃ Q, UsableKey key Q) :
    Succeeds (verifyKeyRotation prims programId node) key newKey ↔
      HandsOver prims.keccak programId node key newKey := by
  obtain ⟨Q, hQ⟩ := husable
  constructor
  · rintro ⟨proof, hrun⟩
    obtain ⟨K, x, y, h⟩ := (verifyKeyRotation_eq_ok_iff hF hS hK hRec hQ).mp hrun
    exact ⟨Q, proof, K, x, y, hQ, h⟩
  · rintro ⟨Q', proof, K, x, y, hQ', h⟩
    obtain rfl := hQ'.storedPoint.unique hQ.storedPoint
    exact ⟨proof, (verifyKeyRotation_eq_ok_iff hF hS hK hRec hQ).mpr ⟨K, x, y, h⟩⟩

theorem HandsOver.usable {keccak : Keccak} (h : HandsOver keccak programId node key newKey) :
    ∃ Q, UsableKey newKey Q := by
  obtain ⟨_, _, K, x, y, -, hproves, -, -, rfl⟩ := h
  exact ⟨K, hproves.encodes.usable⟩

theorem HandsOver.possessionProven {keccak : Keccak}
    (h : HandsOver keccak programId node key newKey) : PossessionProven keccak newKey := by
  obtain ⟨_, _, K, x, y, -, hproves, -, -, rfl⟩ := h
  exact ⟨_, K, x, y, programId, _, _, _, hproves.encodes, hproves.possession, rfl⟩

theorem rotate_eq_settle (key : SignerXy) (proof : KeyRotationProof) :
    rotate prims programId node key proof =
      settle (verifyKeyRotation prims programId node) key proof := by
  rw [rotate, settle]
  cases verifyKeyRotation prims programId node key proof <;> rfl

theorem runRotations_eq_run (start : SignerXy) (proofs : List KeyRotationProof) :
    runRotations prims programId node start proofs =
      run (verifyKeyRotation prims programId node) start proofs := by
  rw [runRotations, run]
  exact congrArg (fun step => proofs.foldl step start)
    (funext fun key => funext fun proof => rotate_eq_settle key proof)

/-- The keys that runs of attempts reach are the ends of the chains of handovers. -/
theorem exists_runRotations_iff (hF : FieldExact prims.lib R) (hS : SumExact prims.lib R)
    (hK : KeyParsingExact prims.lib) (hRec : RecoverExact prims.secp256k1Recover)
    (hstart : ∃ Q, UsableKey start Q) :
    (∃ proofs, runRotations prims programId node start proofs = key) ↔
      ReflTransGen (HandsOver prims.keccak programId node) start key := by
  simp only [runRotations_eq_run]
  rw [exists_run_iff]
  refine reflTransGen_congr ?_ (fun _ _ => succeeds_iff_handsOver hF hS hK hRec) hstart
  intro key newKey husable hsucceeds
  exact ((succeeds_iff_handsOver hF hS hK hRec husable).mp hsucceeds).usable

theorem possessionProven_of_validate (hK : KeyParsingExact prims.lib)
    (hRec : RecoverExact prims.secp256k1Recover) {programId subject : Bytes 32}
    {publicKeyCompressed : Bytes 33} {r s : Bytes 32}
    (h : validateKeyAndVerifyPop prims programId subject publicKeyCompressed r s = .ok key) :
    PossessionProven prims.keccak key := by
  rw [validateKeyAndVerifyPop] at h
  rcases validatePossession_cases hK hRec (deriveNodePopMessage prims.keccak programId subject)
    publicKeyCompressed r s with ⟨-, hrun⟩ | ⟨P, x, y, hkey, ⟨hholds, hrun⟩ | ⟨-, hrun⟩⟩
  · rw [hrun] at h
    cases h
  · rw [hrun, Except.ok.injEq] at h
    exact ⟨_, P, x, y, programId, subject, r, s, hkey, hholds, h.symm⟩
  · rw [hrun] at h
    cases h

/-- From a registered key, whatever attempts are made in whatever order, the keys that can come to be
stored are the ends of the chains of handovers, and each of them has proven possession. -/
theorem reachable_keys (hF : FieldExact prims.lib R) (hS : SumExact prims.lib R)
    (hK : KeyParsingExact prims.lib) (hRec : RecoverExact prims.secp256k1Recover)
    {registrationProgram subject : Bytes 32} {publicKeyCompressed : Bytes 33} {r s : Bytes 32}
    (hstart : validateKeyAndVerifyPop prims registrationProgram subject publicKeyCompressed r s =
      .ok start) (programId node : Bytes 32) :
    (∀ key, (∃ proofs, runRotations prims programId node start proofs = key) ↔
      ReflTransGen (HandsOver prims.keccak programId node) start key) ∧
    ∀ proofs, PossessionProven prims.keccak (runRotations prims programId node start proofs) := by
  obtain ⟨P, x, y, hkey, hcoords⟩ := encodesKey_of_validatePossession hK hstart
  have husable : ∃ Q, UsableKey start Q := ⟨P, hcoords ▸ hkey.usable⟩
  have hreach (key : SignerXy) :
      (∃ proofs, runRotations prims programId node start proofs = key) ↔
        ReflTransGen (HandsOver prims.keccak programId node) start key :=
    exists_runRotations_iff hF hS hK hRec husable
  refine ⟨hreach, fun proofs => ?_⟩
  rcases ((hreach _).mp ⟨proofs, rfl⟩).cases_tail with hsame | ⟨_, -, hlast⟩
  · rw [hsame]
    exact possessionProven_of_validate hK hRec hstart
  · exact hlast.possessionProven

end Handovers

section Sample

/-- The run from the registered generator to three times the generator is a chain of handovers, and
the last key has proven possession. -/
theorem reachable_keys_sample :
    ReflTransGen (HandsOver sampleKeccak (natToBytes 32 5) (natToBytes 32 6))
        (fieldBytes Secp256k1.generatorX, fieldBytes Secp256k1.generatorY)
        (fieldBytes Secp256k1.tripledX, fieldBytes Secp256k1.tripledY) ∧
      PossessionProven sampleKeccak
        (fieldBytes Secp256k1.tripledX, fieldBytes Secp256k1.tripledY) := by
  obtain ⟨hreach, hproven⟩ := reachable_keys fieldExact_reference sumExact_reference
    keyParsingExact_reference recoverExact_reference registered_sample (natToBytes 32 5)
    (natToBytes 32 6)
  have hlast := hproven sampleAttempts
  rw [runRotations_sample] at hlast
  exact ⟨(hreach _).mp ⟨sampleAttempts, runRotations_sample _ _⟩, hlast⟩

end Sample

end MolphaVerifier
