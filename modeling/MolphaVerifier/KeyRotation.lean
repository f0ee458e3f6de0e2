import MolphaVerifier.KeyPossession

/-!
# Key rotation

A rotation installs a new key that proves possession and that the current key signed for. Over any
run of rotation attempts the stored key stays a usable curve point, so the current key's signature
is always decided and never an error.
-/

namespace MolphaVerifier

open FixedBytes FallibleFolds ShortWeierstrass SchnorrEquations

/-- `MOLPHA_NODE_KEY_ROTATION_V1`. -/
def nodeKeyRotationPrefix : List UInt8 := [
  0x4d, 0x4f, 0x4c, 0x50, 0x48, 0x41, 0x5f, 0x4e, 0x4f, 0x44, 0x45, 0x5f, 0x4b, 0x45, 0x59, 0x5f,
  0x52, 0x4f, 0x54, 0x41, 0x54, 0x49, 0x4f, 0x4e, 0x5f, 0x56, 0x31]

/-- Both signatures that authorize replacing a node's signing key. -/
structure KeyRotationProof where
  newPublicKeyCompressed : Bytes 33
  oldKeySigS : Bytes 32
  oldKeyCommitment : Bytes 20
  popSigR : Bytes 32
  popSigS : Bytes 32

inductive KeyRotationError where
  | invalidPublicKey
  | invalidProof
  | invalidAuthorization
  | keyUnchanged
  deriving DecidableEq, Repr

def KeyRotationError.ofNodePopError : NodePopError → KeyRotationError
  | .invalidPublicKey => .invalidPublicKey
  | .invalidProof => .invalidProof

section Definitions

variable (prims : Primitives) (programId node : Bytes 32)

/-- Digest both keys sign; it names the program, the node and the new key. -/
def keyRotationDigest (keccak : Keccak) (programId node : Bytes 32)
    (newPublicKeyCompressed : Bytes 33) : Bytes 32 :=
  hashv keccak
    [nodeKeyRotationPrefix, programId.toList, node.toList, newPublicKeyCompressed.toList]

/-- Verify a rotation and return the new key. -/
def verifyKeyRotation (oldKey : SignerXy) (proof : KeyRotationProof) :
    Except KeyRotationError SignerXy :=
  let digest := keyRotationDigest prims.keccak programId node proof.newPublicKeyCompressed
  match validateKeyAndVerifyPop prims programId digest proof.newPublicKeyCompressed proof.popSigR
      proof.popSigS with
  | .error e => .error (.ofNodePopError e)
  | .ok newKey =>
    if newKey = oldKey then .error .keyUnchanged
    else
      -- A coalition of one: the stored key is its own affine sum.
      match verifyAggregateOverHashWithCoalitionKey prims proof.oldKeySigS proof.oldKeyCommitment
          digest [oldKey] ⟨oldKey.1, oldKey.2⟩ with
      | .ok true => .ok newKey
      | _ => .error .invalidAuthorization

/-- One attempt: a verified rotation replaces the stored key, a failed one leaves it. -/
def rotate (current : SignerXy) (proof : KeyRotationProof) : SignerXy :=
  match verifyKeyRotation prims programId node current proof with
  | .ok newKey => newKey
  | .error _ => current

/-- Any number of attempts, one after the other. -/
def runRotations (start : SignerXy) (proofs : List KeyRotationProof) : SignerXy :=
  proofs.foldl (rotate prims programId node) start

end Definitions

/-- The stored pair is the canonical coordinates of a point whose first coordinate is a nonzero
scalar. -/
structure UsableKey (key : SignerXy) (P : Secp256k1.Point) : Prop where
  x_pos : 0 < bytesToNat key.1
  x_lt : bytesToNat key.1 < Secp256k1.n
  y_lt : bytesToNat key.2 < Secp256k1.p
  coords : HasCoords P (toField key.1) (toField key.2)

section Steps

variable {prims : Primitives} {R : FieldReading prims.lib} {programId node : Bytes 32}
  {key newKey : SignerXy} {proof : KeyRotationProof} {P : Secp256k1.Point}
  {x y : ZMod Secp256k1.p}

theorem EncodesKey.usable {publicKeyCompressed : Bytes 33}
    (h : EncodesKey publicKeyCompressed P x y) : UsableKey (fieldBytes x, fieldBytes y) P where
  x_pos := by
    rw [bytesToNat_fieldBytes]
    exact h.x_pos
  x_lt := by
    rw [bytesToNat_fieldBytes]
    exact h.x_lt
  y_lt := bytesToNat_fieldBytes_lt y
  coords := by
    rw [toField_fieldBytes, toField_fieldBytes]
    exact h.coords

theorem UsableKey.canonicalXy (h : UsableKey key P) : CanonicalXy key where
  x_pos := h.x_pos
  x_lt := h.x_lt.trans Secp256k1.n_lt_p
  y_pos := bytesToNat_pos_of_toField_ne_zero (Secp256k1.y_ne_zero h.coords)
  y_lt := h.y_lt

theorem CanonicalXy.ofXy_eq (h : CanonicalXy key) :
    CoalitionKey.ofXy (toField key.1) (toField key.2) = ⟨key.1, key.2⟩ := by
  rw [CoalitionKey.ofXy, fieldBytes_toField h.x_lt, fieldBytes_toField h.y_lt]

theorem encodesKey_of_validatePossession (hK : KeyParsingExact prims.lib) {popMessage r s : Bytes 32}
    {publicKeyCompressed : Bytes 33}
    (h : validatePossession prims popMessage publicKeyCompressed r s = .ok key) :
    ∃ P x y, EncodesKey publicKeyCompressed P x y ∧ key = (fieldBytes x, fieldBytes y) := by
  rw [validatePossession, bind_eq_ok_iff] at h
  obtain ⟨coordinates, hnormal, h⟩ := h
  rw [bind_eq_ok_iff] at h
  obtain ⟨-, -, h⟩ := h
  obtain rfl := Except.ok.inj h
  rcases normalizePublicKey_cases hK publicKeyCompressed with ⟨P, x, y, hkey, hok⟩ | ⟨-, herror⟩
  · exact ⟨P, x, y, hkey, Except.ok.inj (hnormal.symm.trans hok)⟩
  · rw [herror] at hnormal
    cases hnormal

/-- The authorization check of a canonical pair is decided: the pair is its own coalition. -/
theorem verifyAggregate_coalitionOfOne (hF : FieldExact prims.lib R) (hS : SumExact prims.lib R)
    (h : CanonicalXy key) (s : Bytes 32) (commitment : Bytes 20) (messageHash : Bytes 32) :
    verifyAggregateOverHashWithCoalitionKey prims s commitment messageHash [key] ⟨key.1, key.2⟩ =
      .ok (secp256k1ScalarIsValidNonzero s && recoverAndMatch prims
        (encodeCompressed (toField key.1) (toField key.2)) messageHash s commitment) := by
  have hdefault : ∃ coalition, (CoalitionAccumulator.default prims.lib).addStoredXy key.1 key.2 =
      .ok coalition := (CoalitionAccumulator.exists_addStoredXy_iff hF hS).mpr h
  obtain ⟨coalition, hadd⟩ := hdefault
  have haccumulate : accumulateCoalition prims.lib [key] = .ok coalition := by
    rw [accumulateCoalition, List.foldlM_cons, hadd]
    rfl
  have hcompress : compressCoalition coalition (some ⟨key.1, key.2⟩) =
      .ok (encodeCompressed (toField key.1) (toField key.2)) := by
    have hproper := (CoalitionAccumulator.proper_addStoredXy hF hS
      CoalitionAccumulator.proper_default hadd).2
    rw [compressCoalition_eq hF hS hproper, CoalitionAccumulator.sum_addStoredXy_default hF hS hadd,
      checkedPubkey]
    exact if_pos fun k hk => (Option.mem_some_iff.mp hk).symm.trans h.ofXy_eq.symm
  rw [verifyAggregateOverHashWithCoalitionKey, verifyAggregateOverHashInner]
  cases secp256k1ScalarIsValidNonzero s with
  | false => rfl
  | true =>
    rw [Bool.true_and, Bool.not_true, if_neg Bool.false_ne_true, bind_eq_ok_iff]
    exact ⟨coalition, haccumulate, bind_eq_ok_iff.mpr ⟨_, hcompress, rfl⟩⟩

/-- After the proof of possession come the comparison with the stored key and the authorization. -/
theorem verifyKeyRotation_of_pop
    (hpop : validateKeyAndVerifyPop prims programId
      (keyRotationDigest prims.keccak programId node proof.newPublicKeyCompressed)
      proof.newPublicKeyCompressed proof.popSigR proof.popSigS = .ok newKey) :
    (newKey = key ∧
        verifyKeyRotation prims programId node key proof = .error .keyUnchanged) ∨
      newKey ≠ key ∧
        (verifyAggregateOverHashWithCoalitionKey prims proof.oldKeySigS proof.oldKeyCommitment
            (keyRotationDigest prims.keccak programId node proof.newPublicKeyCompressed) [key]
            ⟨key.1, key.2⟩ = .ok true ∧
          verifyKeyRotation prims programId node key proof = .ok newKey ∨
        verifyAggregateOverHashWithCoalitionKey prims proof.oldKeySigS proof.oldKeyCommitment
            (keyRotationDigest prims.keccak programId node proof.newPublicKeyCompressed) [key]
            ⟨key.1, key.2⟩ ≠ .ok true ∧
          verifyKeyRotation prims programId node key proof = .error .invalidAuthorization) := by
  rw [verifyKeyRotation, hpop]
  dsimp only
  by_cases hsame : newKey = key
  · exact .inl ⟨hsame, if_pos hsame⟩
  refine .inr ⟨hsame, ?_⟩
  rw [if_neg hsame]
  cases verifyAggregateOverHashWithCoalitionKey prims proof.oldKeySigS proof.oldKeyCommitment
      (keyRotationDigest prims.keccak programId node proof.newPublicKeyCompressed) [key]
      ⟨key.1, key.2⟩ with
  | error e => exact .inr ⟨by simp, rfl⟩
  | ok verdict =>
    cases verdict with
    | true => exact .inl ⟨rfl, rfl⟩
    | false => exact .inr ⟨by simp, rfl⟩

theorem verifyKeyRotation_of_pop_error {e : NodePopError}
    (hpop : validateKeyAndVerifyPop prims programId
      (keyRotationDigest prims.keccak programId node proof.newPublicKeyCompressed)
      proof.newPublicKeyCompressed proof.popSigR proof.popSigS = .error e) :
    verifyKeyRotation prims programId node key proof = .error (.ofNodePopError e) := by
  rw [verifyKeyRotation, hpop]

theorem of_verifyKeyRotation_eq_ok
    (h : verifyKeyRotation prims programId node key proof = .ok newKey) :
    newKey ≠ key ∧ validateKeyAndVerifyPop prims programId
      (keyRotationDigest prims.keccak programId node proof.newPublicKeyCompressed)
      proof.newPublicKeyCompressed proof.popSigR proof.popSigS = .ok newKey := by
  cases hpop : validateKeyAndVerifyPop prims programId
      (keyRotationDigest prims.keccak programId node proof.newPublicKeyCompressed)
      proof.newPublicKeyCompressed proof.popSigR proof.popSigS with
  | error e =>
    rw [verifyKeyRotation_of_pop_error hpop] at h
    cases h
  | ok validated =>
    rcases verifyKeyRotation_of_pop hpop with ⟨-, hrun⟩ | ⟨hchanged, ⟨-, hrun⟩ | ⟨-, hrun⟩⟩
    · rw [hrun] at h
      cases h
    · obtain rfl := Except.ok.inj (hrun.symm.trans h)
      exact ⟨hchanged, rfl⟩
    · rw [hrun] at h
      cases h

/-- A verified rotation installs the point of its key bytes, and the same proof is refused from then
on. -/
theorem of_verifyKeyRotation (hK : KeyParsingExact prims.lib)
    (h : verifyKeyRotation prims programId node key proof = .ok newKey) :
    newKey ≠ key ∧
      (∃ P x y, EncodesKey proof.newPublicKeyCompressed P x y ∧
        newKey = (fieldBytes x, fieldBytes y)) ∧
      verifyKeyRotation prims programId node newKey proof = .error .keyUnchanged := by
  obtain ⟨hchanged, hpop⟩ := of_verifyKeyRotation_eq_ok h
  refine ⟨hchanged, encodesKey_of_validatePossession hK hpop, ?_⟩
  have hagain := @verifyKeyRotation_of_pop prims programId node newKey newKey proof hpop
  rcases hagain with ⟨-, hrun⟩ | ⟨hne, -⟩
  · exact hrun
  · exact absurd rfl hne

theorem rotate_of_ok (h : verifyKeyRotation prims programId node key proof = .ok newKey) :
    rotate prims programId node key proof = newKey := by
  rw [rotate, h]

theorem rotate_of_error {e : KeyRotationError}
    (h : verifyKeyRotation prims programId node key proof = .error e) :
    rotate prims programId node key proof = key := by
  rw [rotate, h]

theorem usableKey_rotate (hK : KeyParsingExact prims.lib) (h : ∃ P, UsableKey key P)
    (proof : KeyRotationProof) : ∃ P, UsableKey (rotate prims programId node key proof) P := by
  rw [rotate]
  cases hrotation : verifyKeyRotation prims programId node key proof with
  | error e => exact h
  | ok newKey =>
    obtain ⟨-, ⟨P, x, y, hkey, rfl⟩, -⟩ := of_verifyKeyRotation hK hrotation
    exact ⟨P, hkey.usable⟩

theorem usableKey_runRotations (hK : KeyParsingExact prims.lib) (h : ∃ P, UsableKey key P)
    (proofs : List KeyRotationProof) :
    ∃ P, UsableKey (runRotations prims programId node key proofs) P := by
  induction proofs generalizing key with
  | nil => exact h
  | cons proof proofs ih => exact ih (usableKey_rotate hK h proof)

theorem authorization_false (hF : FieldExact prims.lib R) (hS : SumExact prims.lib R)
    (husable : ∃ P, UsableKey key P)
    (h : verifyKeyRotation prims programId node key proof = .error .invalidAuthorization) :
    verifyAggregateOverHashWithCoalitionKey prims proof.oldKeySigS proof.oldKeyCommitment
      (keyRotationDigest prims.keccak programId node proof.newPublicKeyCompressed) [key]
      ⟨key.1, key.2⟩ = .ok false := by
  obtain ⟨P, hP⟩ := husable
  have hdecided := verifyAggregate_coalitionOfOne hF hS hP.canonicalXy proof.oldKeySigS
    proof.oldKeyCommitment
    (keyRotationDigest prims.keccak programId node proof.newPublicKeyCompressed)
  cases hpop : validateKeyAndVerifyPop prims programId
      (keyRotationDigest prims.keccak programId node proof.newPublicKeyCompressed)
      proof.newPublicKeyCompressed proof.popSigR proof.popSigS with
  | error e =>
    rw [verifyKeyRotation_of_pop_error hpop] at h
    cases e <;> cases h
  | ok validated =>
    rcases verifyKeyRotation_of_pop hpop with ⟨-, hrun⟩ | ⟨-, ⟨-, hrun⟩ | ⟨hunsigned, -⟩⟩
    · rw [hrun] at h
      cases h
    · rw [hrun] at h
      cases h
    · rw [hdecided, ne_eq, Except.ok.injEq, Bool.not_eq_true] at hunsigned
      rw [hdecided, hunsigned]

/-- What a stored key guarantees to the next attempt. -/
structure RotationSafe (prims : Primitives) (programId node : Bytes 32) (key : SignerXy) :
    Prop where
  usable : ∃ P, UsableKey key P
  decided : ∀ s commitment messageHash, ∃ verdict,
    verifyAggregateOverHashWithCoalitionKey prims s commitment messageHash [key] ⟨key.1, key.2⟩ =
      .ok verdict
  invalidAuthorization : ∀ proof,
    verifyKeyRotation prims programId node key proof = .error .invalidAuthorization →
      verifyAggregateOverHashWithCoalitionKey prims proof.oldKeySigS proof.oldKeyCommitment
        (keyRotationDigest prims.keccak programId node proof.newPublicKeyCompressed) [key]
        ⟨key.1, key.2⟩ = .ok false
  changes : ∀ proof newKey, verifyKeyRotation prims programId node key proof = .ok newKey →
    newKey ≠ key
  installs : ∀ proof newKey, verifyKeyRotation prims programId node key proof = .ok newKey →
    ∃ P x y, EncodesKey proof.newPublicKeyCompressed P x y ∧ newKey = (fieldBytes x, fieldBytes y)
  independent : ∀ proof newKey otherKey otherNewKey,
    verifyKeyRotation prims programId node key proof = .ok newKey →
      verifyKeyRotation prims programId node otherKey proof = .ok otherNewKey →
        otherNewKey = newKey
  refusesAgain : ∀ proof newKey, verifyKeyRotation prims programId node key proof = .ok newKey →
    verifyKeyRotation prims programId node (rotate prims programId node key proof) proof =
      .error .keyUnchanged

theorem rotationSafe_of_usable (hF : FieldExact prims.lib R) (hS : SumExact prims.lib R)
    (hK : KeyParsingExact prims.lib) (husable : ∃ P, UsableKey key P) :
    RotationSafe prims programId node key where
  usable := husable
  decided := by
    intro s commitment messageHash
    obtain ⟨P, hP⟩ := husable
    exact ⟨_, verifyAggregate_coalitionOfOne hF hS hP.canonicalXy s commitment messageHash⟩
  invalidAuthorization := fun _ h => authorization_false hF hS husable h
  changes := fun _ _ h => (of_verifyKeyRotation hK h).1
  installs := fun _ _ h => (of_verifyKeyRotation hK h).2.1
  independent := by
    intro proof newKey otherKey otherNewKey h h'
    obtain ⟨-, ⟨P, x, y, hkey, rfl⟩, -⟩ := of_verifyKeyRotation hK h
    obtain ⟨-, ⟨Q, x', y', hkey', rfl⟩, -⟩ := of_verifyKeyRotation hK h'
    obtain ⟨-, rfl, rfl⟩ := hkey.unique hkey'
    rfl
  refusesAgain := by
    intro proof newKey h
    rw [rotate, h]
    exact (of_verifyKeyRotation hK h).2.2

/-- A registered key is safe after any run of rotation attempts. -/
theorem rotation_run (hF : FieldExact prims.lib R) (hS : SumExact prims.lib R)
    (hK : KeyParsingExact prims.lib) {registrationProgram registrationNode : Bytes 32}
    {publicKeyCompressed : Bytes 33} {r s : Bytes 32} {start : SignerXy}
    (hstart : validateKeyAndVerifyPop prims registrationProgram registrationNode
      publicKeyCompressed r s = .ok start) (programId node : Bytes 32)
    (proofs : List KeyRotationProof) :
    RotationSafe prims programId node (runRotations prims programId node start proofs) := by
  obtain ⟨P, x, y, hkey, rfl⟩ := encodesKey_of_validatePossession hK hstart
  exact rotationSafe_of_usable hF hS hK (usableKey_runRotations hK ⟨P, hkey.usable⟩ proofs)

end Steps

section Sample

theorem registered_sample :
    validateKeyAndVerifyPop (referencePrimitives sampleKeccak) (natToBytes 32 5) (natToBytes 32 6)
        sampleCompressedKey (fieldBytes Secp256k1.generatorX) (natToBytes 32 2) =
      .ok (fieldBytes Secp256k1.generatorX, fieldBytes Secp256k1.generatorY) := by
  have hexact (message : Bytes 32) :
      PossessionExact (referencePrimitives sampleKeccak).keccak message sampleCompressedKey
        (fieldBytes Secp256k1.generatorX) (natToBytes 32 2)
        (validatePossession (referencePrimitives sampleKeccak) message sampleCompressedKey
          (fieldBytes Secp256k1.generatorX) (natToBytes 32 2)) :=
    possessionExact keyParsingExact_reference recoverExact_reference _ _ _ _
  exact ((hexact _).ok_iff _ _ _ encodesKey_sample).mpr (possessionHolds_sample _)

/-- A rotation to `m G` that every smaller multiple of the generator signed; the constant hash makes
both challenges one. -/
def multipleRotation (m : ℕ) (x y : ZMod Secp256k1.p) : KeyRotationProof where
  newPublicKeyCompressed := encodeCompressed x y
  oldKeySigS := natToBytes 32 8
  oldKeyCommitment := natToBytes 20 1
  popSigR := fieldBytes Secp256k1.generatorX
  popSigS := natToBytes 32 (m + 1)

section Multiples

variable {m m' : ℕ} {programId node : Bytes 32} {x y x' y' : ZMod Secp256k1.p}

theorem validate_multipleRotation (hm : m < 255) (hP : HasCoords (m • Secp256k1.G) x y)
    (hx : x.val < Secp256k1.n) (digest : Bytes 32) :
    validateKeyAndVerifyPop (referencePrimitives sampleKeccak) programId digest
        (multipleRotation m x y).newPublicKeyCompressed (multipleRotation m x y).popSigR
        (multipleRotation m x y).popSigS = .ok (fieldBytes x, fieldBytes y) := by
  have hn : 256 < Secp256k1.n := by norm_num [Secp256k1.n]
  have hholds (message : Bytes 32) : PossessionHolds sampleKeccak (m • Secp256k1.G) x y message
      (fieldBytes Secp256k1.generatorX) (natToBytes 32 (1 * m + 1)) :=
    possessionHolds_nsmul m one_pos (by omega) (by omega) (toScalar_small (by norm_num))
  rw [one_mul] at hholds
  exact ((@possessionExact (referencePrimitives sampleKeccak) keyParsingExact_reference
    recoverExact_reference _ _ _ _).ok_iff _ _ _ (encodesKey_of_coords hP hx)).mpr (hholds _)

theorem verifyKeyRotation_multipleRotation (hm : m < m') (hm' : m' < 8)
    (hP : HasCoords (m • Secp256k1.G) x y) (hx : x.val < Secp256k1.n)
    (hP' : HasCoords (m' • Secp256k1.G) x' y') (hx' : x'.val < Secp256k1.n) :
    verifyKeyRotation (referencePrimitives sampleKeccak) programId node (fieldBytes x, fieldBytes y)
      (multipleRotation m' x' y') = .ok (fieldBytes x', fieldBytes y') := by
  have hn : 8 < Secp256k1.n := by norm_num [Secp256k1.n]
  have hchanged : (fieldBytes x', fieldBytes y') ≠ (fieldBytes x, fieldBytes y) := by
    intro hsame
    obtain ⟨hfirst, hsecond⟩ := Prod.mk.inj hsame
    rw [fieldBytes_injective hfirst, fieldBytes_injective hsecond] at hP'
    exact Secp256k1.nsmul_G_ne hm (hm'.trans hn) (hP'.ext hP)
  have hvalid : secp256k1ScalarIsValidNonzero (natToBytes 32 8) = true := by
    rw [secp256k1ScalarIsValidNonzero_iff, bytesToNat_natToBytes_of_lt (by norm_num)]
    exact ⟨by norm_num, hn⟩
  have hnonce : ((8 : ℕ) : ZMod Secp256k1.n) • Secp256k1.G - m • Secp256k1.G ≠ 0 := by
    rw [Secp256k1.natCast_smul, sub_ne_zero]
    exact Secp256k1.nsmul_G_ne (hm.trans hm') hn
  have hsigned (digest : Bytes 32) : verifyAggregateOverHashWithCoalitionKey
      (referencePrimitives sampleKeccak) (natToBytes 32 8) (natToBytes 20 1) digest
      [(fieldBytes x, fieldBytes y)] ⟨fieldBytes x, fieldBytes y⟩ = .ok true := by
    have hmatch := @recoverAndMatch_iff (referencePrimitives sampleKeccak) _ _ _
      recoverExact_reference hP digest (natToBytes 32 8) (natToBytes 20 1)
    have hdecided := @verifyAggregate_coalitionOfOne (referencePrimitives sampleKeccak) _ _
      fieldExact_reference sumExact_reference (encodesKey_of_coords hP hx).usable.canonicalXy
      (natToBytes 32 8) (natToBytes 20 1) digest
    rw [toField_fieldBytes, toField_fieldBytes, hvalid, Bool.true_and,
      hmatch.mpr (schnorrAccepts_small hP hx (by norm_num) hnonce digest)] at hdecided
    exact hdecided
  rcases @verifyKeyRotation_of_pop (referencePrimitives sampleKeccak) programId node
    (fieldBytes x, fieldBytes y) _ (multipleRotation m' x' y')
    (validate_multipleRotation (by omega) hP' hx' _) with
    ⟨hsame, -⟩ | ⟨-, ⟨-, hrun⟩ | ⟨hunsigned, -⟩⟩
  · exact absurd hsame hchanged
  · exact hrun
  · exact absurd (hsigned _) hunsigned

end Multiples

/-- From the generator to twice and to three times the generator, with one replay in between. -/
def sampleAttempts : List KeyRotationProof :=
  [multipleRotation 2 Secp256k1.doubledX Secp256k1.doubledY,
    multipleRotation 2 Secp256k1.doubledX Secp256k1.doubledY,
    multipleRotation 3 Secp256k1.tripledX Secp256k1.tripledY]

theorem runRotations_sample (programId node : Bytes 32) :
    runRotations (referencePrimitives sampleKeccak) programId node
        (fieldBytes Secp256k1.generatorX, fieldBytes Secp256k1.generatorY) sampleAttempts =
      (fieldBytes Secp256k1.tripledX, fieldBytes Secp256k1.tripledY) := by
  have hfirst := @verifyKeyRotation_multipleRotation 1 2 programId node _ _ _ _ one_lt_two
    (by norm_num) Secp256k1.hasCoords_one_nsmul_G Secp256k1.generatorX_val_lt
    Secp256k1.hasCoords_two_nsmul_G Secp256k1.doubledX_val_lt
  have hagain := (of_verifyKeyRotation keyParsingExact_reference hfirst).2.2
  have hsecond := @verifyKeyRotation_multipleRotation 2 3 programId node _ _ _ _ (by norm_num)
    (by norm_num) Secp256k1.hasCoords_two_nsmul_G Secp256k1.doubledX_val_lt
    Secp256k1.hasCoords_three_nsmul_G Secp256k1.tripledX_val_lt
  rw [runRotations, sampleAttempts, List.foldl_cons, rotate_of_ok hfirst, List.foldl_cons,
    rotate_of_error hagain, List.foldl_cons, rotate_of_ok hsecond, List.foldl_nil]

/-- After two accepted attempts and a refused replay the key is safe and has changed twice. -/
theorem rotation_run_sample :
    RotationSafe (referencePrimitives sampleKeccak) (natToBytes 32 5) (natToBytes 32 6)
      (fieldBytes Secp256k1.tripledX, fieldBytes Secp256k1.tripledY) := by
  have hsafe := rotation_run fieldExact_reference sumExact_reference keyParsingExact_reference
    registered_sample (natToBytes 32 5) (natToBytes 32 6) sampleAttempts
  rwa [runRotations_sample] at hsafe

end Sample

end MolphaVerifier
