import MolphaVerifier.KeyRotation
import MolphaVerifier.PartialSignatures

/-!
# Who authorizes a rotation

A rotation from a stored curve point is accepted exactly when the new key proves possession, differs
from the stored one and the stored key signed the rotation digest. A stored pair off the curve is
never checked against the curve: compression keeps its first coordinate and the parity of its second,
and recovery lifts them to a curve point, whose signature then authorizes.
-/

namespace MolphaVerifier

open FixedBytes FallibleFolds ShortWeierstrass SchnorrEquations

/-- The key `Q = (x, y)` signed the digest: the address of the nonce `s G - e Q` is the
commitment. -/
structure Authorizes (keccak : Keccak) (Q : Secp256k1.Point) (x y : ZMod Secp256k1.p)
    (digest s : Bytes 32) (commitment : Bytes 20) : Prop where
  s_pos : 1 ≤ bytesToNat s
  s_lt : bytesToNat s < Secp256k1.n
  challenge_ne_zero : schnorrChallenge keccak (fieldBytes x) (parityOf y) digest commitment ≠ 0
  address_eq : ∃ x' y', HasCoords (nonce Secp256k1.G Q (toScalar s)
      (schnorrChallenge keccak (fieldBytes x) (parityOf y) digest commitment)) x' y' ∧
    ethAddressFromUncompressedPubkey keccak (encodeXy x' y') = commitment

/-- The point over the first coordinate of a canonical pair whose second coordinate `y` has the
parity of the pair's. -/
structure LiftsTo (xy : SignerXy) (Q : Secp256k1.Point) (y : ZMod Secp256k1.p) : Prop where
  canonical : CanonicalXy xy
  x_lt : bytesToNat xy.1 < Secp256k1.n
  coords : HasCoords Q (toField xy.1) y
  parity : parityOf y = parityOf (toField xy.2)

/-- The new key bytes encode `K = (x, y)`, which proves possession over the rotation digest. -/
structure ProvesNewKey (keccak : Keccak) (programId node : Bytes 32) (proof : KeyRotationProof)
    (K : Secp256k1.Point) (x y : ZMod Secp256k1.p) : Prop where
  encodes : EncodesKey proof.newPublicKeyCompressed K x y
  possession : PossessionHolds keccak K x y
    (deriveNodePopMessage keccak programId
      (keyRotationDigest keccak programId node proof.newPublicKeyCompressed))
    proof.popSigR proof.popSigS

section Recovery

variable {prims : Primitives} {Q : Secp256k1.Point} {x y y' : ZMod Secp256k1.p}
  {digest s : Bytes 32} {commitment : Bytes 20}

theorem parityOf_eq_one_iff : parityOf y = 1 ↔ y.val % 2 = 1 := by
  rw [parityOf]
  split_ifs with h <;> simp [h]

theorem encodeCompressed_congr (x : ZMod Secp256k1.p) (h : parityOf y = parityOf y') :
    encodeCompressed x y = encodeCompressed x y' := by
  simp only [encodeCompressed, ← parityOf_eq_one_iff, h]

/-- One of the two points over a first coordinate has the wanted parity. -/
theorem exists_hasCoords_of_parity (hQ : HasCoords Q x y') (y : ZMod Secp256k1.p) :
    ∃ (P : Secp256k1.Point) (yP : _), HasCoords P x yP ∧ parityOf yP = parityOf y := by
  by_cases hparity : parityOf y' = parityOf y
  · exact ⟨Q, y', hQ, hparity⟩
  · refine ⟨-Q, -y', hQ.neg, ?_⟩
    rw [parityOf_neg (Secp256k1.y_ne_zero hQ)]
    rcases parityOf_lt_two y' with h | h <;> rcases parityOf_lt_two y with h' | h' <;>
      rw [h, h'] at hparity ⊢ <;> first | rfl | exact absurd rfl hparity

theorem recoverAndMatch_of_no_point (hRec : RecoverExact prims.secp256k1Recover)
    (hnone : ∀ (Q : Secp256k1.Point) (yQ : _), ¬HasCoords Q x yQ) :
    recoverAndMatch prims (encodeCompressed x y) digest s commitment = false := by
  by_cases hzero : toScalar (fieldBytes x) = 0
  · have herr := evmSchnorrEcdsaInputs_of_zero prims.keccak (encodeCompressed x y)
      (by rwa [afterLead_encodeCompressed]) digest s commitment
    rw [recoverAndMatch, herr]
  · obtain ⟨v, t, z, hinputs, -, -, -, hvt⟩ := evmSchnorrEcdsaInputs_eq_ok prims.keccak
      (encodeCompressed_tag x y) (by rwa [afterLead_encodeCompressed]) digest s commitment
    rw [afterLead_encodeCompressed] at hinputs
    rw [encodeCompressed_parity] at hvt
    have hv : v = 0 ∨ v = 1 := by
      rcases hvt with ⟨rfl, -⟩ | ⟨rfl, -⟩
      · exact parityOf_lt_two y
      · rcases parityOf_lt_two y with h | h <;> rw [h] <;> decide
    rw [← Bool.not_eq_true, recoverAndMatch_of_inputs hinputs]
    rintro ⟨out, hout, -⟩
    rw [hRec.of_no_point z v (fieldBytes x) t hv (by rwa [toField_fieldBytes])] at hout
    cases hout

/-- Any pair of coordinates is matched as the curve point with the first one and the parity of the
second. -/
theorem recoverAndMatch_iff_lifted (hRec : RecoverExact prims.secp256k1Recover) :
    recoverAndMatch prims (encodeCompressed x y) digest s commitment = true ↔
      ∃ Q yQ, HasCoords Q x yQ ∧ parityOf yQ = parityOf y ∧
        SchnorrAccepts prims.keccak Q digest s commitment := by
  constructor
  · intro h
    by_cases hnone : ∀ (Q : Secp256k1.Point) (yQ : _), ¬HasCoords Q x yQ
    · rw [recoverAndMatch_of_no_point hRec hnone] at h
      cases h
    · push Not at hnone
      obtain ⟨P, yP, hP⟩ := hnone
      obtain ⟨Q, yQ, hQ, hparity⟩ := exists_hasCoords_of_parity hP y
      rw [← encodeCompressed_congr x hparity] at h
      exact ⟨Q, yQ, hQ, hparity, (recoverAndMatch_iff hRec hQ digest s commitment).mp h⟩
  · rintro ⟨Q, yQ, hQ, hparity, haccepts⟩
    rw [← encodeCompressed_congr x hparity]
    exact (recoverAndMatch_iff hRec hQ digest s commitment).mpr haccepts

end Recovery

section Authorization

variable {prims : Primitives} {R : FieldReading prims.lib} {oldKey : SignerXy}
  {Q : Secp256k1.Point} {x y : ZMod Secp256k1.p}

theorem schnorrAccepts_iff_authorizes {keccak : Keccak} (hQ : HasCoords Q x y)
    {digest s : Bytes 32} {commitment : Bytes 20} :
    (secp256k1ScalarIsValidNonzero s = true ∧ SchnorrAccepts keccak Q digest s commitment) ↔
      x.val < Secp256k1.n ∧ Authorizes keccak Q x y digest s commitment := by
  rw [secp256k1ScalarIsValidNonzero_iff, schnorrAccepts_iff hQ]
  constructor
  · rintro ⟨⟨hpos, hlt⟩, hx, hchallenge, haddress⟩
    exact ⟨hx, hpos, hlt, hchallenge, haddress⟩
  · rintro ⟨hx, hpos, hlt, hchallenge, haddress⟩
    exact ⟨⟨hpos, hlt⟩, hx, hchallenge, haddress⟩

theorem canonicalXy_of_authorization (hF : FieldExact prims.lib R) (hS : SumExact prims.lib R)
    {digest s : Bytes 32} {commitment : Bytes 20} {key : CoalitionKey}
    (h : verifyAggregateOverHashWithCoalitionKey prims s commitment digest [oldKey] key = .ok true) :
    CanonicalXy oldKey := by
  rw [verifyAggregateOverHashWithCoalitionKey, verifyAggregateOverHashInner] at h
  split at h
  · cases h
  · obtain ⟨coalition, hcoalition, -⟩ := bind_eq_ok_iff.mp h
    exact ((exists_accumulateCoalition_iff hF hS).mp ⟨coalition, hcoalition⟩).2 oldKey
      (List.mem_singleton_self oldKey)

/-- The authorization check accepts the signatures of the point that the stored pair lifts to. -/
theorem authorization_ok_iff (hF : FieldExact prims.lib R) (hS : SumExact prims.lib R)
    (hRec : RecoverExact prims.secp256k1Recover) (oldKey : SignerXy) (digest s : Bytes 32)
    (commitment : Bytes 20) :
    verifyAggregateOverHashWithCoalitionKey prims s commitment digest [oldKey]
        ⟨oldKey.1, oldKey.2⟩ = .ok true ↔
      ∃ Q y, LiftsTo oldKey Q y ∧
        Authorizes prims.keccak Q (toField oldKey.1) y digest s commitment := by
  constructor
  · intro h
    have hcanonical := canonicalXy_of_authorization hF hS h
    rw [verifyAggregate_coalitionOfOne hF hS hcanonical, Except.ok.injEq, Bool.and_eq_true,
      recoverAndMatch_iff_lifted hRec] at h
    obtain ⟨hs, Q, y, hQ, hparity, haccepts⟩ := h
    obtain ⟨hx, hauthorizes⟩ := (schnorrAccepts_iff_authorizes hQ).mp ⟨hs, haccepts⟩
    rw [val_toField hcanonical.x_lt] at hx
    exact ⟨Q, y, ⟨hcanonical, hx, hQ, hparity⟩, hauthorizes⟩
  · rintro ⟨Q, y, hlifts, hauthorizes⟩
    have hx : (toField oldKey.1).val < Secp256k1.n := by
      rw [val_toField hlifts.canonical.x_lt]
      exact hlifts.x_lt
    obtain ⟨hs, haccepts⟩ := (schnorrAccepts_iff_authorizes hlifts.coords).mpr ⟨hx, hauthorizes⟩
    rw [verifyAggregate_coalitionOfOne hF hS hlifts.canonical, Except.ok.injEq, Bool.and_eq_true,
      recoverAndMatch_iff_lifted hRec]
    exact ⟨hs, Q, y, hlifts.coords, hlifts.parity, haccepts⟩

theorem StoredPoint.liftsTo_iff (h : StoredPoint oldKey Q) (hx : bytesToNat oldKey.1 < Secp256k1.n)
    {Q' : Secp256k1.Point} {y' : ZMod Secp256k1.p} :
    LiftsTo oldKey Q' y' ↔ Q' = Q ∧ y' = toField oldKey.2 := by
  constructor
  · intro hlifts
    obtain rfl := eq_of_parityOf_eq hlifts.coords h.coords hlifts.parity
    exact ⟨hlifts.coords.ext h.coords, rfl⟩
  · rintro ⟨rfl, rfl⟩
    exact ⟨h.canonicalXy, hx, h.coords, rfl⟩

end Authorization

/-- The new key bytes are in order. -/
def NewKeyProven (keccak : Keccak) (programId node : Bytes 32) (proof : KeyRotationProof) : Prop :=
  ∃ K x y, ProvesNewKey keccak programId node proof K x y

/-- The point that the stored pair lifts to signed the rotation. -/
def LiftedKeySigned (keccak : Keccak) (programId node : Bytes 32) (oldKey : SignerXy)
    (proof : KeyRotationProof) : Prop :=
  ∃ Q y, LiftsTo oldKey Q y ∧ Authorizes keccak Q (toField oldKey.1) y
    (keyRotationDigest keccak programId node proof.newPublicKeyCompressed) proof.oldKeySigS
    proof.oldKeyCommitment

/-- The stored pair authorizes nothing: no rotation succeeds, and one whose new key is in order is
refused as not authorized. -/
structure AuthorizesNothing (keccak : Keccak) (programId node : Bytes 32) (proof : KeyRotationProof)
    (outcome : Except KeyRotationError SignerXy) : Prop where
  not_ok : ∀ newKey, outcome ≠ .ok newKey
  invalidAuthorization : NewKeyProven keccak programId node proof →
    outcome = .error .invalidAuthorization

/-- A rotation from the stored point `Q` is decided by both signatures, and the first condition that
fails names the error. -/
structure RotationExact (keccak : Keccak) (programId node : Bytes 32) (oldKey : SignerXy)
    (Q : Secp256k1.Point) (proof : KeyRotationProof) (outcome : Except KeyRotationError SignerXy) :
    Prop where
  ok_iff : ∀ newKey, outcome = .ok newKey ↔ ∃ K x y,
    ProvesNewKey keccak programId node proof K x y ∧ K ≠ Q ∧
      Authorizes keccak Q (toField oldKey.1) (toField oldKey.2)
        (keyRotationDigest keccak programId node proof.newPublicKeyCompressed) proof.oldKeySigS
        proof.oldKeyCommitment ∧
      newKey = (fieldBytes x, fieldBytes y)
  invalidPublicKey_iff : outcome = .error .invalidPublicKey ↔
    ¬∃ K x y, EncodesKey proof.newPublicKeyCompressed K x y
  invalidProof_iff : outcome = .error .invalidProof ↔
    ∃ K x y, EncodesKey proof.newPublicKeyCompressed K x y ∧
      ¬ProvesNewKey keccak programId node proof K x y
  keyUnchanged_iff : outcome = .error .keyUnchanged ↔
    ∃ x y, ProvesNewKey keccak programId node proof Q x y
  invalidAuthorization_iff : outcome = .error .invalidAuthorization ↔ ∃ K x y,
    ProvesNewKey keccak programId node proof K x y ∧ K ≠ Q ∧
      ¬Authorizes keccak Q (toField oldKey.1) (toField oldKey.2)
        (keyRotationDigest keccak programId node proof.newPublicKeyCompressed) proof.oldKeySigS
        proof.oldKeyCommitment

section Rotations

variable {prims : Primitives} {R : FieldReading prims.lib} {programId node : Bytes 32}
  {oldKey newKey : SignerXy} {proof : KeyRotationProof} {Q : Secp256k1.Point}

theorem ProvesNewKey.unique {keccak : Keccak} {K K' : Secp256k1.Point}
    {x y x' y' : ZMod Secp256k1.p} (h : ProvesNewKey keccak programId node proof K x y)
    (h' : ProvesNewKey keccak programId node proof K' x' y') : K = K' ∧ x = x' ∧ y = y' :=
  h.encodes.unique h'.encodes

theorem not_newKeyProven_of_not_encodes {keccak : Keccak}
    (h : ¬∃ K x y, EncodesKey proof.newPublicKeyCompressed K x y) :
    ¬NewKeyProven keccak programId node proof := by
  rintro ⟨K, x, y, hproves⟩
  exact h ⟨K, x, y, hproves.encodes⟩

theorem not_newKeyProven_of_not_proves {keccak : Keccak} {K : Secp256k1.Point}
    {x y : ZMod Secp256k1.p} (hkey : EncodesKey proof.newPublicKeyCompressed K x y)
    (h : ¬ProvesNewKey keccak programId node proof K x y) :
    ¬NewKeyProven keccak programId node proof := by
  rintro ⟨K', x', y', hproves⟩
  obtain ⟨rfl, rfl, rfl⟩ := hkey.unique hproves.encodes
  exact h hproves

theorem ProvesNewKey.exists_iff {keccak : Keccak} {K : Secp256k1.Point} {x y : ZMod Secp256k1.p}
    (h : ProvesNewKey keccak programId node proof K x y)
    {A : Secp256k1.Point → ZMod Secp256k1.p → ZMod Secp256k1.p → Prop} :
    (∃ K x y, ProvesNewKey keccak programId node proof K x y ∧ A K x y) ↔ A K x y := by
  constructor
  · rintro ⟨K', x', y', h', hA⟩
    obtain ⟨rfl, rfl, rfl⟩ := h.unique h'
    exact hA
  · exact fun hA => ⟨K, x, y, h, hA⟩

theorem verifyKeyRotation_of_proven (hF : FieldExact prims.lib R) (hS : SumExact prims.lib R)
    (hK : KeyParsingExact prims.lib) (hRec : RecoverExact prims.secp256k1Recover)
    {K : Secp256k1.Point} {x y : ZMod Secp256k1.p}
    (h : ProvesNewKey prims.keccak programId node proof K x y) (oldKey : SignerXy) :
    (fieldBytes x, fieldBytes y) = oldKey ∧
        verifyKeyRotation prims programId node oldKey proof = .error .keyUnchanged ∨
      (fieldBytes x, fieldBytes y) ≠ oldKey ∧
        (LiftedKeySigned prims.keccak programId node oldKey proof ∧
            verifyKeyRotation prims programId node oldKey proof =
              .ok (fieldBytes x, fieldBytes y) ∨
          ¬LiftedKeySigned prims.keccak programId node oldKey proof ∧
            verifyKeyRotation prims programId node oldKey proof =
              .error .invalidAuthorization) := by
  have hpop := ((possessionExact hK hRec (deriveNodePopMessage prims.keccak programId
      (keyRotationDigest prims.keccak programId node proof.newPublicKeyCompressed))
      proof.newPublicKeyCompressed proof.popSigR proof.popSigS).ok_iff K x y h.encodes).mpr
    h.possession
  rw [LiftedKeySigned, ← authorization_ok_iff hF hS hRec]
  exact verifyKeyRotation_of_pop hpop

/-- What a rotation returns for any stored pair, in the order of the checks. -/
theorem verifyKeyRotation_cases (hF : FieldExact prims.lib R) (hS : SumExact prims.lib R)
    (hK : KeyParsingExact prims.lib) (hRec : RecoverExact prims.secp256k1Recover)
    (programId node : Bytes 32) (oldKey : SignerXy) (proof : KeyRotationProof) :
    ((¬∃ K x y, EncodesKey proof.newPublicKeyCompressed K x y) ∧
        verifyKeyRotation prims programId node oldKey proof = .error .invalidPublicKey) ∨
      (∃ K x y, EncodesKey proof.newPublicKeyCompressed K x y ∧
        ¬ProvesNewKey prims.keccak programId node proof K x y ∧
        verifyKeyRotation prims programId node oldKey proof = .error .invalidProof) ∨
      ∃ K x y, ProvesNewKey prims.keccak programId node proof K x y ∧
        ((fieldBytes x, fieldBytes y) = oldKey ∧
            verifyKeyRotation prims programId node oldKey proof = .error .keyUnchanged ∨
          (fieldBytes x, fieldBytes y) ≠ oldKey ∧
            (LiftedKeySigned prims.keccak programId node oldKey proof ∧
                verifyKeyRotation prims programId node oldKey proof =
                  .ok (fieldBytes x, fieldBytes y) ∨
              ¬LiftedKeySigned prims.keccak programId node oldKey proof ∧
                verifyKeyRotation prims programId node oldKey proof =
                  .error .invalidAuthorization)) := by
  rcases validatePossession_cases hK hRec (deriveNodePopMessage prims.keccak programId
      (keyRotationDigest prims.keccak programId node proof.newPublicKeyCompressed))
      proof.newPublicKeyCompressed proof.popSigR proof.popSigS with
    ⟨hnone, hpop⟩ | ⟨K, x, y, hkey, ⟨hholds, -⟩ | ⟨hnot, hpop⟩⟩
  · refine .inl ⟨hnone, ?_⟩
    rw [verifyKeyRotation, validateKeyAndVerifyPop, hpop]
    rfl
  · have hproves : ProvesNewKey prims.keccak programId node proof K x y := ⟨hkey, hholds⟩
    exact .inr (.inr ⟨K, x, y, hproves,
      verifyKeyRotation_of_proven hF hS hK hRec hproves oldKey⟩)
  · refine .inr (.inl ⟨K, x, y, hkey, fun h => hnot h.possession, ?_⟩)
    rw [verifyKeyRotation, validateKeyAndVerifyPop, hpop]
    rfl

theorem StoredPoint.bytes_eq_iff (h : StoredPoint oldKey Q) {K : Secp256k1.Point}
    {x y : ZMod Secp256k1.p} (hK : HasCoords K x y) : (fieldBytes x, fieldBytes y) = oldKey ↔ K = Q := by
  constructor
  · rintro rfl
    exact (storedPoint_fieldBytes hK).unique h
  · rintro rfl
    obtain ⟨rfl, rfl⟩ := hK.unique h.coords
    rw [fieldBytes_toField h.x_lt, fieldBytes_toField h.y_lt]

theorem ProvesNewKey.rotationExact {keccak : Keccak} {K : Secp256k1.Point}
    {x y : ZMod Secp256k1.p} {outcome : Except KeyRotationError SignerXy}
    (h : ProvesNewKey keccak programId node proof K x y)
    (hok : ∀ newKey, outcome = .ok newKey ↔ K ≠ Q ∧
      Authorizes keccak Q (toField oldKey.1) (toField oldKey.2)
        (keyRotationDigest keccak programId node proof.newPublicKeyCompressed) proof.oldKeySigS
        proof.oldKeyCommitment ∧ newKey = (fieldBytes x, fieldBytes y))
    (hkey : outcome ≠ .error .invalidPublicKey) (hproof : outcome ≠ .error .invalidProof)
    (hunchanged : outcome = .error .keyUnchanged ↔ K = Q)
    (hauthorization : outcome = .error .invalidAuthorization ↔ K ≠ Q ∧
      ¬Authorizes keccak Q (toField oldKey.1) (toField oldKey.2)
        (keyRotationDigest keccak programId node proof.newPublicKeyCompressed) proof.oldKeySigS
        proof.oldKeyCommitment) :
    RotationExact keccak programId node oldKey Q proof outcome where
  ok_iff newKey := by rw [hok, h.exists_iff]
  invalidPublicKey_iff := iff_of_false hkey fun hnone => hnone ⟨K, x, y, h.encodes⟩
  invalidProof_iff := by
    refine iff_of_false hproof ?_
    rintro ⟨K', x', y', hkey', hnot⟩
    obtain ⟨rfl, rfl, rfl⟩ := h.encodes.unique hkey'
    exact hnot h
  keyUnchanged_iff := by
    rw [hunchanged]
    constructor
    · rintro rfl
      exact ⟨x, y, h⟩
    · rintro ⟨x', y', h'⟩
      exact (h.unique h').1
  invalidAuthorization_iff := by rw [hauthorization, h.exists_iff]

/-- Rotations from a stored curve point are accepted exactly when both signatures are valid and the
key changes. -/
theorem verifyKeyRotation_exact (hF : FieldExact prims.lib R) (hS : SumExact prims.lib R)
    (hK : KeyParsingExact prims.lib) (hRec : RecoverExact prims.secp256k1Recover)
    (programId node : Bytes 32) (hQ : StoredPoint oldKey Q)
    (hx : bytesToNat oldKey.1 < Secp256k1.n) (proof : KeyRotationProof) :
    RotationExact prims.keccak programId node oldKey Q proof
      (verifyKeyRotation prims programId node oldKey proof) := by
  have hauthorized : LiftedKeySigned prims.keccak programId node oldKey proof ↔
      Authorizes prims.keccak Q (toField oldKey.1) (toField oldKey.2)
        (keyRotationDigest prims.keccak programId node proof.newPublicKeyCompressed)
        proof.oldKeySigS proof.oldKeyCommitment := by
    simp only [LiftedKeySigned, hQ.liftsTo_iff hx, and_assoc, exists_and_left, exists_eq_left]
  have hcases := verifyKeyRotation_cases hF hS hK hRec programId node oldKey proof
  rw [hauthorized] at hcases
  rcases hcases with ⟨hnone, hrun⟩ | ⟨K, x, y, hkey, hnot, hrun⟩ | ⟨K, x, y, hproves, hcases⟩
  · have hunproven (K : Secp256k1.Point) (x y : ZMod Secp256k1.p) :
        ¬ProvesNewKey prims.keccak programId node proof K x y :=
      fun h => not_newKeyProven_of_not_encodes hnone ⟨K, x, y, h⟩
    have hunencoded (K : Secp256k1.Point) (x y : ZMod Secp256k1.p) :
        ¬EncodesKey proof.newPublicKeyCompressed K x y := fun h => hnone ⟨K, x, y, h⟩
    constructor <;> simp [hrun, hunproven, hunencoded]
  · have hunproven (K' : Secp256k1.Point) (x' y' : ZMod Secp256k1.p) :
        ¬ProvesNewKey prims.keccak programId node proof K' x' y' :=
      fun h => not_newKeyProven_of_not_proves hkey hnot ⟨K', x', y', h⟩
    have hencoded : ∃ K x y, EncodesKey proof.newPublicKeyCompressed K x y := ⟨K, x, y, hkey⟩
    constructor <;> simp [hrun, hunproven, hencoded]
  · rw [hQ.bytes_eq_iff hproves.encodes.coords, ne_eq,
      hQ.bytes_eq_iff hproves.encodes.coords] at hcases
    rcases hcases with ⟨hsame, hrun⟩ | ⟨hchanged, ⟨hsigned, hrun⟩ | ⟨hunsigned, hrun⟩⟩
    · refine hproves.rotationExact ?_ ?_ ?_ ?_ ?_ <;> simp [hrun, hsame]
    · refine hproves.rotationExact ?_ ?_ ?_ ?_ ?_ <;> simp [hrun, hchanged, hsigned, eq_comm]
    · refine hproves.rotationExact ?_ ?_ ?_ ?_ ?_ <;> simp [hrun, hchanged, hunsigned]

/-- A pair off the curve authorizes a rotation exactly when the point it lifts to signed it. -/
theorem off_curve_authorizes_nothing_iff (hF : FieldExact prims.lib R) (hS : SumExact prims.lib R)
    (hK : KeyParsingExact prims.lib) (hRec : RecoverExact prims.secp256k1Recover)
    (programId node : Bytes 32) (hkey : ∀ Q, ¬StoredPoint oldKey Q) (proof : KeyRotationProof) :
    AuthorizesNothing prims.keccak programId node proof
        (verifyKeyRotation prims programId node oldKey proof) ↔
      ¬(NewKeyProven prims.keccak programId node proof ∧
        LiftedKeySigned prims.keccak programId node oldKey proof) := by
  rcases verifyKeyRotation_cases hF hS hK hRec programId node oldKey proof with
    ⟨hnone, hrun⟩ | ⟨K, x, y, hencodes, hnot, hrun⟩ | ⟨K, x, y, hproves, hcases⟩
  · have hunproven : ¬NewKeyProven prims.keccak programId node proof :=
      not_newKeyProven_of_not_encodes hnone
    rw [hrun]
    exact iff_of_true ⟨fun _ h => (nomatch h), fun h => absurd h hunproven⟩ fun h => hunproven h.1
  · have hunproven := not_newKeyProven_of_not_proves hencodes hnot
    rw [hrun]
    exact iff_of_true ⟨fun _ h => (nomatch h), fun h => absurd h hunproven⟩ fun h => hunproven h.1
  · have hproven : NewKeyProven prims.keccak programId node proof := ⟨K, x, y, hproves⟩
    rcases hcases with ⟨rfl, -⟩ | ⟨-, ⟨hsigned, hrun⟩ | ⟨hunsigned, hrun⟩⟩
    · exact absurd (storedPoint_fieldBytes hproves.encodes.coords) (hkey K)
    · rw [hrun]
      exact iff_of_false (fun h => h.not_ok _ rfl) fun h => h ⟨hproven, hsigned⟩
    · rw [hrun]
      exact iff_of_true ⟨fun _ h => (nomatch h), fun _ => rfl⟩ fun h => hunsigned h.2

end Rotations

section Sample

/-- A rotation to the generator with `s = 2` in both signatures; the constant hash makes both
challenges one. -/
def sampleRotation : KeyRotationProof where
  newPublicKeyCompressed := sampleCompressedKey
  oldKeySigS := natToBytes 32 2
  oldKeyCommitment := natToBytes 20 1
  popSigR := fieldBytes Secp256k1.generatorX
  popSigS := natToBytes 32 2

theorem provesNewKey_sample (programId node : Bytes 32) :
    ProvesNewKey sampleKeccak programId node sampleRotation Secp256k1.G Secp256k1.generatorX
      Secp256k1.generatorY :=
  ⟨encodesKey_sample, possessionHolds_sample _⟩

theorem authorizes_sample {Q : Secp256k1.Point} {x y : ZMod Secp256k1.p} (hQ : HasCoords Q x y)
    {digest : Bytes 32}
    (h : SchnorrAccepts sampleKeccak Q digest (natToBytes 32 2) (natToBytes 20 1)) :
    Authorizes sampleKeccak Q x y digest (natToBytes 32 2) (natToBytes 20 1) := by
  have hvalid : secp256k1ScalarIsValidNonzero (natToBytes 32 2) = true :=
    (secp256k1ScalarIsValidNonzero_iff _).mpr (sampleAttestation_scalar 0)
  exact ((schnorrAccepts_iff_authorizes hQ).mp ⟨hvalid, h⟩).2

/-- The negated generator as the stored key. -/
def sampleNegatedXy : SignerXy :=
  (fieldBytes Secp256k1.generatorX, fieldBytes (-Secp256k1.generatorY))

/-- Rotating from the negated generator to the generator with both signatures. -/
theorem verifyKeyRotation_exact_sample :
    verifyKeyRotation (referencePrimitives sampleKeccak) (natToBytes 32 5) (natToBytes 32 6)
        sampleNegatedXy sampleRotation =
      .ok (fieldBytes Secp256k1.generatorX, fieldBytes Secp256k1.generatorY) := by
  have hstored : StoredPoint sampleNegatedXy (-Secp256k1.G) :=
    storedPoint_fieldBytes Secp256k1.hasCoords_G.neg
  have hx : bytesToNat sampleNegatedXy.1 < Secp256k1.n := by
    rw [sampleNegatedXy, bytesToNat_fieldBytes]
    exact Secp256k1.generatorX_val_lt
  have hchanged : Secp256k1.G ≠ -Secp256k1.G := by
    intro h
    refine Secp256k1.natCast_smul_G_ne_zero two_pos (by norm_num [Secp256k1.n]) ?_
    rw [Nat.cast_ofNat, two_smul]
    nth_rewrite 2 [h]
    exact add_neg_cancel _
  have hnonce : ((2 : ℕ) : ZMod Secp256k1.n) • Secp256k1.G - -Secp256k1.G ≠ 0 := by
    have hsum : ((2 : ℕ) : ZMod Secp256k1.n) • Secp256k1.G - -Secp256k1.G =
        ((3 : ℕ) : ZMod Secp256k1.n) • Secp256k1.G := by
      rw [Nat.cast_ofNat, Nat.cast_ofNat]
      module
    rw [hsum]
    exact Secp256k1.natCast_smul_G_ne_zero three_pos (by norm_num [Secp256k1.n])
  exact ((verifyKeyRotation_exact fieldExact_reference sumExact_reference keyParsingExact_reference
    recoverExact_reference (natToBytes 32 5) (natToBytes 32 6) hstored hx sampleRotation).ok_iff
      _).mpr ⟨_, _, _, provesNewKey_sample _ _, hchanged,
        authorizes_sample hstored.coords (schnorrAccepts_small Secp256k1.hasCoords_G.neg
          Secp256k1.generatorX_val_lt (by norm_num) hnonce _), rfl⟩

/-- A stored pair of zeros authorizes nothing. -/
theorem off_curve_authorizes_nothing_iff_sample :
    AuthorizesNothing sampleKeccak (natToBytes 32 5) (natToBytes 32 6) sampleRotation
      (verifyKeyRotation (referencePrimitives sampleKeccak) (natToBytes 32 5) (natToBytes 32 6)
        (natToBytes 32 0, natToBytes 32 0) sampleRotation) := by
  have hzero : ¬CanonicalXy (natToBytes 32 0, natToBytes 32 0) := by
    intro h
    have hpos : 0 < bytesToNat (natToBytes 32 0) := h.x_pos
    rw [bytesToNat_natToBytes_of_lt (by norm_num)] at hpos
    exact absurd hpos (lt_irrefl 0)
  refine (@off_curve_authorizes_nothing_iff (referencePrimitives sampleKeccak) _ _
    fieldExact_reference sumExact_reference keyParsingExact_reference recoverExact_reference
    (natToBytes 32 5) (natToBytes 32 6) (fun Q h => hzero h.canonicalXy) sampleRotation).mpr ?_
  rintro ⟨-, Q, y, hlifts, -⟩
  exact hzero hlifts.canonical

/-- A stored pair off the curve authorizes a rotation: it has the first coordinate and the parity of
the generator. -/
theorem off_curve_key_rotates :
    (∀ Q, ¬StoredPoint sampleOffCurveXy Q) ∧
      verifyKeyRotation (referencePrimitives sampleKeccak) (natToBytes 32 5) (natToBytes 32 6)
        sampleOffCurveXy sampleRotation =
          .ok (fieldBytes Secp256k1.generatorX, fieldBytes Secp256k1.generatorY) := by
  obtain ⟨hcanonical, hcurve, hcompressed⟩ := sampleOffCurveXy_facts
  have hx : toField sampleOffCurveXy.1 = Secp256k1.generatorX := toField_fieldBytes _
  have hy : toField sampleOffCurveXy.2 = Secp256k1.generatorY + 1 + 1 := toField_fieldBytes _
  have hstored : ∀ Q, ¬StoredPoint sampleOffCurveXy Q := by
    intro Q h
    have honcurve := h.coords.onCurve
    rw [hx, hy] at honcurve
    exact hcurve honcurve
  have hlifts : LiftsTo sampleOffCurveXy Secp256k1.G Secp256k1.generatorY := by
    have hparity := congrArg (fun b => leadByte b &&& 1) hcompressed
    simp only [encodeCompressed_parity] at hparity
    refine ⟨hcanonical, ?_, ?_, ?_⟩
    · rw [sampleOffCurveXy, bytesToNat_fieldBytes]
      exact Secp256k1.generatorX_val_lt
    · rw [hx]
      exact Secp256k1.hasCoords_G
    · rw [hy]
      exact hparity.symm
  have hsigned : LiftedKeySigned sampleKeccak (natToBytes 32 5) (natToBytes 32 6) sampleOffCurveXy
      sampleRotation :=
    ⟨_, _, hlifts, authorizes_sample hlifts.coords (schnorrAccepts_sample _)⟩
  refine ⟨hstored, ?_⟩
  have hcases := @verifyKeyRotation_of_proven (referencePrimitives sampleKeccak) _ _ _ _
    fieldExact_reference sumExact_reference keyParsingExact_reference recoverExact_reference _ _ _
    (provesNewKey_sample (natToBytes 32 5) (natToBytes 32 6)) sampleOffCurveXy
  rcases hcases with ⟨hsame, -⟩ | ⟨-, ⟨-, hrun⟩ | ⟨hunsigned, -⟩⟩
  · exact absurd (hsame ▸ storedPoint_fieldBytes Secp256k1.hasCoords_G) (hstored Secp256k1.G)
  · exact hrun
  · exact absurd hsigned hunsigned

end Sample

end MolphaVerifier
