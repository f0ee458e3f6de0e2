import MolphaVerifier.KeyCustody
import MolphaVerifier.SigningSessions

/-!
# Signing with a secret

The signers of possession proofs and rotations, as the holder of a secret runs them. A possession
proof signed with a secret is accepted for a key exactly when the key is the secret's own, whatever
key it is signed for; so a key built from other keys cannot be registered or rotated in with the
secret of a sum. A rotation signed with the right secrets succeeds, and a run of such rotations ends
at the last key.
-/

namespace MolphaVerifier

open FixedBytes FallibleFolds ShortWeierstrass SchnorrEquations AttemptedRuns

/-- What the curve library computes as the compressed key of a secret. -/
abbrev KeyGeneration : Type := Bytes 32 → Bytes 33

/-- A secret is a nonzero scalar. -/
def IsSecret (secret : Bytes 32) : Prop :=
  0 < bytesToNat secret ∧ bytesToNat secret < Secp256k1.n

/-- Key generation multiplies the generator. -/
structure KeyGenerationExact (publicKeyForSecret : KeyGeneration) : Prop where
  eq_encode : ∀ secret x y, IsSecret secret → HasCoords (toScalar secret • Secp256k1.G) x y →
    publicKeyForSecret secret = encodeCompressed x y

section Signers

variable (lib : Libsecp256k1) (keccak : Keccak) (publicKeyForSecret : KeyGeneration)

/-- The nonce or its negation, whichever has an even second coordinate. -/
def canonicalNonce (nonce : Bytes 32) : Bytes 32 :=
  if leadByte (publicKeyForSecret nonce) = 0x03 then negateModN nonce else nonce

def signPopMessage (message : Bytes 32) (publicKeyCompressed : Bytes 33)
    (signingSecret nonce : Bytes 32) : Bytes 32 × Bytes 32 :=
  let canonicalNonce := canonicalNonce publicKeyForSecret nonce
  let r := afterLead (publicKeyForSecret canonicalNonce)
  let publicKeyX := afterLead publicKeyCompressed
  let parity := leadByte publicKeyCompressed &&& 1
  let challenge := secp256k1ScalarReduceBe
    (hashv keccak [publicKeyX.toList, [parity], message.toList, r.toList])
  (r, addModN canonicalNonce (mulMod challenge signingSecret))

def signPop (programId nodeId : Bytes 32) (publicKeyCompressed : Bytes 33)
    (signingSecret nonce : Bytes 32) : Bytes 32 × Bytes 32 :=
  signPopMessage keccak publicKeyForSecret (deriveNodePopMessage keccak programId nodeId)
    publicKeyCompressed signingSecret nonce

def uncompressedXy (compressed : Bytes 33) : Option (Bytes 64) :=
  (lib.parseCompressed compressed).map fun key => afterLead (lib.serialize key)

/-- Sign a message with one key in the aggregate format. -/
def signAggregate (publicKey : Bytes 33) (secret message nonce : Bytes 32) :
    Option (Bytes 32 × Bytes 20) := do
  let nonceXy ← uncompressedXy lib (publicKeyForSecret nonce)
  let commitment := ethAddressFromUncompressedPubkey keccak nonceXy
  let x := afterLead publicKey
  let parity := leadByte publicKey &&& 1
  let challenge := secp256k1ScalarReduceBe
    (hashv keccak [x.toList, [parity], message.toList, commitment.toList])
  pure (addModN nonce (mulMod challenge secret), commitment)

/-- A rotation to a new key, signed with two secrets. -/
def rotationProof (programId node : Bytes 32) (oldPublic newPublic : Bytes 33)
    (oldSecret newSecret oldNonce newNonce : Bytes 32) : Option KeyRotationProof := do
  let digest := keyRotationDigest keccak programId node newPublic
  let (oldKeySigS, oldKeyCommitment) ←
    signAggregate lib keccak publicKeyForSecret oldPublic oldSecret digest oldNonce
  let (popSigR, popSigS) :=
    signPop keccak publicKeyForSecret programId digest newPublic newSecret newNonce
  pure ⟨newPublic, oldKeySigS, oldKeyCommitment, popSigR, popSigS⟩

end Signers

section Nonces

variable {publicKeyForSecret : KeyGeneration} {secret nonce : Bytes 32}

theorem IsSecret.toScalar_ne_zero (h : IsSecret secret) : toScalar secret ≠ 0 :=
  (bytesToNat_pos_iff h.2).mp h.1

theorem IsSecret.exists_hasCoords (h : IsSecret secret) :
    ∃ x y, HasCoords (toScalar secret • Secp256k1.G) x y :=
  ne_zero_iff_exists_hasCoords.mp (Secp256k1.smul_G_ne_zero_iff.mpr h.toScalar_ne_zero)

theorem IsSecret.negateModN (h : IsSecret secret) : IsSecret (negateModN secret) := by
  refine ⟨?_, bytesToNat_negateModN_lt h.2⟩
  rw [bytesToNat_pos_iff (bytesToNat_negateModN_lt h.2), toScalar_negateModN h.2, neg_ne_zero]
  exact h.toScalar_ne_zero

theorem parityOf_even_iff {y : ZMod Secp256k1.p} : parityOf y = 0 ↔ y.val % 2 = 0 := by
  rw [parityOf]
  split_ifs with hodd
  · simp [hodd]
  · simp only [true_iff]
    omega

theorem evenNonce_canonicalNonce (hgen : KeyGenerationExact publicKeyForSecret)
    (h : IsSecret nonce) :
    ∃ y, EvenNonce (afterLead (publicKeyForSecret (canonicalNonce publicKeyForSecret nonce)))
      (toScalar (canonicalNonce publicKeyForSecret nonce) • Secp256k1.G) y := by
  obtain ⟨x, y, hcoords⟩ := h.exists_hasCoords
  have hlead : leadByte (publicKeyForSecret nonce) = 0x03 ↔ y.val % 2 = 1 := by
    rw [hgen.eq_encode nonce x y h hcoords, leadByte_encodeCompressed]
    split_ifs with hodd <;> simp [hodd]
  have heven {k : Bytes 32} {y' : ZMod Secp256k1.p} (hk : IsSecret k)
      (hk' : HasCoords (toScalar k • Secp256k1.G) x y') (hy' : y'.val % 2 = 0) :
      EvenNonce (afterLead (publicKeyForSecret k)) (toScalar k • Secp256k1.G) y' := by
    rw [hgen.eq_encode k x y' hk hk', afterLead_encodeCompressed]
    refine ⟨bytesToNat_fieldBytes_lt x, ?_, hy'⟩
    rwa [toField_fieldBytes]
  by_cases hodd : y.val % 2 = 1
  · rw [canonicalNonce, if_pos (hlead.mpr hodd)]
    refine ⟨-y, heven h.negateModN ?_ ?_⟩
    · rw [toScalar_negateModN h.2, neg_smul]
      exact hcoords.neg
    · rw [← parityOf_even_iff, parityOf_neg (Secp256k1.y_ne_zero hcoords), parityOf, if_pos hodd]
      rfl
  · rw [canonicalNonce, if_neg (fun hthree => hodd (hlead.mp hthree))]
    exact ⟨y, heven h hcoords (by omega)⟩

end Nonces

section Possession

variable {prims : Primitives} {publicKeyForSecret : KeyGeneration} {P : Secp256k1.Point}
  {x y : ZMod Secp256k1.p} {publicKeyCompressed : Bytes 33} {message secret nonce r s : Bytes 32}

/-- What the signer publishes: the even nonce, and a scalar that answers the challenge for it. -/
theorem of_signPopMessage {keccak : Keccak} (hkey : EncodesKey publicKeyCompressed P x y)
    (hsigned : signPopMessage keccak publicKeyForSecret message publicKeyCompressed secret nonce =
      (r, s)) :
    r = afterLead (publicKeyForSecret (canonicalNonce publicKeyForSecret nonce)) ∧
      bytesToNat s < Secp256k1.n ∧
      toScalar s = toScalar (canonicalNonce publicKeyForSecret nonce) +
        popChallenge keccak (fieldBytes x) (parityOf y) message r * toScalar secret := by
  rw [signPopMessage] at hsigned
  simp only [hkey.eq_encode, afterLead_encodeCompressed, encodeCompressed_parity,
    Prod.mk.injEq] at hsigned
  obtain ⟨rfl, rfl⟩ := hsigned
  refine ⟨rfl, bytesToNat_addModN_lt _ _, ?_⟩
  rw [toScalar_addModN, toScalar_mulMod, ← popChallengeBytes, toScalar_popChallengeBytes]

/-- A possession proof signed with a secret holds for the key of that secret and for no other. -/
theorem possessionHolds_signed_iff {keccak : Keccak} (hgen : KeyGenerationExact publicKeyForSecret)
    (hkey : EncodesKey publicKeyCompressed P x y) (hnonce : IsSecret nonce)
    (hsigned : signPopMessage keccak publicKeyForSecret message publicKeyCompressed secret nonce =
      (r, s)) :
    PossessionHolds keccak P x y message r s ↔ P = toScalar secret • Secp256k1.G ∧
      toScalar s ≠ 0 ∧ popChallenge keccak (fieldBytes x) (parityOf y) message r ≠ 0 := by
  obtain ⟨hr, hlt, hs⟩ := of_signPopMessage hkey hsigned
  obtain ⟨yR, hR⟩ := evenNonce_canonicalNonce hgen hnonce
  rw [← hr] at hR
  have hequation : toScalar s • Secp256k1.G =
      toScalar (canonicalNonce publicKeyForSecret nonce) • Secp256k1.G +
        popChallenge keccak (fieldBytes x) (parityOf y) message r •
          (toScalar secret • Secp256k1.G) := by
    rw [hs]
    module
  constructor
  · intro h
    obtain ⟨R, yR', hR', hholds⟩ := h.equation
    obtain ⟨rfl, -⟩ := hR.unique hR'
    -- the nonces cancel, and the challenge can be divided out
    rw [hequation, add_right_inj] at hholds
    have hsecret := smul_right_injective Secp256k1.Point h.challenge_ne_zero hholds
    exact ⟨hsecret.symm, (bytesToNat_pos_iff hlt).mp h.s_pos, h.challenge_ne_zero⟩
  · rintro ⟨rfl, hpos, hne⟩
    exact ⟨(bytesToNat_pos_iff hlt).mpr hpos, hlt, hne, _, _, hR, hequation⟩

/-- The outcome of registering a key with a proof signed by a secret. -/
structure SignedOutcome (keccak : Keccak) (P : Secp256k1.Point) (x y : ZMod Secp256k1.p)
    (message secret r s : Bytes 32) (outcome : Except NodePopError SignerXy) : Prop where
  ok_iff : outcome = .ok (fieldBytes x, fieldBytes y) ↔ P = toScalar secret • Secp256k1.G ∧
    toScalar s ≠ 0 ∧ popChallenge keccak (fieldBytes x) (parityOf y) message r ≠ 0
  invalidProof_iff : outcome = .error .invalidProof ↔ ¬(P = toScalar secret • Secp256k1.G ∧
    toScalar s ≠ 0 ∧ popChallenge keccak (fieldBytes x) (parityOf y) message r ≠ 0)

theorem signedOutcome (hgen : KeyGenerationExact publicKeyForSecret)
    (hK : KeyParsingExact prims.lib) (hRec : RecoverExact prims.secp256k1Recover)
    (hkey : EncodesKey publicKeyCompressed P x y) (hnonce : IsSecret nonce)
    (hsigned : signPopMessage prims.keccak publicKeyForSecret message publicKeyCompressed secret
      nonce = (r, s)) :
    SignedOutcome prims.keccak P x y message secret r s
      (validatePossession prims message publicKeyCompressed r s) := by
  have hholds := possessionHolds_signed_iff hgen hkey hnonce hsigned
  rcases validatePossession_cases hK hRec message publicKeyCompressed r s with
    ⟨hnone, -⟩ | ⟨P', x', y', hkey', hcases⟩
  · exact absurd ⟨P, x, y, hkey⟩ hnone
  obtain ⟨rfl, rfl, rfl⟩ := hkey.unique hkey'
  rw [hholds] at hcases
  rcases hcases with ⟨hsecret, hrun⟩ | ⟨hother, hrun⟩
  · rw [hrun]
    exact ⟨iff_of_true rfl hsecret, iff_of_false (fun h => nomatch h) (fun h => h hsecret)⟩
  · rw [hrun]
    exact ⟨iff_of_false (fun h => nomatch h) hother, iff_of_true rfl hother⟩

/-- A node or a provider registers a key with a proof signed by some secret exactly when it is the
key of that secret, unless the proof's scalar or its challenge is zero. No other key passes: not a
negation, and not the difference of two keys with the secret of one of them. -/
theorem signed_registration_iff (hgen : KeyGenerationExact publicKeyForSecret)
    (hK : KeyParsingExact prims.lib) (hRec : RecoverExact prims.secp256k1Recover)
    (hkey : EncodesKey publicKeyCompressed P x y) (hnonce : IsSecret nonce)
    (programId subject secret : Bytes 32) :
    (∀ r s, signPop prims.keccak publicKeyForSecret programId subject publicKeyCompressed secret
        nonce = (r, s) →
      SignedOutcome prims.keccak P x y (deriveNodePopMessage prims.keccak programId subject) secret
        r s (validateKeyAndVerifyPop prims programId subject publicKeyCompressed r s)) ∧
    ∀ r s, signPopMessage prims.keccak publicKeyForSecret
        (deriveProviderPopMessage prims.keccak programId subject) publicKeyCompressed secret
        nonce = (r, s) →
      SignedOutcome prims.keccak P x y (deriveProviderPopMessage prims.keccak programId subject)
        secret r s (validateProviderKeyAndVerifyPop prims programId subject publicKeyCompressed
          r s) :=
  ⟨fun _ _ hsigned => signedOutcome hgen hK hRec hkey hnonce hsigned,
    fun _ _ hsigned => signedOutcome hgen hK hRec hkey hnonce hsigned⟩

end Possession

section Authorization

variable {prims : Primitives} {publicKeyForSecret : KeyGeneration} {P Q : Secp256k1.Point}
  {x y : ZMod Secp256k1.p} {digest secret nonce s : Bytes 32} {commitment : Bytes 20}

theorem uncompressedXy_encodeCompressed (hK : KeyParsingExact prims.lib) (hP : HasCoords P x y) :
    uncompressedXy prims.lib (encodeCompressed x y) = some (encodeXy x y) := by
  obtain ⟨k, hk⟩ := hK.exists_parse P x y hP
  obtain ⟨P', x', y', hP', hbytes, hserialize, -⟩ := hK.of_parse _ k hk
  obtain ⟨rfl, rfl⟩ := encodeCompressed_inj hP hP' hbytes
  rw [uncompressedXy, hk, Option.map_some, hserialize, afterLead_encodeUncompressed]

/-- What the signer publishes in the aggregate format: the address of the nonce, and a scalar that
answers the challenge for it. -/
theorem of_signAggregate (hgen : KeyGenerationExact publicKeyForSecret)
    (hK : KeyParsingExact prims.lib) (hnonce : IsSecret nonce)
    (hsigned : signAggregate prims.lib prims.keccak publicKeyForSecret (encodeCompressed x y) secret
      digest nonce = some (s, commitment)) :
    bytesToNat s < Secp256k1.n ∧
      (∃ xR yR, HasCoords (toScalar nonce • Secp256k1.G) xR yR ∧
        ethAddressFromUncompressedPubkey prims.keccak (encodeXy xR yR) = commitment) ∧
      toScalar s = toScalar nonce +
        schnorrChallenge prims.keccak (fieldBytes x) (parityOf y) digest commitment *
          toScalar secret := by
  obtain ⟨xR, yR, hcoords⟩ := hnonce.exists_hasCoords
  rw [signAggregate, hgen.eq_encode nonce xR yR hnonce hcoords,
    uncompressedXy_encodeCompressed hK hcoords] at hsigned
  simp only [Option.bind_eq_bind, Option.bind_some, Option.pure_def, Option.some.injEq,
    Prod.mk.injEq, afterLead_encodeCompressed, encodeCompressed_parity] at hsigned
  obtain ⟨rfl, rfl⟩ := hsigned
  refine ⟨bytesToNat_addModN_lt _ _, ⟨xR, yR, hcoords, rfl⟩, ?_⟩
  rw [toScalar_addModN, toScalar_mulMod, secp256k1ScalarReduceBe, toScalar_modReduceOnce,
    schnorrChallenge]

section Signed

variable (hgen : KeyGenerationExact publicKeyForSecret) (hK : KeyParsingExact prims.lib)
  (hnonce : IsSecret nonce)
  (hsigned : signAggregate prims.lib prims.keccak publicKeyForSecret (encodeCompressed x y) secret
    digest nonce = some (s, commitment))

include hgen hK hnonce hsigned

theorem authorizes_signed_iff :
    Authorizes prims.keccak (toScalar secret • Secp256k1.G) x y digest s commitment ↔
      toScalar s ≠ 0 ∧
        schnorrChallenge prims.keccak (fieldBytes x) (parityOf y) digest commitment ≠ 0 := by
  obtain ⟨hlt, ⟨xR, yR, hcoords, haddress⟩, hs⟩ := of_signAggregate hgen hK hnonce hsigned
  have hnonceEq : SchnorrEquations.nonce Secp256k1.G (toScalar secret • Secp256k1.G) (toScalar s)
      (schnorrChallenge prims.keccak (fieldBytes x) (parityOf y) digest commitment) =
        toScalar nonce • Secp256k1.G := by
    rw [SchnorrEquations.nonce, hs]
    module
  rw [← bytesToNat_pos_iff hlt]
  constructor
  · exact fun h => ⟨h.s_pos, h.challenge_ne_zero⟩
  · rintro ⟨hpos, hne⟩
    refine ⟨hpos, hlt, hne, xR, yR, ?_, haddress⟩
    rwa [hnonceEq]

end Signed

end Authorization

/-- Both signatures of a rotation have a nonzero scalar and a nonzero challenge. -/
structure RotationEvaluable (keccak : Keccak) (programId node : Bytes 32) (key : SignerXy)
    (proof : KeyRotationProof) (x y : ZMod Secp256k1.p) : Prop where
  old_scalar : toScalar proof.oldKeySigS ≠ 0
  old_challenge : schnorrChallenge keccak (fieldBytes (toField key.1)) (parityOf (toField key.2))
    (keyRotationDigest keccak programId node proof.newPublicKeyCompressed)
    proof.oldKeyCommitment ≠ 0
  new_scalar : toScalar proof.popSigS ≠ 0
  new_challenge : popChallenge keccak (fieldBytes x) (parityOf y)
    (deriveNodePopMessage keccak programId
      (keyRotationDigest keccak programId node proof.newPublicKeyCompressed)) proof.popSigR ≠ 0

section Rotation

variable {prims : Primitives} {R : FieldReading prims.lib} {publicKeyForSecret : KeyGeneration}
  {key newKey : SignerXy} {K Q : Secp256k1.Point} {x y : ZMod Secp256k1.p}
  {newPublic : Bytes 33} {programId node oldSecret newSecret oldNonce newNonce : Bytes 32}
  {proof : KeyRotationProof}

theorem of_rotationProof {lib : Libsecp256k1} {keccak : Keccak} {oldPublic : Bytes 33}
    (hsigned : rotationProof lib keccak publicKeyForSecret programId node oldPublic newPublic
      oldSecret newSecret oldNonce newNonce = some proof) :
    proof.newPublicKeyCompressed = newPublic ∧
      signAggregate lib keccak publicKeyForSecret oldPublic oldSecret
        (keyRotationDigest keccak programId node newPublic) oldNonce =
          some (proof.oldKeySigS, proof.oldKeyCommitment) ∧
      signPopMessage keccak publicKeyForSecret (deriveNodePopMessage keccak programId
        (keyRotationDigest keccak programId node newPublic)) newPublic newSecret newNonce =
          (proof.popSigR, proof.popSigS) := by
  rw [rotationProof] at hsigned
  simp only [Option.bind_eq_bind, Option.bind_eq_some_iff] at hsigned
  obtain ⟨⟨s, commitment⟩, haggregate, hproof⟩ := hsigned
  obtain rfl := Option.some.inj hproof
  exact ⟨rfl, haggregate, rfl⟩

section Signed

variable (hF : FieldExact prims.lib R) (hS : SumExact prims.lib R)
  (hK : KeyParsingExact prims.lib) (hRec : RecoverExact prims.secp256k1Recover)
  (hgen : KeyGenerationExact publicKeyForSecret) (hQ : UsableKey key Q)
  (hnew : EncodesKey newPublic K x y) (holdNonce : IsSecret oldNonce)
  (hnewNonce : IsSecret newNonce)
  (hsigned : rotationProof prims.lib prims.keccak publicKeyForSecret programId node
    (encodeCompressed (toField key.1) (toField key.2)) newPublic oldSecret newSecret oldNonce
    newNonce = some proof)

include hF hS hK hRec hgen hQ hnew holdNonce hnewNonce hsigned

theorem rotation_of_secrets (hsecret : K = toScalar newSecret • Secp256k1.G)
    (holdSecret : Q = toScalar oldSecret • Secp256k1.G) :
    verifyKeyRotation prims programId node key proof = .ok (fieldBytes x, fieldBytes y) ↔
      K ≠ Q ∧ RotationEvaluable prims.keccak programId node key proof x y := by
  obtain ⟨hpublic, haggregate, hpop⟩ := of_rotationProof hsigned
  subst hpublic hsecret holdSecret
  have hpossession := possessionHolds_signed_iff hgen hnew hnewNonce hpop
  have hauthorizes := authorizes_signed_iff hgen hK holdNonce haggregate
  rw [verifyKeyRotation_eq_ok_iff hF hS hK hRec hQ]
  constructor
  · rintro ⟨K', x', y', hproves, hchanged, hauthorized, -⟩
    obtain ⟨rfl, rfl, rfl⟩ := hnew.unique hproves.encodes
    obtain ⟨hscalar, hchallenge⟩ := hauthorizes.mp hauthorized
    obtain ⟨-, hscalar', hchallenge'⟩ := hpossession.mp hproves.possession
    exact ⟨hchanged, hscalar, hchallenge, hscalar', hchallenge'⟩
  · rintro ⟨hchanged, hscalar, hchallenge, hscalar', hchallenge'⟩
    exact ⟨_, x, y, ⟨hnew, hpossession.mpr ⟨rfl, hscalar', hchallenge'⟩⟩, hchanged,
      hauthorizes.mpr ⟨hscalar, hchallenge⟩, rfl⟩

end Signed

end Rotation

section Runs

variable {prims : Primitives} {R : FieldReading prims.lib} {publicKeyForSecret : KeyGeneration}
  {programId node secret last : Bytes 32} {key start : SignerXy} {proofs : List KeyRotationProof}

/-- The stored form of the key of a secret. -/
def keyXy (lib : Libsecp256k1) (publicKeyForSecret : KeyGeneration) (secret : Bytes 32) :
    Except NodePopError SignerXy :=
  normalizePublicKey lib (publicKeyForSecret secret)

/-- The owner of a node rotates from secret to secret, with signatures that can be evaluated. -/
inductive OwnerRotates (prims : Primitives) (publicKeyForSecret : KeyGeneration)
    (programId node : Bytes 32) : Bytes 32 → List KeyRotationProof → Bytes 32 → Prop
  | done (secret : Bytes 32) : OwnerRotates prims publicKeyForSecret programId node secret [] secret
  | rotate {oldSecret newSecret oldNonce newNonce last : Bytes 32} {key newKey : SignerXy}
      {proof : KeyRotationProof} {proofs : List KeyRotationProof}
      (secret : IsSecret newSecret) (oldNonce_secret : IsSecret oldNonce)
      (newNonce_secret : IsSecret newNonce)
      (key_eq : keyXy prims.lib publicKeyForSecret oldSecret = .ok key)
      (newKey_eq : keyXy prims.lib publicKeyForSecret newSecret = .ok newKey)
      (changed : newKey ≠ key)
      (signed : rotationProof prims.lib prims.keccak publicKeyForSecret programId node
        (publicKeyForSecret oldSecret) (publicKeyForSecret newSecret) oldSecret newSecret oldNonce
        newNonce = some proof)
      (evaluable : RotationEvaluable prims.keccak programId node key proof (toField newKey.1)
        (toField newKey.2))
      (rest : OwnerRotates prims publicKeyForSecret programId node newSecret proofs last) :
      OwnerRotates prims publicKeyForSecret programId node oldSecret (proof :: proofs) last

theorem encodesKey_of_keyXy (hK : KeyParsingExact prims.lib)
    (hgen : KeyGenerationExact publicKeyForSecret) (hsecret : IsSecret secret)
    (h : keyXy prims.lib publicKeyForSecret secret = .ok key) :
    EncodesKey (publicKeyForSecret secret) (toScalar secret • Secp256k1.G) (toField key.1)
      (toField key.2) ∧ UsableKey key (toScalar secret • Secp256k1.G) := by
  obtain ⟨x, y, hcoords⟩ := hsecret.exists_hasCoords
  have hencode := hgen.eq_encode secret x y hsecret hcoords
  rw [keyXy] at h
  rcases normalizePublicKey_cases hK (publicKeyForSecret secret) with
    ⟨P, x', y', hkey, hnormal⟩ | ⟨-, herror⟩
  · obtain ⟨rfl, rfl⟩ := encodeCompressed_inj hcoords hkey.coords (hencode.symm.trans hkey.eq_encode)
    obtain rfl := hcoords.ext hkey.coords
    obtain rfl := Except.ok.inj (hnormal.symm.trans h)
    rw [toField_fieldBytes, toField_fieldBytes]
    exact ⟨hkey, hkey.usable⟩
  · rw [herror] at h
    cases h

theorem keyXy_of_coords {lib : Libsecp256k1} (hK : KeyParsingExact lib)
    (hgen : KeyGenerationExact publicKeyForSecret) (hsecret : IsSecret secret)
    {x y : ZMod Secp256k1.p} (hcoords : HasCoords (toScalar secret • Secp256k1.G) x y)
    (hx : x.val < Secp256k1.n) :
    keyXy lib publicKeyForSecret secret = .ok (fieldBytes x, fieldBytes y) := by
  have hkey := encodesKey_of_coords hcoords hx
  rw [keyXy, hgen.eq_encode secret x y hsecret hcoords]
  rcases normalizePublicKey_cases hK (encodeCompressed x y) with
    ⟨P, x', y', hkey', hnormal⟩ | ⟨hnone, -⟩
  · obtain ⟨-, rfl, rfl⟩ := hkey.unique hkey'
    exact hnormal
  · exact absurd ⟨_, x, y, hkey⟩ hnone

theorem OwnerRotates.allSucceed (hF : FieldExact prims.lib R) (hS : SumExact prims.lib R)
    (hK : KeyParsingExact prims.lib) (hRec : RecoverExact prims.secp256k1Recover)
    (hgen : KeyGenerationExact publicKeyForSecret) (hsecret : IsSecret secret)
    (hstart : keyXy prims.lib publicKeyForSecret secret = .ok start)
    (h : OwnerRotates prims publicKeyForSecret programId node secret proofs last) :
    keyXy prims.lib publicKeyForSecret last =
        .ok (run (verifyKeyRotation prims programId node) start proofs) ∧
      AllSucceed (verifyKeyRotation prims programId node) start proofs := by
  induction h generalizing start with
  | done secret => exact ⟨hstart, allSucceed_nil⟩
  | @rotate oldSecret newSecret oldNonce newNonce last key newKey proof proofs hnewSecret
      holdNonce hnewNonce hkey hnewKey hchanged hsigned heval _ ih =>
    obtain rfl := Except.ok.inj (hkey.symm.trans hstart)
    obtain ⟨hold, husable⟩ := encodesKey_of_keyXy hK hgen hsecret hkey
    obtain ⟨hnew, hnewUsable⟩ := encodesKey_of_keyXy hK hgen hnewSecret hnewKey
    rw [hold.eq_encode] at hsigned
    have hcoords : (fieldBytes (toField newKey.1), fieldBytes (toField newKey.2)) = newKey := by
      rw [fieldBytes_toField hnewUsable.canonicalXy.x_lt,
        fieldBytes_toField hnewUsable.canonicalXy.y_lt]
    have hmoved : toScalar newSecret • Secp256k1.G ≠ toScalar oldSecret • Secp256k1.G := by
      rw [ne_eq, ← husable.storedPoint.bytes_eq_iff hnew.coords, hcoords]
      exact hchanged
    have hrotated : verifyKeyRotation prims programId node key proof = .ok newKey := by
      rw [← hcoords]
      exact (rotation_of_secrets hF hS hK hRec hgen husable hnew holdNonce hnewNonce hsigned rfl
        rfl).mpr ⟨hmoved, heval⟩
    obtain ⟨hlast, hrest⟩ := ih hnewSecret hnewKey
    refine ⟨?_, allSucceed_cons hrotated hrest⟩
    rwa [run, List.foldl_cons, settle_of_ok hrotated]

/-- Every rotation of a run that the owner signs succeeds when it is made, and the run ends at the
key of the last secret. -/
theorem owner_rotations_run (hF : FieldExact prims.lib R) (hS : SumExact prims.lib R)
    (hK : KeyParsingExact prims.lib) (hRec : RecoverExact prims.secp256k1Recover)
    (hgen : KeyGenerationExact publicKeyForSecret) (hsecret : IsSecret secret)
    (hstart : keyXy prims.lib publicKeyForSecret secret = .ok start)
    (h : OwnerRotates prims publicKeyForSecret programId node secret proofs last) :
    (∀ before proof after, proofs = before ++ proof :: after →
      verifyKeyRotation prims programId node (runRotations prims programId node start before)
          proof = .ok (runRotations prims programId node start (before ++ [proof]))) ∧
      keyXy prims.lib publicKeyForSecret last =
        .ok (runRotations prims programId node start proofs) := by
  obtain ⟨hlast, hall⟩ := h.allSucceed hF hS hK hRec hgen hsecret hstart
  simp only [runRotations_eq_run]
  exact ⟨hall, hlast⟩

end Runs

section Sample

noncomputable def referencePublicKey : KeyGeneration := fun secret =>
  open Classical in
  if h : ∃ xy : ZMod Secp256k1.p × ZMod Secp256k1.p,
      HasCoords (toScalar secret • Secp256k1.G) xy.1 xy.2 then
    encodeCompressed h.choose.1 h.choose.2
  else Vector.replicate 33 0

theorem keyGenerationExact_reference : KeyGenerationExact referencePublicKey where
  eq_encode := by
    intro secret x y _ hcoords
    have h : ∃ xy : ZMod Secp256k1.p × ZMod Secp256k1.p,
        HasCoords (toScalar secret • Secp256k1.G) xy.1 xy.2 := ⟨(x, y), hcoords⟩
    obtain ⟨hx, hy⟩ := h.choose_spec.unique hcoords
    rw [referencePublicKey, dif_pos h, hx, hy]

theorem isSecret_small {k : ℕ} (hpos : 0 < k) (hk : k < 256) : IsSecret (natToBytes 32 k) :=
  natToBytes_scalar hpos hk

/-- The generator is not registered with the secret two. -/
theorem signed_registration_iff_sample :
    validateKeyAndVerifyPop (referencePrimitives sampleKeccak) (natToBytes 32 5) (natToBytes 32 6)
      sampleCompressedKey
      (signPop sampleKeccak referencePublicKey (natToBytes 32 5) (natToBytes 32 6)
        sampleCompressedKey (natToBytes 32 2) (natToBytes 32 1)).1
      (signPop sampleKeccak referencePublicKey (natToBytes 32 5) (natToBytes 32 6)
        sampleCompressedKey (natToBytes 32 2) (natToBytes 32 1)).2 = .error .invalidProof := by
  refine ((signed_registration_iff keyGenerationExact_reference keyParsingExact_reference
    recoverExact_reference encodesKey_sample (isSecret_small one_pos (by norm_num))
    (natToBytes 32 5) (natToBytes 32 6) (natToBytes 32 2)).1 _ _ rfl).invalidProof_iff.mpr ?_
  rintro ⟨hkey, -⟩
  rw [toScalar_small (by norm_num), Nat.cast_ofNat, two_smul, left_eq_add] at hkey
  exact Secp256k1.hasCoords_G.ne_zero hkey

theorem exists_rotationProof {lib : Libsecp256k1} {publicKeyForSecret : KeyGeneration}
    (hgen : KeyGenerationExact publicKeyForSecret) (hK : KeyParsingExact lib) {oldNonce : Bytes 32}
    (hnonce : IsSecret oldNonce) (keccak : Keccak) (programId node : Bytes 32)
    (oldPublic newPublic : Bytes 33) (oldSecret newSecret newNonce : Bytes 32) :
    ∃ proof, rotationProof lib keccak publicKeyForSecret programId node oldPublic newPublic
      oldSecret newSecret oldNonce newNonce = some proof := by
  obtain ⟨x, y, hcoords⟩ := hnonce.exists_hasCoords
  have hnonceXy := @uncompressedXy_encodeCompressed ⟨lib, fun _ _ _ => none, keccak⟩ _ x y hK hcoords
  rw [rotationProof, signAggregate, hgen.eq_encode oldNonce x y hnonce hcoords, hnonceXy]
  exact ⟨_, rfl⟩

section Multiples

variable {m m' : ℕ} {x y x' y' : ZMod Secp256k1.p} {programId node : Bytes 32}

theorem smul_small (hm : m < 256) :
    toScalar (natToBytes 32 m) • Secp256k1.G = m • Secp256k1.G := by
  rw [toScalar_small hm, Secp256k1.natCast_smul]

/-- The rotation from the secret `m` to the secret `m'`, both with the nonce one. -/
def IsMultipleRotation (programId node : Bytes 32) (m m' : ℕ) (x y x' y' : ZMod Secp256k1.p)
    (proof : KeyRotationProof) : Prop :=
  rotationProof referenceLib sampleKeccak referencePublicKey programId node (encodeCompressed x y)
    (encodeCompressed x' y') (natToBytes 32 m) (natToBytes 32 m') (natToBytes 32 1)
    (natToBytes 32 1) = some proof

theorem exists_isMultipleRotation (programId node : Bytes 32) (m m' : ℕ)
    (x y x' y' : ZMod Secp256k1.p) :
    ∃ proof, IsMultipleRotation programId node m m' x y x' y' proof :=
  exists_rotationProof keyGenerationExact_reference keyParsingExact_reference
    (isSecret_small one_pos (by norm_num)) sampleKeccak programId node _ _ _ _ _

theorem rotationEvaluable_multiple (hm : m < 255) (hone : 1 < m') (hm' : m' < 255)
    (hnew : EncodesKey (encodeCompressed x' y') (m' • Secp256k1.G) x' y') {proof : KeyRotationProof}
    (hproof : IsMultipleRotation programId node m m' x y x' y' proof) (key : SignerXy)
    (a b : ZMod Secp256k1.p) : RotationEvaluable sampleKeccak programId node key proof a b := by
  have hnonce := isSecret_small one_pos (by norm_num)
  have hpopChallenge (px : Bytes 32) (parity : UInt8) (message r : Bytes 32) :
      popChallenge sampleKeccak px parity message r = 1 := toScalar_one
  have hchallenge (px : Bytes 32) (parity : UInt8) (message : Bytes 32) (commitment : Bytes 20) :
      schnorrChallenge (referencePrimitives sampleKeccak).keccak px parity message commitment = 1 :=
    toScalar_one
  obtain ⟨-, haggregate, hpop⟩ := of_rotationProof hproof
  obtain ⟨-, -, hold⟩ := @of_signAggregate (referencePrimitives sampleKeccak) _ _ _ _ _ _ _ _
    keyGenerationExact_reference keyParsingExact_reference hnonce haggregate
  obtain ⟨-, -, hnewScalar⟩ := of_signPopMessage hnew hpop
  refine ⟨?_, (hchallenge _ _ _ _).trans_ne one_ne_zero, ?_,
    (hpopChallenge _ _ _ _).trans_ne one_ne_zero⟩
  · have hsum := small_ne_zero (k := m + 1) (Nat.succ_pos m) (by omega)
    rw [hold, toScalar_one, hchallenge, one_mul, toScalar_small (by omega), add_comm]
    exact_mod_cast hsum
  · have hsum := small_ne_zero (k := m' + 1) (Nat.succ_pos m') (by omega)
    have hdifference := small_ne_zero (k := m' - 1) (by omega) (by omega)
    rw [Nat.cast_sub hone.le, Nat.cast_one] at hdifference
    rw [hnewScalar, hpopChallenge, one_mul, toScalar_small (k := m') (by omega), add_comm,
      canonicalNonce]
    split_ifs
    · rwa [toScalar_negateModN hnonce.2, toScalar_one, ← sub_eq_add_neg]
    · rw [toScalar_one]
      exact_mod_cast hsum

theorem keyXy_small (hpos : 0 < m) (hm : m < 256) (hP : HasCoords (m • Secp256k1.G) x y)
    (hx : x.val < Secp256k1.n) : keyXy referenceLib referencePublicKey (natToBytes 32 m) =
      .ok (fieldBytes x, fieldBytes y) := by
  rw [← smul_small hm] at hP
  exact keyXy_of_coords keyParsingExact_reference keyGenerationExact_reference
    (isSecret_small hpos hm) hP hx

theorem ownerRotates_multiple (hpos : 0 < m) (hlt : m < m') (hm' : m' < 255)
    (hP : HasCoords (m • Secp256k1.G) x y) (hx : x.val < Secp256k1.n)
    (hP' : HasCoords (m' • Secp256k1.G) x' y') (hx' : x'.val < Secp256k1.n)
    {proof : KeyRotationProof}
    (hproof : IsMultipleRotation programId node m m' x y x' y' proof)
    {proofs : List KeyRotationProof} {last : Bytes 32}
    (hrest : OwnerRotates (referencePrimitives sampleKeccak) referencePublicKey programId node
      (natToBytes 32 m') proofs last) :
    OwnerRotates (referencePrimitives sampleKeccak) referencePublicKey programId node
      (natToBytes 32 m) (proof :: proofs) last := by
  have hsecret := isSecret_small hpos (hlt.trans (hm'.trans (by norm_num)))
  have hsecret' := isSecret_small (hpos.trans hlt) (hm'.trans (by norm_num))
  have hone := isSecret_small one_pos (by norm_num)
  refine .rotate hsecret' hone hone (keyXy_small hpos (by omega) hP hx)
    (keyXy_small (hpos.trans hlt) (by omega) hP' hx') ?_ ?_
    (rotationEvaluable_multiple (by omega) (by omega) hm' (encodesKey_of_coords hP' hx') hproof _
      _ _) hrest
  · intro hsame
    obtain ⟨hfirst, hsecond⟩ := Prod.mk.inj hsame
    rw [fieldBytes_injective hfirst, fieldBytes_injective hsecond] at hP'
    exact Secp256k1.nsmul_G_ne hlt (hm'.trans (by norm_num [Secp256k1.n])) (hP'.ext hP)
  · rw [← smul_small (by omega)] at hP hP'
    rw [keyGenerationExact_reference.eq_encode _ _ _ hsecret hP,
      keyGenerationExact_reference.eq_encode _ _ _ hsecret' hP']
    exact hproof

end Multiples

/-- The owner of the generator rotates to twice and then to three times the generator. -/
theorem owner_rotations_run_sample :
    ∃ proof proof' second,
      verifyKeyRotation (referencePrimitives sampleKeccak) (natToBytes 32 5) (natToBytes 32 6)
        (fieldBytes Secp256k1.generatorX, fieldBytes Secp256k1.generatorY) proof = .ok second ∧
      verifyKeyRotation (referencePrimitives sampleKeccak) (natToBytes 32 5) (natToBytes 32 6)
        second proof' = .ok (fieldBytes Secp256k1.tripledX, fieldBytes Secp256k1.tripledY) := by
  obtain ⟨proof, hproof⟩ := exists_isMultipleRotation (natToBytes 32 5) (natToBytes 32 6) 1 2
    Secp256k1.generatorX Secp256k1.generatorY Secp256k1.doubledX Secp256k1.doubledY
  obtain ⟨proof', hproof'⟩ := exists_isMultipleRotation (natToBytes 32 5) (natToBytes 32 6) 2 3
    Secp256k1.doubledX Secp256k1.doubledY Secp256k1.tripledX Secp256k1.tripledY
  have hrotates := ownerRotates_multiple one_pos one_lt_two (by norm_num)
    Secp256k1.hasCoords_one_nsmul_G Secp256k1.generatorX_val_lt Secp256k1.hasCoords_two_nsmul_G
    Secp256k1.doubledX_val_lt hproof
    (ownerRotates_multiple two_pos (by norm_num) (by norm_num) Secp256k1.hasCoords_two_nsmul_G
      Secp256k1.doubledX_val_lt Secp256k1.hasCoords_three_nsmul_G Secp256k1.tripledX_val_lt hproof'
      (.done (natToBytes 32 3)))
  obtain ⟨hsteps, hlast⟩ := owner_rotations_run fieldExact_reference sumExact_reference
    keyParsingExact_reference recoverExact_reference keyGenerationExact_reference
    (isSecret_small one_pos (by norm_num))
    (keyXy_small one_pos (by norm_num) Secp256k1.hasCoords_one_nsmul_G Secp256k1.generatorX_val_lt)
    hrotates
  have hend := keyXy_small three_pos (by norm_num) Secp256k1.hasCoords_three_nsmul_G
    Secp256k1.tripledX_val_lt
  have hsecond := hsteps [proof] proof' [] rfl
  rw [List.singleton_append, ← Except.ok.inj (hend.symm.trans hlast)] at hsecond
  exact ⟨proof, proof', _, hsteps [] proof [proof'] rfl, hsecond⟩

end Sample

end MolphaVerifier
