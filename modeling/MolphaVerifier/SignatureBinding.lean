import MolphaVerifier.HashPreimages
import MolphaVerifier.SigningSessions

/-!
# What a signature is bound to

A signature that is accepted for two attestations shows a collision at two inputs that can be written
down: of the hash on the two messages, of the challenge on the two message hashes, or of the address
on the two nonce points. Otherwise the attestations are the same, whichever snapshots with the
signers' keys they were checked against.
-/

namespace MolphaVerifier

open FixedBytes BitVecIteration ShortWeierstrass SchnorrEquations

/-- Two different calls have one hash. -/
def HashCollision (keccak : Keccak) (call call' : HashCall) : Prop :=
  call ≠ call' ∧ keccak call.preimage = keccak call'.preimage

/-- Two different calls have one hash modulo the order. -/
def ChallengeCollision (keccak : Keccak) (call call' : HashCall) : Prop :=
  call ≠ call' ∧ toScalar (keccak call.preimage) = toScalar (keccak call'.preimage)

def Attestation.messageCall (attestation : Attestation) : HashCall :=
  .message attestation.payload.value attestation.payload.sourceId
    attestation.payload.registryVersion attestation.payload.signaturesRequired
    attestation.payload.timestamp attestation.signature.signersBitmap

def challengeCall (x y : ZMod Secp256k1.p) (messageHash : Bytes 32) (commitment : Bytes 20) :
    HashCall :=
  .aggregateChallenge (fieldBytes x) (parityOf y) messageHash commitment

section Messages

variable {keccak : Keccak} {attestation attestation' : Attestation}

theorem messageCall_inj : attestation.messageCall = attestation'.messageCall ↔
    attestation.payload = attestation'.payload ∧
      attestation.signature.signersBitmap = attestation'.signature.signersBitmap := by
  rw [Attestation.messageCall, Attestation.messageCall, HashCall.message.injEq,
    AttestationPayload.mk.injEq]
  simp only [and_assoc]

/-- A message hash binds the payload and the signers. -/
theorem messageHash_eq_iff :
    attestation.messageHash keccak = attestation'.messageHash keccak ↔
      (attestation.payload = attestation'.payload ∧
        attestation.signature.signersBitmap = attestation'.signature.signersBitmap) ∨
      HashCollision keccak attestation.messageCall attestation'.messageCall := by
  rw [Attestation.messageHash, Attestation.messageHash, hashSites.message, hashSites.message,
    ← messageCall_inj]
  by_cases hcall : attestation.messageCall = attestation'.messageCall
  · exact iff_of_true (congrArg (fun call => keccak call.preimage) hcall) (.inl hcall)
  · exact ⟨fun hhash => .inr ⟨hcall, hhash⟩, fun h => (h.resolve_left hcall).2⟩

end Messages

section Challenges

variable {keccak : Keccak} {X : Secp256k1.Point} {x y : ZMod Secp256k1.p}
  {messageHash messageHash' s : Bytes 32} {commitment : Bytes 20}

theorem schnorrChallenge_eq : schnorrChallenge keccak (fieldBytes x) (parityOf y) messageHash
    commitment = toScalar (keccak (challengeCall x y messageHash commitment).preimage) := rfl

/-- A signature under one key is over one message. -/
theorem messageHash_eq_or_collision (hX : HasCoords X x y) (hs : bytesToNat s < Secp256k1.n)
    (h : SchnorrAccepts keccak X messageHash s commitment)
    (h' : SchnorrAccepts keccak X messageHash' s commitment) :
    messageHash = messageHash' ∨
      ChallengeCollision keccak (challengeCall x y messageHash commitment)
        (challengeCall x y messageHash' commitment) ∨
      AddressCollision keccak
        (nonce Secp256k1.G X (toScalar s)
          (schnorrChallenge keccak (fieldBytes x) (parityOf y) messageHash commitment))
        (nonce Secp256k1.G X (toScalar s)
          (schnorrChallenge keccak (fieldBytes x) (parityOf y) messageHash' commitment)) := by
  by_cases hmessage : messageHash = messageHash'
  · exact .inl hmessage
  cases (collisionOrExtraction hX hs hs h h').collision_or_eq with
  | inl hcollision => exact .inr (.inr hcollision)
  | inr hnonce =>
    have hchallenge := challenge_eq_of_nonce_eq hX.ne_zero hnonce
    rw [schnorrChallenge_eq, schnorrChallenge_eq] at hchallenge
    refine .inr (.inl ⟨fun hcall => hmessage ?_, hchallenge⟩)
    rw [challengeCall, challengeCall, HashCall.aggregateChallenge.injEq] at hcall
    exact hcall.2.2.1

end Challenges

section Attestations

variable {prims : Primitives} {R : FieldReading prims.lib} {attestation attestation' : Attestation}
  {registry registry' : RegistryView} {keys : ℕ → Secp256k1.Point} {key key' : Option CoalitionKey}

/-- A signature that is accepted for one attestation is accepted for no other, under any snapshots
with the signers' keys, unless the messages, the challenges or the nonce points collide. -/
theorem signature_not_transferable (hF : FieldExact prims.lib R) (hS : SumExact prims.lib R)
    (hG : GroupExact prims.lib R) (hRec : RecoverExact prims.secp256k1Recover)
    (hkeys : ∀ bit ∈ attestation.signerBits, ∀ member,
      registry.NamesLiveRecord bit member → StoresPoint member (keys bit))
    (hkeys' : ∀ bit ∈ attestation.signerBits, ∀ member,
      registry'.NamesLiveRecord bit member → StoresPoint member (keys bit))
    (hsignature : attestation'.signature = attestation.signature)
    (h : verify prims attestation registry key = .ok ())
    (h' : verify prims attestation' registry' key' = .ok ()) :
    ∃ X x y, X = (attestation.signerBits.map keys).sum ∧ HasCoords X x y ∧
      (attestation = attestation' ∨
        HashCollision prims.keccak attestation.messageCall attestation'.messageCall ∨
        ChallengeCollision prims.keccak
          (challengeCall x y (attestation.messageHash prims.keccak)
            attestation.signature.commitment)
          (challengeCall x y (attestation'.messageHash prims.keccak)
            attestation.signature.commitment) ∨
        AddressCollision prims.keccak
          (nonce Secp256k1.G X (toScalar attestation.signature.aggSigS)
            (attestation.challenge prims.keccak x y))
          (nonce Secp256k1.G X (toScalar attestation.signature.aggSigS)
            (attestation'.challenge prims.keccak x y))) := by
  obtain ⟨hs, haccepts⟩ := schnorrAccepts_of_verify hF hS hG hRec hkeys h
  obtain ⟨-, haccepts'⟩ := schnorrAccepts_of_verify hF hS hG hRec (by rwa [hsignature]) h'
  rw [hsignature] at haccepts'
  obtain ⟨x, y, hX, -⟩ := id haccepts
  refine ⟨_, x, y, rfl, hX, ?_⟩
  rw [Attestation.challenge, Attestation.challenge, hsignature]
  rcases messageHash_eq_or_collision hX hs haccepts haccepts' with hmessage | hcollision
  · rcases messageHash_eq_iff.mp hmessage with ⟨hpayload, -⟩ | hcollision
    · left
      cases attestation
      cases attestation'
      congr
      exact hsignature.symm
    · exact .inr (.inl hcollision)
  · exact .inr (.inr hcollision)

end Attestations

section Sample

/-- What the two signers sign at the time zero, with another value. -/
def valuedAttestation : Attestation :=
  { stampedAttestation 0 with
    payload := { (stampedAttestation 0).payload with value := natToBytes 32 1 } }

theorem messageHash_valued :
    valuedAttestation.messageHash timestampKeccak =
      (stampedAttestation 0).messageHash timestampKeccak := by decide +kernel

theorem verify_valued :
    verify (referencePrimitives timestampKeccak) valuedAttestation pairRegistry none = .ok () := by
  refine verify_pair rfl rfl rfl ?_ ?_
  · exact pairAttestation_scalar
  · rw [messageHash_valued, messageHash_stamped_zero]
    exact schnorrAccepts_stamped (show 0 < 80 by norm_num)

/-- A hash of the timestamp lets a signature pass for another value, and only through the collision
of the two messages. -/
theorem signature_not_transferable_sample :
    verify (referencePrimitives timestampKeccak) (stampedAttestation 0) pairRegistry none = .ok () ∧
    verify (referencePrimitives timestampKeccak) valuedAttestation pairRegistry none = .ok () ∧
    HashCollision timestampKeccak (stampedAttestation 0).messageCall
      valuedAttestation.messageCall := by
  have hstamped := verify_stamped (show 0 < 80 by norm_num) messageHash_stamped_zero
  have hkeys : ∀ bit ∈ (stampedAttestation 0).signerBits, ∀ member,
      pairRegistry.NamesLiveRecord bit member →
        StoresPoint member (pairSecret bit • Secp256k1.G) := pair_storesPoint
  have hsignature : valuedAttestation.signature = (stampedAttestation 0).signature := rfl
  refine ⟨hstamped, verify_valued, ?_⟩
  obtain ⟨X, x, y, -, -, hcases⟩ := signature_not_transferable fieldExact_reference
    sumExact_reference groupExact_reference recoverExact_reference hkeys hkeys hsignature hstamped
    verify_valued
  have hmessage : valuedAttestation.messageHash (referencePrimitives timestampKeccak).keccak =
    (stampedAttestation 0).messageHash (referencePrimitives timestampKeccak).keccak :=
      messageHash_valued
  rcases hcases with hsame | hcollision | hcollision | hcollision
  · have hvalue : natToBytes 32 0 = natToBytes 32 1 :=
      congrArg (fun attestation => attestation.payload.value) hsame
    rw [natToBytes_inj (by norm_num) (by norm_num)] at hvalue
    exact absurd hvalue zero_ne_one
  · exact hcollision
  · rw [hmessage] at hcollision
    exact absurd rfl hcollision.1
  · rw [Attestation.challenge, Attestation.challenge, hmessage] at hcollision
    exact absurd rfl hcollision.1

end Sample

end MolphaVerifier
