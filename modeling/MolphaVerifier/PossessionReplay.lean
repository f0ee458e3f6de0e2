import MolphaVerifier.KeyRotation

/-!
# Replayed proofs of possession

One verifier checks possession at node registration, at provider registration and in a rotation, each
over its own message. Two accepted scalars for one key and one nonce are the same scalar when the
challenges agree, and give the key away when they do not. A proof that is accepted in two contexts is
a collision of the challenges modulo the group order.
-/

namespace MolphaVerifier

open FixedBytes FallibleFolds ShortWeierstrass SchnorrEquations

/-- What a proof of possession is made for. -/
inductive PossessionContext where
  | nodeRegistration (programId nodeId : Bytes 32)
  | providerRegistration (programId authority : Bytes 32)
  | keyRotation (programId node : Bytes 32)
  deriving DecidableEq

/-- The message of a context; that of a rotation takes the digest for its subject. -/
def PossessionContext.popMessage (keccak : Keccak) (publicKeyCompressed : Bytes 33) :
    PossessionContext → Bytes 32
  | nodeRegistration programId nodeId => deriveNodePopMessage keccak programId nodeId
  | providerRegistration programId authority => deriveProviderPopMessage keccak programId authority
  | keyRotation programId node =>
    deriveNodePopMessage keccak programId
      (keyRotationDigest keccak programId node publicKeyCompressed)

/-- The proof `(r, s)` for the key was accepted: by a registration, as the proof of possession over a
rotation digest, or by a whole rotation. -/
inductive AcceptedIn (prims : Primitives) (publicKeyCompressed : Bytes 33) (r s : Bytes 32) :
    PossessionContext → Prop where
  | node {programId nodeId : Bytes 32} {key : SignerXy}
      (h : validateKeyAndVerifyPop prims programId nodeId publicKeyCompressed r s = .ok key) :
      AcceptedIn prims publicKeyCompressed r s (.nodeRegistration programId nodeId)
  | provider {programId authority : Bytes 32} {key : SignerXy}
      (h : validateProviderKeyAndVerifyPop prims programId authority publicKeyCompressed r s =
        .ok key) :
      AcceptedIn prims publicKeyCompressed r s (.providerRegistration programId authority)
  | digest {programId node : Bytes 32} {key : SignerXy}
      (h : validateKeyAndVerifyPop prims programId
        (keyRotationDigest prims.keccak programId node publicKeyCompressed) publicKeyCompressed r s =
          .ok key) :
      AcceptedIn prims publicKeyCompressed r s (.keyRotation programId node)
  | rotation {programId node : Bytes 32} {oldKey newKey : SignerXy} {oldKeySigS : Bytes 32}
      {oldKeyCommitment : Bytes 20}
      (h : verifyKeyRotation prims programId node oldKey
        ⟨publicKeyCompressed, oldKeySigS, oldKeyCommitment, r, s⟩ = .ok newKey) :
      AcceptedIn prims publicKeyCompressed r s (.keyRotation programId node)

/-- What two accepted scalars of one key `P` and one nonce amount to. -/
structure ReplayBound (P : Secp256k1.Point) (s s' : Bytes 32) (e e' : ZMod Secp256k1.n) :
    Prop where
  scalar_eq : e = e' → s = s'
  key_eq : e ≠ e' → P = ((toScalar s - toScalar s') * (e - e')⁻¹) • Secp256k1.G
  challenge_eq : s = s' → e = e'

section Possession

variable {P : Secp256k1.Point} {x y : ZMod Secp256k1.p} {popMessage popMessage' r s s' : Bytes 32}

theorem PossessionHolds.exists_nonce {keccak : Keccak}
    (h : PossessionHolds keccak P x y popMessage r s) : ∃ R yR, EvenNonce r R yR ∧
      nonce Secp256k1.G P (toScalar s)
        (popChallenge keccak (fieldBytes x) (parityOf y) popMessage r) = R := by
  obtain ⟨R, yR, heven, hequation⟩ := h.equation
  exact ⟨R, yR, heven, sub_eq_iff_eq_add.mpr hequation⟩

/-- Two proofs over one nonce evaluate to one point. -/
theorem PossessionHolds.replayBound {keccak : Keccak} (hP : HasCoords P x y)
    (h : PossessionHolds keccak P x y popMessage r s)
    (h' : PossessionHolds keccak P x y popMessage' r s') :
    ReplayBound P s s' (popChallenge keccak (fieldBytes x) (parityOf y) popMessage r)
      (popChallenge keccak (fieldBytes x) (parityOf y) popMessage' r) := by
  obtain ⟨R, yR, heven, hnonce⟩ := h.exists_nonce
  obtain ⟨R', yR', heven', hnonce'⟩ := h'.exists_nonce
  obtain ⟨rfl, -⟩ := heven.unique heven'
  have hsame := hnonce.trans hnonce'.symm
  constructor
  · intro he
    rw [he] at hsame
    exact eq_of_toScalar_eq h.s_lt h'.s_lt
      (scalar_eq_of_nonce_eq Secp256k1.hasCoords_G.ne_zero hsame)
  · exact fun he => key_eq_of_nonce_eq he hsame
  · intro hs
    rw [hs] at hsame
    exact challenge_eq_of_nonce_eq hP.ne_zero hsame

end Possession

section Contexts

variable {prims : Primitives} {publicKeyCompressed : Bytes 33} {r s s' : Bytes 32}
  {context context' : PossessionContext}

/-- Every acceptance is one run of the verifier over the message of its context. -/
theorem AcceptedIn.exists_validatePossession
    (h : AcceptedIn prims publicKeyCompressed r s context) :
    ∃ key, validatePossession prims (context.popMessage prims.keccak publicKeyCompressed)
      publicKeyCompressed r s = .ok key := by
  cases h with
  | node h => exact ⟨_, h⟩
  | provider h => exact ⟨_, h⟩
  | digest h => exact ⟨_, h⟩
  | rotation h =>
    have hpop := (of_verifyKeyRotation_eq_ok h).2
    exact ⟨_, hpop⟩

theorem AcceptedIn.exists_possessionHolds (hK : KeyParsingExact prims.lib)
    (hRec : RecoverExact prims.secp256k1Recover)
    (h : AcceptedIn prims publicKeyCompressed r s context) :
    ∃ P x y, EncodesKey publicKeyCompressed P x y ∧ PossessionHolds prims.keccak P x y
      (context.popMessage prims.keccak publicKeyCompressed) r s := by
  obtain ⟨key, hkey⟩ := h.exists_validatePossession
  rcases validatePossession_cases hK hRec (context.popMessage prims.keccak publicKeyCompressed)
      publicKeyCompressed r s with
    ⟨-, hrun⟩ | ⟨P, x, y, hencodes, ⟨hholds, -⟩ | ⟨-, hrun⟩⟩
  · rw [hrun] at hkey
    cases hkey
  · exact ⟨P, x, y, hencodes, hholds⟩
  · rw [hrun] at hkey
    cases hkey

/-- Two acceptances of one key and one nonce, in any two contexts, have one scalar or give the key
away; one proof is accepted twice only if the challenges agree modulo the order. -/
theorem possession_not_reusable (hK : KeyParsingExact prims.lib)
    (hRec : RecoverExact prims.secp256k1Recover)
    (h : AcceptedIn prims publicKeyCompressed r s context)
    (h' : AcceptedIn prims publicKeyCompressed r s' context') :
    ∃ P x y, EncodesKey publicKeyCompressed P x y ∧
      ReplayBound P s s'
        (popChallenge prims.keccak (fieldBytes x) (parityOf y)
          (context.popMessage prims.keccak publicKeyCompressed) r)
        (popChallenge prims.keccak (fieldBytes x) (parityOf y)
          (context'.popMessage prims.keccak publicKeyCompressed) r) := by
  obtain ⟨P, x, y, hkey, hholds⟩ := h.exists_possessionHolds hK hRec
  obtain ⟨P', x', y', hkey', hholds'⟩ := h'.exists_possessionHolds hK hRec
  obtain ⟨rfl, rfl, rfl⟩ := hkey.unique hkey'
  exact ⟨P, x, y, hkey, hholds.replayBound hkey.coords hholds'⟩

end Contexts

section Sample

/-- A hash function that gives a registration message for its number and a challenge for its message:
node messages are one, provider messages are five. -/
def messageKeccak : Keccak := fun bytes =>
  if bytes.length = 97 then ofList 32 (bytes.drop 33) else natToBytes 32 (bytes.length - 81)

theorem popChallenge_messageKeccak (px popMessage r : Bytes 32) (parity : UInt8) :
    popChallenge messageKeccak px parity popMessage r = toScalar popMessage := by
  have hbytes : ([px.toList, [parity], popMessage.toList, r.toList] : List (List UInt8)).flatten =
      (px.toList ++ [parity]) ++ (popMessage.toList ++ r.toList) := by simp
  have hhash : hashv messageKeccak [px.toList, [parity], popMessage.toList, r.toList] =
      popMessage := by
    rw [hashv, hbytes, messageKeccak, if_pos (by simp), List.drop_left' (by simp), ofList_append]
  rw [popChallenge, hhash]

theorem deriveNodePopMessage_messageKeccak (programId nodeId : Bytes 32) :
    deriveNodePopMessage messageKeccak programId nodeId = natToBytes 32 1 := by
  have hlength : ([nodePopPrefix, programId.toList, nodeId.toList].flatten).length = 82 := by
    simp [nodePopPrefix]
  rw [deriveNodePopMessage, hashv, messageKeccak, hlength]
  rfl

theorem deriveProviderPopMessage_messageKeccak (programId authority : Bytes 32) :
    deriveProviderPopMessage messageKeccak programId authority = natToBytes 32 5 := by
  have hlength : ([providerPopPrefix, programId.toList, authority.toList].flatten).length = 86 := by
    simp [providerPopPrefix]
  rw [deriveProviderPopMessage, hashv, messageKeccak, hlength]
  rfl

theorem possessionHolds_messageKeccak {k : ℕ} (hk : 0 < k) (hlt : k + 1 < Secp256k1.n) :
    PossessionHolds messageKeccak Secp256k1.G Secp256k1.generatorX Secp256k1.generatorY
      (natToBytes 32 k) (fieldBytes Secp256k1.generatorX) (natToBytes 32 (k + 1)) := by
  have hwidth : k < 256 ^ 32 := (Nat.lt_of_succ_lt hlt).trans (by norm_num [Secp256k1.n])
  refine possessionHolds_generator hk hlt ?_
  rw [popChallenge_messageKeccak, toScalar_natToBytes hwidth]

/-- One nonce, used for a node with the challenge one and for a provider with the challenge five. -/
theorem possession_not_reusable_sample :
    AcceptedIn (referencePrimitives messageKeccak) sampleCompressedKey
        (fieldBytes Secp256k1.generatorX) (natToBytes 32 2)
        (.nodeRegistration (natToBytes 32 5) (natToBytes 32 6)) ∧
      AcceptedIn (referencePrimitives messageKeccak) sampleCompressedKey
        (fieldBytes Secp256k1.generatorX) (natToBytes 32 6)
        (.providerRegistration (natToBytes 32 5) (natToBytes 32 6)) ∧
      ∃ P x y, EncodesKey sampleCompressedKey P x y ∧
        ReplayBound P (natToBytes 32 2) (natToBytes 32 6)
          (popChallenge messageKeccak (fieldBytes x) (parityOf y) (natToBytes 32 1)
            (fieldBytes Secp256k1.generatorX))
          (popChallenge messageKeccak (fieldBytes x) (parityOf y) (natToBytes 32 5)
            (fieldBytes Secp256k1.generatorX)) := by
  have hholds := possessionHolds_messageKeccak one_pos (by norm_num [Secp256k1.n])
  have hholds' := possessionHolds_messageKeccak (show 0 < 5 by norm_num) (by norm_num [Secp256k1.n])
  rw [← deriveNodePopMessage_messageKeccak (natToBytes 32 5) (natToBytes 32 6)] at hholds
  rw [← deriveProviderPopMessage_messageKeccak (natToBytes 32 5) (natToBytes 32 6)] at hholds'
  have hexact (s : Bytes 32) :=
    @registration_exact (referencePrimitives messageKeccak) keyParsingExact_reference
      recoverExact_reference (natToBytes 32 5) (natToBytes 32 6) sampleCompressedKey
      (fieldBytes Secp256k1.generatorX) s
  have hnode := AcceptedIn.node (((hexact _).1.ok_iff _ _ _ encodesKey_sample).mpr hholds)
  have hprovider := AcceptedIn.provider (((hexact _).2.ok_iff _ _ _ encodesKey_sample).mpr hholds')
  have hreplay := possession_not_reusable keyParsingExact_reference recoverExact_reference hnode
    hprovider
  have hkeccak : (referencePrimitives messageKeccak).keccak = messageKeccak := rfl
  rw [PossessionContext.popMessage, PossessionContext.popMessage, hkeccak,
    deriveNodePopMessage_messageKeccak, deriveProviderPopMessage_messageKeccak] at hreplay
  exact ⟨hnode, hprovider, hreplay⟩

end Sample

end MolphaVerifier
