import MolphaVerifier.CommitteeSelection
import MolphaVerifier.FixedLayouts
import MolphaVerifier.KeyRotation

/-!
# Hash preimages

The crate hashes at nine places, with no length prefixes and only some domain tags. `HashCall` lists
the calls with their arguments; `HashSites` says what each place asks the hash for. The preimage
determines the place and every argument.
-/

namespace MolphaVerifier

open FixedBytes FixedLayouts

inductive HashCall where
  | message (value sourceId : Bytes 32) (registryVersion : UInt32) (signaturesRequired : UInt8)
      (timestamp : UInt64) (signersBitmap : Bytes 32)
  | aggregateChallenge (px : Bytes 32) (parity : UInt8) (msgHash : Bytes 32)
      (commitment : Bytes 20)
  | popChallenge (px : Bytes 32) (parity : UInt8) (popMessage r : Bytes 32)
  | nodePop (programId nodeId : Bytes 32)
  | providerPop (programId authority : Bytes 32)
  | keyRotation (programId node : Bytes 32) (newPublicKeyCompressed : Bytes 33)
  | selectionSeed (sourceId : Bytes 32) (registryVersion : UInt32) (window : UInt64)
  | samplerRound (seed : Bytes 32) (counter : UInt64)
  | address (uncompressedXy : Bytes 64)

inductive HashPurpose where
  | message
  | aggregateChallenge
  | popChallenge
  | nodePop
  | providerPop
  | keyRotation
  | selectionSeed
  | samplerRound
  | address
  deriving DecidableEq

namespace HashCall

def purpose : HashCall → HashPurpose
  | message .. => .message
  | aggregateChallenge .. => .aggregateChallenge
  | popChallenge .. => .popChallenge
  | nodePop .. => .nodePop
  | providerPop .. => .providerPop
  | keyRotation .. => .keyRotation
  | selectionSeed .. => .selectionSeed
  | samplerRound .. => .samplerRound
  | address .. => .address

def slices : HashCall → List (List UInt8)
  | message value sourceId registryVersion signaturesRequired timestamp signersBitmap =>
    [messagePrefix.toList, value.toList, sourceId.toList,
      (natToBytes 4 registryVersion.toNat).toList, (natToBytes 1 signaturesRequired.toNat).toList,
      (natToBytes 8 timestamp.toNat).toList, signersBitmap.toList]
  | aggregateChallenge px parity msgHash commitment =>
    [px.toList, [parity], msgHash.toList, commitment.toList]
  | popChallenge px parity popMessage r => [px.toList, [parity], popMessage.toList, r.toList]
  | nodePop programId nodeId => [nodePopPrefix, programId.toList, nodeId.toList]
  | providerPop programId authority => [providerPopPrefix, programId.toList, authority.toList]
  | keyRotation programId node newPublicKeyCompressed =>
    [nodeKeyRotationPrefix, programId.toList, node.toList, newPublicKeyCompressed.toList]
  | selectionSeed sourceId registryVersion window =>
    [selectionSeedPrefix.toList, sourceId.toList, (natToBytes 4 registryVersion.toNat).toList,
      (natToBytes 8 window.toNat).toList]
  | samplerRound seed counter =>
    [seed.toList, selectionDomain.toList,
      List.replicate 24 0 ++ (natToBytes 8 counter.toNat).toList]
  | address uncompressedXy => [uncompressedXy.toList]

end HashCall

/-- The widths of the slices of a purpose. -/
def HashPurpose.widths : HashPurpose → List ℕ
  | .message => [32, 32, 32, 4, 1, 8, 32]
  | .aggregateChallenge => [32, 1, 32, 20]
  | .popChallenge => [32, 1, 32, 32]
  | .nodePop => [18, 32, 32]
  | .providerPop => [22, 32, 32]
  | .keyRotation => [27, 32, 32, 33]
  | .selectionSeed => [32, 32, 4, 8]
  | .samplerRound => [32, 32, 32]
  | .address => [64]

/-- The purpose with this total width. -/
def HashPurpose.ofTotal : ℕ → HashPurpose
  | 141 => .message
  | 85 => .aggregateChallenge
  | 97 => .popChallenge
  | 82 => .nodePop
  | 86 => .providerPop
  | 124 => .keyRotation
  | 76 => .selectionSeed
  | 96 => .samplerRound
  | _ => .address

theorem HashPurpose.ofTotal_sum (purpose : HashPurpose) : ofTotal purpose.widths.sum = purpose := by
  cases purpose <;> rfl

namespace HashCall

theorem map_length_slices (call : HashCall) :
    call.slices.map List.length = call.purpose.widths := by
  cases call <;>
    simp [slices, purpose, HashPurpose.widths, nodePopPrefix, providerPopPrefix,
      nodeKeyRotationPrefix]

def layout : Layout HashPurpose HashCall UInt8 where
  kind := purpose
  slices := slices
  widths := HashPurpose.widths
  map_length := map_length_slices
  total_injective := Function.LeftInverse.injective HashPurpose.ofTotal_sum

def preimage (call : HashCall) : List UInt8 := layout.flat call

theorem uint8_bytes_inj {x y : UInt8} : natToBytes 1 x.toNat = natToBytes 1 y.toNat ↔ x = y := by
  rw [natToBytes_inj x.toNat_lt y.toNat_lt, UInt8.toNat_inj]

theorem uint32_bytes_inj {x y : UInt32} : natToBytes 4 x.toNat = natToBytes 4 y.toNat ↔ x = y := by
  rw [natToBytes_inj x.toNat_lt y.toNat_lt, UInt32.toNat_inj]

theorem uint64_bytes_inj {x y : UInt64} : natToBytes 8 x.toNat = natToBytes 8 y.toNat ↔ x = y := by
  rw [natToBytes_inj x.toNat_lt y.toNat_lt, UInt64.toNat_inj]

theorem eq_of_slices_eq (call call' : HashCall) (hpurpose : call.purpose = call'.purpose)
    (h : call.slices = call'.slices) : call = call' := by
  cases call <;> cases call' <;> cases hpurpose <;>
    simpa only [slices, List.cons.injEq, Vector.toList_inj, List.append_cancel_left_eq,
      uint8_bytes_inj, uint32_bytes_inj, uint64_bytes_inj, true_and, and_true, message.injEq,
      aggregateChallenge.injEq, popChallenge.injEq, nodePop.injEq, providerPop.injEq,
      keyRotation.injEq, selectionSeed.injEq, samplerRound.injEq, address.injEq] using h

theorem preimage_inj {call call' : HashCall} : call.preimage = call'.preimage ↔ call = call' :=
  (layout.flat_injective eq_of_slices_eq).eq_iff

end HashCall

/-- The function sees the hash at one preimage only. -/
def AsksOnly {β : Sort*} (f : Keccak → β) (call : HashCall) : Prop :=
  ∀ keccak keccak', keccak call.preimage = keccak' call.preimage → f keccak = f keccak'

/-- Where the crate calls the hash. The challenges are used inside the function that asks for them;
everywhere else the hash of the preimage, or a slice of it, is returned. -/
structure HashSites : Prop where
  message : ∀ keccak payload signersBitmap,
    computeMessageHash keccak payload signersBitmap =
      keccak (HashCall.message payload.value payload.sourceId payload.registryVersion
        payload.signaturesRequired payload.timestamp signersBitmap).preimage
  aggregateChallenge : ∀ pubkeyCompressed msgHash signature commitment,
    AsksOnly
      (fun keccak => evmSchnorrEcdsaInputs keccak pubkeyCompressed msgHash signature commitment)
      (.aggregateChallenge (afterLead pubkeyCompressed) (leadByte pubkeyCompressed &&& 1) msgHash
        commitment)
  popChallenge : ∀ lib recover popMessage publicKeyCompressed px r s,
    AsksOnly (fun keccak => verifyPop ⟨lib, recover, keccak⟩ popMessage publicKeyCompressed px r s)
      (.popChallenge px (leadByte publicKeyCompressed &&& 1) popMessage r)
  nodePop : ∀ keccak programId nodeId,
    deriveNodePopMessage keccak programId nodeId =
      keccak (HashCall.nodePop programId nodeId).preimage
  providerPop : ∀ keccak programId authority,
    deriveProviderPopMessage keccak programId authority =
      keccak (HashCall.providerPop programId authority).preimage
  keyRotation : ∀ keccak programId node newPublicKeyCompressed,
    keyRotationDigest keccak programId node newPublicKeyCompressed =
      keccak (HashCall.keyRotation programId node newPublicKeyCompressed).preimage
  selectionSeed : ∀ keccak sourceId timestamp registryVersion,
    MolphaVerifier.selectionSeed keccak sourceId timestamp registryVersion =
      keccak (HashCall.selectionSeed sourceId registryVersion (timestamp / 1000)).preimage
  samplerRound : ∀ keccak seed (counter : UInt64),
    selectionHashRound keccak seed counter.toNat =
      keccak (HashCall.samplerRound seed counter).preimage
  address : ∀ keccak uncompressedXy,
    (ethAddressFromUncompressedPubkey keccak uncompressedXy).toList =
      (keccak (HashCall.address uncompressedXy).preimage).toList.drop 12

theorem hashSites : HashSites where
  message := fun _ _ _ => rfl
  aggregateChallenge := by
    intro pubkeyCompressed msgHash signature commitment keccak keccak' h
    have hhash : hashv keccak [(afterLead pubkeyCompressed).toList,
        [leadByte pubkeyCompressed &&& 1], msgHash.toList, commitment.toList] =
      hashv keccak' [(afterLead pubkeyCompressed).toList,
        [leadByte pubkeyCompressed &&& 1], msgHash.toList, commitment.toList] := h
    simp only [evmSchnorrEcdsaInputs, hhash]
  popChallenge := by
    intro lib recover popMessage publicKeyCompressed px r s keccak keccak' h
    have hchallenge : popChallengeBytes keccak px (leadByte publicKeyCompressed &&& 1) popMessage r =
        popChallengeBytes keccak' px (leadByte publicKeyCompressed &&& 1) popMessage r :=
      congrArg secp256k1ScalarReduceBe h
    have hiff : verifyPop ⟨lib, recover, keccak⟩ popMessage publicKeyCompressed px r s = .ok () ↔
        verifyPop ⟨lib, recover, keccak'⟩ popMessage publicKeyCompressed px r s = .ok () := by
      rw [verifyPop_eq_ok_iff_checks, verifyPop_eq_ok_iff_checks]
      simp only [hchallenge]
    dsimp only
    cases hrun : verifyPop ⟨lib, recover, keccak⟩ popMessage publicKeyCompressed px r s with
    | ok _ => exact (hiff.mp hrun).symm
    | error e =>
      cases hrun' : verifyPop ⟨lib, recover, keccak'⟩ popMessage publicKeyCompressed px r s with
      | ok _ =>
        rw [hiff.mpr hrun'] at hrun
        cases hrun
      | error e' => rw [verifyPop_eq_error hrun, verifyPop_eq_error hrun']
  nodePop := fun _ _ _ => rfl
  providerPop := fun _ _ _ => rfl
  keyRotation := fun _ _ _ _ => rfl
  selectionSeed := fun _ _ _ _ => rfl
  samplerRound := fun _ _ _ => rfl
  address := by
    intro keccak uncompressedXy
    rw [ethAddressFromUncompressedPubkey, toList_slice]
    exact List.take_of_length_le (by simp)

/-- Two calls that feed the hash the same bytes are the same call, over all places that call it. -/
theorem preimage_injective :
    HashSites ∧ ∀ call call' : HashCall, call.preimage = call'.preimage → call = call' :=
  ⟨hashSites, fun _ _ => HashCall.preimage_inj.mp⟩

theorem preimage_injective_sample :
    HashCall.nodePop (natToBytes 32 1) (natToBytes 32 2) =
      HashCall.nodePop (natToBytes 32 (2 ^ 256 + 1)) (natToBytes 32 2) :=
  preimage_injective.2 _ _ (by
    have hwrap : natToBytes 32 (2 ^ 256 + 1) = natToBytes 32 1 := by decide
    rw [hwrap])

end MolphaVerifier
