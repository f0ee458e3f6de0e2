import MolphaVerifier.FixedBytes

/-!
# Attestations, their errors and their message hash

The hash function is a parameter: a `Keccak` is any function from byte strings to 32 bytes, and
`hashv` feeds it the concatenation of its slices.
-/

namespace MolphaVerifier

open FixedBytes

inductive AttestationError where
  | invalidAggregateSignature
  | invalidSignature
  | insufficientSigners
  | signersNotSubsetOfSelection
  | invalidSignersBitmap
  | groupBitmapDerivationFailed
  | invalidRegistryVersion
  | invalidNodeIndex
  | invalidCoalitionKey
  | registryRetired
  | providerAbsent
  deriving DecidableEq, Repr

/-- Signed oracle attestation payload; the timestamp is in unix milliseconds. -/
structure AttestationPayload where
  value : Bytes 32
  sourceId : Bytes 32
  registryVersion : UInt32
  signaturesRequired : UInt8
  timestamp : UInt64
  deriving DecidableEq

def AttestationPayload.timestampSecs (payload : AttestationPayload) : UInt64 :=
  payload.timestamp / 1000

/-- Aggregate Schnorr signature material. -/
structure SchnorrSignature where
  aggSigS : Bytes 32
  commitment : Bytes 20
  signersBitmap : Bytes 32
  deriving DecidableEq

structure Attestation where
  payload : AttestationPayload
  signature : SchnorrSignature
  deriving DecidableEq

abbrev Keccak : Type := List UInt8 → Bytes 32

def hashv (keccak : Keccak) (vals : List (List UInt8)) : Bytes 32 := keccak vals.flatten

/-- `keccak256("MOLPHA_MESSAGE_V1")`. -/
def messagePrefix : Bytes 32 := #v[
  0xa7, 0x55, 0x23, 0xa2, 0xab, 0x7b, 0x71, 0x8d, 0x9c, 0xff, 0xd2, 0xfa, 0x97, 0xed, 0x06, 0x9f,
  0xc1, 0x21, 0x84, 0xea, 0xbe, 0xe7, 0xd5, 0x07, 0x85, 0x4d, 0x09, 0x22, 0xf7, 0x0e, 0x7f, 0xe7]

/-- The integers are encoded big-endian, each in its own width. -/
def computeMessageHash (keccak : Keccak) (payload : AttestationPayload)
    (signersBitmap : Bytes 32) : Bytes 32 :=
  let registryVersionBytes := natToBytes 4 payload.registryVersion.toNat
  let signaturesRequiredBytes := natToBytes 1 payload.signaturesRequired.toNat
  let timestampBytes := natToBytes 8 payload.timestamp.toNat
  hashv keccak [messagePrefix.toList, payload.value.toList, payload.sourceId.toList,
    registryVersionBytes.toList, signaturesRequiredBytes.toList, timestampBytes.toList,
    signersBitmap.toList]

/-- Message hash the aggregate signature must verify over. -/
def Attestation.messageHash (keccak : Keccak) (attestation : Attestation) : Bytes 32 :=
  computeMessageHash keccak attestation.payload attestation.signature.signersBitmap

end MolphaVerifier
