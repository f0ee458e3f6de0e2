import MolphaVerifier.SuppliedCoalitionKeys

/-!
# Special soundness

Two accepted attestations over one bitmap and one commitment have two nonce points with one address.
If the points differ, that is an address collision. If they are the same point, one challenge leaves
one scalar, and two challenges reveal the secret key of the coalition.
-/

namespace MolphaVerifier

open FixedBytes BitVecIteration FallibleFolds ShortWeierstrass SchnorrEquations

/-- Two different finite points share an address. -/
def AddressCollision (keccak : Keccak) (P Q : Secp256k1.Point) : Prop :=
  P ≠ Q ∧ ∃ x y x' y', HasCoords P x y ∧ HasCoords Q x' y' ∧
    ethAddressFromUncompressedPubkey keccak (encodeXy x y) =
      ethAddressFromUncompressedPubkey keccak (encodeXy x' y')

/-- What two accepted scalars for one key and one commitment amount to. -/
structure CollisionOrExtraction (keccak : Keccak) (X : Secp256k1.Point) (s s' : Bytes 32)
    (e e' : ZMod Secp256k1.n) : Prop where
  collision_or_eq :
    AddressCollision keccak (nonce Secp256k1.G X (toScalar s) e)
        (nonce Secp256k1.G X (toScalar s') e') ∨
      nonce Secp256k1.G X (toScalar s) e = nonce Secp256k1.G X (toScalar s') e'
  scalar_eq : nonce Secp256k1.G X (toScalar s) e = nonce Secp256k1.G X (toScalar s') e' →
    e = e' → s = s'
  key_eq : nonce Secp256k1.G X (toScalar s) e = nonce Secp256k1.G X (toScalar s') e' →
    e ≠ e' → X = ((toScalar s - toScalar s') * (e - e')⁻¹) • Secp256k1.G

section Points

variable {keccak : Keccak} {X : Secp256k1.Point} {x y : ZMod Secp256k1.p} {s s' : Bytes 32}

theorem collisionOrExtraction (hX : HasCoords X x y) {messageHash messageHash' : Bytes 32}
    {commitment : Bytes 20} (hs : bytesToNat s < Secp256k1.n) (hs' : bytesToNat s' < Secp256k1.n)
    (h : SchnorrAccepts keccak X messageHash s commitment)
    (h' : SchnorrAccepts keccak X messageHash' s' commitment) :
    CollisionOrExtraction keccak X s s'
      (schnorrChallenge keccak (fieldBytes x) (parityOf y) messageHash commitment)
      (schnorrChallenge keccak (fieldBytes x) (parityOf y) messageHash' commitment) := by
  obtain ⟨-, -, xR, yR, hR, haddress⟩ := (schnorrAccepts_iff hX).mp h
  obtain ⟨-, -, xR', yR', hR', haddress'⟩ := (schnorrAccepts_iff hX).mp h'
  constructor
  · by_cases heq : nonce Secp256k1.G X (toScalar s)
        (schnorrChallenge keccak (fieldBytes x) (parityOf y) messageHash commitment) =
      nonce Secp256k1.G X (toScalar s')
        (schnorrChallenge keccak (fieldBytes x) (parityOf y) messageHash' commitment)
    · exact .inr heq
    · exact .inl ⟨heq, xR, yR, xR', yR', hR, hR', haddress.trans haddress'.symm⟩
  · intro heq he
    rw [he] at heq
    exact eq_of_toScalar_eq hs hs' (scalar_eq_of_nonce_eq Secp256k1.hasCoords_G.ne_zero heq)
  · exact fun heq he => key_eq_of_nonce_eq he heq

end Points

section Attestations

variable {prims : Primitives} {R : FieldReading prims.lib} {attestation attestation' : Attestation}
  {registry : RegistryView} {keys : ℕ → Secp256k1.Point} {key key' : Option CoalitionKey}

/-- A key that was accepted changes nothing. -/
theorem verify_none_of_verify (hF : FieldExact prims.lib R) (hS : SumExact prims.lib R)
    (h : verify prims attestation registry key = .ok ()) :
    verify prims attestation registry none = .ok () := by
  rw [verify_eq_ok_iff_checks] at h ⊢
  obtain ⟨hversion, hscalar, hquorum, coalition, hcoalition, xCoalition, hcompress, hmatch⟩ := h
  refine ⟨hversion, hscalar, hquorum, coalition, hcoalition, xCoalition, ?_, hmatch⟩
  have hproper := proper_accumulateRegistrySigners hF hS hcoalition
  rw [compressCoalition_eq hF hS hproper] at hcompress ⊢
  rcases checkedPubkey_cases (R.sum coalition) key with hsame | herror
  · rw [← hsame, hcompress]
  · rw [herror] at hcompress
    cases hcompress

theorem schnorrAccepts_of_verify (hF : FieldExact prims.lib R) (hS : SumExact prims.lib R)
    (hG : GroupExact prims.lib R) (hRec : RecoverExact prims.secp256k1Recover)
    (hkeys : ∀ bit ∈ setBits (Bitmap.load attestation.signature.signersBitmap), ∀ member,
      registry.NamesLiveRecord bit member → StoresPoint member (keys bit))
    (h : verify prims attestation registry key = .ok ()) :
    bytesToNat attestation.signature.aggSigS < Secp256k1.n ∧
      SchnorrAccepts prims.keccak
        ((setBits (Bitmap.load attestation.signature.signersBitmap)).map keys).sum
        (attestation.messageHash prims.keccak) attestation.signature.aggSigS
        attestation.signature.commitment := by
  obtain ⟨-, hscalar, -, coalition, hcoalition, hmatch⟩ :=
    verify_eq_ok_iff_checks.mp (verify_none_of_verify hF hS h)
  exact ⟨((secp256k1ScalarIsValidNonzero_iff _).mp hscalar).2,
    (exists_compress_iff_schnorrAccepts hF hS hG hRec hkeys hcoalition _ _ _).mp hmatch⟩

/-- Two accepted attestations over one bitmap and one commitment collide or reveal the coalition's
key; with one payload they collide or are the same. -/
theorem special_soundness (hF : FieldExact prims.lib R) (hS : SumExact prims.lib R)
    (hG : GroupExact prims.lib R) (hRec : RecoverExact prims.secp256k1Recover)
    (hkeys : ∀ bit ∈ setBits (Bitmap.load attestation.signature.signersBitmap), ∀ member,
      registry.NamesLiveRecord bit member → StoresPoint member (keys bit))
    (hbitmap : attestation'.signature.signersBitmap = attestation.signature.signersBitmap)
    (hcommitment : attestation'.signature.commitment = attestation.signature.commitment)
    (h : verify prims attestation registry key = .ok ())
    (h' : verify prims attestation' registry key' = .ok ()) :
    ∃ X x y, X = ((setBits (Bitmap.load attestation.signature.signersBitmap)).map keys).sum ∧
      HasCoords X x y ∧
      CollisionOrExtraction prims.keccak X attestation.signature.aggSigS
        attestation'.signature.aggSigS
        (schnorrChallenge prims.keccak (fieldBytes x) (parityOf y)
          (attestation.messageHash prims.keccak) attestation.signature.commitment)
        (schnorrChallenge prims.keccak (fieldBytes x) (parityOf y)
          (attestation'.messageHash prims.keccak) attestation.signature.commitment) ∧
      (attestation'.payload = attestation.payload →
        attestation'.signature.aggSigS ≠ attestation.signature.aggSigS →
        AddressCollision prims.keccak
          (nonce Secp256k1.G X (toScalar attestation.signature.aggSigS)
            (schnorrChallenge prims.keccak (fieldBytes x) (parityOf y)
              (attestation.messageHash prims.keccak) attestation.signature.commitment))
          (nonce Secp256k1.G X (toScalar attestation'.signature.aggSigS)
            (schnorrChallenge prims.keccak (fieldBytes x) (parityOf y)
              (attestation.messageHash prims.keccak) attestation.signature.commitment))) := by
  obtain ⟨hs, haccepts⟩ := schnorrAccepts_of_verify hF hS hG hRec hkeys h
  obtain ⟨hs', haccepts'⟩ :=
    schnorrAccepts_of_verify hF hS hG hRec (by rwa [hbitmap]) h'
  rw [hbitmap, hcommitment] at haccepts'
  obtain ⟨x, y, hX, -⟩ := id haccepts
  have hpair := collisionOrExtraction hX hs hs' haccepts haccepts'
  refine ⟨_, x, y, rfl, hX, hpair, fun hpayload hne => ?_⟩
  have hmessage : attestation'.messageHash prims.keccak = attestation.messageHash prims.keccak := by
    rw [Attestation.messageHash, Attestation.messageHash, hpayload, hbitmap]
  rw [hmessage] at hpair
  cases hpair.collision_or_eq with
  | inl hcollision => exact hcollision
  | inr heq => exact absurd (hpair.scalar_eq heq rfl).symm hne

end Attestations

section Sample

/-- A hash function that gives a message for its timestamp and a challenge for its message. -/
def timestampKeccak : Keccak := fun bytes =>
  if bytes.length = 85 then ofList 32 (bytes.drop 33)
  else natToBytes 32 ((bytes.getD 108 0).toNat + 1)

theorem schnorrChallenge_timestampKeccak (px messageHash : Bytes 32) (parity : UInt8)
    (commitment : Bytes 20) :
    schnorrChallenge timestampKeccak px parity messageHash commitment = toScalar messageHash := by
  have hbytes : ([px.toList, [parity], messageHash.toList, commitment.toList] :
      List (List UInt8)).flatten =
      (px.toList ++ [parity]) ++ (messageHash.toList ++ commitment.toList) := by simp
  rw [schnorrChallenge, hashv, hbytes, timestampKeccak, if_pos (by simp),
    List.drop_left' (by simp), ofList_append]

theorem ethAddress_timestampKeccak (xy : Bytes 64) :
    ethAddressFromUncompressedPubkey timestampKeccak xy = natToBytes 20 1 := by
  have hhash : hashv timestampKeccak [xy.toList] = natToBytes 32 1 := by
    rw [hashv, timestampKeccak, if_neg (by simp)]
    simp
  rw [ethAddressFromUncompressedPubkey, hhash]
  rfl

/-- What the two signers sign at the time `t`, always with the nonce `5 G`. -/
def stampedAttestation (t : ℕ) : Attestation where
  payload := { pairAttestation.payload with timestamp := UInt64.ofNat t }
  signature := { pairAttestation.signature with aggSigS := natToBytes 32 (3 * t + 8) }

/-- `s G - e X = 5 G` for `X = 3 G`, `s = 3 t + 8` and `e = t + 1`. -/
theorem nonce_stamped {t : ℕ} (ht : t < 80) :
    nonce Secp256k1.G (3 • Secp256k1.G) (toScalar (stampedAttestation t).signature.aggSigS)
        (toScalar (natToBytes 32 (t + 1))) =
      ((5 : ℕ) : ZMod Secp256k1.n) • Secp256k1.G := by
  rw [nonce, stampedAttestation, toScalar_small (by omega), toScalar_small (by omega),
    ← Secp256k1.natCast_smul 3]
  push_cast
  module

theorem schnorrAccepts_stamped {t : ℕ} (ht : t < 80) :
    SchnorrAccepts timestampKeccak (3 • Secp256k1.G) (natToBytes 32 (t + 1))
      (stampedAttestation t).signature.aggSigS (natToBytes 20 1) := by
  rw [schnorrAccepts_iff Secp256k1.hasCoords_three_nsmul_G, schnorrChallenge_timestampKeccak,
    nonce_stamped ht]
  obtain ⟨x, y, hcoords⟩ := ne_zero_iff_exists_hasCoords.mp
    (Secp256k1.natCast_smul_G_ne_zero (show 0 < 5 by norm_num) (by norm_num [Secp256k1.n]))
  refine ⟨Secp256k1.tripledX_val_lt, ?_, x, y, hcoords, ethAddress_timestampKeccak _⟩
  rw [toScalar_small (by omega)]
  exact small_ne_zero (Nat.succ_pos t) (by omega)

theorem verify_stamped {t : ℕ} (ht : t < 80)
    (hmessage : (stampedAttestation t).messageHash timestampKeccak = natToBytes 32 (t + 1)) :
    verify (referencePrimitives timestampKeccak) (stampedAttestation t) pairRegistry none =
      .ok () := by
  have hn : 256 < Secp256k1.n := by norm_num [Secp256k1.n]
  refine verify_pair rfl rfl rfl ?_ ?_
  · rw [stampedAttestation, bytesToNat_natToBytes_of_lt (by omega)]
    omega
  · rw [hmessage]
    exact schnorrAccepts_stamped ht

theorem messageHash_stamped_zero :
    (stampedAttestation 0).messageHash timestampKeccak = natToBytes 32 1 := by decide +kernel

theorem messageHash_stamped_one :
    (stampedAttestation 1).messageHash timestampKeccak = natToBytes 32 2 := by decide +kernel

/-- Two attestations that use one nonce reveal the sum of the two signers' secrets. -/
theorem special_soundness_sample :
    verify (referencePrimitives timestampKeccak) (stampedAttestation 0) pairRegistry none = .ok () ∧
    verify (referencePrimitives timestampKeccak) (stampedAttestation 1) pairRegistry none = .ok () ∧
    ((setBits (Bitmap.load (stampedAttestation 0).signature.signersBitmap)).map fun bit =>
        pairSecret bit • Secp256k1.G).sum =
      ((toScalar (natToBytes 32 8) - toScalar (natToBytes 32 11)) *
        (toScalar (natToBytes 32 1) - toScalar (natToBytes 32 2))⁻¹) • Secp256k1.G := by
  have hzero := verify_stamped (show 0 < 80 by norm_num) messageHash_stamped_zero
  have hone := verify_stamped (show 1 < 80 by norm_num) messageHash_stamped_one
  refine ⟨hzero, hone, ?_⟩
  have hkeys : ∀ bit ∈ setBits (Bitmap.load (stampedAttestation 0).signature.signersBitmap),
      ∀ member, pairRegistry.NamesLiveRecord bit member →
        StoresPoint member (pairSecret bit • Secp256k1.G) := pair_storesPoint
  obtain ⟨X, x, y, hX, -, hpair, -⟩ := special_soundness fieldExact_reference sumExact_reference
    groupExact_reference recoverExact_reference hkeys
    (Eq.refl (stampedAttestation 1).signature.signersBitmap)
    (Eq.refl (stampedAttestation 1).signature.commitment) hzero hone
  have hsum : X = 3 • Secp256k1.G := hX.trans sum_pair
  have hchallenge (messageHash : Bytes 32) (commitment : Bytes 20) :
      schnorrChallenge (referencePrimitives timestampKeccak).keccak (fieldBytes x) (parityOf y)
        messageHash commitment = toScalar messageHash :=
    schnorrChallenge_timestampKeccak _ _ _ _
  have hmessages : (stampedAttestation 0).messageHash (referencePrimitives timestampKeccak).keccak =
        natToBytes 32 1 ∧
      (stampedAttestation 1).messageHash (referencePrimitives timestampKeccak).keccak =
        natToBytes 32 2 := ⟨messageHash_stamped_zero, messageHash_stamped_one⟩
  rw [hchallenge, hchallenge, hmessages.1, hmessages.2] at hpair
  rw [← hX]
  refine hpair.key_eq ?_ ?_
  · rw [hsum]
    exact (nonce_stamped (show 0 < 80 by norm_num)).trans (nonce_stamped (by norm_num)).symm
  · rw [toScalar_small (by norm_num), toScalar_small (by norm_num), ne_eq, Nat.cast_one,
      Nat.cast_ofNat]
    intro hsame
    exact (one_ne_zero : (1 : ZMod Secp256k1.n) ≠ 0) (by linear_combination -hsame)

end Sample

end MolphaVerifier
