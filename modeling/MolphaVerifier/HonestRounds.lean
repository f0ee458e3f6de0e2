import MolphaVerifier.AccountVerification
import MolphaVerifier.CommitteePolicing
import MolphaVerifier.SigningSessions

/-!
# Honest rounds

A round from the draw of its committee to the judgement of its attestation. Members of the drawn
committee, and perhaps a provider, answer one challenge under their registered keys. Every entry
point that reads the registry account agrees on the aggregate: the attestation verifies, with the
off-chain coalition key or without, no dispute invalidates it and no signer is flagged.
-/

namespace MolphaVerifier

open FixedBytes BitVecIteration FallibleFolds ShortWeierstrass SchnorrEquations

/-- Signers of the drawn committee, with at most one live provider among them, whose records store
their keys, and the aggregate of their shares under one challenge. -/
structure HonestRound (keccak : Keccak) (registry : RegistryView) (attestation : Attestation)
    (committee : Bitmap) (secrets : ℕ → SignerSecrets) (c : Bytes 32) (x y : ZMod Secp256k1.p) :
    Prop where
  draw : attestationSelection keccak attestation.payload.sourceId attestation.payload.timestamp
    attestation.payload.signaturesRequired (Bitmap.load attestation.signature.signersBitmap)
    registry = .ok committee
  drawn : ∀ bit ∈ attestation.signerBits, bit < nodeSlots → bit ∈ setBits committee
  provider : ∀ bit ∈ attestation.signerBits, nodeSlots ≤ bit →
    ∃ member, registry.NamesLiveRecord bit member
  registered : ∀ bit ∈ attestation.signerBits, ∀ member, registry.NamesLiveRecord bit member →
    StoresPoint member (toScalar (secrets bit).x • Secp256k1.G)
  quorum : MeetsQuorum (Bitmap.load attestation.signature.signersBitmap)
    attestation.payload.signaturesRequired
  key : HasCoords (attestation.signerBits.map fun bit =>
    toScalar (secrets bit).x • Secp256k1.G).sum x y
  challenge : toScalar c = attestation.challenge keccak x y
  sum : attestation.signature.aggSigS =
    sumModN (attestation.signerBits.map fun bit => (secrets bit).share c)
  commits : CommitsTo keccak attestation
    ((attestation.signerBits.map fun bit => (secrets bit).nonce).sum • Secp256k1.G)

/-- The recovery can evaluate the aggregate. -/
structure Evaluable (attestation : Attestation) (c : Bytes 32) (x : ZMod Secp256k1.p) : Prop where
  key_lt : x.val < Secp256k1.n
  challenge_ne_zero : toScalar c ≠ 0
  sum_ne_zero : toScalar attestation.signature.aggSigS ≠ 0

/-- What the entry points answer over the account, with the coalition key or without. -/
structure AcceptedEverywhere (prims : Primitives) (findProgramAddress : FindProgramAddress)
    (account : AccountInfo) (view : RegistryView) (attestation : Attestation)
    (key : CoalitionKey) : Prop where
  key_eq : IsRegistryCoalitionKey prims.lib view attestation.signature.signersBitmap key
  attested : ∀ supplied, supplied = none ∨ supplied = some key →
    (Solana.verifyAttestation prims attestation account supplied).run = some (.ok ())
  judged : ∀ supplied, supplied = none ∨ supplied = some key →
    (verifyAggregateOverHashAccounts prims account attestation.signature
      (attestation.messageHash prims.keccak) attestation.payload.registryVersion supplied).run =
        some (.ok true)
  unflagged : verifySelection prims.keccak attestation.payload.sourceId
    attestation.payload.timestamp attestation.payload.signaturesRequired view
    attestation.signature.signersBitmap = .ok true
  provenance : ∀ bit ∈ attestation.signerBits, nodeSlots ≤ bit → ∀ member,
    view.NamesLiveRecord bit member → ∀ providerId,
      member.account = providerAccount findProgramAddress providerId →
        ∀ supplied, supplied = none ∨ supplied = some key →
          (Solana.verifyProvenance prims findProgramAddress attestation account supplied
            providerId).run = some (.ok ())

section Keys

variable {prims : Primitives} {R : FieldReading prims.lib} {registry : RegistryView}
  {attestation : Attestation} {keys : ℕ → Secp256k1.Point} {x y : ZMod Secp256k1.p}
  (hF : FieldExact prims.lib R) (hS : SumExact prims.lib R)

include hF hS

/-- The coalition key over live records of curve points encodes the finite sum of the keys. -/
theorem isRegistryCoalitionKey_of_hasCoords (hG : GroupExact prims.lib R)
    (hkeys : ∀ bit ∈ attestation.signerBits, ∀ member,
      registry.NamesLiveRecord bit member → StoresPoint member (keys bit))
    {coalition : CoalitionAccumulator prims.lib}
    (h : accumulateRegistrySigners prims.lib registry attestation.signature.signersBitmap =
      .ok coalition)
    (hX : HasCoords (attestation.signerBits.map keys).sum x y) :
    IsRegistryCoalitionKey prims.lib registry attestation.signature.signersBitmap
      (CoalitionKey.ofXy x y) := by
  refine (isRegistryCoalitionKey_iff hF hS h).mpr ⟨x, y, ?_, rfl⟩
  rcases (represents_accumulateRegistrySigners hF hS hG hkeys h).sum_cases with
    ⟨-, hzero⟩ | ⟨x', y', hsum, hcoords⟩
  · exact absurd hzero hX.ne_zero
  · obtain ⟨rfl, rfl⟩ := hX.unique hcoords
    exact hsum

theorem verify_with_key {key : CoalitionKey}
    (hverify : verify prims attestation registry none = .ok ())
    (hkey : IsRegistryCoalitionKey prims.lib registry attestation.signature.signersBitmap key) :
    verify prims attestation registry (some key) = .ok () := by
  rcases verify_cases hF hS attestation registry with ⟨e, -, herror⟩ | ⟨coalition, hsum, hcases⟩
  · rw [herror] at hverify
    cases hverify
  · obtain ⟨x, y, hcoords, rfl⟩ := (isRegistryCoalitionKey_iff hF hS hsum).mp hkey
    have hsame : checkedPubkey (some (x, y)) (some (CoalitionKey.ofXy x y)) =
        checkedPubkey (some (x, y)) none := by simp [checkedPubkey]
    rw [hcases, hcoords] at hverify
    rw [hcases, hcoords, hsame]
    exact hverify

end Keys

section Accounts

variable {prims : Primitives} {account : AccountInfo} {registry : RegistryAccount}
  {version : UInt32} {graceActiveUntil : Int64} {view : RegistryView}

theorem ReadsAs.length_nodes (hread : ReadsAs registry version graceActiveUntil view)
    (hload : RegistryAccount.load account = .ok registry) :
    view.nodes.length = view.nodeCount.toNat := by
  obtain ⟨-, -, ⟨capacity, hshape⟩, rfl⟩ := RegistryAccount.load_eq_ok_iff.mp hload
  obtain ⟨view', hv⟩ := @RegistryAccount.exists_holdsView ⟨account.key, account.data⟩ _ hshape
  obtain rfl : view' = view := Option.some.inj (hv.view_eq.symm.trans hread.view_eq)
  have hlast := hv.getElem?_nodes view'.nodeCount.toNat
  rw [if_neg (lt_irrefl _), List.getElem?_eq_none_iff] at hlast
  refine le_antisymm hlast (Nat.le_of_not_lt fun hshort => ?_)
  have hmissing := hv.getElem?_nodes view'.nodes.length
  rw [if_pos hshort, List.getElem?_eq_none (le_refl _)] at hmissing
  cases hmissing

theorem ReadsAs.version_view (hread : ReadsAs registry version graceActiveUntil view) :
    view.version = version := by
  have hversion := version_of_view hread.view_eq
  rw [hread.version_eq, Option.some.injEq] at hversion
  exact hversion.symm

end Accounts

section Rounds

variable {prims : Primitives} {R : FieldReading prims.lib} {account : AccountInfo}
  {registry : RegistryAccount} {version : UInt32} {graceActiveUntil : Int64} {view : RegistryView}
  {attestation : Attestation} {committee : Bitmap} {secrets : ℕ → SignerSecrets} {c : Bytes 32}
  {x y : ZMod Secp256k1.p}

/-- Every signer of an honest round names a live record with its key: a node because it was drawn. -/
theorem HonestRound.key_stored
    (h : HonestRound prims.keccak view attestation committee secrets c x y)
    (hcover : view.examinedSlots ≤ view.nodes.length) :
    ∀ bit ∈ attestation.signerBits, ∃ member, view.NamesLiveRecord bit member ∧
      StoresPoint member (toScalar (secrets bit).x • Secp256k1.G) := by
  intro bit hbit
  have hlive : ∃ member, view.NamesLiveRecord bit member := by
    by_cases hnode : bit < nodeSlots
    · exact (namesLiveRecord_of_mem_committee hcover h.draw (h.drawn bit hbit hnode)).2
    · exact h.provider bit hbit (Nat.le_of_not_lt hnode)
  obtain ⟨member, hmember⟩ := hlive
  exact ⟨member, hmember, h.registered bit hbit member hmember⟩

theorem HonestRound.verify_eq (hF : FieldExact prims.lib R) (hS : SumExact prims.lib R)
    (hG : GroupExact prims.lib R) (hRec : RecoverExact prims.secp256k1Recover)
    (h : HonestRound prims.keccak view attestation committee secrets c x y)
    (hcover : view.examinedSlots ≤ view.nodes.length)
    (hversion : attestation.payload.registryVersion = view.version)
    (heval : Evaluable attestation c x) : verify prims attestation view none = .ok () := by
  have hsession := isSession_honest (h.key_stored hcover) h.sum
  have hlt : bytesToNat attestation.signature.aggSigS < Secp256k1.n := by
    rw [h.sum]
    exact bytesToNat_sumModN_lt _
  rw [hsession.verify_iff_commitsTo hF hS hG hRec h.key h.challenge
    fun bit _ => (secrets bit).nonce_share c]
  refine ⟨⟨hversion, ?_, h.quorum⟩, heval.key_lt, heval.challenge_ne_zero, ?_⟩
  · rw [secp256k1ScalarIsValidNonzero_iff, bytesToNat_pos_iff hlt]
    exact ⟨heval.sum_ne_zero, hlt⟩
  · have hcommits := h.commits
    rw [List.sum_smul, List.map_map] at hcommits
    exact hcommits

/-- What honest members of the drawn committee sign is accepted by every entry point over the
registry account, is not slashable and flags no signer; the coalition key computed off chain is the
encoding of the sum of the signers' keys. -/
theorem honest_round_accepted (hF : FieldExact prims.lib R) (hS : SumExact prims.lib R)
    (hG : GroupExact prims.lib R) (hRec : RecoverExact prims.secp256k1Recover)
    (findProgramAddress : FindProgramAddress)
    (hload : RegistryAccount.load account = .ok registry)
    (hread : ReadsAs registry version graceActiveUntil view)
    (hversion : attestation.payload.registryVersion = version)
    (hlive : LiveAt graceActiveUntil attestation.payload.timestamp)
    (h : HonestRound prims.keccak view attestation committee secrets c x y)
    (heval : Evaluable attestation c x) :
    AcceptedEverywhere prims findProgramAddress account view attestation
      (CoalitionKey.ofXy x y) := by
  have hcover : view.examinedSlots ≤ view.nodes.length :=
    (Nat.min_le_left _ _).trans_eq (hread.length_nodes hload).symm
  have hversion' : attestation.payload.registryVersion = view.version :=
    hversion.trans hread.version_view.symm
  have hnone := h.verify_eq hF hS hG hRec hcover hversion' heval
  obtain ⟨-, -, -, coalition, hcoalition, -⟩ := verify_eq_ok_iff_checks.mp hnone
  have hkey : IsRegistryCoalitionKey prims.lib view attestation.signature.signersBitmap
      (CoalitionKey.ofXy x y) :=
    isRegistryCoalitionKey_of_hasCoords hF hS hG h.registered hcoalition h.key
  have hverify : ∀ supplied, supplied = none ∨ supplied = some (CoalitionKey.ofXy x y) →
      verify prims attestation view supplied = .ok () := by
    rintro supplied (rfl | rfl)
    · exact hnone
    · exact verify_with_key hF hS hnone hkey
  refine ⟨hkey, ?_, ?_, ?_, ?_⟩
  · intro supplied hsupplied
    rw [verifyAttestation_eq hload hread, ExceptT.run_mk, Option.some.injEq,
      attestationOutcome_eq_ok_iff]
    exact ⟨hversion, hlive, hverify supplied hsupplied⟩
  · intro supplied hsupplied
    have htrue := (verify_eq_ok_iff_resolved.mp (hverify supplied hsupplied)).2.2
    rw [verifyAggregateOverHashAccounts_eq hload hread.view_eq, htrue,
      if_neg (not_not.mpr hversion'.symm)]
    rfl
  · have hdraw := h.draw
    rw [attestationSelection] at hdraw
    rw [verifySelection_of_quorum (checkQuorum_eq_ok_iff.mpr h.quorum), hdraw]
    exact congrArg Except.ok (isSubset_nodeBits_iff.mpr h.drawn)
  · intro bit hbit hprovider member hmember providerId haccount supplied hsupplied
    rw [verifyProvenance_eq hload hread, ExceptT.run_mk, Option.some.injEq,
      attestationOutcome_eq_ok_iff, verifyProvenance_eq_ok_iff]
    refine ⟨hversion, hlive, hverify supplied hsupplied, ?_⟩
    rw [exists_namesProvider_iff h.quorum]
    exact ⟨bit, Bitmap.mem_setBits_providerBits.mpr ⟨hbit, hprovider⟩, member, hmember, haccount⟩

end Rounds

section Sample

/-- An account that serializes the registry of the two signers. -/
def sessionAccount : AccountInfo where
  key := Vector.replicate 32 3
  owner := programId
  data := serializeRegistry ⟨0, 0, 1, 1, 1, 0, 255⟩ ([sampleMember] ++ ([sampleProvider] ++ []))
  mutablyBorrowed := false

theorem load_sessionAccount : RegistryAccount.load sessionAccount =
    .ok ⟨sessionAccount.key, sessionAccount.data⟩ :=
  RegistryAccount.load_eq_ok_iff.mpr ⟨rfl, rfl, ⟨_,
    RegistryAccount.registryShape_serializeRegistry _ _ (by decide) (by decide) (by decide)
      (by decide)⟩, rfl⟩

theorem readsAs_sessionAccount :
    ReadsAs ⟨sessionAccount.key, sessionAccount.data⟩ 1 0 pairRegistry := by
  have hholds : RegistryAccount.Holds ⟨sessionAccount.key, sessionAccount.data⟩
      ⟨0, 0, 1, 1, 1, 0, 255⟩ [sampleMember] [sampleProvider] :=
    RegistryAccount.holds_serializeRegistry _ rfl rfl
  refine ⟨hholds.version_eq, hholds.graceActiveUntil_eq, ?_⟩
  rw [RegistryAccount.view, hholds.version_eq, hholds.nodeCount_eq, hholds.providerCount_eq,
    hholds.redundancyBuffer_eq, hholds.nodes_eq, hholds.providers_eq]
  rfl

theorem honestRound_sample : HonestRound sampleKeccak pairRegistry pairAttestation 1#256
    pairSecrets (natToBytes 32 1) Secp256k1.tripledX Secp256k1.tripledY where
  draw := attestationSelection_pair
  drawn := by
    intro bit hbit hnode
    rw [signerBits_pairAttestation] at hbit
    simp only [List.mem_cons, List.not_mem_nil, or_false] at hbit
    obtain rfl := hbit.resolve_right hnode.ne
    decide
  provider := by
    intro bit hbit _
    obtain ⟨member, hmember, -⟩ := pair_stored bit hbit
    exact ⟨member, hmember⟩
  registered := by
    intro bit hbit member hmember
    rw [smul_pairSecrets_x]
    exact isSession_pair.storesPoint hbit member hmember
  quorum := pairAttestation_quorum
  key := by
    have hcoords := hasCoords_pair
    simp only [← smul_pairSecrets_x] at hcoords
    exact hcoords
  challenge := challenge_pairAttestation _ _
  sum := aggSigS_pairAttestation
  commits := commitsTo_pairSecrets

theorem evaluable_sample : Evaluable pairAttestation (natToBytes 32 1) Secp256k1.tripledX where
  key_lt := Secp256k1.tripledX_val_lt
  challenge_ne_zero := by
    rw [toScalar_one]
    exact one_ne_zero
  sum_ne_zero := by
    rw [toScalar_pairAttestation]
    exact small_ne_zero (by norm_num) (by norm_num)

/-- A node and a provider sign honestly: every entry point accepts, and the attestation is proved to
come from the provider. -/
theorem honest_round_accepted_sample :
    AcceptedEverywhere (referencePrimitives sampleKeccak) (fun _ _ => (natToBytes 32 8, 255))
        sessionAccount pairRegistry pairAttestation
        (CoalitionKey.ofXy Secp256k1.tripledX Secp256k1.tripledY) ∧
      (Solana.verifyProvenance (referencePrimitives sampleKeccak)
        (fun _ _ => (natToBytes 32 8, 255)) pairAttestation sessionAccount none 5).run =
          some (.ok ()) := by
  have haccepted : AcceptedEverywhere (referencePrimitives sampleKeccak)
      (fun _ _ => (natToBytes 32 8, 255)) sessionAccount pairRegistry pairAttestation
      (CoalitionKey.ofXy Secp256k1.tripledX Secp256k1.tripledY) :=
    honest_round_accepted fieldExact_reference sumExact_reference groupExact_reference
      recoverExact_reference _ load_sessionAccount readsAs_sessionAccount rfl (.inl rfl)
      honestRound_sample evaluable_sample
  exact ⟨haccepted, haccepted.provenance nodeSlots nodeSlots_mem_pairAttestation le_rfl
    sampleProvider namesLiveRecord_pair_provider 5 rfl none (.inl rfl)⟩

end Sample

end MolphaVerifier
