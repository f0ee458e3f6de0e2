import MolphaVerifier.CommitteeSelection
import MolphaVerifier.SuppliedCoalitionKeys

/-!
# Policing the committee

`verifySelection` judges signers after the fact: it draws the committee of the round's node quorum
and asks whether the node signers are among it. A signer set drawn from that committee is never
flagged and meets the quorum, and one more node is always flagged. What the verifier accepted can
be judged unless the sampler runs out of rounds or no node is live.
-/

namespace MolphaVerifier

open FixedBytes BitVecIteration FallibleFolds RankedFilters

def Bitmap.isSubset (bitmap other : Bitmap) : Bool := bitmap &&& ~~~other == Bitmap.empty

/-- How many nodes the committee holds: a set provider bit is the last signer of the quorum. -/
def nodeQuorum (signaturesRequired : UInt8) (signers : Bitmap) : UInt8 :=
  if Bitmap.providerBits signers = Bitmap.empty then signaturesRequired
  else if signaturesRequired = 0 then 0 else signaturesRequired - 1

/-- The committee of an attestation, for either kind of round. -/
def attestationSelection (keccak : Keccak) (sourceId : Bytes 32) (timestamp : UInt64)
    (signaturesRequired : UInt8) (signers : Bitmap) (registry : RegistryView) :
    Except AttestationError Bitmap :=
  deriveSelectionBitmap keccak sourceId timestamp (nodeQuorum signaturesRequired signers) registry

/-- Whether the node signers are among the committee of the round. -/
def verifySelection (keccak : Keccak) (sourceId : Bytes 32) (timestamp : UInt64)
    (signaturesRequired : UInt8) (registry : RegistryView) (signersBitmap : Bytes 32) :
    Except AttestationError Bool := do
  let signers := Bitmap.load signersBitmap
  checkQuorum signers signaturesRequired
  let expectedSelectionBitmap ←
    attestationSelection keccak sourceId timestamp signaturesRequired signers registry
  pure (Bitmap.isSubset (Bitmap.nodeBits signers) expectedSelectionBitmap)

section Bitmaps

variable {bitmap other : Bitmap} {bit : ℕ} {signaturesRequired : UInt8}

theorem Bitmap.isSubset_iff :
    Bitmap.isSubset bitmap other = true ↔ ∀ i ∈ setBits bitmap, i ∈ setBits other := by
  rw [Bitmap.isSubset, beq_iff_eq, Bitmap.empty, ← setBits_eq_nil_iff,
    List.eq_nil_iff_forall_not_mem]
  refine forall_congr' fun i => ?_
  simp only [mem_setBits, BitVec.getLsbD_and, BitVec.getLsbD_not, Bool.and_eq_true,
    Bool.not_eq_true', decide_eq_true_eq, not_and]
  constructor
  · intro h hi
    exact Bool.not_eq_false _ ▸ h hi (BitVec.lt_of_getLsbD hi)
  · intro h hi _
    rw [h hi]
    exact Bool.noConfusion

theorem Bitmap.providerBits_eq_empty_iff :
    Bitmap.providerBits bitmap = Bitmap.empty ↔ ∀ i ∈ setBits bitmap, i < nodeSlots := by
  rw [Bitmap.empty, ← setBits_eq_nil_iff, List.eq_nil_iff_forall_not_mem]
  simp only [Bitmap.mem_setBits_providerBits, not_and, not_le]

theorem mem_setBits_setBit {i : ℕ} (hbit : bit < 256) :
    i ∈ setBits (setBit bitmap bit) ↔ i ∈ setBits bitmap ∨ i = bit := by
  rw [mem_setBits, getLsbD_setBit hbit, Bool.or_eq_true, decide_eq_true_eq, mem_setBits]

theorem Bitmap.popcount_setBit (hbit : bit < 256) (hnew : bit ∉ setBits bitmap) :
    Bitmap.popcount (setBit bitmap bit) = Bitmap.popcount bitmap + 1 := by
  rw [mem_setBits, Bool.not_eq_true] at hnew
  rw [Bitmap.popcount_eq_length, Bitmap.popcount_eq_length, length_setBits_setBit hbit hnew]

theorem MeetsQuorum.setBit_node (h : MeetsQuorum bitmap signaturesRequired) (hbit : bit < nodeSlots)
    (hnew : bit ∉ setBits bitmap) : MeetsQuorum (setBit bitmap bit) signaturesRequired where
  required_pos := h.required_pos
  required_le := by
    rw [Bitmap.popcount_setBit (hbit.trans (by decide)) hnew]
    exact Nat.le_succ_of_le h.required_le
  provider_unique := by
    intro i hi j hj hpi hpj
    rw [mem_setBits_setBit (hbit.trans (by decide))] at hi hj
    exact h.provider_unique i (hi.resolve_right (by omega)) j (hj.resolve_right (by omega)) hpi hpj

theorem meetsQuorum_of_nodes (hpos : 1 ≤ signaturesRequired.toNat)
    (hcount : signaturesRequired.toNat ≤ bitmap.popcount)
    (hnodes : ∀ i ∈ setBits bitmap, i < nodeSlots) : MeetsQuorum bitmap signaturesRequired where
  required_pos := hpos
  required_le := hcount
  provider_unique := fun i hi _ _ hpi _ => absurd (hnodes i hi) (Nat.not_lt.mpr hpi)

theorem meetsQuorum_of_provider (hpos : 1 ≤ signaturesRequired.toNat)
    (hcount : signaturesRequired.toNat - 1 ≤ bitmap.popcount)
    (hnodes : ∀ i ∈ setBits bitmap, i < nodeSlots) (hprovider : nodeSlots ≤ bit)
    (hbit : bit < 256) : MeetsQuorum (setBit bitmap bit) signaturesRequired where
  required_pos := hpos
  required_le := by
    have hnew : bit ∉ setBits bitmap := fun h => absurd (hnodes bit h) (Nat.not_lt.mpr hprovider)
    rw [Bitmap.popcount_setBit hbit hnew]
    omega
  provider_unique := by
    have honly {i : ℕ} (hi : i ∈ setBits (setBit bitmap bit)) (hpi : nodeSlots ≤ i) : i = bit := by
      rcases (mem_setBits_setBit hbit).mp hi with hold | hnew
      · exact absurd (hnodes i hold) (Nat.not_lt.mpr hpi)
      · exact hnew
    intro i hi j hj hpi hpj
    rw [honly hi hpi, honly hj hpj]

theorem nodeQuorum_of_nodes (hnodes : ∀ i ∈ setBits bitmap, i < nodeSlots) :
    nodeQuorum signaturesRequired bitmap = signaturesRequired :=
  if_pos (Bitmap.providerBits_eq_empty_iff.mpr hnodes)

theorem nodeQuorum_of_provider (hpos : 1 ≤ signaturesRequired.toNat) (hbit : bit ∈ setBits bitmap)
    (hprovider : nodeSlots ≤ bit) :
    nodeQuorum signaturesRequired bitmap = signaturesRequired - 1 := by
  have hsome : ¬Bitmap.providerBits bitmap = Bitmap.empty := by
    rw [Bitmap.providerBits_eq_empty_iff]
    exact fun h => absurd (h bit hbit) (Nat.not_lt.mpr hprovider)
  have hne : signaturesRequired ≠ 0 := by
    rintro rfl
    exact absurd hpos (by decide)
  rw [nodeQuorum, if_neg hsome, if_neg hne]

theorem nodeQuorum_setBit_node (hbit : bit < nodeSlots) :
    nodeQuorum signaturesRequired (setBit bitmap bit) = nodeQuorum signaturesRequired bitmap := by
  have hsame : Bitmap.providerBits (setBit bitmap bit) = Bitmap.empty ↔
      Bitmap.providerBits bitmap = Bitmap.empty := by
    rw [Bitmap.providerBits_eq_empty_iff, Bitmap.providerBits_eq_empty_iff]
    simp only [mem_setBits_setBit (hbit.trans (by decide))]
    constructor
    · exact fun h i hi => h i (.inl hi)
    · rintro h i (hi | rfl)
      · exact h i hi
      · exact hbit
  simp only [nodeQuorum, hsame]

end Bitmaps

section Judgement

variable {keccak : Keccak} {sourceId : Bytes 32} {timestamp : UInt64} {signaturesRequired : UInt8}
  {registry : RegistryView} {signers committee : Bitmap}

theorem lt_nodeSlots_of_committee
    (h : deriveSelectionBitmap keccak sourceId timestamp signaturesRequired registry =
      .ok committee) : ∀ i ∈ setBits committee, i < nodeSlots := by
  intro i hi
  obtain ⟨-, hbits⟩ := of_deriveSelectionBitmap h
  obtain ⟨rank, -, hslot⟩ := (hbits i).mp (mem_setBits.mp hi)
  obtain ⟨test, htest⟩ := registry.exists_liveSlots_eq
  rw [htest] at hslot
  exact (getElem?_membersBelow.mp hslot).1.1.trans_le registry.examinedSlots_le

theorem verifySelection_eq (hquorum : MeetsQuorum signers signaturesRequired)
    (hdraw : attestationSelection keccak sourceId timestamp signaturesRequired signers registry =
      .ok committee) :
    verifySelection keccak sourceId timestamp signaturesRequired registry signers.toBytes =
      .ok (Bitmap.isSubset (Bitmap.nodeBits signers) committee) := by
  rw [verifySelection, Bitmap.load_toBytes, checkQuorum_eq_ok_iff.mpr hquorum, hdraw]
  rfl

theorem isSubset_nodeBits_iff : Bitmap.isSubset (Bitmap.nodeBits signers) committee = true ↔
    ∀ i ∈ setBits signers, i < nodeSlots → i ∈ setBits committee := by
  rw [Bitmap.isSubset_iff]
  simp only [Bitmap.mem_setBits_nodeBits, and_imp]

/-- The signers meet the quorum and are in order, and one node from outside the committee has them
flagged. -/
structure JudgedHonest (keccak : Keccak) (sourceId : Bytes 32) (timestamp : UInt64)
    (signaturesRequired : UInt8) (registry : RegistryView) (committee signers : Bitmap) :
    Prop where
  quorum : checkQuorum signers signaturesRequired = .ok ()
  accepted : verifySelection keccak sourceId timestamp signaturesRequired registry
    signers.toBytes = .ok true
  flagged : ∀ extra, extra < nodeSlots → extra ∉ setBits committee →
    verifySelection keccak sourceId timestamp signaturesRequired registry
      (Bitmap.toBytes (setBit signers extra)) = .ok false

theorem judgedHonest (hquorum : MeetsQuorum signers signaturesRequired)
    (hdraw : deriveSelectionBitmap keccak sourceId timestamp
      (nodeQuorum signaturesRequired signers) registry = .ok committee)
    (hdrawn : ∀ i ∈ setBits signers, i < nodeSlots → i ∈ setBits committee) :
    JudgedHonest keccak sourceId timestamp signaturesRequired registry committee signers where
  quorum := checkQuorum_eq_ok_iff.mpr hquorum
  accepted := by
    rw [verifySelection_eq hquorum hdraw, isSubset_nodeBits_iff.mpr hdrawn]
  flagged := by
    intro extra hnode hextra
    have hnew : extra ∉ setBits signers := fun h => hextra (hdrawn extra h hnode)
    have hdraw' : attestationSelection keccak sourceId timestamp signaturesRequired
        (setBit signers extra) registry = .ok committee := by
      rw [attestationSelection, nodeQuorum_setBit_node hnode, hdraw]
    rw [verifySelection_eq (hquorum.setBit_node hnode hnew) hdraw', Except.ok.injEq,
      ← Bool.not_eq_true, isSubset_nodeBits_iff]
    intro hall
    exact hextra (hall extra ((mem_setBits_setBit (hnode.trans (by decide))).mpr (.inr rfl)) hnode)

end Judgement

section Honest

variable (keccak : Keccak) (sourceId : Bytes 32) (timestamp : UInt64) (signaturesRequired : UInt8)
  (registry : RegistryView)

/-- Enough members of the drawn committee, with or without the provider, meet the quorum and are
never flagged; with one more node they always are. -/
theorem honest_committee (hpos : 1 ≤ signaturesRequired.toNat) :
    (signaturesRequired.toNat ≤ registry.liveCount →
      ∀ committee, deriveSelectionBitmap keccak sourceId timestamp signaturesRequired registry =
          .ok committee →
        signaturesRequired.toNat ≤ committee.popcount ∧
        ∀ signers : Bitmap, (∀ i ∈ setBits signers, i ∈ setBits committee) →
          signaturesRequired.toNat ≤ signers.popcount →
          JudgedHonest keccak sourceId timestamp signaturesRequired registry committee signers) ∧
    (max 1 (signaturesRequired.toNat - 1) ≤ registry.liveCount →
      ∀ committee, deriveSelectionBitmap keccak sourceId timestamp (signaturesRequired - 1)
          registry = .ok committee →
        ∀ provider, nodeSlots ≤ provider → provider < 256 →
        ∀ signers : Bitmap, (∀ i ∈ setBits signers, i ∈ setBits committee) →
          signaturesRequired.toNat - 1 ≤ signers.popcount →
          JudgedHonest keccak sourceId timestamp signaturesRequired registry committee
            (setBit signers provider)) := by
  constructor
  · intro hlive committee hcommittee
    refine ⟨?_, fun signers hdrawn hcount => ?_⟩
    · rw [popcount_committee hcommittee, committeeSize_eq]
      omega
    · have hnodes : ∀ i ∈ setBits signers, i < nodeSlots :=
        fun i hi => lt_nodeSlots_of_committee hcommittee i (hdrawn i hi)
      apply judgedHonest (meetsQuorum_of_nodes hpos hcount hnodes)
      · rw [nodeQuorum_of_nodes hnodes, hcommittee]
      · exact fun i hi _ => hdrawn i hi
  · intro _ committee hcommittee provider hprovider hbit signers hdrawn hcount
    have hnodes : ∀ i ∈ setBits signers, i < nodeSlots :=
      fun i hi => lt_nodeSlots_of_committee hcommittee i (hdrawn i hi)
    apply judgedHonest (meetsQuorum_of_provider hpos hcount hnodes hprovider hbit)
    · rw [nodeQuorum_of_provider hpos ((mem_setBits_setBit hbit).mpr (.inr rfl)) hprovider,
        hcommittee]
    · intro i hi hnode
      rcases (mem_setBits_setBit hbit).mp hi with hold | hnew
      · exact hdrawn i hold
      · omega

/-- Both nodes of a quorum of two, and the same two nodes with a provider for a quorum of three. -/
theorem honest_committee_sample :
    JudgedHonest sampleDrawKeccak (Vector.replicate 32 0) 0 2 sampleHoledRegistry 5#256 5#256 ∧
    JudgedHonest sampleDrawKeccak (Vector.replicate 32 0) 0 3 sampleHoledRegistry 5#256
      (setBit 5#256 nodeSlots) := by
  have hlive := liveCount_sampleHoledRegistry
  have htwo : Bitmap.popcount 5#256 = 2 := by
    rw [popcount_committee deriveSelectionBitmap_sample_two, committeeSize_eq, hlive]
    decide
  obtain ⟨hround, -⟩ := honest_committee sampleDrawKeccak (Vector.replicate 32 0) 0 2
    sampleHoledRegistry (by decide)
  obtain ⟨-, hsigners⟩ := hround (by rw [hlive]; decide) 5#256 deriveSelectionBitmap_sample_two
  obtain ⟨-, hproviders⟩ := honest_committee sampleDrawKeccak (Vector.replicate 32 0) 0 3
    sampleHoledRegistry (by decide)
  refine ⟨hsigners 5#256 (fun _ hi => hi) (by rw [htwo]; decide), ?_⟩
  exact hproviders (by rw [hlive]; decide) 5#256 deriveSelectionBitmap_sample_two nodeSlots le_rfl
    (by decide) 5#256 (fun _ hi => hi) (by rw [htwo]; decide)

end Honest

section Accepted

variable {prims : Primitives} {attestation : Attestation} {registry : RegistryView}
  {key : Option CoalitionKey}

section Judgement

variable {keccak : Keccak} {sourceId : Bytes 32} {timestamp : UInt64} {signaturesRequired : UInt8}
  {signersBitmap : Bytes 32}
  (hquorum : checkQuorum (Bitmap.load signersBitmap) signaturesRequired = .ok ())

include hquorum

theorem verifySelection_of_quorum :
    verifySelection keccak sourceId timestamp signaturesRequired registry signersBitmap =
      deriveSelectionBitmap keccak sourceId timestamp
          (nodeQuorum signaturesRequired (Bitmap.load signersBitmap)) registry >>= fun committee =>
        pure (Bitmap.isSubset (Bitmap.nodeBits (Bitmap.load signersBitmap)) committee) := by
  rw [verifySelection, hquorum]
  rfl

theorem exists_verifySelection_iff :
    (∃ verdict, verifySelection keccak sourceId timestamp signaturesRequired registry
        signersBitmap = .ok verdict) ↔
      0 < registry.liveCount ∧ ¬SelectionExhausted keccak sourceId timestamp
        (nodeQuorum signaturesRequired (Bitmap.load signersBitmap)) registry := by
  simp only [verifySelection_of_quorum hquorum, bind_eq_ok_iff]
  constructor
  · rintro ⟨verdict, committee, hdraw, -⟩
    exact (of_deriveSelectionBitmap hdraw).1
  · rintro ⟨hlive, hrounds⟩
    obtain ⟨-, committee, -, hdraw, -⟩ := exists_deriveSelectionBitmap hlive hrounds
    exact ⟨_, committee, hdraw, rfl⟩

theorem verifySelection_eq_error {e : AttestationError}
    (h : verifySelection keccak sourceId timestamp signaturesRequired registry signersBitmap =
      .error e) : e = .groupBitmapDerivationFailed := by
  rw [verifySelection_of_quorum hquorum] at h
  rcases bind_eq_error_iff.mp h with hdraw | ⟨committee, -, h⟩
  · exact (deriveSelectionBitmap_eq_error_iff.mp hdraw).1
  · cases h

end Judgement

/-- Without a live node the one signer is a provider. -/
theorem provider_of_no_live_node {signers : Bitmap} {signaturesRequired : UInt8}
    (hquorum : MeetsQuorum signers signaturesRequired)
    (hlive : ∀ bit ∈ setBits signers, ∃ member, registry.NamesLiveRecord bit member)
    (hnone : registry.liveCount = 0) :
    signaturesRequired = 1 ∧ ∃ provider, nodeSlots ≤ provider ∧ setBits signers = [provider] := by
  have hproviders : ∀ bit ∈ setBits signers, nodeSlots ≤ bit := by
    intro bit hbit
    by_contra hnode
    obtain ⟨member, hmember⟩ := hlive bit hbit
    have hslot := RegistryView.mem_liveSlots (Nat.lt_of_not_le hnode) hmember
    rw [RegistryView.liveCount, List.length_eq_zero_iff] at hnone
    rw [hnone] at hslot
    cases hslot
  have hcount : (setBits signers).length ≤ 1 := by
    rw [length_le_one_iff (nodup_setBits _)]
    intro i hi j hj
    exact hquorum.provider_unique i hi j hj (hproviders i hi) (hproviders j hj)
  have hrequired := hquorum.required_pos
  have hle := hquorum.required_le
  rw [Bitmap.popcount_eq_length] at hle
  have hone : signaturesRequired = 1 := by
    rw [← UInt8.toNat_inj]
    change signaturesRequired.toNat = 1
    omega
  obtain ⟨provider, hbits⟩ := List.length_eq_one_iff.mp (le_antisymm hcount (by omega))
  exact ⟨hone, provider, hproviders provider (by simp [hbits]), hbits⟩

/-- What the verifier accepted can be judged, unless the rounds run out or no node is live; then the
only signer is a provider. -/
theorem accepted_policed
    (h : verify prims attestation registry key = .ok ()) :
    ((∃ verdict, verifySelection prims.keccak attestation.payload.sourceId
        attestation.payload.timestamp attestation.payload.signaturesRequired registry
        attestation.signature.signersBitmap = .ok verdict) ↔
      0 < registry.liveCount ∧ ¬SelectionExhausted prims.keccak attestation.payload.sourceId
        attestation.payload.timestamp
        (nodeQuorum attestation.payload.signaturesRequired
          (Bitmap.load attestation.signature.signersBitmap)) registry) ∧
    (∀ e, verifySelection prims.keccak attestation.payload.sourceId
        attestation.payload.timestamp attestation.payload.signaturesRequired registry
        attestation.signature.signersBitmap = .error e → e = .groupBitmapDerivationFailed) ∧
    (registry.liveCount = 0 → attestation.payload.signaturesRequired = 1 ∧
      ∃ provider, nodeSlots ≤ provider ∧
        setBits (Bitmap.load attestation.signature.signersBitmap) = [provider]) := by
  obtain ⟨-, -, hquorum, coalition, hcoalition, -⟩ := verify_eq_ok_iff_checks.mp h
  refine ⟨exists_verifySelection_iff hquorum, fun e he => verifySelection_eq_error hquorum he, ?_⟩
  exact provider_of_no_live_node (checkQuorum_eq_ok_iff.mp hquorum)
    (namesLiveRecord_of_accumulateRegistrySigners hcoalition)

end Accepted

section Sample

/-- No node, and one provider with the generator as key. -/
def sampleProviderRegistry : RegistryView := ⟨1, 0, 1, 0, [], [sampleMember]⟩

theorem liveCount_sampleProviderRegistry : sampleProviderRegistry.liveCount = 0 := by decide

theorem verify_sampleProvider :
    verify (referencePrimitives sampleKeccak) (sampleAttestation 64) sampleProviderRegistry none =
      .ok () := by
  have hmember : sampleProviderRegistry.NamesLiveRecord 64 sampleMember :=
    ⟨fun h => absurd h (by decide), fun _ => ⟨by decide, rfl⟩, sampleMember_live⟩
  refine verify_singleton fieldExact_reference sumExact_reference rfl
    ((secp256k1ScalarIsValidNonzero_iff _).mpr (sampleAttestation_scalar 64))
    (sampleAttestation_quorum (by norm_num)) (setBits_sampleAttestation (by norm_num)) hmember
    sampleMember_storesPoint.canonicalXy ?_
  rw [sampleMember, toField_fieldBytes, toField_fieldBytes]
  exact recoverAndMatch_sample _

/-- A provider signs alone in a registry without nodes: it verifies, and no judgement is given. -/
theorem provider_alone_not_judged :
    verify (referencePrimitives sampleKeccak) (sampleAttestation 64) sampleProviderRegistry none =
        .ok () ∧
      (¬∃ verdict, verifySelection sampleKeccak (sampleAttestation 64).payload.sourceId
        (sampleAttestation 64).payload.timestamp
        (sampleAttestation 64).payload.signaturesRequired sampleProviderRegistry
        (sampleAttestation 64).signature.signersBitmap = .ok verdict) ∧
      ¬SelectionExhausted sampleKeccak (sampleAttestation 64).payload.sourceId
        (sampleAttestation 64).payload.timestamp
        (nodeQuorum (sampleAttestation 64).payload.signaturesRequired
          (Bitmap.load (sampleAttestation 64).signature.signersBitmap))
        sampleProviderRegistry := by
  have hnone := liveCount_sampleProviderRegistry
  refine ⟨verify_sampleProvider, ?_, ?_⟩
  · intro h
    have hlive := ((exists_verifySelection_iff
      (checkQuorum_eq_ok_iff.mpr (sampleAttestation_quorum (by norm_num)))).mp h).1
    rw [hnone] at hlive
    exact lt_irrefl 0 hlive
  · have hsize (required : UInt8) : committeeSize required sampleProviderRegistry = 0 := by
      rw [committeeSize_eq, hnone, Nat.zero_min]
    rw [SelectionExhausted, RoundsExhausted, hsize, Nat.zero_min]
    exact Nat.not_lt_zero _

/-- A node and a provider sign, so the committee is one node: the only one of the registry. -/
theorem attestationSelection_pair :
    attestationSelection sampleKeccak pairAttestation.payload.sourceId
      pairAttestation.payload.timestamp pairAttestation.payload.signaturesRequired
      (Bitmap.load pairAttestation.signature.signersBitmap) pairRegistry = .ok 1#256 := by
  have hlive : pairRegistry.liveSlots = [0] := by with_unfolding_all decide
  rw [attestationSelection,
    nodeQuorum_of_provider (by decide) nodeSlots_mem_pairAttestation le_rfl,
    deriveSelectionBitmap, hlive]
  rfl

/-- A node and a provider are judged; a provider alone in a registry without nodes is the only
signer. -/
theorem accepted_policed_sample :
    (∃ verdict, verifySelection sampleKeccak pairAttestation.payload.sourceId
      pairAttestation.payload.timestamp pairAttestation.payload.signaturesRequired pairRegistry
      pairAttestation.signature.signersBitmap = .ok verdict) ∧
    (sampleAttestation 64).payload.signaturesRequired = 1 ∧
      ∃ provider, nodeSlots ≤ provider ∧
        setBits (Bitmap.load (sampleAttestation 64).signature.signersBitmap) = [provider] := by
  have hdrawn := (of_deriveSelectionBitmap attestationSelection_pair).1
  exact ⟨(accepted_policed verify_pairAttestation).1.mpr hdrawn,
    (accepted_policed verify_sampleProvider).2.2 liveCount_sampleProviderRegistry⟩

end Sample

end MolphaVerifier
