import MolphaVerifier.CommitteePolicing
import MolphaVerifier.RandomOracleCommittees

/-!
# Captured rounds

Corrupted nodes capture a round when signers from among them, next to the provider of a provider
round, meet the quorum and are not flagged. That is a question of how many of them were drawn. Under
a random hash the rounds of any finite family are spared with the product of their hypergeometric
tails, so trying more sources, windows or registry versions gains nothing but the number of tries.
-/

namespace MolphaVerifier

open FixedBytes BitVecIteration FallibleFolds UniformLaws

open scoped ENNReal

/-- A round whose committee is policed. -/
structure PolicedRound where
  sourceId : Bytes 32
  timestamp : UInt64
  signaturesRequired : UInt8
  withProvider : Bool
  registry : RegistryView

namespace PolicedRound

variable (keccak : Keccak) (round : PolicedRound) (corrupted : Finset ℕ)

/-- The node signers the round asks for: a provider is the last signer of the quorum. -/
def nodeSigners : UInt8 :=
  if round.withProvider then round.signaturesRequired - 1 else round.signaturesRequired

def selection : SelectionRound :=
  ⟨round.sourceId, round.timestamp, round.nodeSigners, round.registry⟩

/-- Signers that are corrupted, but for a provider, pass the judgement. -/
def Captured : Prop :=
  ∃ signersBitmap : Bytes 32,
    (∀ bit ∈ setBits (Bitmap.load signersBitmap), bit < nodeSlots → bit ∈ corrupted) ∧
      ((∃ bit ∈ setBits (Bitmap.load signersBitmap), nodeSlots ≤ bit) ↔
        round.withProvider = true) ∧
      verifySelection keccak round.sourceId round.timestamp round.signaturesRequired round.registry
        signersBitmap = .ok true

/-- The probability that a round is spared: failures of the sampler, and the draws with too few
corrupted seats. -/
noncomputable def spared : ℝ≥0∞ :=
  round.selection.law keccak none + (1 - round.selection.law keccak none) *
    ((∑ seats ∈ Finset.range (min round.nodeSigners.toNat (round.selection.size + 1)),
        (round.selection.live ∩ corrupted).card.choose seats *
          (round.selection.live \ corrupted).card.choose (round.selection.size - seats) : ℕ) /
      (round.selection.live.card.choose round.selection.size : ℕ))

end PolicedRound

section Capture

variable {keccak : Keccak} {round : PolicedRound} {corrupted : Finset ℕ} {signers : Bitmap}

theorem MeetsQuorum.le_card_nodes {signaturesRequired : UInt8}
    (h : MeetsQuorum signers signaturesRequired) :
    signaturesRequired.toNat ≤ ((setBits signers).toFinset.filter (· < nodeSlots)).card +
      if ∃ bit ∈ setBits signers, nodeSlots ≤ bit then 1 else 0 := by
  have hsplit := Finset.card_filter_add_card_filter_not (s := (setBits signers).toFinset)
    (· < nodeSlots)
  have hcount := h.required_le
  rw [Bitmap.popcount_eq_length, ← List.toFinset_card_of_nodup (nodup_setBits signers)] at hcount
  have hproviders : ((setBits signers).toFinset.filter fun bit => ¬bit < nodeSlots).card ≤
      if ∃ bit ∈ setBits signers, nodeSlots ≤ bit then 1 else 0 := by
    split
    case isTrue =>
      rw [Finset.card_le_one]
      intro bit hbit bit' hbit'
      rw [Finset.mem_filter, List.mem_toFinset, not_lt] at hbit hbit'
      exact h.provider_unique bit hbit.1 bit' hbit'.1 hbit.2 hbit'.2
    case isFalse hnone =>
      rw [Nat.le_zero, Finset.card_eq_zero, Finset.filter_eq_empty_iff]
      intro bit hbit hprovider
      exact hnone ⟨bit, List.mem_toFinset.mp hbit, not_lt.mp hprovider⟩
  omega

theorem PolicedRound.nodeQuorum_eq (hpos : 1 ≤ round.signaturesRequired.toNat)
    (hprovider : (∃ bit ∈ setBits signers, nodeSlots ≤ bit) ↔ round.withProvider = true) :
    nodeQuorum round.signaturesRequired signers = round.nodeSigners := by
  rw [PolicedRound.nodeSigners]
  by_cases h : ∃ bit ∈ setBits signers, nodeSlots ≤ bit
  · obtain ⟨bit, hbit, hslot⟩ := id h
    rw [if_pos (hprovider.mp h), nodeQuorum_of_provider hpos hbit hslot]
  · rw [if_neg (mt hprovider.mpr h)]
    refine nodeQuorum_of_nodes fun bit hbit => ?_
    exact not_le.mp fun hslot => h ⟨bit, hbit, hslot⟩

theorem PolicedRound.toNat_nodeSigners (hpos : 1 ≤ round.signaturesRequired.toNat) :
    round.nodeSigners.toNat =
      round.signaturesRequired.toNat - if round.withProvider then 1 else 0 := by
  rw [PolicedRound.nodeSigners]
  split
  · exact UInt8.toNat_sub_of_le _ _ (by simpa [UInt8.le_iff_toNat_le] using hpos)
  · rfl

theorem SelectionRound.mem_committee_iff {round : SelectionRound} {C : Finset ℕ} :
    C ∈ round.committee keccak ↔ ∃ committee, deriveSelectionBitmap keccak round.sourceId
      round.timestamp round.signaturesRequired round.registry = .ok committee ∧
        (setBits committee).toFinset = C := by
  rw [SelectionRound.committee]
  cases deriveSelectionBitmap keccak round.sourceId round.timestamp round.signaturesRequired
      round.registry with
  | error e => simp [drawnSlots]
  | ok committee => simp [drawnSlots]

theorem PolicedRound.captured_of_drawn {committee : Bitmap}
    (hquorum : MeetsQuorum signers round.signaturesRequired)
    (hprovider : (∃ bit ∈ setBits signers, nodeSlots ≤ bit) ↔ round.withProvider = true)
    (hdraw : deriveSelectionBitmap keccak round.sourceId round.timestamp round.nodeSigners
      round.registry = .ok committee)
    (hsigners : ∀ bit ∈ setBits signers, bit < nodeSlots →
      bit ∈ (setBits committee).toFinset ∩ corrupted) : round.Captured keccak corrupted := by
  refine ⟨signers.toBytes, ?_, ?_, ?_⟩
  · rw [Bitmap.load_toBytes]
    intro bit hbit hnode
    exact (Finset.mem_inter.mp (hsigners bit hbit hnode)).2
  · rwa [Bitmap.load_toBytes]
  · have hselection : attestationSelection keccak round.sourceId round.timestamp
        round.signaturesRequired signers round.registry = .ok committee := by
      rw [attestationSelection, PolicedRound.nodeQuorum_eq hquorum.required_pos hprovider, hdraw]
    rw [verifySelection_eq hquorum hselection, isSubset_nodeBits_iff.mpr]
    intro bit hbit hnode
    exact List.mem_toFinset.mp (Finset.mem_inter.mp (hsigners bit hbit hnode)).1

theorem PolicedRound.exists_committee_of_captured (hpos : 1 ≤ round.signaturesRequired.toNat)
    (h : round.Captured keccak corrupted) :
    ∃ C ∈ round.selection.committee keccak, round.nodeSigners.toNat ≤ (C ∩ corrupted).card := by
  obtain ⟨signersBitmap, hnodes, hprovider, hverdict⟩ := h
  have hquorum : MeetsQuorum (Bitmap.load signersBitmap) round.signaturesRequired := by
    rw [verifySelection, bind_eq_ok_iff] at hverdict
    obtain ⟨⟨⟩, hquorum, -⟩ := hverdict
    exact checkQuorum_eq_ok_iff.mp hquorum
  rw [verifySelection_of_quorum (checkQuorum_eq_ok_iff.mpr hquorum),
    PolicedRound.nodeQuorum_eq hpos hprovider, bind_eq_ok_iff] at hverdict
  obtain ⟨committee, hdraw, hsubset⟩ := hverdict
  have hdrawn := isSubset_nodeBits_iff.mp (Except.ok.inj hsubset)
  have hsub : (setBits (Bitmap.load signersBitmap)).toFinset.filter (· < nodeSlots) ⊆
      (setBits committee).toFinset ∩ corrupted := by
    intro bit hbit
    rw [Finset.mem_filter, List.mem_toFinset] at hbit
    rw [Finset.mem_inter, List.mem_toFinset]
    exact ⟨hdrawn bit hbit.1 hbit.2, hnodes bit hbit.1 hbit.2⟩
  have hcard := Finset.card_le_card hsub
  have hle := hquorum.le_card_nodes
  simp only [hprovider] at hle
  refine ⟨_, SelectionRound.mem_committee_iff.mpr ⟨committee, hdraw, rfl⟩, ?_⟩
  rw [PolicedRound.toNat_nodeSigners hpos]
  omega

/-- All corrupted members of a committee sign, with the first provider slot in a provider round. -/
theorem PolicedRound.captured_of_committee {C : Finset ℕ}
    (hpos : 1 ≤ round.signaturesRequired.toNat) (hC : C ∈ round.selection.committee keccak)
    (hcard : round.nodeSigners.toNat ≤ (C ∩ corrupted).card) :
    round.Captured keccak corrupted := by
  obtain ⟨committee, hdraw, rfl⟩ := SelectionRound.mem_committee_iff.mp hC
  have hnode : ∀ bit ∈ (setBits committee).toFinset ∩ corrupted, bit < nodeSlots := by
    intro bit hbit
    exact lt_nodeSlots_of_committee hdraw bit (List.mem_toFinset.mp (Finset.mem_inter.mp hbit).1)
  have hmem := mem_setBits_bitmapOf fun bit hbit => (hnode bit hbit).trans (by decide)
  have hnodes : ∀ bit ∈ setBits (bitmapOf ((setBits committee).toFinset ∩ corrupted)),
      bit < nodeSlots := fun bit hbit => hnode bit ((hmem bit).mp hbit)
  have hcount : ((setBits committee).toFinset ∩ corrupted).card =
      Bitmap.popcount (bitmapOf ((setBits committee).toFinset ∩ corrupted)) := by
    rw [Bitmap.popcount_eq_length, ← List.toFinset_card_of_nodup (nodup_setBits _),
      toFinset_setBits_bitmapOf fun bit hbit => (hnode bit hbit).trans (by decide)]
  rw [PolicedRound.toNat_nodeSigners hpos, hcount] at hcard
  cases hkind : round.withProvider with
  | false =>
    rw [hkind] at hcard
    refine PolicedRound.captured_of_drawn (meetsQuorum_of_nodes hpos hcard hnodes) ?_ hdraw
      fun bit hbit _ => (hmem bit).mp hbit
    rw [hkind]
    refine iff_of_false ?_ Bool.false_ne_true
    rintro ⟨bit, hbit, hslot⟩
    exact absurd (hnodes bit hbit) (Nat.not_lt.mpr hslot)
  | true =>
    rw [hkind] at hcard
    have hslot : nodeSlots < 256 := by decide
    refine PolicedRound.captured_of_drawn
      (meetsQuorum_of_provider hpos hcard hnodes le_rfl hslot) ?_ hdraw ?_
    · exact iff_of_true ⟨nodeSlots, (mem_setBits_setBit hslot).mpr (.inr rfl), le_rfl⟩ hkind
    · intro bit hbit hlt
      rcases (mem_setBits_setBit hslot).mp hbit with hold | hnew
      · exact (hmem bit).mp hold
      · omega

/-- Capturing a round is having its node signers among the drawn. -/
theorem PolicedRound.captured_iff (hpos : 1 ≤ round.signaturesRequired.toNat) :
    round.Captured keccak corrupted ↔
      ∃ C ∈ round.selection.committee keccak, round.nodeSigners.toNat ≤ (C ∩ corrupted).card := by
  constructor
  · exact PolicedRound.exists_committee_of_captured hpos
  · rintro ⟨C, hC, hcard⟩
    exact PolicedRound.captured_of_committee hpos hC hcard

end Capture

section Family

variable (keccak : Keccak)

theorem PolicedRound.toOuterMeasure_spared (round : PolicedRound) (corrupted : Finset ℕ)
    (hlive : 0 < round.registry.liveCount) :
    (PMF.uniformOfFintype (Fin deriveGroupBitmapMaxRounds → Bytes 32)).toOuterMeasure
        {digests | ∀ C ∈ round.selection.committeeOver (roundsOf SelectionRound.noTail digests),
          (C ∩ corrupted).card < round.nodeSigners.toNat} = round.spared keccak corrupted := by
  rw [PolicedRound.spared,
    ← (round.selection.flatExcept_law keccak hlive).hypergeometric_lt corrupted,
    SelectionRound.law_eq, PMF.toOuterMeasure_map_apply]
  rfl

/-- The rounds of a family are all spared with the product of their probabilities. -/
theorem capture_law {ι : Type*} [Fintype ι] [DecidableEq ι] (rounds : ι → PolicedRound)
    (hseeds : Function.Injective fun i => (rounds i).selection.seed keccak)
    (hpos : ∀ i, 1 ≤ (rounds i).signaturesRequired.toNat)
    (hlive : ∀ i, 0 < (rounds i).registry.liveCount) (corrupted : ι → Finset ℕ) :
    (PMF.uniformOfFintype (ι → Fin deriveGroupBitmapMaxRounds → Bytes 32)).toOuterMeasure
        {digests | ∀ i, ¬(rounds i).Captured
          (programRounds keccak (fun i => (rounds i).selection.seed keccak) digests)
          (corrupted i)} =
      ∏ i, (rounds i).spared keccak (corrupted i) := by
  classical
  have hevent : {digests | ∀ i, ¬(rounds i).Captured
      (programRounds keccak (fun i => (rounds i).selection.seed keccak) digests) (corrupted i)} =
        {digests : ι → Fin deriveGroupBitmapMaxRounds → Bytes 32 | ∀ i, ∀ C ∈
          (rounds i).selection.committeeOver (roundsOf SelectionRound.noTail (digests i)),
            (C ∩ corrupted i).card < (rounds i).nodeSigners.toNat} := by
    ext digests
    refine forall_congr' fun i => ?_
    rw [PolicedRound.captured_iff (hpos i),
      @committee_programRounds keccak ι (fun i => (rounds i).selection) hseeds digests
        SelectionRound.noTail i]
    simp only [not_exists, not_and, not_le]
  rw [hevent, toOuterMeasure_uniform_pi fun i digests => ∀ C ∈
    (rounds i).selection.committeeOver (roundsOf SelectionRound.noTail digests),
      (C ∩ corrupted i).card < (rounds i).nodeSigners.toNat]
  apply Finset.prod_congr rfl
  intro i _
  exact (rounds i).toOuterMeasure_spared keccak (corrupted i) (hlive i)

end Family

section Sample

def samplePolicedRound (source : ℕ) : PolicedRound :=
  ⟨natToBytes 32 source, 0, 1, false, ⟨1, 3, 0, 0, [], []⟩⟩

theorem spared_samplePolicedRound (source : ℕ) :
    (samplePolicedRound source).spared sourceKeccak {1} =
      (sampleRound source).law sourceKeccak none +
        (1 - (sampleRound source).law sourceKeccak none) * ((2 : ℕ) / (3 : ℕ)) := rfl

/-- One corrupted node of three is left out of the committees of two sources. -/
theorem capture_law_sample :
    (PMF.uniformOfFintype (Fin 2 → Fin deriveGroupBitmapMaxRounds → Bytes 32)).toOuterMeasure
        {digests | ∀ i : Fin 2, ¬(samplePolicedRound i.val).Captured (programRounds sourceKeccak
          (fun i : Fin 2 => (samplePolicedRound i.val).selection.seed sourceKeccak) digests) {1}} =
      ((sampleRound 0).law sourceKeccak none +
          (1 - (sampleRound 0).law sourceKeccak none) * ((2 : ℕ) / (3 : ℕ))) *
        ((sampleRound 1).law sourceKeccak none +
          (1 - (sampleRound 1).law sourceKeccak none) * ((2 : ℕ) / (3 : ℕ))) := by
  rw [capture_law sourceKeccak (fun i : Fin 2 => samplePolicedRound i.val) seed_sampleRound
    (fun _ => le_rfl) (fun _ => (by decide : 0 < 3)) fun _ => {1}, Fin.prod_univ_two,
    spared_samplePolicedRound, spared_samplePolicedRound]
  rfl

end Sample

end MolphaVerifier
