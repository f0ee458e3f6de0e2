import MolphaVerifier.CommitteeSelection
import MolphaVerifier.FirstDistinctDraws

/-!
# Draws of different sizes

Up to half of the slots a larger draw continues a smaller one. Above half the draw of what is left
out shrinks, so the group grows again. A committee therefore keeps its members when the quorum or the
buffer is raised, as long as its size does not cross half of the live nodes.
-/

namespace MolphaVerifier

open FixedBytes BitVecIteration CappedCollection FallibleFolds

/-- Two results of sizes on one side of the half are nested: up to the half the larger one comes with
the smaller one inside it, above the half the smaller one comes with the larger one around it. -/
structure NestedResults (half size size' : ℕ) (result result' : Except AttestationError Bitmap) :
    Prop where
  up_to_half : size' ≤ half → ∀ larger, result' = .ok larger →
    ∃ smaller, result = .ok smaller ∧ setBits smaller ⊆ setBits larger
  above_half : half < size → ∀ smaller, result = .ok smaller →
    ∃ larger, result' = .ok larger ∧ setBits smaller ⊆ setBits larger

section Draws

variable {residues : List ℕ} {round : ℕ → Bytes 32} {n g g' : ℕ}

theorem drawnGroup_mono_up_to_half (h : g ≤ g') (hhalf : g' ≤ n / 2) :
    drawnGroup residues n g ⊆ drawnGroup residues n g' := by
  rw [drawnGroup, drawnGroup, if_neg (Nat.not_lt.mpr (h.trans hhalf)),
    if_neg (Nat.not_lt.mpr hhalf)]
  exact collect_empty_mono h residues

theorem drawnGroup_mono_above_half (h : g ≤ g') (hhalf : n / 2 < g) :
    drawnGroup residues n g ⊆ drawnGroup residues n g' := by
  rw [drawnGroup, drawnGroup, if_pos hhalf, if_pos (hhalf.trans_le h)]
  exact Finset.sdiff_subset_sdiff (Finset.Subset.refl _)
    (collect_empty_mono (Nat.sub_le_sub_left h n) residues)

theorem roundsExhausted_mono_up_to_half (h : g ≤ g') (hhalf : g' ≤ n / 2)
    (hrounds : RoundsExhausted round n g) : RoundsExhausted round n g' := by
  rw [RoundsExhausted] at hrounds ⊢
  omega

theorem roundsExhausted_mono_above_half (h : g ≤ g') (hhalf : n / 2 < g)
    (hrounds : RoundsExhausted round n g') : RoundsExhausted round n g := by
  rw [RoundsExhausted] at hrounds ⊢
  omega

theorem of_deriveGroupBitmapOver {bitmap : Bitmap} (h : deriveGroupBitmapOver round n g = .ok bitmap) :
    (0 < n ∧ n ≤ 256 ∧ g ≤ n ∧ ¬RoundsExhausted round n g) ∧
      ∀ i, bitmap.getLsbD i = true ↔ i ∈ drawnGroup (roundResidues round n) n g := by
  rcases deriveGroupBitmapOver_cases round n g with ⟨-, hrun⟩ | ⟨hproper, drawn, hrun, hbits⟩
  · rw [hrun] at h
    cases h
  · obtain rfl := Except.ok.inj (hrun.symm.trans h)
    exact ⟨hproper, hbits⟩

theorem setBits_subset_of_subset {bitmap bitmap' : Bitmap} {s t : Finset ℕ}
    (h : ∀ i, bitmap.getLsbD i = true ↔ i ∈ s) (h' : ∀ i, bitmap'.getLsbD i = true ↔ i ∈ t)
    (hsub : s ⊆ t) : setBits bitmap ⊆ setBits bitmap' := by
  intro i hi
  rw [mem_setBits, h] at hi
  rw [mem_setBits, h']
  exact hsub hi

theorem nestedResults_draw (round : ℕ → Bytes 32) (h : g ≤ g') (hsize : g' ≤ n) :
    NestedResults (n / 2) g g' (deriveGroupBitmapOver round n g)
      (deriveGroupBitmapOver round n g') where
  up_to_half hhalf larger hlarger := by
    obtain ⟨⟨hpos, hle, -, hrounds⟩, hbits⟩ := of_deriveGroupBitmapOver hlarger
    obtain ⟨smaller, hsmaller, hbits'⟩ := exists_deriveGroupBitmapOver hpos hle (h.trans hsize)
      (mt (roundsExhausted_mono_up_to_half h hhalf) hrounds)
    exact ⟨smaller, hsmaller,
      setBits_subset_of_subset hbits' hbits (drawnGroup_mono_up_to_half h hhalf)⟩
  above_half hhalf smaller hsmaller := by
    obtain ⟨⟨hpos, hle, -, hrounds⟩, hbits⟩ := of_deriveGroupBitmapOver hsmaller
    obtain ⟨larger, hlarger, hbits'⟩ := exists_deriveGroupBitmapOver hpos hle hsize
      (mt (roundsExhausted_mono_above_half h hhalf) hrounds)
    exact ⟨larger, hlarger,
      setBits_subset_of_subset hbits hbits' (drawnGroup_mono_above_half h hhalf)⟩

end Draws

section Committees

variable {keccak : Keccak} {sourceId : Bytes 32} {timestamp timestamp' : UInt64}
  {signaturesRequired signaturesRequired' : UInt8} {registry : RegistryView}
  {redundancyBuffer' : UInt8}

def RegistryView.withBuffer (registry : RegistryView) (redundancyBuffer : UInt8) : RegistryView :=
  { registry with redundancyBuffer := redundancyBuffer }

theorem committeeSize_mono (hrequired : signaturesRequired ≤ signaturesRequired')
    (hbuffer : registry.redundancyBuffer ≤ redundancyBuffer') :
    committeeSize signaturesRequired registry ≤
      committeeSize signaturesRequired' (registry.withBuffer redundancyBuffer') := by
  have hlive : (registry.withBuffer redundancyBuffer').liveCount = registry.liveCount := rfl
  have hraised : (registry.withBuffer redundancyBuffer').redundancyBuffer = redundancyBuffer' := rfl
  rw [UInt8.le_iff_toNat_le] at hrequired hbuffer
  rw [committeeSize_eq, committeeSize_eq, hlive, hraised]
  omega

theorem selectionRounds_withBuffer
    (hwindow : timestamp.toNat / selectionWindowMs = timestamp'.toNat / selectionWindowMs) :
    selectionRounds keccak sourceId timestamp' (registry.withBuffer redundancyBuffer') =
      selectionRounds keccak sourceId timestamp registry := by
  rw [selectionRounds, selectionRounds, selectionSeed, selectionSeed, hwindow]
  rfl

theorem setBits_subset_of_ranks {committee committee' : Bitmap} {ranks ranks' : Finset ℕ}
    {live : List ℕ}
    (h : ∀ i, committee.getLsbD i = true ↔ ∃ rank ∈ ranks, live[rank]? = some i)
    (h' : ∀ i, committee'.getLsbD i = true ↔ ∃ rank ∈ ranks', live[rank]? = some i)
    (hsub : ranks ⊆ ranks') : setBits committee ⊆ setBits committee' := by
  intro i hi
  rw [mem_setBits, h] at hi
  rw [mem_setBits, h']
  obtain ⟨rank, hrank, hslot⟩ := hi
  exact ⟨rank, hsub hrank, hslot⟩

theorem nestedResults_committee
    (hwindow : timestamp.toNat / selectionWindowMs = timestamp'.toNat / selectionWindowMs)
    (hrequired : signaturesRequired ≤ signaturesRequired')
    (hbuffer : registry.redundancyBuffer ≤ redundancyBuffer') :
    NestedResults (registry.liveCount / 2) (committeeSize signaturesRequired registry)
      (committeeSize signaturesRequired' (registry.withBuffer redundancyBuffer'))
      (deriveSelectionBitmap keccak sourceId timestamp signaturesRequired registry)
      (deriveSelectionBitmap keccak sourceId timestamp' signaturesRequired'
        (registry.withBuffer redundancyBuffer')) := by
  have hlive : (registry.withBuffer redundancyBuffer').liveSlots = registry.liveSlots := rfl
  have hcount : (registry.withBuffer redundancyBuffer').liveCount = registry.liveCount := rfl
  have hsize := committeeSize_mono hrequired hbuffer
  have hrounds := @selectionRounds_withBuffer keccak sourceId timestamp timestamp' registry
    redundancyBuffer' hwindow
  constructor
  · intro hhalf larger hlarger
    obtain ⟨⟨hpos, henough⟩, hbits⟩ := of_deriveSelectionBitmap hlarger
    rw [hcount] at hpos
    rw [SelectionExhausted, hrounds, hcount] at henough
    rw [drawnRanks, hrounds, hcount, hlive] at hbits
    obtain ⟨-, smaller, -, hsmaller, -, -, hbits'⟩ := exists_deriveSelectionBitmap hpos
      (mt (roundsExhausted_mono_up_to_half hsize hhalf) henough)
    exact ⟨smaller, hsmaller,
      setBits_subset_of_ranks hbits' hbits (drawnGroup_mono_up_to_half hsize hhalf)⟩
  · intro hhalf smaller hsmaller
    obtain ⟨⟨hpos, henough⟩, hbits⟩ := of_deriveSelectionBitmap hsmaller
    have henough' : ¬SelectionExhausted keccak sourceId timestamp' signaturesRequired'
        (registry.withBuffer redundancyBuffer') := by
      rw [SelectionExhausted, hrounds, hcount]
      exact mt (roundsExhausted_mono_above_half hsize hhalf) henough
    obtain ⟨-, larger, -, hlarger, -, -, hbits'⟩ := exists_deriveSelectionBitmap
      (hpos.trans_eq hcount.symm) henough'
    rw [drawnRanks, hrounds, hcount, hlive] at hbits'
    exact ⟨larger, hlarger,
      setBits_subset_of_ranks hbits hbits' (drawnGroup_mono_above_half hsize hhalf)⟩

end Committees

/-- Draws of two sizes on one side of half of the slots are nested, and so are the committees of one
window of a registry when the quorum or the buffer is raised. -/
theorem draws_nested (keccak : Keccak) :
    (∀ (seed : Bytes 32) (n g g' : ℕ), n ≤ 256 → g < g' → g' ≤ n →
      NestedResults (n / 2) g g' (deriveGroupBitmap keccak seed n g)
        (deriveGroupBitmap keccak seed n g')) ∧
    ∀ (sourceId : Bytes 32) (timestamp timestamp' : UInt64)
      (signaturesRequired signaturesRequired' : UInt8) (registry : RegistryView)
      (redundancyBuffer' : UInt8),
      timestamp.toNat / selectionWindowMs = timestamp'.toNat / selectionWindowMs →
      signaturesRequired ≤ signaturesRequired' → registry.redundancyBuffer ≤ redundancyBuffer' →
      NestedResults (registry.liveCount / 2) (committeeSize signaturesRequired registry)
        (committeeSize signaturesRequired' (registry.withBuffer redundancyBuffer'))
        (deriveSelectionBitmap keccak sourceId timestamp signaturesRequired registry)
        (deriveSelectionBitmap keccak sourceId timestamp' signaturesRequired'
          (registry.withBuffer redundancyBuffer')) := by
  constructor
  · intro seed n g g' _ hlt hsize
    exact nestedResults_draw (selectionHashRound keccak seed) hlt.le hsize
  · intro sourceId timestamp timestamp' signaturesRequired signaturesRequired' registry
      redundancyBuffer' hwindow hrequired hbuffer
    exact nestedResults_committee hwindow hrequired hbuffer

section Sample

theorem draws_nested_sample :
    (∃ larger, deriveGroupBitmap sampleDrawKeccak (Vector.replicate 32 0) 3 3 = .ok larger ∧
      setBits 3#256 ⊆ setBits larger) ∧
    ∃ larger, deriveSelectionBitmap sampleDrawKeccak (Vector.replicate 32 0) 999 2
        (sampleHoledRegistry.withBuffer 1) = .ok larger ∧
      setBits 5#256 ⊆ setBits larger := by
  have hhalf : sampleHoledRegistry.liveCount / 2 < committeeSize 2 sampleHoledRegistry := by
    rw [committeeSize_eq, liveCount_sampleHoledRegistry]
    decide
  exact ⟨((draws_nested sampleDrawKeccak).1 (Vector.replicate 32 0) 3 2 3 (by norm_num)
      (by norm_num) (le_refl 3)).above_half (by norm_num) _
        (deriveGroupBitmap_sample_two (Vector.replicate 32 0)),
    ((draws_nested sampleDrawKeccak).2 (Vector.replicate 32 0) 0 999 2 2 sampleHoledRegistry 1
      (by decide) (le_refl 2) (by decide)).above_half hhalf _ deriveSelectionBitmap_sample_two⟩

end Sample

end MolphaVerifier
