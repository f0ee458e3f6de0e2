import MolphaVerifier.AttestationVerification
import MolphaVerifier.GroupSampling

/-!
# Selecting the committee of a round

The committee is drawn over the ranks of the live nodes and mapped to their slots. `selection_exact`
says which bits it has and when the draw fails; `selection_packed` says that holes, providers and
later records only relabel the draw.
-/

namespace MolphaVerifier

open FixedBytes BitVecIteration FallibleFolds RankedFilters

/-- `keccak256("MOLPHA_SELECTION_V1")`. -/
def selectionSeedPrefix : Bytes 32 := #v[
  0x1d, 0xef, 0x81, 0x59, 0xcb, 0xcf, 0xcd, 0xfd, 0x72, 0x8d, 0x41, 0x97, 0x51, 0x9a, 0x57, 0xc0,
  0x6e, 0x24, 0x3f, 0x0d, 0x94, 0x68, 0xb4, 0xc1, 0xe5, 0xc4, 0xa2, 0x33, 0xfc, 0x56, 0x53, 0xc3]

/-- Width in milliseconds of the window that feeds committee selection. -/
def selectionWindowMs : ℕ := 1000

def selectionSeed (keccak : Keccak) (sourceId : Bytes 32) (timestamp : UInt64)
    (registryVersion : UInt32) : Bytes 32 :=
  let registryVersionBytes := natToBytes 4 registryVersion.toNat
  let selectionWindowBytes := natToBytes 8 (timestamp.toNat / selectionWindowMs)
  hashv keccak [selectionSeedPrefix.toList, sourceId.toList, registryVersionBytes.toList,
    selectionWindowBytes.toList]

/-- Replace every selected rank by the live slot of that rank. -/
def mapRanks (live : List ℕ) (ranks : Bitmap) : Except AttestationError Bitmap := do
  let visited ← (forEachSetBit ranks fun rank => modifyM fun slots =>
    match live[rank]? with
    | some slot => .ok (setBit slots slot)
    | none => .error .groupBitmapDerivationFailed).run Bitmap.empty
  pure visited.2

/-- The selection bitmap of a round; the timestamp is in unix milliseconds. -/
def deriveSelectionBitmap (keccak : Keccak) (sourceId : Bytes 32) (timestamp : UInt64)
    (signaturesRequired : UInt8) (registry : RegistryView) : Except AttestationError Bitmap := do
  let seed := selectionSeed keccak sourceId timestamp registry.version
  let live := registry.liveSlots
  let liveCount := live.length
  let selectionSize :=
    effectiveSelectionSize signaturesRequired registry.redundancyBuffer liveCount
  let ranks ← deriveGroupBitmap keccak seed liveCount selectionSize
  -- Without holes the ranks are the slots.
  if liveCount = min registry.nodeCount.toNat nodeSlots then .ok ranks else mapRanks live ranks

section Mapping

variable {test : ℕ → Bool} {bound : ℕ} {ranks : Bitmap}

/-- Mapping succeeds when every selected rank is below the live count, and it sets the slots of the
selected ranks. -/
theorem exists_mapRanks (hbound : bound ≤ 256)
    (hranks : ∀ rank ∈ setBits ranks, rank < (membersBelow test bound).length) :
    ∃ slots, mapRanks (membersBelow test bound) ranks = .ok slots ∧
      ∀ i, slots.getLsbD i = true ↔
        ∃ rank ∈ setBits ranks, (membersBelow test bound)[rank]? = some i := by
  -- What is set is the slots of the ranks visited so far.
  let Mapped (done : List ℕ) (slots : Bitmap) : Prop := ∀ i, slots.getLsbD i = true ↔
    ∃ rank ∈ done, (membersBelow test bound)[rank]? = some i
  have hstart : Mapped [] Bitmap.empty := fun i => by simp [Bitmap.empty]
  have hstep (done : List ℕ) (rank : ℕ) (slots : Bitmap) (hrank : rank ∈ setBits ranks)
      (hdone : Mapped done slots) : ∃ slots', (match (membersBelow test bound)[rank]? with
        | some slot => .ok (setBit slots slot)
        | none => .error .groupBitmapDerivationFailed : Except AttestationError Bitmap) =
          .ok slots' ∧ Mapped (done ++ [rank]) slots' := by
    obtain ⟨slot, hslot⟩ := exists_getElem?_membersBelow (hranks rank hrank)
    have hlt : slot < 256 := (getElem?_membersBelow.mp hslot).1.1.trans_le hbound
    refine ⟨setBit slots slot, by rw [hslot], fun i => ?_⟩
    rw [getLsbD_setBit hlt, Bool.or_eq_true, decide_eq_true_eq, hdone]
    constructor
    · rintro (⟨rank', hmem, hget⟩ | rfl)
      · exact ⟨rank', List.mem_append_left _ hmem, hget⟩
      · exact ⟨rank, List.mem_append_right _ List.mem_cons_self, hslot⟩
    · rintro ⟨rank', hmem, hget⟩
      rcases List.mem_append.mp hmem with hold | hnew
      · exact .inl ⟨rank', hold, hget⟩
      · rw [List.mem_singleton.mp hnew, hslot] at hget
        exact .inr (Option.some.inj hget).symm
  obtain ⟨slots, hslots, hbits⟩ := foldlM_total [] Mapped hstep hstart
  refine ⟨slots, ?_, hbits⟩
  rw [mapRanks, run_forEachSetBit_modifyM, hslots]
  rfl

end Mapping

section Draw

variable (keccak : Keccak) (sourceId : Bytes 32) (timestamp : UInt64) (signaturesRequired : UInt8)
  (registry : RegistryView)

def selectionRounds : ℕ → Bytes 32 :=
  selectionHashRound keccak (selectionSeed keccak sourceId timestamp registry.version)

/-- Quorum and buffer, at most all live nodes. -/
def committeeSize : ℕ :=
  effectiveSelectionSize signaturesRequired registry.redundancyBuffer registry.liveCount

/-- The rounds hold too few distinct ranks for the committee. -/
def SelectionExhausted : Prop :=
  RoundsExhausted (selectionRounds keccak sourceId timestamp registry) registry.liveCount
    (committeeSize signaturesRequired registry)

def drawnRanks : Finset ℕ :=
  drawnGroup (roundResidues (selectionRounds keccak sourceId timestamp registry) registry.liveCount)
    registry.liveCount (committeeSize signaturesRequired registry)

variable {keccak sourceId timestamp signaturesRequired registry}

theorem committeeSize_eq : committeeSize signaturesRequired registry =
    min registry.liveCount (signaturesRequired.toNat + registry.redundancyBuffer.toNat) := by
  have hrequired := signaturesRequired.toNat_lt
  have hbuffer := registry.redundancyBuffer.toNat_lt
  rw [committeeSize, effectiveSelectionSize, saturatingAdd]
  omega

theorem committeeSize_le : committeeSize signaturesRequired registry ≤ registry.liveCount :=
  Nat.min_le_right _ _

theorem lt_of_mem_drawnRanks (hpos : 0 < registry.liveCount) {rank : ℕ}
    (h : rank ∈ drawnRanks keccak sourceId timestamp signaturesRequired registry) :
    rank < registry.liveCount :=
  Finset.mem_range.mp (drawnGroup_subset hpos _ h)

theorem deriveGroupBitmap_of_failed (h : registry.liveCount = 0 ∨
      SelectionExhausted keccak sourceId timestamp signaturesRequired registry) :
    deriveGroupBitmap keccak (selectionSeed keccak sourceId timestamp registry.version)
        registry.liveCount (committeeSize signaturesRequired registry) =
      .error .groupBitmapDerivationFailed := by
  rw [deriveGroupBitmap]
  rcases h with hnone | hrounds
  · rw [deriveGroupBitmapOver, dif_pos (.inl hnone)]
  · exact deriveGroupBitmapOver_of_exhausted hrounds

theorem of_deriveGroupBitmap {ranks : Bitmap}
    (h : deriveGroupBitmap keccak (selectionSeed keccak sourceId timestamp registry.version)
      registry.liveCount (committeeSize signaturesRequired registry) = .ok ranks) :
    0 < registry.liveCount ∧
      ¬SelectionExhausted keccak sourceId timestamp signaturesRequired registry := by
  rw [Nat.pos_iff_ne_zero, ← not_or]
  intro hfailed
  rw [deriveGroupBitmap_of_failed hfailed] at h
  exact nomatch h

theorem deriveSelectionBitmap_of_failed (h : registry.liveCount = 0 ∨
      SelectionExhausted keccak sourceId timestamp signaturesRequired registry) :
    deriveSelectionBitmap keccak sourceId timestamp signaturesRequired registry =
      .error .groupBitmapDerivationFailed := by
  rw [deriveSelectionBitmap]
  exact bind_eq_error_iff.mpr (.inl (deriveGroupBitmap_of_failed h))

theorem liveSlots_self_of_full {rank : ℕ}
    (hfull : registry.liveSlots.length = min registry.nodeCount.toNat nodeSlots)
    (hrank : rank < registry.liveCount) : registry.liveSlots[rank]? = some rank := by
  obtain ⟨test, htest⟩ := registry.exists_liveSlots_eq
  have hrange : registry.liveSlots = List.range registry.examinedSlots := by
    rw [htest] at hfull ⊢
    exact membersBelow_eq_range hfull
  rw [RegistryView.liveCount, hrange, List.length_range] at hrank
  rw [hrange, List.getElem?_range hrank]

theorem ranks_eq_of_full {ranks committee : Bitmap} {chosen : Finset ℕ}
    (hfull : registry.liveSlots.length = min registry.nodeCount.toNat nodeSlots)
    (hlt : ∀ rank ∈ chosen, rank < registry.liveCount)
    (hranks : ∀ rank, ranks.getLsbD rank = true ↔ rank ∈ chosen)
    (hbits : ∀ i, committee.getLsbD i = true ↔
      ∃ rank ∈ chosen, registry.liveSlots[rank]? = some i) : ranks = committee := by
  refine BitVec.eq_of_getLsbD_eq fun i _ => ?_
  rw [Bool.eq_iff_iff, hranks, hbits]
  constructor
  · intro hi
    exact ⟨i, hi, liveSlots_self_of_full hfull (hlt i hi)⟩
  · rintro ⟨rank, hrank, hget⟩
    rw [liveSlots_self_of_full hfull (hlt rank hrank)] at hget
    rwa [← Option.some.inj hget]

/-- With a live node and enough rounds the committee is the live slots of the drawn ranks, and every
drawn rank has one. -/
theorem exists_deriveSelectionBitmap (hpos : 0 < registry.liveCount)
    (hrounds : ¬SelectionExhausted keccak sourceId timestamp signaturesRequired registry) :
    ∃ ranks committee, deriveGroupBitmap keccak
        (selectionSeed keccak sourceId timestamp registry.version) registry.liveCount
        (committeeSize signaturesRequired registry) = .ok ranks ∧
      deriveSelectionBitmap keccak sourceId timestamp signaturesRequired registry =
        .ok committee ∧
      mapRanks registry.liveSlots ranks = .ok committee ∧
      (∀ rank, ranks.getLsbD rank = true ↔
        rank ∈ drawnRanks keccak sourceId timestamp signaturesRequired registry) ∧
      ∀ i, committee.getLsbD i = true ↔
        ∃ rank ∈ drawnRanks keccak sourceId timestamp signaturesRequired registry,
          registry.liveSlots[rank]? = some i := by
  obtain ⟨test, htest⟩ := registry.exists_liveSlots_eq
  have hslots : registry.examinedSlots ≤ 256 := registry.examinedSlots_le.trans (by decide)
  obtain ⟨ranks, hgroup, hranks⟩ := exists_deriveGroupBitmapOver hpos
    (registry.liveCount_le.trans (by decide)) committeeSize_le hrounds
  have hbelow : ∀ rank ∈ setBits ranks,
      rank < (membersBelow test registry.examinedSlots).length := by
    intro rank hrank
    rw [← htest]
    exact lt_of_mem_drawnRanks hpos ((hranks rank).mp (mem_setBits.mp hrank))
  obtain ⟨committee, hmapped, hbits⟩ := exists_mapRanks hslots hbelow
  rw [← htest] at hmapped hbits
  simp only [mem_setBits, hranks] at hbits
  refine ⟨ranks, committee, hgroup, ?_, hmapped, hranks, hbits⟩
  rw [deriveSelectionBitmap, deriveGroupBitmap]
  refine bind_eq_ok_iff.mpr ⟨ranks, hgroup, ?_⟩
  by_cases hdense : registry.liveSlots.length = min registry.nodeCount.toNat nodeSlots
  · have hsame : ranks = committee :=
      ranks_eq_of_full hdense (fun _ hrank => lt_of_mem_drawnRanks hpos hrank) hranks hbits
    rw [if_pos hdense, hsame]
  · rw [if_neg hdense]
    exact hmapped

/-- The draw fails exactly without live nodes or with exhausted rounds, always with one error. -/
theorem deriveSelectionBitmap_eq_error_iff {e : AttestationError} :
    deriveSelectionBitmap keccak sourceId timestamp signaturesRequired registry = .error e ↔
      e = .groupBitmapDerivationFailed ∧ (registry.liveCount = 0 ∨
        SelectionExhausted keccak sourceId timestamp signaturesRequired registry) := by
  by_cases hfailed : registry.liveCount = 0 ∨
      SelectionExhausted keccak sourceId timestamp signaturesRequired registry
  · rw [deriveSelectionBitmap_of_failed hfailed, Except.error.injEq, and_iff_left hfailed]
    exact eq_comm
  · obtain ⟨hlive, hrounds⟩ := not_or.mp hfailed
    obtain ⟨-, committee, -, hok, -⟩ :=
      exists_deriveSelectionBitmap (Nat.pos_of_ne_zero hlive) hrounds
    rw [hok]
    exact ⟨fun h => (nomatch h), fun h => absurd h.2 hfailed⟩

theorem of_deriveSelectionBitmap {committee : Bitmap}
    (h : deriveSelectionBitmap keccak sourceId timestamp signaturesRequired registry =
      .ok committee) :
    (0 < registry.liveCount ∧
        ¬SelectionExhausted keccak sourceId timestamp signaturesRequired registry) ∧
      ∀ i, committee.getLsbD i = true ↔
        ∃ rank ∈ drawnRanks keccak sourceId timestamp signaturesRequired registry,
          registry.liveSlots[rank]? = some i := by
  have hfailed : ¬(registry.liveCount = 0 ∨
      SelectionExhausted keccak sourceId timestamp signaturesRequired registry) := by
    intro hfailed
    rw [deriveSelectionBitmap_of_failed hfailed] at h
    exact nomatch h
  obtain ⟨hlive, hrounds⟩ := not_or.mp hfailed
  have hpos := Nat.pos_of_ne_zero hlive
  obtain ⟨-, committee', -, hok, -, -, hbits⟩ := exists_deriveSelectionBitmap hpos hrounds
  obtain rfl : committee' = committee := Except.ok.inj (hok.symm.trans h)
  exact ⟨⟨hpos, hrounds⟩, hbits⟩

theorem popcount_committee {committee : Bitmap}
    (h : deriveSelectionBitmap keccak sourceId timestamp signaturesRequired registry =
      .ok committee) :
    committee.popcount = committeeSize signaturesRequired registry := by
  obtain ⟨⟨hpos, hrounds⟩, hbits⟩ := of_deriveSelectionBitmap h
  obtain ⟨test, htest⟩ := registry.exists_liveSlots_eq
  have hcard := card_drawnGroup hpos committeeSize_le hrounds
  have hslot (rank : ℕ) (hrank : rank ∈ drawnRanks keccak sourceId timestamp signaturesRequired
      registry) : registry.liveSlots[rank]? = some (registry.liveSlots.getD rank 0) := by
    have hlt := lt_of_mem_drawnRanks hpos hrank
    rw [RegistryView.liveCount] at hlt
    rw [List.getD_eq_getElem?_getD, List.getElem?_eq_getElem hlt, Option.getD_some]
  have himage : (setBits committee).toFinset =
      (drawnRanks keccak sourceId timestamp signaturesRequired registry).image
        fun rank => registry.liveSlots.getD rank 0 := by
    ext i
    rw [List.mem_toFinset, mem_setBits, hbits, Finset.mem_image]
    refine exists_congr fun rank => and_congr_right fun hrank => ?_
    rw [hslot rank hrank, Option.some.injEq]
  have hinj : Set.InjOn (fun rank => registry.liveSlots.getD rank 0)
      (drawnRanks keccak sourceId timestamp signaturesRequired registry) := by
    intro rank hrank rank' hrank' heq
    have hget := hslot rank hrank
    have hget' := hslot rank' hrank'
    dsimp only at heq
    rw [heq] at hget
    rw [htest] at hget hget'
    exact (getElem?_membersBelow.mp hget).2.symm.trans (getElem?_membersBelow.mp hget').2
  rw [Bitmap.popcount_eq_length, ← List.toFinset_card_of_nodup (nodup_setBits committee), himage,
    Finset.card_image_of_injOn hinj]
  exact hcard

theorem namesLiveRecord_of_mem_committee {committee : Bitmap} {bit : ℕ}
    (hcover : registry.examinedSlots ≤ registry.nodes.length)
    (h : deriveSelectionBitmap keccak sourceId timestamp signaturesRequired registry =
      .ok committee) (hbit : bit ∈ setBits committee) :
    bit < nodeSlots ∧ ∃ member, registry.NamesLiveRecord bit member := by
  obtain ⟨-, hbits⟩ := of_deriveSelectionBitmap h
  obtain ⟨rank, -, hslot⟩ := (hbits bit).mp (mem_setBits.mp hbit)
  rw [RegistryView.liveSlots_eq hcover] at hslot
  exact RegistryView.isLiveNode_iff.mp (getElem?_membersBelow.mp hslot).1.2

theorem exists_resolveSigners_committee {committee : Bitmap}
    (hcover : registry.examinedSlots ≤ registry.nodes.length)
    (h : deriveSelectionBitmap keccak sourceId timestamp signaturesRequired registry =
      .ok committee) : ∃ keys, resolveSigners registry committee.toBytes = .ok keys ∧
        keys.length = committee.popcount := by
  obtain ⟨keys, hkeys⟩ : ∃ keys, resolveSigners registry committee.toBytes = .ok keys := by
    rw [exists_resolveSigners_iff, Bitmap.load_toBytes]
    exact fun bit hbit => (namesLiveRecord_of_mem_committee hcover h hbit).2
  have hlength := length_of_resolveSigners hkeys
  rw [Bitmap.load_toBytes] at hlength
  exact ⟨keys, hkeys, hlength⟩

theorem exists_slot_of_drawnRank {ranks : Bitmap} {rank : ℕ}
    (h : deriveGroupBitmap keccak (selectionSeed keccak sourceId timestamp registry.version)
      registry.liveCount (committeeSize signaturesRequired registry) = .ok ranks)
    (hrank : rank ∈ setBits ranks) : ∃ slot, registry.liveSlots[rank]? = some slot := by
  obtain ⟨hpos, hrounds⟩ := of_deriveGroupBitmap h
  obtain ⟨ranks', -, hgroup, -, -, hdrawn, -⟩ := exists_deriveSelectionBitmap hpos hrounds
  obtain rfl : ranks' = ranks := Except.ok.inj (hgroup.symm.trans h)
  have hlt := lt_of_mem_drawnRanks hpos ((hdrawn rank).mp (mem_setBits.mp hrank))
  exact ⟨_, List.getElem?_eq_getElem hlt⟩

end Draw

section Exactness

variable (keccak : Keccak) (sourceId : Bytes 32) (timestamp : UInt64) (signaturesRequired : UInt8)
  (registry : RegistryView)

/-- A derived committee has the right size and resolvable node members, and the draw fails only
without live nodes or when the sampler has used all its rounds. -/
theorem selection_exact
    (hcover : min registry.nodeCount.toNat nodeSlots ≤ registry.nodes.length) :
    (∀ committee,
      deriveSelectionBitmap keccak sourceId timestamp signaturesRequired registry =
        .ok committee →
      committee.popcount = min registry.liveCount
        (signaturesRequired.toNat + registry.redundancyBuffer.toNat) ∧
      (∀ bit ∈ setBits committee, bit < nodeSlots ∧ bit < registry.nodeCount.toNat ∧
        ∃ node, registry.nodes[bit]? = some node ∧ node.isVacant = false) ∧
      ∃ keys, resolveSigners registry committee.toBytes = .ok keys ∧
        keys.length = committee.popcount) ∧
    (∀ e, deriveSelectionBitmap keccak sourceId timestamp signaturesRequired registry = .error e →
      registry.liveCount = 0 ∨
        SelectionExhausted keccak sourceId timestamp signaturesRequired registry) ∧
    ∀ ranks, deriveGroupBitmap keccak (selectionSeed keccak sourceId timestamp registry.version)
        registry.liveCount (committeeSize signaturesRequired registry) = .ok ranks →
      ∀ rank ∈ setBits ranks, ∃ slot, registry.liveSlots[rank]? = some slot := by
  refine ⟨?_, ?_, ?_⟩
  · intro committee hcommittee
    refine ⟨(popcount_committee hcommittee).trans committeeSize_eq, ?_,
      exists_resolveSigners_committee hcover hcommittee⟩
    intro bit hbit
    obtain ⟨hnode, member, hmember⟩ := namesLiveRecord_of_mem_committee hcover hcommittee hbit
    obtain ⟨⟨hcount, hrecord⟩, hvacant⟩ := (RegistryView.namesLiveRecord_of_node hnode).mp hmember
    exact ⟨hnode, hcount, member, hrecord, hvacant⟩
  · intro e he
    exact (deriveSelectionBitmap_eq_error_iff.mp he).2
  · intro ranks hranks rank hrank
    exact exists_slot_of_drawnRank hranks hrank

/-- Three live nodes around a hole. -/
def sampleHoledRegistry : RegistryView :=
  let member (byte : UInt8) : NodeEntry :=
    ⟨Vector.replicate 32 byte, Vector.replicate 32 byte, Vector.replicate 32 byte⟩
  ⟨7, 4, 0, 0, [member 1, member 0, member 2, member 3], []⟩

/-- Every draw of this hash is `0x05050505`, which is 2 modulo 3. -/
def sampleDrawKeccak : Keccak := fun _ => Vector.replicate 32 5

theorem liveSlots_sampleHoledRegistry : sampleHoledRegistry.liveSlots = [0, 2, 3] := by
  with_unfolding_all decide

theorem liveCount_sampleHoledRegistry : sampleHoledRegistry.liveCount = 3 := by
  rw [RegistryView.liveCount, liveSlots_sampleHoledRegistry]
  rfl

/-- Rank 2 of the three live nodes is slot 3. -/
theorem deriveSelectionBitmap_sample :
    deriveSelectionBitmap sampleDrawKeccak (Vector.replicate 32 0) 0 1 sampleHoledRegistry =
      .ok 8#256 := by
  have hgroup : deriveGroupBitmap sampleDrawKeccak
      (selectionSeed sampleDrawKeccak (Vector.replicate 32 0) 0 7) 3 1 = .ok 4#256 := by decide
  have hmapped : mapRanks [0, 2, 3] 4#256 = .ok 8#256 := by
    rw [mapRanks, run_forEachSetBit_modifyM]
    decide
  rw [deriveSelectionBitmap, liveSlots_sampleHoledRegistry]
  exact bind_eq_ok_iff.mpr ⟨4#256, hgroup, hmapped⟩

theorem deriveGroupBitmap_sample_two (seed : Bytes 32) :
    deriveGroupBitmap sampleDrawKeccak seed 3 2 = .ok 3#256 := by
  have hround : selectionHashRound sampleDrawKeccak seed = fun _ => Vector.replicate 32 5 := rfl
  rw [deriveGroupBitmap, hround]
  decide +kernel

theorem deriveSelectionBitmap_sample_two :
    deriveSelectionBitmap sampleDrawKeccak (Vector.replicate 32 0) 0 2 sampleHoledRegistry =
      .ok 5#256 := by
  have hgroup := deriveGroupBitmap_sample_two
    (selectionSeed sampleDrawKeccak (Vector.replicate 32 0) 0 7)
  have hmapped : mapRanks [0, 2, 3] 3#256 = .ok 5#256 := by
    rw [mapRanks, run_forEachSetBit_modifyM]
    decide
  rw [deriveSelectionBitmap, liveSlots_sampleHoledRegistry]
  exact bind_eq_ok_iff.mpr ⟨3#256, hgroup, hmapped⟩

theorem selection_exact_sample : Bitmap.popcount 8#256 = 1 ∧ ∃ keys,
    resolveSigners sampleHoledRegistry (Bitmap.toBytes 8#256) = .ok keys ∧ keys.length = 1 := by
  obtain ⟨hcommittee, -, -⟩ := selection_exact sampleDrawKeccak (Vector.replicate 32 0) 0 1
    sampleHoledRegistry (by decide)
  obtain ⟨hcount, -, keys, hkeys, hlength⟩ := hcommittee 8#256 deriveSelectionBitmap_sample
  have hlive := liveCount_sampleHoledRegistry
  have hone : Bitmap.popcount 8#256 = 1 := by
    rw [hcount, hlive]
    decide
  exact ⟨hone, keys, hkeys, hlength.trans hone⟩

end Exactness

section Packing

variable {keccak : Keccak} {sourceId : Bytes 32} {timestamp : UInt64} {signaturesRequired : UInt8}
  {registry : RegistryView}

/-- The same version and buffer with the live records of the node slots only, in order. -/
def RegistryView.packed (registry : RegistryView) : RegistryView :=
  let nodes := (registry.nodes.take registry.examinedSlots).filter fun node => !node.isVacant
  { version := registry.version
    nodeCount := UInt16.ofNat nodes.length
    providerCount := 0
    redundancyBuffer := registry.redundancyBuffer
    nodes := nodes
    providers := [] }

theorem length_packed_nodes (hcover : registry.examinedSlots ≤ registry.nodes.length) :
    registry.packed.nodes.length = registry.liveCount := by
  have hcount (bound : ℕ) (hbound : bound ≤ registry.examinedSlots) :
      ((registry.nodes.take bound).filter fun node => !node.isVacant).length =
        (membersBelow registry.isLiveNode bound).length := by
    induction bound with
    | zero => simp [membersBelow]
    | succ bound ih =>
      have hlt : bound < registry.nodes.length := by omega
      have hlive : registry.isLiveNode bound = !registry.nodes[bound].isVacant := by
        rw [RegistryView.isLiveNode, decide_eq_true (by omega), List.getElem?_eq_getElem hlt]
        simp
      rw [List.take_succ_eq_append_getElem hlt, List.filter_append, List.length_append,
        ih (by omega), membersBelow_succ, List.length_append, hlive]
      cases hvacant : registry.nodes[bound].isVacant <;> simp [hvacant]
  rw [RegistryView.liveCount, RegistryView.liveSlots_eq hcover]
  exact hcount _ (Nat.le_refl _)

theorem nodeCount_packed (hcover : registry.examinedSlots ≤ registry.nodes.length) :
    registry.packed.nodeCount.toNat = registry.liveCount := by
  have hlength := length_packed_nodes hcover
  have hle : registry.liveCount < 2 ^ 16 := registry.liveCount_le.trans_lt (by decide)
  rw [← hlength] at hle ⊢
  exact UInt16.toNat_ofNat_of_lt' hle

theorem examinedSlots_packed (hcover : registry.examinedSlots ≤ registry.nodes.length) :
    registry.packed.examinedSlots = registry.liveCount := by
  rw [RegistryView.examinedSlots, nodeCount_packed hcover]
  exact Nat.min_eq_left registry.liveCount_le

theorem liveSlots_packed (hcover : registry.examinedSlots ≤ registry.nodes.length) :
    registry.packed.liveSlots = List.range registry.liveCount := by
  have hslots := examinedSlots_packed hcover
  have hlength := length_packed_nodes hcover
  rw [RegistryView.liveSlots_eq (by rw [hslots, hlength]), hslots, membersBelow,
    List.filter_eq_self]
  intro slot hslot
  have hlt : slot < registry.packed.nodes.length := by
    rw [hlength]
    exact List.mem_range.mp hslot
  have hmem := List.getElem_mem hlt
  have hlive : registry.packed.nodes[slot].isVacant = false := by
    simpa using (List.mem_filter.mp hmem).2
  rw [RegistryView.isLiveNode, hslots, decide_eq_true (List.mem_range.mp hslot),
    List.getElem?_eq_getElem hlt]
  simp [hlive]

theorem liveCount_packed (hcover : registry.examinedSlots ≤ registry.nodes.length) :
    registry.packed.liveCount = registry.liveCount := by
  rw [RegistryView.liveCount, liveSlots_packed hcover, List.length_range]

theorem drawnRanks_packed (hcover : registry.examinedSlots ≤ registry.nodes.length) :
    drawnRanks keccak sourceId timestamp signaturesRequired registry.packed =
      drawnRanks keccak sourceId timestamp signaturesRequired registry := by
  rw [drawnRanks, drawnRanks, committeeSize, committeeSize, liveCount_packed hcover]
  rfl

theorem selectionExhausted_packed (hcover : registry.examinedSlots ≤ registry.nodes.length) :
    SelectionExhausted keccak sourceId timestamp signaturesRequired registry.packed ↔
      SelectionExhausted keccak sourceId timestamp signaturesRequired registry := by
  rw [SelectionExhausted, SelectionExhausted, committeeSize, committeeSize, liveCount_packed hcover]
  rfl

/-- The draw reads the version, the buffer and the node records of the first slots. -/
theorem deriveSelectionBitmap_congr {other : RegistryView} (hversion : other.version = registry.version)
    (hbuffer : other.redundancyBuffer = registry.redundancyBuffer)
    (hslots : other.examinedSlots = registry.examinedSlots)
    (hnodes : other.nodes.take nodeSlots = registry.nodes.take nodeSlots) :
    deriveSelectionBitmap keccak sourceId timestamp signaturesRequired other =
      deriveSelectionBitmap keccak sourceId timestamp signaturesRequired registry := by
  have hcovered (view : RegistryView) : view.examinedSlots ≤ view.nodes.length ↔
      view.examinedSlots ≤ (view.nodes.take nodeSlots).length := by
    have hle := view.examinedSlots_le
    rw [List.length_take]
    omega
  have htable (view : RegistryView) : view.nodes.take view.examinedSlots =
      (view.nodes.take nodeSlots).take view.examinedSlots := by
    rw [List.take_take, Nat.min_eq_left view.examinedSlots_le]
  have hlive : other.liveSlots = registry.liveSlots := by
    have hcover := hcovered other
    have htake := htable other
    rw [hslots, hnodes, ← hcovered] at hcover
    rw [hslots, hnodes, ← htable] at htake
    rw [RegistryView.examinedSlots, RegistryView.examinedSlots] at hslots
    rw [RegistryView.examinedSlots] at hcover htake
    simp only [RegistryView.liveSlots, hslots, hcover, htake]
  rw [RegistryView.examinedSlots, RegistryView.examinedSlots] at hslots
  rw [deriveSelectionBitmap, deriveSelectionBitmap, hversion, hbuffer, hslots, hlive]

theorem mem_packedDraw_iff {dense : Bitmap} {rank : ℕ} (hpos : 0 < registry.liveCount)
    (hcover : registry.examinedSlots ≤ registry.nodes.length)
    (h : deriveSelectionBitmap keccak sourceId timestamp signaturesRequired registry.packed =
      .ok dense) : dense.getLsbD rank = true ↔
        rank ∈ drawnRanks keccak sourceId timestamp signaturesRequired registry := by
  obtain ⟨-, hbits⟩ := of_deriveSelectionBitmap h
  rw [drawnRanks_packed hcover, liveSlots_packed hcover] at hbits
  rw [hbits]
  constructor
  · rintro ⟨rank', hrank', hget⟩
    rw [List.getElem?_range (lt_of_mem_drawnRanks hpos hrank')] at hget
    rwa [← Option.some.inj hget]
  · intro hrank
    exact ⟨rank, hrank, List.getElem?_range (lt_of_mem_drawnRanks hpos hrank)⟩

/-- A slot is drawn when it is live and its rank is drawn for the packed registry. -/
theorem mem_committee_iff_packedDraw {committee dense : Bitmap} {i : ℕ}
    (hcover : registry.examinedSlots ≤ registry.nodes.length)
    (hcommittee : deriveSelectionBitmap keccak sourceId timestamp signaturesRequired registry =
      .ok committee)
    (hdense : deriveSelectionBitmap keccak sourceId timestamp signaturesRequired registry.packed =
      .ok dense) : committee.getLsbD i = true ↔ ∃ rank, dense.getLsbD rank = true ∧
        registry.isLiveNode i = true ∧
        Nat.count (fun slot => registry.isLiveNode slot = true) i = rank := by
  obtain ⟨⟨hpos, -⟩, hbits⟩ := of_deriveSelectionBitmap hcommittee
  rw [hbits]
  refine exists_congr fun rank => ?_
  rw [mem_packedDraw_iff hpos hcover hdense, RegistryView.liveSlots_eq hcover,
    getElem?_membersBelow]
  refine and_congr_right fun _ => ⟨fun h => ⟨h.1.2, h.2⟩, fun h => ⟨⟨?_, h.1⟩, h.2⟩⟩
  have hlive := h.1
  rw [RegistryView.isLiveNode, Bool.and_eq_true, decide_eq_true_eq] at hlive
  exact hlive.1

/-- Without holes, mapping the ranks gives what the fast path returns. -/
theorem mapRanks_of_full {ranks : Bitmap}
    (hfull : registry.liveCount = min registry.nodeCount.toNat nodeSlots)
    (hranks : deriveGroupBitmap keccak (selectionSeed keccak sourceId timestamp registry.version)
      registry.liveCount (committeeSize signaturesRequired registry) = .ok ranks) :
    mapRanks registry.liveSlots ranks = .ok ranks := by
  obtain ⟨hpos, hrounds⟩ := of_deriveGroupBitmap hranks
  obtain ⟨ranks', committee, hgroup, hderive, hmapped, -⟩ :=
    exists_deriveSelectionBitmap hpos hrounds
  obtain rfl : ranks' = ranks := Except.ok.inj (hgroup.symm.trans hranks)
  have hfast : deriveSelectionBitmap keccak sourceId timestamp signaturesRequired registry =
      .ok ranks' := by
    rw [deriveSelectionBitmap]
    exact bind_eq_ok_iff.mpr ⟨ranks', hgroup, if_pos hfull⟩
  rw [hmapped, ← hderive, hfast]

end Packing

section Relabelling

variable (keccak : Keccak) (sourceId : Bytes 32) (timestamp : UInt64) (signaturesRequired : UInt8)
  (registry : RegistryView)

/-- Selection over holes is the dense draw mapped through the live slots; providers and records past
the node slots do not matter, and mapping a dense registry changes nothing. -/
theorem selection_packed
    (hcover : min registry.nodeCount.toNat nodeSlots ≤ registry.nodes.length) :
    (∀ e, deriveSelectionBitmap keccak sourceId timestamp signaturesRequired registry = .error e ↔
      deriveSelectionBitmap keccak sourceId timestamp signaturesRequired registry.packed =
        .error e) ∧
    (∀ committee dense,
      deriveSelectionBitmap keccak sourceId timestamp signaturesRequired registry =
        .ok committee →
      deriveSelectionBitmap keccak sourceId timestamp signaturesRequired registry.packed =
        .ok dense →
      ∀ i, committee.getLsbD i = true ↔ ∃ rank, dense.getLsbD rank = true ∧
        registry.isLiveNode i = true ∧
        Nat.count (fun slot => registry.isLiveNode slot = true) i = rank) ∧
    (∀ other : RegistryView, other.version = registry.version →
      other.redundancyBuffer = registry.redundancyBuffer →
      min other.nodeCount.toNat nodeSlots = min registry.nodeCount.toNat nodeSlots →
      other.nodes.take nodeSlots = registry.nodes.take nodeSlots →
      deriveSelectionBitmap keccak sourceId timestamp signaturesRequired other =
        deriveSelectionBitmap keccak sourceId timestamp signaturesRequired registry) ∧
    ∀ ranks, registry.liveCount = min registry.nodeCount.toNat nodeSlots →
      deriveGroupBitmap keccak (selectionSeed keccak sourceId timestamp registry.version)
        registry.liveCount (committeeSize signaturesRequired registry) = .ok ranks →
      mapRanks registry.liveSlots ranks = .ok ranks := by
  refine ⟨?_, ?_, ?_, ?_⟩
  · intro e
    rw [deriveSelectionBitmap_eq_error_iff, deriveSelectionBitmap_eq_error_iff,
      liveCount_packed hcover, selectionExhausted_packed hcover]
  · intro committee dense hcommittee hdense i
    exact mem_committee_iff_packedDraw hcover hcommittee hdense
  · intro other hversion hbuffer hslots hnodes
    exact deriveSelectionBitmap_congr hversion hbuffer hslots hnodes
  · intro ranks hfull hranks
    exact mapRanks_of_full hfull hranks

theorem deriveSelectionBitmap_packed_sample :
    deriveSelectionBitmap sampleDrawKeccak (Vector.replicate 32 0) 0 1 sampleHoledRegistry.packed =
      .ok 4#256 := by
  with_unfolding_all decide

theorem selection_packed_sample : (8#256).getLsbD 3 = true ↔
    ∃ rank, (4#256).getLsbD rank = true ∧ sampleHoledRegistry.isLiveNode 3 = true ∧
      Nat.count (fun slot => sampleHoledRegistry.isLiveNode slot = true) 3 = rank :=
  (selection_packed sampleDrawKeccak (Vector.replicate 32 0) 0 1 sampleHoledRegistry
    (by decide)).2.1 8#256 4#256 deriveSelectionBitmap_sample deriveSelectionBitmap_packed_sample 3

end Relabelling

end MolphaVerifier
