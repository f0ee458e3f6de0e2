import MolphaVerifier.CappedCollection
import MolphaVerifier.SignerBitmap

/-!
# Drawing a group of bits from a seed

The sampler hashes a round counter, cuts each digest into eight big-endian draws, keeps the draws
below a multiple of the slot count and sets the bit of each new residue until enough bits are set or
the rounds run out. A group of more than half of the slots is the complement of a sample. The result
is the set `drawnGroup` of the residues drawn in all rounds, and the only failure on proper sizes is
that the rounds hold too few distinct residues.
-/

namespace MolphaVerifier

open FixedBytes LimbArithmetic BitVecIteration CappedCollection

/-- `keccak256("MOLPHA_SELECTION_DERIVE")`. -/
def selectionDomain : Bytes 32 := #v[
  0x49, 0x28, 0x48, 0xfe, 0x5e, 0x85, 0xd4, 0xce, 0x22, 0x31, 0xd6, 0x93, 0xa5, 0x8f, 0x08, 0x20,
  0xa4, 0x05, 0x6e, 0x28, 0x22, 0xfe, 0x5d, 0xca, 0xd7, 0xc7, 0x56, 0xaf, 0xe0, 0x44, 0xb7, 0x0b]

def deriveGroupBitmapMaxRounds : ℕ := 65536

/-- The counter is hashed as a 32-byte word. -/
def selectionHashRound (keccak : Keccak) (seed : Bytes 32) (counter : ℕ) : Bytes 32 :=
  let counterWord := List.replicate 24 0 ++ (natToBytes 8 counter).toList
  hashv keccak [seed.toList, selectionDomain.toList, counterWord]

/-- A slot count the sampler accepts. -/
structure SlotCount where
  val : ℕ
  pos : 0 < val
  le : val ≤ 256

def SlotCount.slotOf (n : SlotCount) (draw : ℕ) : Fin 256 :=
  ⟨draw % n.val, (Nat.mod_lt draw n.pos).trans_le n.le⟩

def limbOf (pos : Fin 256) : Fin 4 × UInt64 :=
  (⟨pos.val / 64, Nat.div_lt_of_lt_mul pos.isLt⟩, (1 : UInt64) <<< UInt64.ofNat (pos.val % 64))

def fullMaskLimbs (nodeCount : ℕ) : Limbs 4 := Vector.ofFn fun i =>
  let low := i.val * 64
  if nodeCount ≥ low + 64 then UInt64.ofNat (2 ^ 64 - 1)
  else if nodeCount > low then ((1 : UInt64) <<< UInt64.ofNat (nodeCount - low)) - 1
  else 0

/-- Eight big-endian draws, the most significant first. -/
def digestDraws (digest : Bytes 32) : List ℕ :=
  (List.range 8).map fun i => beNat ((digest.toList.drop (4 * i)).take 4)

/-- The largest multiple of the slot count that is at most `u32::MAX`. -/
def drawLimit (n : SlotCount) : ℕ := (2 ^ 32 - 1) / n.val * n.val

/-- The bits set so far and their number. -/
structure Sample where
  bitmap : Limbs 4
  selected : ℕ

/-- One draw: kept below the limit, counted when its bit is new. -/
def takeDraw (n : SlotCount) (sample : Sample) (draw : ℕ) : Sample :=
  if draw < drawLimit n then
    let (limb, mask) := limbOf (n.slotOf draw)
    if sample.bitmap.get limb &&& mask = 0 then
      { bitmap := sample.bitmap.set limb.val (sample.bitmap.get limb ||| mask) limb.isLt
        selected := sample.selected + 1 }
    else sample
  else sample

/-- The draws of one digest; the loop stops as soon as the sample is complete. -/
def sampleDigest (n : SlotCount) (groupSize : ℕ) : List ℕ → Sample → Sample
  | [], sample => sample
  | draw :: draws, sample =>
    if sample.selected ≥ groupSize then sample
    else sampleDigest n groupSize draws (takeDraw n sample draw)

/-- The rounds that remain; the counter is the number of rounds used. -/
def sampleRounds (round : ℕ → Bytes 32) (n : SlotCount) (groupSize : ℕ) :
    ℕ → Sample → Except AttestationError (Limbs 4)
  | 0, sample =>
    if sample.selected < groupSize then .error .groupBitmapDerivationFailed
    else .ok sample.bitmap
  | remaining + 1, sample =>
    if sample.selected < groupSize then
      let counter := deriveGroupBitmapMaxRounds - (remaining + 1)
      sampleRounds round n groupSize remaining
        (sampleDigest n groupSize (digestDraws (round counter)) sample)
    else .ok sample.bitmap

/-- The digests are those of the rounds, in order. -/
def sampleWithoutReplacement (round : ℕ → Bytes 32) (n : SlotCount) (groupSize : ℕ) :
    Except AttestationError (Limbs 4) :=
  sampleRounds round n groupSize deriveGroupBitmapMaxRounds ⟨Vector.replicate 4 0, 0⟩

/-- The slot count of a call that passed the size check. -/
def SlotCount.ofChecked {nodeCount groupSize : ℕ}
    (h : ¬(nodeCount = 0 ∨ nodeCount > 256 ∨ groupSize > nodeCount)) : SlotCount :=
  ⟨nodeCount, Nat.pos_of_ne_zero fun hzero => h (.inl hzero),
    Nat.not_lt.mp fun hlt => h (.inr (.inl hlt))⟩

def deriveGroupBitmapOver (round : ℕ → Bytes 32) (nodeCount groupSize : ℕ) :
    Except AttestationError Bitmap :=
  if h : nodeCount = 0 ∨ nodeCount > 256 ∨ groupSize > nodeCount then
    .error .groupBitmapDerivationFailed
  else if groupSize = 0 then .ok Bitmap.empty
  else
    let full := fullMaskLimbs nodeCount
    if groupSize = nodeCount then .ok (Bitmap.fromLimbs full)
    else do
      -- Sample the smaller of the group or its complement.
      let bitmap ←
        if groupSize > nodeCount / 2 then do
          let excluded ←
            sampleWithoutReplacement round (SlotCount.ofChecked h) (nodeCount - groupSize)
          pure (Vector.zipWith (· ^^^ ·) full excluded)
        else sampleWithoutReplacement round (SlotCount.ofChecked h) groupSize
      pure (Bitmap.fromLimbs bitmap)

def deriveGroupBitmap (keccak : Keccak) (seed : Bytes 32) (nodeCount groupSize : ℕ) :
    Except AttestationError Bitmap :=
  deriveGroupBitmapOver (selectionHashRound keccak seed) nodeCount groupSize

/-- The sum saturates at `u32::MAX`. -/
def saturatingAdd (a b : ℕ) : ℕ := min (a + b) (2 ^ 32 - 1)

/-- As many nodes as the quorum and the buffer ask for, at most all of them. -/
def effectiveSelectionSize (signaturesRequired redundancyBuffer : UInt8) (nodeCount : ℕ) : ℕ :=
  min (saturatingAdd signaturesRequired.toNat redundancyBuffer.toNat) nodeCount

section Abstract

/-- The residues of the draws below the limit. -/
def keptResidues (nodeCount : ℕ) (draws : List ℕ) : List ℕ :=
  (draws.filter fun draw => draw < (2 ^ 32 - 1) / nodeCount * nodeCount).map (· % nodeCount)

/-- The draws of `count` rounds from a counter on, in order. -/
def drawsFrom (round : ℕ → Bytes 32) : ℕ → ℕ → List ℕ
  | _, 0 => []
  | counter, count + 1 => digestDraws (round counter) ++ drawsFrom round (counter + 1) count

def roundResidues (round : ℕ → Bytes 32) (nodeCount : ℕ) : List ℕ :=
  keptResidues nodeCount (drawsFrom round 0 deriveGroupBitmapMaxRounds)

/-- What is drawn: the first distinct residues, or the slots they leave out. -/
def drawnGroup (residues : List ℕ) (nodeCount groupSize : ℕ) : Finset ℕ :=
  if groupSize > nodeCount / 2 then
    Finset.range nodeCount \ collect (nodeCount - groupSize) residues ∅
  else collect groupSize residues ∅

/-- The rounds hold too few distinct residues for the smaller of the group or its complement. -/
def RoundsExhausted (round : ℕ → Bytes 32) (nodeCount groupSize : ℕ) : Prop :=
  (roundResidues round nodeCount).toFinset.card < min groupSize (nodeCount - groupSize)

/-- The sample holds the bits of a set. -/
structure Sample.Holds (sample : Sample) (chosen : Finset ℕ) : Prop where
  testBit_iff : ∀ i, (limbsToNat sample.bitmap).testBit i = true ↔ i ∈ chosen
  selected_eq : sample.selected = chosen.card

end Abstract

section Sampling

variable {n : SlotCount} {sample : Sample} {chosen : Finset ℕ}

theorem keptResidues_append (nodeCount : ℕ) (draws draws' : List ℕ) :
    keptResidues nodeCount (draws ++ draws') =
      keptResidues nodeCount draws ++ keptResidues nodeCount draws' := by
  simp [keptResidues]

theorem keptResidues_cons (n : SlotCount) (draw : ℕ) (draws : List ℕ) :
    keptResidues n.val (draw :: draws) =
      if draw < drawLimit n then draw % n.val :: keptResidues n.val draws
      else keptResidues n.val draws := by
  rw [keptResidues, keptResidues, drawLimit, List.filter_cons]
  by_cases h : draw < (2 ^ 32 - 1) / n.val * n.val
  · rw [decide_eq_true h, if_pos rfl, if_pos h, List.map_cons]
  · rw [decide_eq_false h, if_neg Bool.false_ne_true, if_neg h]

theorem lt_of_mem_keptResidues {nodeCount residue : ℕ} {draws : List ℕ} (hpos : 0 < nodeCount)
    (h : residue ∈ keptResidues nodeCount draws) : residue < nodeCount := by
  obtain ⟨draw, -, rfl⟩ := List.mem_map.mp h
  exact Nat.mod_lt draw hpos

/-- A draw below the limit adds its residue; any other draw is skipped. -/
theorem Sample.Holds.takeDraw (h : sample.Holds chosen) (draw : ℕ) :
    (takeDraw n sample draw).Holds
      (if draw < drawLimit n then insert (draw % n.val) chosen else chosen) := by
  rw [MolphaVerifier.takeDraw]
  by_cases hdraw : draw < drawLimit n
  swap
  · rw [if_neg hdraw, if_neg hdraw]
    exact h
  rw [if_pos hdraw, if_pos hdraw]
  have hslot : (n.slotOf draw).val / 64 < 4 := Nat.div_lt_of_lt_mul (n.slotOf draw).isLt
  have hbit : (n.slotOf draw).val % 64 < 64 := Nat.mod_lt _ (by decide)
  have hmask : sample.bitmap.get (limbOf (n.slotOf draw)).1 &&& (limbOf (n.slotOf draw)).2 = 0 ↔
      draw % n.val ∉ chosen := by
    rw [← h.testBit_iff, Bool.not_eq_true]
    change _ ↔ (limbsToNat sample.bitmap).testBit (n.slotOf draw).val = false
    rw [LimbBits.testBit_limbsToNat _ hslot]
    exact LimbBits.and_one_shiftLeft_eq_zero_iff hbit _
  by_cases hnew : draw % n.val ∈ chosen
  · rw [Finset.insert_eq_of_mem hnew]
    have hkeep := mt hmask.mp (not_not.mpr hnew)
    simp only [hkeep, if_false]
    exact h
  · simp only [hmask.mpr hnew, if_true]
    refine ⟨fun i => ?_, ?_⟩
    · have hset := LimbBits.testBit_limbsToNat_set sample.bitmap hslot i
      rw [Finset.mem_insert, ← h.testBit_iff]
      change (limbsToNat (sample.bitmap.set ((n.slotOf draw).val / 64)
        (sample.bitmap[(n.slotOf draw).val / 64] |||
          (1 : UInt64) <<< UInt64.ofNat ((n.slotOf draw).val % 64)) hslot)).testBit i = true ↔ _
      rw [hset, Bool.or_eq_true, decide_eq_true_eq]
      exact or_comm
    · change sample.selected + 1 = _
      rw [Finset.card_insert_of_notMem hnew, h.selected_eq]

theorem Sample.Holds.sampleDigest (h : sample.Holds chosen) (groupSize : ℕ) (draws : List ℕ) :
    (sampleDigest n groupSize draws sample).Holds
      (collect groupSize (keptResidues n.val draws) chosen) := by
  induction draws generalizing sample chosen with
  | nil => exact h
  | cons draw draws ih =>
    rw [MolphaVerifier.sampleDigest]
    by_cases hfull : sample.selected ≥ groupSize
    · rw [if_pos hfull, collect_of_card_ge (by rwa [← h.selected_eq])]
      exact h
    · have hcard : chosen.card < groupSize := by
        rw [← h.selected_eq]
        omega
      have hrec := ih (h.takeDraw (n := n) draw)
      rw [if_neg hfull, keptResidues_cons]
      by_cases hdraw : draw < drawLimit n
      · rw [if_pos hdraw] at hrec ⊢
        rw [collect_cons_of_lt hcard]
        exact hrec
      · rw [if_neg hdraw] at hrec ⊢
        exact hrec

/-- A sample ends with the collected set, unless that is too small. -/
def SampleEnds (groupSize : ℕ) (collected : Finset ℕ)
    (result : Except AttestationError (Limbs 4)) : Prop :=
  (collected.card < groupSize ∧ result = .error .groupBitmapDerivationFailed) ∨
    (groupSize ≤ collected.card ∧ ∃ limbs, result = .ok limbs ∧
      ∀ i, (limbsToNat limbs).testBit i = true ↔ i ∈ collected)

/-- The remaining rounds collect the residues of their draws. -/
theorem Sample.Holds.sampleRounds (h : sample.Holds chosen) (round : ℕ → Bytes 32)
    (groupSize remaining : ℕ) (hremaining : remaining ≤ deriveGroupBitmapMaxRounds) :
    SampleEnds groupSize
      (collect groupSize (keptResidues n.val
        (drawsFrom round (deriveGroupBitmapMaxRounds - remaining) remaining)) chosen)
      (sampleRounds round n groupSize remaining sample) := by
  induction remaining generalizing sample chosen with
  | zero =>
    rw [MolphaVerifier.sampleRounds, h.selected_eq]
    by_cases hfew : chosen.card < groupSize
    · exact .inl ⟨hfew, if_pos hfew⟩
    · exact .inr ⟨Nat.not_lt.mp hfew, sample.bitmap, if_neg hfew, h.testBit_iff⟩
  | succ remaining ih =>
    rw [MolphaVerifier.sampleRounds, h.selected_eq]
    by_cases hfew : chosen.card < groupSize
    · have hnext : deriveGroupBitmapMaxRounds - (remaining + 1) + 1 =
          deriveGroupBitmapMaxRounds - remaining := by omega
      have hrec := ih (h.sampleDigest (n := n) groupSize
        (digestDraws (round (deriveGroupBitmapMaxRounds - (remaining + 1))))) (by omega)
      rw [if_pos hfew, drawsFrom, keptResidues_append, collect_append, hnext]
      exact hrec
    · rw [if_neg hfew, collect_of_card_ge (Nat.not_lt.mp hfew)]
      exact .inr ⟨Nat.not_lt.mp hfew, sample.bitmap, rfl, h.testBit_iff⟩

theorem holds_empty : Sample.Holds ⟨Vector.replicate 4 0, 0⟩ ∅ where
  testBit_iff i := by simp [LimbBits.testBit_limbsToNat_zero]
  selected_eq := rfl

/-- The sampler ends with the first distinct residues of all rounds. -/
theorem sampleWithoutReplacement_ends (round : ℕ → Bytes 32) (n : SlotCount) (groupSize : ℕ) :
    SampleEnds groupSize (collect groupSize (roundResidues round n.val) ∅)
      (sampleWithoutReplacement round n groupSize) := by
  have h := holds_empty.sampleRounds (n := n) round groupSize deriveGroupBitmapMaxRounds
    (Nat.le_refl deriveGroupBitmapMaxRounds)
  rw [Nat.sub_self] at h
  exact h

end Sampling

section Group

variable {nodeCount groupSize : ℕ} {round : ℕ → Bytes 32} {limbs : Limbs 4} {i : ℕ}

theorem testBit_fullMaskLimbs (h : nodeCount ≤ 256) :
    (limbsToNat (fullMaskLimbs nodeCount)).testBit i = decide (i < nodeCount) := by
  rcases Nat.lt_or_ge (i / 64) 4 with hi | hi
  swap
  · rw [LimbBits.testBit_limbsToNat_of_ge _ hi, decide_eq_false (by omega)]
  rw [LimbBits.testBit_limbsToNat _ hi, fullMaskLimbs, Vector.getElem_ofFn]
  dsimp only
  split
  next hfull =>
    rw [UInt64.toNat_ofNat_of_lt' (by decide), Nat.testBit_two_pow_sub_one]
    exact decide_eq_decide.mpr (by omega)
  next hnotFull =>
    split
    next hpart =>
      have hshift : (UInt64.ofNat (nodeCount - i / 64 * 64)).toNat % 64 =
          nodeCount - i / 64 * 64 := by
        rw [UInt64.toNat_ofNat_of_lt' (by rw [UInt64.size]; omega), Nat.mod_eq_of_lt (by omega)]
      have hpow : (2 : ℕ) ^ (nodeCount - i / 64 * 64) < 2 ^ 64 :=
        Nat.pow_lt_pow_right (by decide) (by omega)
      have hone : (1 : UInt64) ≤ (1 : UInt64) <<< UInt64.ofNat (nodeCount - i / 64 * 64) := by
        rw [UInt64.le_iff_toNat_le, UInt64.toNat_shiftLeft, hshift, UInt64.toNat_one,
          Nat.one_shiftLeft, Nat.mod_eq_of_lt hpow]
        exact Nat.one_le_two_pow
      rw [UInt64.toNat_sub_of_le _ _ hone, UInt64.toNat_shiftLeft, hshift, UInt64.toNat_one,
        Nat.one_shiftLeft, Nat.mod_eq_of_lt hpow, Nat.testBit_two_pow_sub_one]
      exact decide_eq_decide.mpr (by omega)
    next hnone =>
      rw [UInt64.toNat_zero, Nat.zero_testBit, decide_eq_false (by omega)]

theorem collect_roundResidues_subset (hpos : 0 < nodeCount) (k : ℕ) :
    collect k (roundResidues round nodeCount) ∅ ⊆ Finset.range nodeCount := by
  intro i hi
  have hmem := collect_subset _ _ _ hi
  rw [Finset.empty_union, List.mem_toFinset] at hmem
  exact Finset.mem_range.mpr (lt_of_mem_keptResidues hpos hmem)

theorem drawnGroup_subset (hpos : 0 < nodeCount) (groupSize : ℕ) :
    drawnGroup (roundResidues round nodeCount) nodeCount groupSize ⊆ Finset.range nodeCount := by
  rw [drawnGroup]
  split
  · exact Finset.sdiff_subset
  · exact collect_roundResidues_subset hpos groupSize

/-- Unless the rounds are exhausted, the group has the size asked for. -/
theorem card_drawnGroup (hpos : 0 < nodeCount) (hsize : groupSize ≤ nodeCount)
    (hrounds : ¬RoundsExhausted round nodeCount groupSize) :
    (drawnGroup (roundResidues round nodeCount) nodeCount groupSize).card = groupSize := by
  rw [RoundsExhausted] at hrounds
  rw [drawnGroup]
  split
  next hhalf =>
    have hcard := card_collect_empty (nodeCount - groupSize) (roundResidues round nodeCount)
    rw [Finset.card_sdiff_of_subset (collect_roundResidues_subset hpos _), Finset.card_range, hcard]
    omega
  next hhalf =>
    rw [card_collect_empty]
    omega

theorem SampleEnds.cases {k : ℕ} {collected : Finset ℕ}
    {result : Except AttestationError (Limbs 4)} (h : SampleEnds k collected result) :
    (collected.card < k → result = .error .groupBitmapDerivationFailed) ∧
      (k ≤ collected.card → ∃ limbs, result = .ok limbs ∧
        ∀ i, (limbsToNat limbs).testBit i = true ↔ i ∈ collected) := by
  rcases h with ⟨hfew, herror⟩ | ⟨henough, hlimbs⟩
  · exact ⟨fun _ => herror, fun henough => absurd hfew (Nat.not_lt.mpr henough)⟩
  · exact ⟨fun hfew => absurd hfew (Nat.not_lt.mpr henough), fun _ => hlimbs⟩

section Samples

variable (hchecked : ¬(nodeCount = 0 ∨ nodeCount > 256 ∨ groupSize > nodeCount)) {k : ℕ}

theorem sampleWithoutReplacement_of_few (hk : (roundResidues round nodeCount).toFinset.card < k) :
    sampleWithoutReplacement round (SlotCount.ofChecked hchecked) k =
      .error .groupBitmapDerivationFailed := by
  apply (sampleWithoutReplacement_ends round (SlotCount.ofChecked hchecked) k).cases.1
  rw [card_collect_empty]
  exact (Nat.min_le_right _ _).trans_lt hk

theorem exists_sampleWithoutReplacement
    (hk : k ≤ (roundResidues round nodeCount).toFinset.card) : ∃ limbs,
      sampleWithoutReplacement round (SlotCount.ofChecked hchecked) k = .ok limbs ∧
        ∀ i, (limbsToNat limbs).testBit i = true ↔
          i ∈ collect k (roundResidues round nodeCount) ∅ := by
  apply (sampleWithoutReplacement_ends round (SlotCount.ofChecked hchecked) k).cases.2
  rw [card_collect_empty]
  exact Nat.le_min.mpr ⟨Nat.le_refl k, hk⟩

end Samples

theorem getLsbD_fullMask (hle : nodeCount ≤ 256) (i : ℕ) :
    (Bitmap.fromLimbs (fullMaskLimbs nodeCount)).getLsbD i = true ↔
      i ∈ Finset.range nodeCount := by
  rw [Bitmap.getLsbD_fromLimbs, testBit_fullMaskLimbs hle, decide_eq_true_eq, Finset.mem_range]

theorem getLsbD_complement (hle : nodeCount ≤ 256) {excluded : Limbs 4} {s : Finset ℕ}
    (hbits : ∀ i, (limbsToNat excluded).testBit i = true ↔ i ∈ s)
    (hs : s ⊆ Finset.range nodeCount) (i : ℕ) :
    (Bitmap.fromLimbs (Vector.zipWith (· ^^^ ·) (fullMaskLimbs nodeCount) excluded)).getLsbD i =
      true ↔ i ∈ Finset.range nodeCount \ s := by
  have hfull := getLsbD_fullMask hle i
  have hslot : i ∈ s → i ∈ Finset.range nodeCount := fun h => hs h
  rw [Bitmap.getLsbD_fromLimbs] at hfull
  rw [Bitmap.getLsbD_fromLimbs, LimbBits.testBit_limbsToNat_xor, Finset.mem_sdiff, ← hfull,
    ← hbits]
  rw [← hfull, ← hbits] at hslot
  cases hexc : (limbsToNat excluded).testBit i with
  | false => simp
  | true => simp [hslot hexc]

theorem deriveGroupBitmapOver_of_exhausted (hrounds : RoundsExhausted round nodeCount groupSize) :
    deriveGroupBitmapOver round nodeCount groupSize = .error .groupBitmapDerivationFailed := by
  rw [RoundsExhausted] at hrounds
  rw [deriveGroupBitmapOver]
  split
  · rfl
  next hchecked =>
    rw [if_neg (by omega), if_neg (by omega)]
    by_cases hhalf : groupSize > nodeCount / 2
    · rw [if_pos hhalf, sampleWithoutReplacement_of_few hchecked (by omega)]
      rfl
    · rw [if_neg hhalf, sampleWithoutReplacement_of_few hchecked (by omega)]
      rfl

/-- With enough rounds the draw succeeds, and its bits are the drawn group. -/
theorem exists_deriveGroupBitmapOver (hpos : 0 < nodeCount) (hle : nodeCount ≤ 256)
    (hsize : groupSize ≤ nodeCount) (hrounds : ¬RoundsExhausted round nodeCount groupSize) :
    ∃ bitmap, deriveGroupBitmapOver round nodeCount groupSize = .ok bitmap ∧
      ∀ i, bitmap.getLsbD i = true ↔
        i ∈ drawnGroup (roundResidues round nodeCount) nodeCount groupSize := by
  have hchecked : ¬(nodeCount = 0 ∨ nodeCount > 256 ∨ groupSize > nodeCount) := by omega
  rw [RoundsExhausted] at hrounds
  rw [deriveGroupBitmapOver, dif_neg hchecked]
  by_cases hzero : groupSize = 0
  · subst hzero
    refine ⟨Bitmap.empty, if_pos rfl, fun i => ?_⟩
    rw [drawnGroup, if_neg (Nat.not_lt_zero _), collect_of_card_ge (Nat.zero_le _)]
    simp [Bitmap.empty]
  by_cases hall : groupSize = nodeCount
  · subst hall
    refine ⟨Bitmap.fromLimbs (fullMaskLimbs groupSize), by rw [if_neg hzero, if_pos rfl],
      fun i => ?_⟩
    rw [drawnGroup, if_pos (by omega), Nat.sub_self, collect_of_card_ge (Nat.zero_le _),
      Finset.sdiff_empty]
    exact getLsbD_fullMask hle i
  rw [if_neg hzero, if_neg hall, drawnGroup]
  by_cases hhalf : groupSize > nodeCount / 2
  · have henough : nodeCount - groupSize ≤ (roundResidues round nodeCount).toFinset.card := by
      omega
    obtain ⟨excluded, hexcluded, hbits⟩ := exists_sampleWithoutReplacement hchecked henough
    rw [if_pos hhalf, if_pos hhalf, hexcluded]
    exact ⟨_, rfl, getLsbD_complement hle hbits (collect_roundResidues_subset hpos _)⟩
  · have henough : groupSize ≤ (roundResidues round nodeCount).toFinset.card := by omega
    obtain ⟨limbs, hlimbs, hbits⟩ := exists_sampleWithoutReplacement hchecked henough
    rw [if_neg hhalf, if_neg hhalf, hlimbs]
    refine ⟨Bitmap.fromLimbs limbs, rfl, fun i => ?_⟩
    rw [Bitmap.getLsbD_fromLimbs, hbits]

end Group

end MolphaVerifier
