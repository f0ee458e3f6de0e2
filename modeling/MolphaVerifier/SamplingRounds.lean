import MolphaVerifier.CollectionTail
import MolphaVerifier.SamplingSymmetry

/-!
# How many rounds a draw hashes

The sampler stops in the first round that completes the sample. `groupRounds` counts the rounds it
hashes. A digest of eight draws stays inside too small a set of slots with probability at most
`1 / 256`, since at least half of all draws are kept and fall outside; so the number of rounds has
an exponential tail, and running out of all rounds is the end of that tail.
-/

namespace MolphaVerifier

open FixedBytes LimbArithmetic BitVecIteration CappedCollection CollectionTail

open scoped ENNReal

/-- The rounds hashed while `remaining` rounds are left, until the sample is complete. -/
def hashedRounds (round : ℕ → Bytes 32) (n : SlotCount) (groupSize : ℕ) : ℕ → Sample → ℕ
  | 0, _ => 0
  | remaining + 1, sample =>
    if sample.selected < groupSize then
      let counter := deriveGroupBitmapMaxRounds - (remaining + 1)
      hashedRounds round n groupSize remaining
        (sampleDigest n groupSize (digestDraws (round counter)) sample) + 1
    else 0

/-- The rounds hashed by a draw; none where the group needs no sample. -/
def groupRounds (round : ℕ → Bytes 32) (nodeCount groupSize : ℕ) : ℕ :=
  if h : nodeCount = 0 ∨ nodeCount > 256 ∨ groupSize > nodeCount then 0
  else if groupSize = 0 then 0
  else if groupSize = nodeCount then 0
  else
    let sampleSize := if groupSize > nodeCount / 2 then nodeCount - groupSize else groupSize
    hashedRounds round (SlotCount.ofChecked h) sampleSize deriveGroupBitmapMaxRounds
      ⟨Vector.replicate 4 0, 0⟩

section Counting

variable {round : ℕ → Bytes 32} {n : SlotCount} {sample : Sample} {chosen : Finset ℕ} {k j : ℕ}

theorem Sample.Holds.lt_hashedRounds_iff (h : sample.Holds chosen) {remaining : ℕ}
    (hremaining : remaining ≤ deriveGroupBitmapMaxRounds) :
    j < hashedRounds round n k remaining sample ↔ j < remaining ∧
      (collect k (keptResidues n.val
        (drawsFrom round (deriveGroupBitmapMaxRounds - remaining) j)) chosen).card < k := by
  induction remaining generalizing sample chosen j with
  | zero => simp [hashedRounds]
  | succ remaining ih =>
    rw [hashedRounds, h.selected_eq]
    by_cases hfew : chosen.card < k
    · rw [if_pos hfew]
      cases j with
      | zero =>
        refine iff_of_true (Nat.succ_pos _) ⟨Nat.succ_pos _, ?_⟩
        rw [drawsFrom]
        exact hfew
      | succ j =>
        have hnext : deriveGroupBitmapMaxRounds - (remaining + 1) + 1 =
            deriveGroupBitmapMaxRounds - remaining := by omega
        rw [Nat.add_lt_add_iff_right, ih (h.sampleDigest k _) (by omega), drawsFrom,
          keptResidues_append, collect_append, hnext, Nat.add_lt_add_iff_right]
    · rw [if_neg hfew, collect_of_card_ge (Nat.not_lt.mp hfew)]
      exact iff_of_false (Nat.not_lt_zero j) fun hshort => hfew hshort.2

/-- A draw hashes more than `j` rounds when `j` rounds hold too few distinct residues. -/
theorem lt_groupRounds_iff {nodeCount groupSize : ℕ} (hpos : 0 < nodeCount) (hle : nodeCount ≤ 256)
    (hsize : groupSize ≤ nodeCount) :
    j < groupRounds round nodeCount groupSize ↔ j < deriveGroupBitmapMaxRounds ∧
      (keptResidues nodeCount (drawsFrom round 0 j)).toFinset.card <
        min groupSize (nodeCount - groupSize) := by
  have hchecked : ¬(nodeCount = 0 ∨ nodeCount > 256 ∨ groupSize > nodeCount) := by omega
  rw [groupRounds, dif_neg hchecked]
  by_cases hzero : groupSize = 0
  · rw [if_pos hzero]
    omega
  by_cases hall : groupSize = nodeCount
  · rw [if_neg hzero, if_pos hall]
    omega
  have hmin : (if groupSize > nodeCount / 2 then nodeCount - groupSize else groupSize) =
      min groupSize (nodeCount - groupSize) := by
    split <;> omega
  have hshort := @Sample.Holds.lt_hashedRounds_iff round (SlotCount.ofChecked hchecked) _ _
    (min groupSize (nodeCount - groupSize)) j holds_empty _ le_rfl
  rw [if_neg hzero, if_neg hall, hmin, hshort, Nat.sub_self, card_collect_empty]
  refine and_congr_right fun _ => ?_
  rw [min_lt_iff, or_iff_right (lt_irrefl _)]
  rfl

end Counting

section Digests

variable {n : SlotCount} {A : Finset ℕ}

def digestSlots (n : SlotCount) (digest : Bytes 32) : Finset ℕ :=
  (keptResidues n.val (digestDraws digest)).toFinset

/-- The draws that show no slot outside `A`. -/
def drawsInside (n : SlotCount) (A : Finset ℕ) : Finset ℕ :=
  (Finset.range (2 ^ 32)).filter fun draw => drawLimit n ≤ draw ∨ draw % n.val ∈ A

theorem digestSlots_subset_range (n : SlotCount) (digest : Bytes 32) :
    digestSlots n digest ⊆ Finset.range n.val := by
  intro i hi
  exact Finset.mem_range.mpr (lt_of_mem_keptResidues n.pos (List.mem_toFinset.mp hi))

theorem mem_drawsInside_of_digestSlots {digest : Bytes 32} (h : digestSlots n digest ⊆ A) {draw : ℕ}
    (hdraw : draw ∈ digestDraws digest) : draw ∈ drawsInside n A := by
  rw [drawsInside, Finset.mem_filter, Finset.mem_range]
  refine ⟨lt_of_mem_digestDraws hdraw, ?_⟩
  rcases Nat.lt_or_ge draw (drawLimit n) with hkept | hrejected
  · refine .inr (h (List.mem_toFinset.mpr ?_))
    rw [keptResidues, List.mem_map]
    refine ⟨draw, List.mem_filter.mpr ⟨hdraw, ?_⟩, rfl⟩
    exact decide_eq_true hkept
  · exact .inl hrejected

/-- Every residue has one draw in each block below the limit. -/
theorem card_kept_le (n : SlotCount) (A : Finset ℕ) :
    ((Finset.range (drawLimit n)).filter fun draw => draw % n.val ∈ A).card ≤
      (2 ^ 32 - 1) / n.val * A.card := by
  have hcard := Finset.card_product (Finset.range ((2 ^ 32 - 1) / n.val)) A
  rw [Finset.card_range] at hcard
  rw [← hcard]
  refine Finset.card_le_card_of_injOn (fun draw => (draw / n.val, draw % n.val)) ?_ ?_
  · intro draw hdraw
    obtain ⟨hlt, hmem⟩ := Finset.mem_filter.mp hdraw
    refine Finset.mem_product.mpr ⟨Finset.mem_range.mpr ?_, hmem⟩
    exact (Nat.div_lt_iff_lt_mul n.pos).mpr (Finset.mem_range.mp hlt)
  · intro draw _ draw' _ heq
    obtain ⟨hdiv, hmod⟩ := Prod.mk.inj heq
    rw [← Nat.div_add_mod draw n.val, ← Nat.div_add_mod draw' n.val, hdiv, hmod]

/-- At least half of all draws show a slot outside a set of fewer than half of the slots. -/
theorem card_drawsInside_le (hA : 2 * A.card + 2 ≤ n.val) : (drawsInside n A).card ≤ 2 ^ 31 := by
  have hsplit : drawsInside n A ⊆ Finset.Ico (drawLimit n) (2 ^ 32) ∪
      (Finset.range (drawLimit n)).filter fun draw => draw % n.val ∈ A := by
    intro draw hdraw
    rw [drawsInside, Finset.mem_filter, Finset.mem_range] at hdraw
    rw [Finset.mem_union, Finset.mem_Ico, Finset.mem_filter, Finset.mem_range]
    rcases Nat.lt_or_ge draw (drawLimit n) with hkept | hrejected
    · exact .inr ⟨hkept, hdraw.2.resolve_left (Nat.not_le.mpr hkept)⟩
    · exact .inl ⟨hrejected, hdraw.1⟩
  have hcard := (Finset.card_le_card hsplit).trans (Finset.card_union_le _ _)
  rw [Nat.card_Ico] at hcard
  have hkept := card_kept_le n A
  have hlimit := drawLimit_le n
  have hrest : 2 ^ 32 - 1 < drawLimit n + n.val := by
    rw [drawLimit, ← Nat.succ_mul]
    exact Nat.lt_mul_of_div_lt (Nat.lt_succ_self _) n.pos
  have hblocks : (2 ^ 32 - 1) / n.val * (2 * A.card + 2) ≤ drawLimit n :=
    Nat.mul_le_mul_left _ hA
  have hmany : 2 ^ 23 ≤ (2 ^ 32 - 1) / n.val := by
    rw [Nat.le_div_iff_mul_le n.pos]
    exact (Nat.mul_le_mul_left _ n.le).trans (by norm_num)
  have hle := n.le
  rw [Nat.mul_add, Nat.mul_left_comm] at hblocks
  omega

theorem card_bytes (k : ℕ) : Fintype.card (Bytes k) = 256 ^ k := by
  have h := Fintype.card_congr (Equiv.ofBijective
    (fun b : Bytes k => (⟨bytesToNat b, bytesToNat_lt b⟩ : Fin (256 ^ k)))
    ⟨fun b b' heq => bytesToNat_injective (Fin.mk.inj heq), fun i =>
      ⟨natToBytes k i.val, Fin.ext (bytesToNat_natToBytes_of_lt i.isLt)⟩⟩)
  rw [h, Fintype.card_fin]

theorem card_inside_le (n : SlotCount) (A : Finset ℕ) :
    (inside (digestSlots n) A).card ≤ (drawsInside n A).card ^ 8 := by
  have hcard : (Fintype.piFinset fun _ : Fin 8 => drawsInside n A).card =
      (drawsInside n A).card ^ 8 := by
    rw [Fintype.card_piFinset, Finset.prod_const, Finset.card_univ, Fintype.card_fin]
  rw [← hcard]
  refine Finset.card_le_card_of_injOn (fun digest (i : Fin 8) => (digestDraws digest).getD i 0)
    ?_ ?_
  · intro digest hdigest
    rw [Finset.mem_coe, inside, Finset.mem_filter_univ] at hdigest
    rw [Finset.mem_coe, Fintype.mem_piFinset]
    intro i
    have hi : i.val < (digestDraws digest).length := by
      rw [length_digestDraws]
      exact i.isLt
    dsimp only
    rw [List.getD_eq_getElem _ _ hi]
    exact mem_drawsInside_of_digestSlots hdigest (List.getElem_mem hi)
  · intro digest _ digest' _ heq
    have hdraws : digestDraws digest = digestDraws digest' := by
      refine List.ext_getElem ?_ fun i hi hi' => ?_
      · rw [length_digestDraws, length_digestDraws]
      · have h8 : i < 8 := by rwa [length_digestDraws] at hi
        have hget := congrFun heq ⟨i, h8⟩
        dsimp only at hget
        rwa [List.getD_eq_getElem _ _ hi, List.getD_eq_getElem _ _ hi'] at hget
    rw [← digestOfDraws_digestDraws digest, hdraws, digestOfDraws_digestDraws]

theorem card_inside_mul_le (hA : 2 * A.card + 2 ≤ n.val) :
    256 * (inside (digestSlots n) A).card ≤ Fintype.card (Bytes 32) := by
  have hpow := Nat.pow_le_pow_left (card_drawsInside_le hA) 8
  have hcard := (card_inside_le n A).trans hpow
  rw [card_bytes]
  calc 256 * (inside (digestSlots n) A).card ≤ 256 * (2 ^ 31) ^ 8 := Nat.mul_le_mul_left _ hcard
    _ = 256 ^ 32 := by norm_num

end Digests

section Reading

variable {round round' : ℕ → Bytes 32} {n : SlotCount}

/-- The rounds that are hashed determine the rest of the run. -/
theorem sampleRounds_congr {k remaining : ℕ} {sample : Sample}
    (h : ∀ i < hashedRounds round n k remaining sample,
      round (deriveGroupBitmapMaxRounds - remaining + i) =
        round' (deriveGroupBitmapMaxRounds - remaining + i))
    (hremaining : remaining ≤ deriveGroupBitmapMaxRounds) :
    sampleRounds round n k remaining sample = sampleRounds round' n k remaining sample := by
  induction remaining generalizing sample with
  | zero => rfl
  | succ remaining ih =>
    rw [sampleRounds, sampleRounds]
    by_cases hfew : sample.selected < k
    · have hhead : round (deriveGroupBitmapMaxRounds - (remaining + 1)) =
          round' (deriveGroupBitmapMaxRounds - (remaining + 1)) := by
        have hzero := h 0 (by rw [hashedRounds, if_pos hfew]; exact Nat.succ_pos _)
        rwa [Nat.add_zero] at hzero
      rw [if_pos hfew, if_pos hfew]
      dsimp only
      rw [← hhead]
      refine ih (fun i hi => ?_) (by omega)
      have hnext : deriveGroupBitmapMaxRounds - (remaining + 1) + (i + 1) =
          deriveGroupBitmapMaxRounds - remaining + i := by omega
      have htail := h (i + 1) (by rw [hashedRounds, if_pos hfew]; exact Nat.succ_lt_succ hi)
      rwa [hnext] at htail
    · rw [if_neg hfew, if_neg hfew]

/-- A draw reads the digests of the rounds it hashes and no others. -/
theorem deriveGroupBitmapOver_congr_groupRounds {nodeCount groupSize : ℕ}
    (h : ∀ counter < groupRounds round nodeCount groupSize, round counter = round' counter) :
    deriveGroupBitmapOver round nodeCount groupSize =
      deriveGroupBitmapOver round' nodeCount groupSize := by
  by_cases hchecked : nodeCount = 0 ∨ nodeCount > 256 ∨ groupSize > nodeCount
  · rw [deriveGroupBitmapOver, dif_pos hchecked, deriveGroupBitmapOver, dif_pos hchecked]
  rw [deriveGroupBitmapOver, dif_neg hchecked, deriveGroupBitmapOver, dif_neg hchecked]
  by_cases hzero : groupSize = 0
  · rw [if_pos hzero, if_pos hzero]
  by_cases hall : groupSize = nodeCount
  · rw [if_neg hzero, if_pos hall, if_neg hzero, if_pos hall]
  rw [groupRounds, dif_neg hchecked, if_neg hzero, if_neg hall] at h
  have hsample := @sampleRounds_congr round round' _ _ _ _ (fun i hi => by
    rw [Nat.sub_self, Nat.zero_add]
    exact h i hi) le_rfl
  rw [if_neg hzero, if_neg hall, if_neg hzero, if_neg hall]
  by_cases hhalf : groupSize > nodeCount / 2
  · rw [if_pos hhalf] at hsample
    rw [if_pos hhalf, if_pos hhalf, sampleWithoutReplacement, hsample, sampleWithoutReplacement]
  · rw [if_neg hhalf] at hsample
    rw [if_neg hhalf, if_neg hhalf, sampleWithoutReplacement, hsample, sampleWithoutReplacement]

end Reading

section Tail

variable {n : SlotCount} {g j : ℕ} {tail : ℕ → Bytes 32}

theorem toFinset_keptResidues_roundsOf (hj : j ≤ deriveGroupBitmapMaxRounds)
    (digests : Fin deriveGroupBitmapMaxRounds → Bytes 32) :
    (keptResidues n.val (drawsFrom (roundsOf tail digests) 0 j)).toFinset =
      seenBefore (digestSlots n) j digests := by
  have hround (i : Fin deriveGroupBitmapMaxRounds) : roundsOf tail digests i.val = digests i := by
    rw [roundsOf, dif_pos i.isLt]
  ext slot
  rw [List.mem_toFinset, mem_seenBefore, drawsFrom_eq]
  simp only [keptResidues, digestSlots, List.mem_map, List.mem_filter, List.mem_flatMap,
    List.mem_range, List.mem_toFinset]
  constructor
  · rintro ⟨draw, ⟨⟨counter, hcounter, hdraw⟩, hkept⟩, hslot⟩
    have hlt := hcounter.trans_le hj
    refine ⟨⟨counter, hlt⟩, hcounter, draw, ⟨?_, hkept⟩, hslot⟩
    rwa [← hround ⟨counter, hlt⟩]
  · rintro ⟨i, hi, draw, ⟨hdraw, hkept⟩, hslot⟩
    refine ⟨draw, ⟨⟨i.val, hi, ?_⟩, hkept⟩, hslot⟩
    rwa [hround i]

theorem toOuterMeasure_short_le (n : SlotCount) (g : ℕ) (hj : j ≤ deriveGroupBitmapMaxRounds) :
    (PMF.uniformOfFintype (Fin deriveGroupBitmapMaxRounds → Bytes 32)).toOuterMeasure
        {digests | (seenBefore (digestSlots n) j digests).card < min g (n.val - g)} ≤
      2 ^ n.val / 256 ^ j := by
  have hinside : ∀ A ⊆ Finset.range n.val, A.card < min g (n.val - g) →
      256 * (inside (digestSlots n) A).card ≤ Fintype.card (Bytes 32) := fun A _ hA =>
    card_inside_mul_le (by omega)
  have h := toOuterMeasure_few_le (digestSlots_subset_range n) hinside (by norm_num) hj
  rw [Finset.card_range] at h
  exact_mod_cast h

theorem setOf_lt_groupRounds_subset (hsize : g ≤ n.val) (hj : j ≤ deriveGroupBitmapMaxRounds) :
    {digests | j < groupRounds (roundsOf tail digests) n.val g} ⊆
      {digests | (seenBefore (digestSlots n) j digests).card < min g (n.val - g)} := by
  intro digests hmore
  have hshort := ((lt_groupRounds_iff n.pos n.le hsize).mp hmore).2
  rwa [toFinset_keptResidues_roundsOf hj] at hshort

/-- The number of hashed rounds has an exponential tail. -/
theorem toOuterMeasure_groupRounds_le (n : SlotCount) (tail : ℕ → Bytes 32) (hsize : g ≤ n.val)
    (j : ℕ) :
    (PMF.uniformOfFintype (Fin deriveGroupBitmapMaxRounds → Bytes 32)).toOuterMeasure
        {digests | j < groupRounds (roundsOf tail digests) n.val g} ≤ 2 ^ n.val / 256 ^ j := by
  rcases Nat.lt_or_ge deriveGroupBitmapMaxRounds j with hlarge | hj
  · have hempty : {digests | j < groupRounds (roundsOf tail digests) n.val g} = ∅ := by
      refine Set.eq_empty_of_forall_notMem fun digests hmore => ?_
      have hlt := ((lt_groupRounds_iff n.pos n.le hsize).mp hmore).1
      exact absurd hlt (Nat.not_lt.mpr hlarge.le)
    rw [hempty, MeasureTheory.measure_empty]
    exact zero_le
  · exact (MeasureTheory.measure_mono (setOf_lt_groupRounds_subset hsize hj)).trans
      (toOuterMeasure_short_le n g hj)

theorem drawLaw_error_le (n : SlotCount) (tail : ℕ → Bytes 32) (hsize : g ≤ n.val) :
    drawLaw tail n.val g (.error .groupBitmapDerivationFailed) ≤
      2 ^ n.val / 256 ^ deriveGroupBitmapMaxRounds := by
  rw [drawLaw, ← PMF.toOuterMeasure_apply_singleton, PMF.toOuterMeasure_map_apply]
  refine le_trans (MeasureTheory.measure_mono ?_) (toOuterMeasure_short_le n g le_rfl)
  intro digests hfails
  have hfirst := (firstDistinctDraw (roundsOf tail digests) n.val g).error_iff.mp ⟨_, hfails⟩
  have hpos := n.pos
  have hle := n.le
  have hshort : (roundResidues (roundsOf tail digests) n.val).toFinset.card <
      min g (n.val - g) := by
    rcases hfirst with hzero | hmany | hlarge | ⟨-, -, hshort⟩
    · omega
    · omega
    · omega
    · exact hshort
  rw [roundResidues, toFinset_keptResidues_roundsOf le_rfl] at hshort
  exact hshort

end Tail

/-- A draw reads the digests of the rounds it hashes and no others. From uniform digests it hashes
more than `j` rounds with probability at most `2 ^ n / 256 ^ j`, and fails with probability at most
`2 ^ n / 256 ^ 65536`. -/
theorem sampling_rounds_tail (n : SlotCount) (g : ℕ) (hsize : g ≤ n.val) :
    (∀ round round' : ℕ → Bytes 32,
      (∀ counter < groupRounds round n.val g, round counter = round' counter) →
      deriveGroupBitmapOver round n.val g = deriveGroupBitmapOver round' n.val g) ∧
    ∀ tail : ℕ → Bytes 32,
      (∀ j, (PMF.uniformOfFintype (Fin deriveGroupBitmapMaxRounds → Bytes 32)).toOuterMeasure
        {digests | j < groupRounds (roundsOf tail digests) n.val g} ≤ 2 ^ n.val / 256 ^ j) ∧
      drawLaw tail n.val g (.error .groupBitmapDerivationFailed) ≤ 2 ^ n.val / 256 ^ 65536 :=
  ⟨fun _ _ => deriveGroupBitmapOver_congr_groupRounds, fun tail =>
    ⟨toOuterMeasure_groupRounds_le n tail hsize, drawLaw_error_le n tail hsize⟩⟩

/-- A committee of ten of the sixty-four nodes is drawn within twenty-four rounds, except with
probability `2 ^ 64 / 256 ^ 24`. -/
theorem sampling_rounds_tail_sample :
    (PMF.uniformOfFintype (Fin deriveGroupBitmapMaxRounds → Bytes 32)).toOuterMeasure
      {digests | 24 < groupRounds (roundsOf (fun _ => Vector.replicate 32 0) digests) 64 10} ≤
      2 ^ 64 / 256 ^ 24 :=
  ((sampling_rounds_tail ⟨64, by norm_num, by norm_num⟩ 10 (by norm_num)).2 _).1 24

end MolphaVerifier
