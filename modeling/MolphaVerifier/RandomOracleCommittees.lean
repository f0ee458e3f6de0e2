import MolphaVerifier.HashPreimages
import MolphaVerifier.SamplingRounds

/-!
# Committees under a random hash

The hash function is left as it is except at the sampler's rounds, which are answered by uniform
digests. Then the committee of a round is a uniform set of live slots of the size asked for, except
for an exhausted sampler; its corrupted seats are hypergeometric; and the committees of rounds with
different seeds are independent.
-/

namespace MolphaVerifier

open FixedBytes BitVecIteration UniformLaws

open scoped ENNReal

/-- The slots of a drawn bitmap; nothing when the draw failed. -/
def drawnSlots : Except AttestationError Bitmap → Option (Finset ℕ)
  | .ok bitmap => some (setBits bitmap).toFinset
  | .error _ => none

section Groups

variable {n : SlotCount} {g : ℕ} {tail : ℕ → Bytes 32} {s : Finset ℕ}

/-- The bitmap of a set of slots. -/
noncomputable def bitmapOf (s : Finset ℕ) : Bitmap := ofBits 256 s.toList

theorem mem_setBits_bitmapOf (hs : ∀ i ∈ s, i < 256) (i : ℕ) :
    i ∈ setBits (bitmapOf s) ↔ i ∈ s := by
  rw [bitmapOf, mem_setBits, getLsbD_ofBits fun j hj => hs j (Finset.mem_toList.mp hj),
    Finset.mem_toList]

theorem toFinset_setBits_bitmapOf (hs : ∀ i ∈ s, i < 256) : (setBits (bitmapOf s)).toFinset = s := by
  ext i
  rw [List.mem_toFinset, mem_setBits_bitmapOf hs]

theorem IsGroup.slots_mem {bitmap : Bitmap} (h : IsGroup n.val g bitmap) :
    (setBits bitmap).toFinset ∈ (Finset.range n.val).powersetCard g := by
  rw [Finset.mem_powersetCard]
  constructor
  · intro i hi
    rw [List.mem_toFinset, mem_setBits] at hi
    exact Finset.mem_range.mpr (h.lt_of_bit i hi)
  · rw [List.toFinset_card_of_nodup (nodup_setBits bitmap), ← Bitmap.popcount_eq_length,
      h.popcount_eq]

theorem lt_of_mem_powersetCard (hs : s ∈ (Finset.range n.val).powersetCard g) {i : ℕ} (hi : i ∈ s) :
    i < n.val := Finset.mem_range.mp ((Finset.mem_powersetCard.mp hs).1 hi)

theorem isGroup_bitmapOf (hs : s ∈ (Finset.range n.val).powersetCard g) :
    IsGroup n.val g (bitmapOf s) := by
  have hlt : ∀ i ∈ s, i < 256 := fun i hi => (lt_of_mem_powersetCard hs hi).trans_le n.le
  constructor
  · rw [Bitmap.popcount_eq_length, ← List.toFinset_card_of_nodup (nodup_setBits _),
      toFinset_setBits_bitmapOf hlt]
    exact (Finset.mem_powersetCard.mp hs).2
  · intro i hi
    rw [← mem_setBits, mem_setBits_bitmapOf hlt] at hi
    exact lt_of_mem_powersetCard hs hi

theorem bitmapOf_slots (bitmap : Bitmap) : bitmapOf (setBits bitmap).toFinset = bitmap := by
  have hlt : ∀ i ∈ (setBits bitmap).toFinset, i < 256 := fun i hi =>
    BitVec.lt_of_getLsbD (mem_setBits.mp (List.mem_toFinset.mp hi))
  refine BitVec.eq_of_getLsbD_eq fun i _ => ?_
  rw [Bool.eq_iff_iff, ← mem_setBits, ← mem_setBits, mem_setBits_bitmapOf hlt, List.mem_toFinset]

theorem drawLaw_support {result : Except AttestationError Bitmap}
    (h : drawLaw tail n.val g result ≠ 0) :
    result = .error .groupBitmapDerivationFailed ∨
      ∃ bitmap, result = .ok bitmap ∧ IsGroup n.val g bitmap := by
  rw [← PMF.mem_support_iff, drawLaw, PMF.mem_support_map_iff] at h
  obtain ⟨digests, -, rfl⟩ := h
  have hdraw := firstDistinctDraw (roundsOf tail digests) n.val g
  cases hrun : deriveGroupBitmapOver (roundsOf tail digests) n.val g with
  | error e => exact .inl (by rw [hdraw.error_eq e hrun])
  | ok bitmap =>
    exact .inr ⟨bitmap, rfl, hdraw.popcount_eq bitmap hrun, hdraw.lt_of_bit bitmap hrun⟩

/-- The draws that succeed: the bitmaps of the sets of the group size. -/
noncomputable def groupOutcomes (nodeCount groupSize : ℕ) : Finset (Except AttestationError Bitmap) :=
  ((Finset.range nodeCount).powersetCard groupSize).image fun s => .ok (bitmapOf s)

theorem drawnSlots_bitmapOf (hs : s ∈ (Finset.range n.val).powersetCard g) :
    drawnSlots (.ok (bitmapOf s)) = some s := by
  rw [drawnSlots, toFinset_setBits_bitmapOf fun i hi => (lt_of_mem_powersetCard hs hi).trans_le n.le]

theorem flatExcept_drawLaw (n : SlotCount) (g : ℕ) (tail : ℕ → Bytes 32) :
    FlatExcept (drawLaw tail n.val g) (groupOutcomes n.val g)
      (.error .groupBitmapDerivationFailed) := by
  constructor
  · simp [groupOutcomes]
  · intro r hr r' hr'
    obtain ⟨s, hs, rfl⟩ := Finset.mem_image.mp hr
    obtain ⟨s', hs', rfl⟩ := Finset.mem_image.mp hr'
    exact drawLaw_eq n tail (isGroup_bitmapOf hs) (isGroup_bitmapOf hs')
  · intro r hr hfail
    by_contra hne
    rcases drawLaw_support hne with hfailed | ⟨bitmap, rfl, hgroup⟩
    · exact hfail hfailed
    · exact hr (Finset.mem_image.mpr ⟨_, hgroup.slots_mem, by rw [bitmapOf_slots]⟩)

theorem injOn_drawnSlots (n : SlotCount) (g : ℕ) : Set.InjOn drawnSlots
    (insert (.error .groupBitmapDerivationFailed) (groupOutcomes n.val g) :
      Finset (Except AttestationError Bitmap)) := by
  intro r hr r' hr' heq
  rw [Finset.mem_coe, Finset.mem_insert, groupOutcomes, Finset.mem_image] at hr hr'
  rcases hr with rfl | ⟨s, hs, rfl⟩ <;> rcases hr' with rfl | ⟨s', hs', rfl⟩
  · rfl
  · rw [drawnSlots_bitmapOf hs'] at heq
    cases heq
  · rw [drawnSlots_bitmapOf hs] at heq
    cases heq
  · rw [drawnSlots_bitmapOf hs, drawnSlots_bitmapOf hs', Option.some.injEq] at heq
    rw [heq]

/-- The law of the drawn ranks is flat on the sets of the group size. -/
theorem flatExcept_draw (n : SlotCount) (g : ℕ) (tail : ℕ → Bytes 32) :
    FlatExcept ((drawLaw tail n.val g).map drawnSlots)
      (((Finset.range n.val).powersetCard g).image some) none := by
  have himage : (groupOutcomes n.val g).image drawnSlots =
      ((Finset.range n.val).powersetCard g).image some := by
    rw [groupOutcomes, Finset.image_image]
    exact Finset.image_congr fun s hs => drawnSlots_bitmapOf hs
  rw [← himage]
  exact (flatExcept_drawLaw n g tail).map (injOn_drawnSlots n g)

end Groups

structure SelectionRound where
  sourceId : Bytes 32
  timestamp : UInt64
  signaturesRequired : UInt8
  registry : RegistryView

namespace SelectionRound

variable (keccak : Keccak) (round : SelectionRound)

def seed : Bytes 32 :=
  selectionSeed keccak round.sourceId round.timestamp round.registry.version

/-- The slots that are selected; nothing when the selection fails. -/
def committee : Option (Finset ℕ) :=
  drawnSlots (deriveSelectionBitmap keccak round.sourceId round.timestamp round.signaturesRequired
    round.registry)

def size : ℕ := committeeSize round.signaturesRequired round.registry

def live : Finset ℕ := round.registry.liveSlots.toFinset

def slotOf (rank : ℕ) : ℕ := round.registry.liveSlots.getD rank 0

end SelectionRound

section Programming

variable {ι : Type*} (keccak : Keccak) (seeds : ι → Bytes 32)
  (digests : ι → Fin deriveGroupBitmapMaxRounds → Bytes 32)

def roundSite (seed : Bytes 32) (counter : Fin deriveGroupBitmapMaxRounds) : List UInt8 :=
  (HashCall.samplerRound seed (UInt64.ofNat counter.val)).preimage

/-- The hash function with the sampler's rounds for some seeds answered by the given digests. -/
noncomputable def programRounds : Keccak :=
  Function.extend (fun site : ι × Fin deriveGroupBitmapMaxRounds => roundSite (seeds site.1) site.2)
    (fun site => digests site.1 site.2) keccak

variable {keccak seeds digests}

theorem toNat_counter (counter : Fin deriveGroupBitmapMaxRounds) :
    (UInt64.ofNat counter.val).toNat = counter.val :=
  UInt64.toNat_ofNat_of_lt' (counter.isLt.trans (by decide))

theorem selectionHashRound_eq (seed : Bytes 32) (counter : Fin deriveGroupBitmapMaxRounds) :
    selectionHashRound keccak seed counter.val = keccak (roundSite seed counter) := by
  have h := hashSites.samplerRound keccak seed (UInt64.ofNat counter.val)
  rwa [toNat_counter] at h

theorem roundSite_inj {seed seed' : Bytes 32} {counter counter' : Fin deriveGroupBitmapMaxRounds} :
    roundSite seed counter = roundSite seed' counter' ↔ seed = seed' ∧ counter = counter' := by
  rw [roundSite, roundSite, HashCall.preimage_inj, HashCall.samplerRound.injEq,
    ← UInt64.toNat_inj, toNat_counter, toNat_counter, Fin.val_inj]

theorem selectionHashRound_programRounds (hseeds : Function.Injective seeds) (i : ι)
    (counter : Fin deriveGroupBitmapMaxRounds) :
    selectionHashRound (programRounds keccak seeds digests) (seeds i) counter.val =
      digests i counter := by
  have hsites : Function.Injective fun site : ι × Fin deriveGroupBitmapMaxRounds =>
      roundSite (seeds site.1) site.2 := by
    intro site site' h
    obtain ⟨hseed, hcounter⟩ := roundSite_inj.mp h
    exact Prod.ext (hseeds hseed) hcounter
  rw [selectionHashRound_eq, programRounds]
  exact hsites.extend_apply (fun site => digests site.1 site.2) keccak (i, counter)

/-- No other call sees the programming. -/
theorem programRounds_preimage {call : HashCall} (h : call.purpose ≠ .samplerRound) :
    programRounds keccak seeds digests call.preimage = keccak call.preimage := by
  rw [programRounds]
  refine Function.extend_apply' _ _ _ ?_
  rintro ⟨site, hsite⟩
  rw [← HashCall.preimage_inj.mp hsite] at h
  exact h rfl

theorem seed_programRounds (round : SelectionRound) :
    round.seed (programRounds keccak seeds digests) = round.seed keccak := by
  rw [SelectionRound.seed, SelectionRound.seed, hashSites.selectionSeed, hashSites.selectionSeed]
  exact programRounds_preimage fun h => nomatch h

end Programming

section Law

variable {keccak : Keccak} {round : SelectionRound} {digests : ℕ → Bytes 32}

namespace SelectionRound

/-- The committee drawn by a sequence of digests. -/
def committeeOver (round : SelectionRound) (digests : ℕ → Bytes 32) : Option (Finset ℕ) :=
  (drawnSlots (deriveGroupBitmapOver digests round.registry.liveCount round.size)).map
    fun ranks => ranks.image round.slotOf

theorem getElem?_slotOf {rank : ℕ} (h : rank < round.registry.liveCount) :
    round.registry.liveSlots[rank]? = some (round.slotOf rank) := by
  rw [RegistryView.liveCount] at h
  rw [slotOf, List.getD_eq_getElem?_getD, List.getElem?_eq_getElem h, Option.getD_some]

/-- The selection is the draw over ranks, taken to their slots. -/
theorem committee_eq (keccak : Keccak) (round : SelectionRound) :
    round.committee keccak = round.committeeOver (selectionHashRound keccak (round.seed keccak)) := by
  by_cases hfailed : round.registry.liveCount = 0 ∨ SelectionExhausted keccak round.sourceId
      round.timestamp round.signaturesRequired round.registry
  · have hgroup : deriveGroupBitmapOver (selectionHashRound keccak (round.seed keccak))
        round.registry.liveCount round.size = .error .groupBitmapDerivationFailed :=
      deriveGroupBitmap_of_failed hfailed
    rw [committee, deriveSelectionBitmap_of_failed hfailed, committeeOver, hgroup]
    rfl
  · obtain ⟨hlive, hrounds⟩ := not_or.mp hfailed
    obtain ⟨ranks, committee', hgroup, hcommittee, -, hranks, hbits⟩ :=
      exists_deriveSelectionBitmap (Nat.pos_of_ne_zero hlive) hrounds
    have hdraw : deriveGroupBitmapOver (selectionHashRound keccak (round.seed keccak))
        round.registry.liveCount round.size = .ok ranks := hgroup
    rw [committee, hcommittee, committeeOver, hdraw, drawnSlots, drawnSlots, Option.map_some,
      Option.some.injEq]
    ext i
    rw [List.mem_toFinset, mem_setBits, hbits, Finset.mem_image]
    refine exists_congr fun rank => ?_
    rw [List.mem_toFinset, mem_setBits, hranks]
    refine and_congr_right fun hrank => ?_
    rw [getElem?_slotOf (lt_of_mem_drawnRanks (Nat.pos_of_ne_zero hlive) hrank), Option.some.injEq]

theorem slotOf_injOn (round : SelectionRound) :
    Set.InjOn round.slotOf (Finset.range round.registry.liveCount) := by
  obtain ⟨test, htest⟩ := round.registry.exists_liveSlots_eq
  intro rank hrank rank' hrank' heq
  have hget := getElem?_slotOf (Finset.mem_range.mp hrank)
  have hget' := getElem?_slotOf (Finset.mem_range.mp hrank')
  rw [heq] at hget
  rw [htest] at hget hget'
  exact (RankedFilters.getElem?_membersBelow.mp hget).2.symm.trans
    (RankedFilters.getElem?_membersBelow.mp hget').2

theorem image_slotOf (round : SelectionRound) :
    (Finset.range round.registry.liveCount).image round.slotOf = round.live := by
  ext i
  rw [Finset.mem_image, live, List.mem_toFinset, List.mem_iff_getElem?]
  constructor
  · rintro ⟨rank, hrank, rfl⟩
    exact ⟨rank, getElem?_slotOf (Finset.mem_range.mp hrank)⟩
  · rintro ⟨rank, hget⟩
    have hlt : rank < round.registry.liveCount := (List.getElem?_eq_some_iff.mp hget).1
    refine ⟨rank, Finset.mem_range.mpr hlt, ?_⟩
    rw [getElem?_slotOf hlt] at hget
    exact Option.some.inj hget

theorem card_live (round : SelectionRound) : round.live.card = round.registry.liveCount := by
  rw [← image_slotOf, Finset.card_image_of_injOn round.slotOf_injOn, Finset.card_range]

theorem nonempty_digests : Nonempty (Fin deriveGroupBitmapMaxRounds → Bytes 32) := inferInstance

/-- The law of the committee when the sampler's rounds are answered at random. -/
noncomputable def law (keccak : Keccak) (round : SelectionRound) : PMF (Option (Finset ℕ)) :=
  (@PMF.uniformOfFintype (Fin deriveGroupBitmapMaxRounds → Bytes 32) _ nonempty_digests).map
    fun digests =>
      round.committee (programRounds keccak (fun _ : Unit => round.seed keccak) fun _ => digests)

end SelectionRound

/-- The committee of a programmed round is drawn by the digests of its seed. -/
theorem committee_programRounds {ι : Type*} {rounds : ι → SelectionRound}
    (hseeds : Function.Injective fun i => (rounds i).seed keccak)
    (digests : ι → Fin deriveGroupBitmapMaxRounds → Bytes 32) (tail : ℕ → Bytes 32) (i : ι) :
    (rounds i).committee (programRounds keccak (fun i => (rounds i).seed keccak) digests) =
      (rounds i).committeeOver (roundsOf tail (digests i)) := by
  rw [SelectionRound.committee_eq, seed_programRounds, SelectionRound.committeeOver,
    SelectionRound.committeeOver]
  have hrounds : ∀ counter < deriveGroupBitmapMaxRounds,
      selectionHashRound (programRounds keccak (fun i => (rounds i).seed keccak) digests)
        ((rounds i).seed keccak) counter = roundsOf tail (digests i) counter := by
    intro counter hcounter
    rw [roundsOf, dif_pos hcounter]
    exact @selectionHashRound_programRounds ι keccak (fun i => (rounds i).seed keccak) digests
      hseeds i ⟨counter, hcounter⟩
  rw [deriveGroupBitmapOver_congr hrounds]

namespace SelectionRound

def noTail : ℕ → Bytes 32 := fun _ => Vector.replicate 32 0

theorem law_eq (keccak : Keccak) (round : SelectionRound) : round.law keccak =
    (PMF.uniformOfFintype (Fin deriveGroupBitmapMaxRounds → Bytes 32)).map fun digests =>
      round.committeeOver (roundsOf noTail digests) := by
  refine congrArg (fun f => (PMF.uniformOfFintype _).map f) (funext fun digests => ?_)
  exact @committee_programRounds keccak Unit (fun _ => round) (fun _ _ _ => rfl)
    (fun _ => digests) noTail ()

/-- The ranks of the live slots. -/
def slotCount (round : SelectionRound) (hlive : 0 < round.registry.liveCount) : SlotCount :=
  ⟨round.registry.liveCount, hlive, round.registry.liveCount_le.trans (by decide)⟩

theorem law_eq_map (keccak : Keccak) (round : SelectionRound)
    (hlive : 0 < round.registry.liveCount) : round.law keccak =
      ((drawLaw noTail (round.slotCount hlive).val round.size).map drawnSlots).map
        (Option.map fun ranks => ranks.image round.slotOf) := by
  rw [law_eq, drawLaw, PMF.map_comp, PMF.map_comp]
  rfl

/-- The law of the committee is flat on the sets of live slots of the size asked for. -/
theorem flatExcept_law (keccak : Keccak) (round : SelectionRound)
    (hlive : 0 < round.registry.liveCount) :
    FlatExcept (round.law keccak) ((round.live.powersetCard round.size).image some) none := by
  have hinj : Set.InjOn (Option.map fun ranks : Finset ℕ => ranks.image round.slotOf)
      (insert none (((Finset.range round.registry.liveCount).powersetCard round.size).image some) :
        Finset (Option (Finset ℕ))) := by
    intro o ho o' ho' heq
    rw [Finset.mem_coe, Finset.mem_insert, Finset.mem_image] at ho ho'
    rcases ho with rfl | ⟨R, hR, rfl⟩ <;> rcases ho' with rfl | ⟨R', hR', rfl⟩
    · rfl
    · cases heq
    · cases heq
    · rw [Option.map_some, Option.map_some, Option.some.injEq] at heq
      rw [(Finset.image_eq_image_iff_of_injOn round.slotOf_injOn (Finset.mem_powersetCard.mp hR).1
        (Finset.mem_powersetCard.mp hR').1).mp heq]
  have himage : (((Finset.range round.registry.liveCount).powersetCard round.size).image some).image
      (Option.map fun ranks => ranks.image round.slotOf) =
        (round.live.powersetCard round.size).image some := by
    rw [Finset.image_image, ← image_slotOf]
    ext o
    simp only [Finset.mem_image, Finset.mem_powersetCard, Function.comp_apply, Option.map_some]
    constructor
    · rintro ⟨R, ⟨hR, hcard⟩, rfl⟩
      refine ⟨R.image round.slotOf, ⟨Finset.image_subset_image hR, ?_⟩, rfl⟩
      rw [Finset.card_image_of_injOn (round.slotOf_injOn.mono hR), hcard]
    · rintro ⟨C, ⟨hC, hcard⟩, rfl⟩
      obtain ⟨R, hR, rfl⟩ := Finset.subset_image_iff.mp hC
      refine ⟨R, ⟨hR, ?_⟩, rfl⟩
      rwa [Finset.card_image_of_injOn (round.slotOf_injOn.mono hR)] at hcard
  rw [law_eq_map keccak round hlive, ← himage]
  exact (flatExcept_draw (round.slotCount hlive) round.size noTail).map hinj

theorem law_none_le (keccak : Keccak) (round : SelectionRound)
    (hlive : 0 < round.registry.liveCount) :
    round.law keccak none ≤ 2 ^ round.registry.liveCount / 256 ^ 65536 := by
  have hfail : round.law keccak none =
      drawLaw noTail (round.slotCount hlive).val round.size
        (.error .groupBitmapDerivationFailed) := by
    rw [law_eq_map keccak round hlive, ← PMF.toOuterMeasure_apply_singleton,
      PMF.toOuterMeasure_map_apply, PMF.toOuterMeasure_map_apply, drawLaw,
      PMF.toOuterMeasure_map_apply, ← PMF.toOuterMeasure_apply_singleton,
      PMF.toOuterMeasure_map_apply]
    refine congrArg _ (Set.ext fun digests => ?_)
    simp only [Set.mem_preimage, Set.mem_singleton_iff, Option.map_eq_none_iff]
    cases hrun : deriveGroupBitmapOver (roundsOf noTail digests) (round.slotCount hlive).val
        round.size with
    | error e =>
      rw [(firstDistinctDraw _ _ _).error_eq e hrun]
      exact iff_of_true rfl rfl
    | ok bitmap => exact iff_of_false (fun h => by cases h) (fun h => by cases h)
  rw [hfail]
  exact drawLaw_error_le (round.slotCount hlive) noTail committeeSize_le

end SelectionRound

end Law

section Results

variable (keccak : Keccak)

/-- Rounds with different seeds have independent committees. -/
theorem committees_independent {ι : Type*} [Fintype ι] [DecidableEq ι] (rounds : ι → SelectionRound)
    (hseeds : Function.Injective fun i => (rounds i).seed keccak)
    (committees : ι → Option (Finset ℕ)) :
    (PMF.uniformOfFintype (ι → Fin deriveGroupBitmapMaxRounds → Bytes 32)).map
        (fun digests i => (rounds i).committee
          (programRounds keccak (fun i => (rounds i).seed keccak) digests)) committees =
      ∏ i, (rounds i).law keccak (committees i) := by
  have hcommittees : (fun (digests : ι → Fin deriveGroupBitmapMaxRounds → Bytes 32) i =>
      (rounds i).committee (programRounds keccak (fun i => (rounds i).seed keccak) digests)) =
        fun digests i => (rounds i).committeeOver (roundsOf SelectionRound.noTail (digests i)) :=
    funext fun digests => funext fun i => committee_programRounds hseeds digests _ i
  rw [hcommittees, map_uniform_pi_apply fun i digests =>
    (rounds i).committeeOver (roundsOf SelectionRound.noTail digests)]
  exact Finset.prod_congr rfl fun i _ => by rw [SelectionRound.law_eq]

/-- The committee is a uniform set of live slots of the size asked for, up to a negligible failure
of the sampler. -/
theorem committee_uniform (round : SelectionRound) (hlive : 0 < round.registry.liveCount) :
    round.law keccak none ≤ 2 ^ round.registry.liveCount / 256 ^ 65536 ∧
      ∀ C : Finset ℕ, round.law keccak (some C) =
        if C ⊆ round.live ∧ C.card = round.size then
          (1 - round.law keccak none) / (round.registry.liveCount.choose round.size : ℕ)
        else 0 := by
  have hflat := round.flatExcept_law keccak hlive
  refine ⟨round.law_none_le keccak hlive, fun C => ?_⟩
  have hmem : some C ∈ (round.live.powersetCard round.size).image some ↔
      C ⊆ round.live ∧ C.card = round.size := by
    rw [(Option.some_injective _).mem_finset_image, Finset.mem_powersetCard]
  by_cases hC : C ⊆ round.live ∧ C.card = round.size
  · rw [if_pos hC, hflat.apply_eq (hmem.mpr hC),
      Finset.card_image_of_injective _ (Option.some_injective _), Finset.card_powersetCard,
      round.card_live]
  · rw [if_neg hC]
    exact hflat.eq_zero _ (mt hmem.mp hC) nofun

/-- The corrupted seats of a committee are hypergeometric. -/
theorem corrupted_seats (round : SelectionRound) (hlive : 0 < round.registry.liveCount)
    (corrupted : Finset ℕ) (seats : ℕ) (hseats : seats ≤ round.size) :
    (round.law keccak).toOuterMeasure {o | ∃ C ∈ o, (C ∩ corrupted).card = seats} =
      (1 - round.law keccak none) *
        (((round.live ∩ corrupted).card.choose seats *
            (round.live \ corrupted).card.choose (round.size - seats) : ℕ) /
          (round.registry.liveCount.choose round.size : ℕ)) := by
  rw [(round.flatExcept_law keccak hlive).hypergeometric corrupted hseats, round.card_live]

end Results

section Sample

/-- A hash function that keeps the second slice of 32 bytes: the source of a seed. -/
def sourceKeccak : Keccak := fun input => ofList 32 (input.drop 32)

/-- Three nodes without a table, and one signature required. -/
def sampleRound (source : ℕ) : SelectionRound :=
  ⟨natToBytes 32 source, 0, 1, ⟨1, 3, 0, 0, [], []⟩⟩

theorem live_sampleRound (source : ℕ) : (sampleRound source).live = {0, 1, 2} := rfl

theorem seed_sampleRound : Function.Injective fun i : Fin 2 =>
    (sampleRound i.val).seed sourceKeccak := by
  decide

/-- Two sources select two given nodes with the product of the probabilities. -/
theorem committees_independent_sample :
    (PMF.uniformOfFintype (Fin 2 → Fin deriveGroupBitmapMaxRounds → Bytes 32)).map
        (fun digests (i : Fin 2) => (sampleRound i.val).committee
          (programRounds sourceKeccak (fun i : Fin 2 => (sampleRound i.val).seed sourceKeccak)
            digests)) (fun i : Fin 2 => some {i.val}) =
      ∏ i : Fin 2, (sampleRound i.val).law sourceKeccak (some {i.val}) :=
  committees_independent sourceKeccak (fun i : Fin 2 => sampleRound i.val) seed_sampleRound _

/-- Every node of three is selected with a third of what an exhausted sampler leaves. -/
theorem committee_uniform_sample :
    (sampleRound 0).law sourceKeccak (some {2}) =
      (1 - (sampleRound 0).law sourceKeccak none) / (3 : ℕ) := by
  have h := (committee_uniform sourceKeccak (sampleRound 0) (by decide)).2 {2}
  rwa [if_pos ⟨by rw [live_sampleRound]; decide, by decide⟩] at h

/-- One corrupted node of three holds the seat with a third of it. -/
theorem corrupted_seats_sample :
    ((sampleRound 0).law sourceKeccak).toOuterMeasure {o | ∃ C ∈ o, (C ∩ {1}).card = 1} =
      (1 - (sampleRound 0).law sourceKeccak none) * ((1 : ℕ) / (3 : ℕ)) :=
  corrupted_seats sourceKeccak (sampleRound 0) (by decide) {1} 1 (by decide)

end Sample

end MolphaVerifier
