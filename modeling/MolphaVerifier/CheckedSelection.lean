import MolphaVerifier.CheckedRuns
import MolphaVerifier.CommitteePolicing

/-!
# Selection with its checks

The selection of a round with every place where the compiled code can stop: the arrays of the live
slots and of the sampler's limbs, the shifts, the divisions and the counters. No registry and no
request makes it stop, whatever the records and the counts hold, and what it returns is the selection
of the unchecked model.
-/

namespace MolphaVerifier

open FixedBytes LimbArithmetic BitVecIteration FallibleFolds RankedFilters CheckedRuns

namespace Checked

section Definitions

/-- The live node slots as 16-bit numbers in an array. -/
abbrev LiveSlots : Type := Buffer UInt16 64

def slotOfRank (live : LiveSlots) (rank : ℕ) : Option (Option ℕ) :=
  live.slice.map fun slots => slots[rank]?.map UInt16.toNat

/-- Whether a slot counts as live; the table is as long as the scan. -/
def countsAsLive (table : Option (List NodeEntry)) (slot : ℕ) : Option Bool :=
  match table with
  | none => some true
  | some nodes => nodes[slot]?.map fun node => !node.isVacant

def scanSlot (table : Option (List NodeEntry)) (out : LiveSlots) (slot : ℕ) : Option LiveSlots := do
  let live ← countsAsLive table slot
  if live then out.push (UInt16.ofNat slot) else some out

def liveSlots (registry : RegistryView) : Option LiveSlots :=
  let slots := min registry.nodeCount.toNat nodeSlots
  let table := if slots ≤ registry.nodes.length then some (registry.nodes.take slots) else none
  (List.range slots).foldlM (scanSlot table) ⟨Vector.replicate 64 0, 0⟩

def limbOf (pos : ℕ) : Option (ℕ × UInt64) := do
  let mask ← oneShl (pos &&& 63)
  some (pos >>> 6, mask)

/-- One limb of the mask of the low bits. -/
def fullMaskLimb (nodeCount i : ℕ) : Option UInt64 :=
  let low := i * 64
  if nodeCount ≥ low + 64 then some (UInt64.ofNat (2 ^ 64 - 1))
  else if nodeCount > low then do
    let bits ← subtract nodeCount low
    let bit ← oneShl bits
    decrement bit
  else some 0

def fullMaskLimbs (nodeCount : ℕ) : Option (Limbs 4) := do
  let l₀ ← fullMaskLimb nodeCount 0
  let l₁ ← fullMaskLimb nodeCount 1
  let l₂ ← fullMaskLimb nodeCount 2
  let l₃ ← fullMaskLimb nodeCount 3
  some #v[l₀, l₁, l₂, l₃]

def takeDraw (nodeCount limit : ℕ) (sample : Sample) (draw : ℕ) : Option Sample :=
  if draw < limit then do
    let slot ← remainder draw nodeCount
    let (limb, mask) ← limbOf slot
    let word ← CheckedRuns.get sample.bitmap limb
    if word &&& mask = 0 then do
      let bitmap ← CheckedRuns.set sample.bitmap limb (word ||| mask)
      let selected ← fits 32 (sample.selected + 1)
      some { bitmap := bitmap, selected := selected }
    else some sample
  else some sample

def sampleDigest (nodeCount groupSize limit : ℕ) : List ℕ → Sample → Option Sample
  | [], sample => some sample
  | draw :: draws, sample =>
    if sample.selected ≥ groupSize then some sample
    else do
      let sample ← takeDraw nodeCount limit sample draw
      sampleDigest nodeCount groupSize limit draws sample

/-- The rounds of a sample, counted up. -/
def sampleLoop (round : ℕ → Bytes 32) (nodeCount groupSize limit counter : ℕ) (sample : Sample) :
    ExceptT AttestationError Option (Limbs 4) :=
  if sample.selected < groupSize then
    if counter ≥ deriveGroupBitmapMaxRounds then throw .groupBitmapDerivationFailed
    else do
      let digest := round counter
      let _ ← fits 64 (counter + 1)
      let sample ← sampleDigest nodeCount groupSize limit (digestDraws digest) sample
      sampleLoop round nodeCount groupSize limit (counter + 1) sample
  else pure sample.bitmap
termination_by deriveGroupBitmapMaxRounds - counter

def sampleWithoutReplacement (round : ℕ → Bytes 32) (nodeCount groupSize : ℕ) :
    ExceptT AttestationError Option (Limbs 4) := do
  let quotient ← divide (2 ^ 32 - 1) nodeCount
  let limit ← fits 64 (quotient * nodeCount)
  sampleLoop round nodeCount groupSize limit 0 ⟨Vector.replicate 4 0, 0⟩

def deriveGroupBitmap (keccak : Keccak) (seed : Bytes 32) (nodeCount groupSize : ℕ) :
    ExceptT AttestationError Option Bitmap :=
  if nodeCount = 0 ∨ nodeCount > 256 ∨ groupSize > nodeCount then
    throw .groupBitmapDerivationFailed
  else if groupSize = 0 then pure Bitmap.empty
  else do
    let full ← fullMaskLimbs nodeCount
    if groupSize = nodeCount then pure (Bitmap.fromLimbs full)
    else do
      let bitmap ←
        if groupSize > nodeCount / 2 then do
          let size ← subtract nodeCount groupSize
          let excluded ← sampleWithoutReplacement (selectionHashRound keccak seed) nodeCount size
          pure (Vector.zipWith (· ^^^ ·) full excluded)
        else sampleWithoutReplacement (selectionHashRound keccak seed) nodeCount groupSize
      pure (Bitmap.fromLimbs bitmap)

/-- Visit the set bits in ascending order; a bit is cleared by a shift of the 256-bit word. -/
def forEachSetBit {σ : Type} (bm : Bitmap)
    (f : ℕ → StateT σ (ExceptT AttestationError Option) PUnit) :
    StateT σ (ExceptT AttestationError Option) Bitmap :=
  if _h : bm = Bitmap.empty then pure bm
  else
    let bitPos := Bitmap.trailingZeros bm
    if bitPos < 256 then do
      f bitPos
      forEachSetBit (clearBit bm bitPos) f
    else StateT.lift stopped
termination_by bm.toNat
decreasing_by exact toNat_clearBit_ctz_lt _h

def setBit (slots : Bitmap) (pos : ℕ) : Option Bitmap :=
  if pos < 256 then some (BitVecIteration.setBit slots pos) else none

def mapRank (live : LiveSlots) (slots : Bitmap) (rank : ℕ) :
    ExceptT AttestationError Option Bitmap := do
  match ← slotOfRank live rank with
  | some slot => setBit slots slot
  | none => throw .groupBitmapDerivationFailed

def mapRanks (live : LiveSlots) (ranks : Bitmap) : ExceptT AttestationError Option Bitmap := do
  let visited ← (forEachSetBit ranks fun rank => replaceM fun slots =>
    mapRank live slots rank).run Bitmap.empty
  pure visited.2

def deriveSelectionBitmap (keccak : Keccak) (sourceId : Bytes 32) (timestamp : UInt64)
    (signaturesRequired : UInt8) (registry : RegistryView) :
    ExceptT AttestationError Option Bitmap := do
  let seed := selectionSeed keccak sourceId timestamp registry.version
  let live ← liveSlots registry
  let liveCount := live.len % 2 ^ 32
  let selectionSize :=
    effectiveSelectionSize signaturesRequired registry.redundancyBuffer liveCount
  let ranks ← deriveGroupBitmap keccak seed liveCount selectionSize
  if liveCount = min registry.nodeCount.toNat nodeSlots then pure ranks else mapRanks live ranks

def verifySelection (keccak : Keccak) (sourceId : Bytes 32) (timestamp : UInt64)
    (signaturesRequired : UInt8) (registry : RegistryView) (signersBitmap : Bytes 32) :
    ExceptT AttestationError Option Bool := do
  let signers := Bitmap.load signersBitmap
  completed (checkQuorum signers signaturesRequired)
  let expectedSelectionBitmap ← deriveSelectionBitmap keccak sourceId timestamp
    (nodeQuorum signaturesRequired signers) registry
  pure (Bitmap.isSubset (Bitmap.nodeBits signers) expectedSelectionBitmap)

end Definitions

section LiveNodes

theorem lt_of_mem_liveSlots {registry : RegistryView} {slot : ℕ} (h : slot ∈ registry.liveSlots) :
    slot < 64 := by
  obtain ⟨test, htest⟩ := registry.exists_liveSlots_eq
  rw [htest, membersBelow, List.mem_filter, List.mem_range] at h
  exact h.1.trans_le registry.examinedSlots_le

variable {table : Option (List NodeEntry)} {out : LiveSlots} {live : List ℕ} {slot : ℕ}

theorem countsAsLive_eq (hslot : ∀ nodes ∈ table, slot < nodes.length) : countsAsLive table slot =
    some (table.all fun nodes => nodes[slot]?.any fun node => !node.isVacant) := by
  cases table with
  | none => rfl
  | some nodes =>
    rw [countsAsLive, Option.all_some, List.getElem?_eq_getElem (hslot nodes rfl)]
    rfl

theorem exists_scanSlot (hout : out.Holds (live.map UInt16.ofNat)) (hroom : live.length < 64)
    (hslot : ∀ nodes ∈ table, slot < nodes.length) :
    ∃ out', scanSlot table out slot = some out' ∧ out'.Holds
      ((if table.all fun nodes => nodes[slot]?.any fun node => !node.isVacant then live ++ [slot]
        else live).map UInt16.ofNat) := by
  obtain ⟨out', hpush, hout'⟩ := hout.push (by rwa [List.length_map]) (by decide)
    (UInt16.ofNat slot)
  rw [scanSlot, countsAsLive_eq hslot, Option.bind_eq_bind, Option.bind_some]
  split
  · refine ⟨out', hpush, ?_⟩
    rw [List.map_append]
    exact hout'
  · exact ⟨out, rfl, hout⟩

/-- The array is filled with the live slots. -/
theorem exists_liveSlots (registry : RegistryView) : ∃ live, liveSlots registry = some live ∧
    live.Holds (registry.liveSlots.map UInt16.ofNat) := by
  let room (k : ℕ) (out : LiveSlots) (live : List ℕ) : Prop :=
    out.Holds (live.map UInt16.ofNat) ∧ live.length + k ≤ 64
  have hexamined : min registry.nodeCount.toNat nodeSlots ≤ 64 := Nat.min_le_right _ _
  obtain ⟨out, hout, hholds, -⟩ : ∃ out, liveSlots registry = some out ∧
      room 0 out registry.liveSlots := by
    refine foldlM_follows room 0 (fun slot hslot k out live h => ?_)
      ⟨Buffer.holds_nil _, by simpa using hexamined⟩
    have hlen := h.2
    have hgrow (c : Bool) : (if c then live ++ [slot] else live).length ≤ live.length + 1 := by
      cases c <;> simp
    have htable : ∀ nodes ∈ if min registry.nodeCount.toNat nodeSlots ≤ registry.nodes.length then
        some (registry.nodes.take (min registry.nodeCount.toNat nodeSlots)) else none,
        slot < nodes.length := by
      intro nodes hnodes
      rw [List.mem_range] at hslot
      split at hnodes
      next hcover =>
        rw [Option.mem_some_iff] at hnodes
        rw [← hnodes, List.length_take]
        omega
      next => exact absurd hnodes (Option.not_mem_none _)
    obtain ⟨out', hscan, hout'⟩ := exists_scanSlot h.1 (by omega) htable
    exact ⟨out', hscan, hout', (Nat.add_le_add_right (hgrow _) k).trans (by omega)⟩
  exact ⟨out, hout, hholds⟩

theorem slotOfRank_eq {registry : RegistryView} {buffer : LiveSlots}
    (h : buffer.Holds (registry.liveSlots.map UInt16.ofNat)) (rank : ℕ) :
    slotOfRank buffer rank = some registry.liveSlots[rank]? := by
  rw [slotOfRank, h.slice_eq, Option.map_some, List.getElem?_map, Option.map_map]
  refine congrArg some ?_
  cases hslot : registry.liveSlots[rank]? with
  | none => rfl
  | some slot =>
    have hlt := lt_of_mem_liveSlots (List.mem_of_getElem? hslot)
    rw [Option.map_some, Function.comp_apply, UInt16.toNat_ofNat_of_lt' (by rw [UInt16.size]; omega)]

end LiveNodes

section Sampling

variable {n : SlotCount} {sample : Sample} {groupSize : ℕ}

theorem limbOf_eq (pos : Fin 256) : limbOf pos.val =
    some ((MolphaVerifier.limbOf pos).1.val, (MolphaVerifier.limbOf pos).2) := by
  have hmod : pos.val &&& 63 = pos.val % 64 := Nat.and_two_pow_sub_one_eq_mod pos.val 6
  rw [limbOf, hmod, oneShl_eq (Nat.mod_lt _ (by decide)), Nat.shiftRight_eq_div_pow]
  rfl

theorem fullMaskLimb_eq (nodeCount : ℕ) {i : ℕ} (hi : i < 4) :
    fullMaskLimb nodeCount i = some (MolphaVerifier.fullMaskLimbs nodeCount)[i] := by
  rw [fullMaskLimb, MolphaVerifier.fullMaskLimbs, Vector.getElem_ofFn]
  dsimp only
  split
  · rfl
  · split
    next hpart =>
      rw [subtract_eq hpart.le, Option.bind_eq_bind, Option.bind_some, oneShl_eq (by omega),
        Option.bind_eq_bind, Option.bind_some, decrement,
        if_neg (one_shiftLeft_ne_zero (by omega))]
    next => rfl

theorem fullMaskLimbs_eq (nodeCount : ℕ) :
    fullMaskLimbs nodeCount = some (MolphaVerifier.fullMaskLimbs nodeCount) := by
  rw [fullMaskLimbs, fullMaskLimb_eq nodeCount (i := 0) (by decide),
    fullMaskLimb_eq nodeCount (i := 1) (by decide), fullMaskLimb_eq nodeCount (i := 2) (by decide),
    fullMaskLimb_eq nodeCount (i := 3) (by decide)]
  rfl

theorem takeDraw_eq (hroom : sample.selected < 2 ^ 32 - 1) (draw : ℕ) :
    takeDraw n.val (drawLimit n) sample draw = some (MolphaVerifier.takeDraw n sample draw) := by
  rw [takeDraw, MolphaVerifier.takeDraw]
  split
  swap
  · rfl
  have hlimb := limbOf_eq (n.slotOf draw)
  have hword : CheckedRuns.get sample.bitmap (MolphaVerifier.limbOf (n.slotOf draw)).1.val =
      some (sample.bitmap.get (MolphaVerifier.limbOf (n.slotOf draw)).1) :=
    dif_pos (MolphaVerifier.limbOf (n.slotOf draw)).1.isLt
  rw [remainder_eq draw n.pos, Option.bind_eq_bind, Option.bind_some]
  change limbOf (draw % n.val) = _ at hlimb
  rw [hlimb, Option.bind_eq_bind, Option.bind_some]
  dsimp only
  rw [hword, Option.bind_eq_bind, Option.bind_some]
  split
  · rw [CheckedRuns.set, dif_pos (MolphaVerifier.limbOf (n.slotOf draw)).1.isLt,
      fits_eq (by omega)]
    rfl
  · rfl

theorem sampleDigest_eq (hsize : groupSize < 2 ^ 32) (draws : List ℕ) (sample : Sample) :
    sampleDigest n.val groupSize (drawLimit n) draws sample =
      some (MolphaVerifier.sampleDigest n groupSize draws sample) := by
  induction draws generalizing sample with
  | nil => rfl
  | cons draw draws ih =>
    rw [sampleDigest, MolphaVerifier.sampleDigest]
    split
    · rfl
    · rw [takeDraw_eq (by omega), Option.bind_eq_bind, Option.bind_some]
      exact ih _

/-- Counting up to the bound is counting the remaining rounds down. -/
theorem sampleLoop_eq (round : ℕ → Bytes 32) (hsize : groupSize < 2 ^ 32) {counter remaining : ℕ}
    (hcounter : counter + remaining = deriveGroupBitmapMaxRounds) (sample : Sample) :
    sampleLoop round n.val groupSize (drawLimit n) counter sample =
      completed (sampleRounds round n groupSize remaining sample) := by
  induction remaining generalizing counter sample with
  | zero =>
    have hmax : counter ≥ deriveGroupBitmapMaxRounds := Nat.le_of_eq hcounter.symm
    rw [sampleLoop, sampleRounds, if_pos hmax]
    split <;> rfl
  | succ remaining ih =>
    have hmax : deriveGroupBitmapMaxRounds = 65536 := rfl
    have hnow : deriveGroupBitmapMaxRounds - (remaining + 1) = counter := by omega
    rw [sampleLoop, sampleRounds, hnow]
    split
    · rw [if_neg (by omega), fits_eq (by omega), some_bind, sampleDigest_eq hsize, some_bind]
      exact ih (by omega) _
    · rfl

theorem sampleWithoutReplacement_eq (round : ℕ → Bytes 32) (n : SlotCount)
    (hsize : groupSize < 2 ^ 32) : sampleWithoutReplacement round n.val groupSize =
      completed (MolphaVerifier.sampleWithoutReplacement round n groupSize) := by
  have hlimit : (2 ^ 32 - 1) / n.val * n.val < 2 ^ 64 :=
    (Nat.div_mul_le_self (2 ^ 32 - 1) n.val).trans_lt (by decide)
  rw [sampleWithoutReplacement, divide_eq _ n.pos, some_bind, fits_eq hlimit, some_bind]
  exact sampleLoop_eq round hsize (Nat.zero_add _) _

theorem deriveGroupBitmap_eq (keccak : Keccak) (seed : Bytes 32) (nodeCount groupSize : ℕ) :
    deriveGroupBitmap keccak seed nodeCount groupSize =
      completed (MolphaVerifier.deriveGroupBitmap keccak seed nodeCount groupSize) := by
  rw [deriveGroupBitmap, MolphaVerifier.deriveGroupBitmap, deriveGroupBitmapOver]
  by_cases hbad : nodeCount = 0 ∨ nodeCount > 256 ∨ groupSize > nodeCount
  · rw [if_pos hbad, dif_pos hbad]
    rfl
  rw [if_neg hbad, dif_neg hbad]
  split
  · rfl
  rw [fullMaskLimbs_eq, some_bind]
  dsimp only
  split
  · rfl
  have hsample (size : ℕ) (hsize : size ≤ nodeCount) :
      sampleWithoutReplacement (selectionHashRound keccak seed) nodeCount size =
        completed (MolphaVerifier.sampleWithoutReplacement (selectionHashRound keccak seed)
          (SlotCount.ofChecked hbad) size) :=
    sampleWithoutReplacement_eq _ (SlotCount.ofChecked hbad) (by omega)
  split
  · rw [subtract_eq (by omega), some_bind, hsample _ (Nat.sub_le _ _), ← completed_bind]
    rfl
  · rw [hsample _ (by omega), ← completed_bind]
    rfl

end Sampling

section Iteration

/-- The lowest set bit is a position of the word, so the loop is the unchecked one. -/
theorem forEachSetBit_eq {σ : Type} (bm : Bitmap)
    (f : ℕ → StateT σ (ExceptT AttestationError Option) PUnit) :
    forEachSetBit bm f = MolphaVerifier.forEachSetBit bm f := by
  induction hsize : bm.toNat using Nat.strong_induction_on generalizing bm with
  | _ size ih =>
    rw [forEachSetBit, MolphaVerifier.forEachSetBit]
    split
    · rfl
    next hne =>
      have hpos : Bitmap.trailingZeros bm < 256 :=
        BitVec.lt_of_getLsbD (BitVec.getLsbD_true_ctz_of_ne_zero hne)
      dsimp only
      rw [if_pos hpos]
      exact bind_congr fun _ => ih _ (hsize ▸ toNat_clearBit_ctz_lt hne) _ rfl

theorem run_forEachSetBit {σ : Type} {f : ℕ → σ → ExceptT AttestationError Option σ}
    {g : ℕ → σ → Except AttestationError σ} (h : ∀ bit s, f bit s = completed (g bit s))
    (bm : Bitmap) (s : σ) : (forEachSetBit bm fun bit => replaceM (f bit)).run s =
      completed ((MolphaVerifier.forEachSetBit bm fun bit => modifyM (g bit)).run s) := by
  rw [forEachSetBit_eq, MolphaVerifier.forEachSetBit_eq, MolphaVerifier.forEachSetBit_eq,
    StateT.run_bind, StateT.run_bind, run_forM_replaceM h, ← completed_bind]
  rfl

end Iteration

section Selection

variable {registry : RegistryView} {live : LiveSlots}

theorem setBit_eq {pos : ℕ} (h : pos < 256) (slots : Bitmap) :
    setBit slots pos = some (BitVecIteration.setBit slots pos) := if_pos h

theorem mapRank_eq (h : live.Holds (registry.liveSlots.map UInt16.ofNat)) (rank : ℕ)
    (slots : Bitmap) : mapRank live slots rank = completed (match registry.liveSlots[rank]? with
      | some slot => .ok (BitVecIteration.setBit slots slot)
      | none => .error .groupBitmapDerivationFailed) := by
  rw [mapRank, slotOfRank_eq h, some_bind]
  cases hslot : registry.liveSlots[rank]? with
  | none => rfl
  | some slot =>
    have hlt := lt_of_mem_liveSlots (List.mem_of_getElem? hslot)
    dsimp only
    rw [setBit_eq (by omega)]
    rfl

theorem mapRanks_eq (h : live.Holds (registry.liveSlots.map UInt16.ofNat)) (ranks : Bitmap) :
    mapRanks live ranks = completed (MolphaVerifier.mapRanks registry.liveSlots ranks) := by
  rw [mapRanks, MolphaVerifier.mapRanks, run_forEachSetBit fun rank slots => mapRank_eq h rank slots,
    ← completed_bind]
  rfl

theorem deriveSelectionBitmap_eq (keccak : Keccak) (sourceId : Bytes 32) (timestamp : UInt64)
    (signaturesRequired : UInt8) (registry : RegistryView) :
    deriveSelectionBitmap keccak sourceId timestamp signaturesRequired registry =
      completed (MolphaVerifier.deriveSelectionBitmap keccak sourceId timestamp signaturesRequired
        registry) := by
  obtain ⟨live, hlive, hholds⟩ := exists_liveSlots registry
  have hcount : live.len % 2 ^ 32 = registry.liveSlots.length := by
    have hle : registry.liveSlots.length ≤ 64 := registry.liveCount_le
    rw [hholds.len_eq, List.length_map]
    omega
  rw [deriveSelectionBitmap, MolphaVerifier.deriveSelectionBitmap, hlive, some_bind, hcount]
  dsimp only
  rw [deriveGroupBitmap_eq, ← completed_bind]
  refine bind_congr fun ranks => ?_
  split
  · rfl
  · exact mapRanks_eq hholds ranks

/-- Neither the derivation of a committee nor the judgement of signers ever stops: both return what
the unchecked model returns. -/
theorem selection_never_stops (keccak : Keccak) (sourceId : Bytes 32) (timestamp : UInt64)
    (signaturesRequired : UInt8) (registry : RegistryView) (signersBitmap : Bytes 32) :
    deriveSelectionBitmap keccak sourceId timestamp signaturesRequired registry =
        completed (MolphaVerifier.deriveSelectionBitmap keccak sourceId timestamp
          signaturesRequired registry) ∧
      verifySelection keccak sourceId timestamp signaturesRequired registry signersBitmap =
        completed (MolphaVerifier.verifySelection keccak sourceId timestamp signaturesRequired
          registry signersBitmap) := by
  refine ⟨deriveSelectionBitmap_eq .., ?_⟩
  rw [verifySelection, MolphaVerifier.verifySelection, deriveSelectionBitmap_eq, ← completed_bind]
  refine bind_congr fun _ => ?_
  rw [← completed_bind]
  rfl

end Selection

end Checked

end MolphaVerifier
