import MolphaVerifier.CommitteePolicing
import MolphaVerifier.SetBitIteration
import MolphaVerifier.WordSets

/-!
# Bitmaps as sets of positions

A bitmap is changed by setting and clearing bits and combined with other bitmaps. The same changes of
a finite set of positions are followed step by step, and every question a bitmap answers (its bits,
their number and order, the tests against other bitmaps and against a node count) is answered from
the set.
-/

namespace MolphaVerifier

open FixedBytes BitVecIteration WordSets

namespace Bitmap

section Definitions

def full : Bitmap := BitVec.allOnes 256

def intersect (bitmap other : Bitmap) : Bitmap := bitmap &&& other

def union (bitmap other : Bitmap) : Bitmap := bitmap ||| other

/-- No bit at or above the node count. -/
def validateUpperBitsClear (bitmap : Bitmap) (nodeCount : ℕ) : Except AttestationError Unit :=
  if nodeCount > 256 then .error .invalidSignersBitmap
  else
    let mask := if nodeCount = 256 then full else (1#256 <<< nodeCount) - 1#256
    if bitmap &&& ~~~mask ≠ empty then .error .invalidSignersBitmap else .ok ()

inductive Change where
  | setBit (pos : ℕ)
  | clearBit (pos : ℕ)
  | union (other : Bitmap)
  | intersect (other : Bitmap)
  | subtract (other : Bitmap)
  | nodeBits
  | providerBits
  deriving DecidableEq

/-- The positions that are set and cleared are positions of a bitmap. -/
def Change.InRange : Change → Prop
  | .setBit pos => pos < 256
  | .clearBit pos => pos < 256
  | _ => True

instance : DecidablePred Change.InRange
  | .setBit pos => inferInstanceAs (Decidable (pos < 256))
  | .clearBit pos => inferInstanceAs (Decidable (pos < 256))
  | .union _ | .intersect _ | .subtract _ | .nodeBits | .providerBits => isTrue trivial

def apply (bitmap : Bitmap) : Change → Bitmap
  | .setBit pos => BitVecIteration.setBit bitmap pos
  | .clearBit pos => BitVecIteration.clearBit bitmap pos
  | .union other => union bitmap other
  | .intersect other => intersect bitmap other
  | .subtract other => subtract bitmap other
  | .nodeBits => nodeBits bitmap
  | .providerBits => providerBits bitmap

def applyToSet (chosen : Finset ℕ) : Change → Finset ℕ
  | .setBit pos => insert pos chosen
  | .clearBit pos => chosen.erase pos
  | .union other => chosen ∪ members other
  | .intersect other => chosen ∩ members other
  | .subtract other => chosen \ members other
  | .nodeBits => chosen.filter (· < nodeSlots)
  | .providerBits => chosen.filter (nodeSlots ≤ ·)

end Definitions

section Changes

variable {bitmap other : Bitmap} {nodeCount pos : ℕ}

theorem members_nodeMask : members nodeMask = Finset.range nodeSlots := by
  ext i
  rw [mem_members, getLsbD_nodeMask, decide_eq_true_eq, Finset.mem_range]

theorem members_nodeBits (bitmap : Bitmap) :
    members (nodeBits bitmap) = (members bitmap).filter (· < nodeSlots) := by
  rw [nodeBits, members_and, members_nodeMask]
  ext i
  rw [Finset.mem_inter, Finset.mem_filter, Finset.mem_range]

theorem members_providerBits (bitmap : Bitmap) :
    members (providerBits bitmap) = (members bitmap).filter (nodeSlots ≤ ·) := by
  rw [providerBits, members_and_not, members_nodeMask]
  ext i
  rw [Finset.mem_sdiff, Finset.mem_filter, Finset.mem_range, Nat.not_lt]

theorem members_apply {change : Change} (h : change.InRange) :
    members (bitmap.apply change) = applyToSet (members bitmap) change := by
  cases change with
  | setBit pos => exact members_setBit h bitmap
  | clearBit pos => exact members_clearBit bitmap pos
  | union other => exact members_or bitmap other
  | intersect other => exact members_and bitmap other
  | subtract other => exact members_and_not bitmap other
  | nodeBits => exact members_nodeBits bitmap
  | providerBits => exact members_providerBits bitmap

theorem members_run {changes : List Change} (h : ∀ change ∈ changes, change.InRange)
    (bitmap : Bitmap) : members (changes.foldl apply bitmap) =
      changes.foldl applyToSet (members bitmap) := by
  induction changes generalizing bitmap with
  | nil => rfl
  | cons change changes ih =>
    rw [List.foldl_cons, List.foldl_cons, ← members_apply (h change List.mem_cons_self)]
    exact ih (fun change hmem => h change (List.mem_cons_of_mem _ hmem)) _

end Changes

section Answers

variable {bitmap other : Bitmap} {nodeCount pos : ℕ}

theorem bitSet_eq_mem (bitmap : Bitmap) (pos : ℕ) :
    bitSet bitmap pos = decide (pos ∈ members bitmap) := by
  rw [bitSet_eq, Bool.eq_iff_iff, decide_eq_true_eq, mem_members]

theorem isSubset_eq (bitmap other : Bitmap) :
    isSubset bitmap other = decide (members bitmap ⊆ members other) := by
  rw [isSubset, Bool.eq_iff_iff, beq_iff_eq, decide_eq_true_eq, members_subset_iff]
  rfl

theorem validateUpperBitsClear_eq (bitmap : Bitmap) (nodeCount : ℕ) :
    validateUpperBitsClear bitmap nodeCount =
      if nodeCount ≤ 256 ∧ members bitmap ⊆ Finset.range nodeCount then .ok ()
      else .error .invalidSignersBitmap := by
  rw [validateUpperBitsClear]
  by_cases hcount : nodeCount > 256
  · rw [if_pos hcount, if_neg fun h => absurd h.1 (Nat.not_le.mpr hcount)]
  have hmask : members (if nodeCount = 256 then full else (1#256 <<< nodeCount) - 1#256) =
      Finset.range nodeCount := by
    split
    next hall => rw [full, members_allOnes, hall]
    next hpart => exact members_lowMask (by omega)
  have hclear := members_subset_iff (x := bitmap)
    (y := if nodeCount = 256 then full else (1#256 <<< nodeCount) - 1#256)
  rw [hmask] at hclear
  rw [if_neg hcount]
  dsimp only
  by_cases hsubset : members bitmap ⊆ Finset.range nodeCount
  · have hnone := not_not.mpr (hclear.mp hsubset)
    rw [if_pos (And.intro (Nat.not_lt.mp hcount) hsubset)]
    exact if_neg hnone
  · have hsome := mt hclear.mpr hsubset
    rw [if_neg (fun h : nodeCount ≤ 256 ∧ members bitmap ⊆ Finset.range nodeCount => hsubset h.2)]
    exact if_pos hsome

/-- Every question about a bitmap is answered from a set of positions. -/
structure AnswersFrom (bitmap : Bitmap) (chosen : Finset ℕ) : Prop where
  bitSet_eq : ∀ pos < 256, bitSet bitmap pos = decide (pos ∈ chosen)
  byteBit_eq : ∀ pos < 256, byteBit (toBytes bitmap) pos = decide (pos ∈ chosen)
  popcount_eq : popcount bitmap = chosen.card
  trailingZeros_eq : trailingZeros bitmap = (chosen.sort.head?).getD 256
  nthSetBit_eq : ∀ rank, nthSetBit bitmap rank = chosen.sort[rank]?
  forEachSetBit_eq : ∀ (σ ε : Type) (f : ℕ → StateT σ (Except ε) PUnit),
    forEachSetBit bitmap f = forM chosen.sort f >>= fun _ => pure empty
  eq_iff : ∀ other, bitmap = other ↔ chosen = members other
  isSubset_eq : ∀ other, isSubset bitmap other = decide (chosen ⊆ members other)
  validateUpperBitsClear_eq : ∀ nodeCount, validateUpperBitsClear bitmap nodeCount =
    if nodeCount ≤ 256 ∧ chosen ⊆ Finset.range nodeCount then .ok ()
    else .error .invalidSignersBitmap

theorem answersFrom_members (bitmap : Bitmap) : AnswersFrom bitmap (members bitmap) where
  bitSet_eq pos _ := bitSet_eq_mem bitmap pos
  byteBit_eq pos hpos := by
    rw [byteBit_toBytes hpos, ← Bitmap.bitSet_eq, bitSet_eq_mem]
  popcount_eq := (card_members bitmap).symm
  trailingZeros_eq := toNat_ctz_eq bitmap
  nthSetBit_eq rank := by rw [sort_members, Bitmap.nthSetBit_eq]
  forEachSetBit_eq σ ε f := by rw [sort_members, MolphaVerifier.forEachSetBit_eq]
  eq_iff other := members_injective.eq_iff.symm
  isSubset_eq := isSubset_eq bitmap
  validateUpperBitsClear_eq := validateUpperBitsClear_eq bitmap

/-- After any changes a bitmap answers from the set changed the same way. -/
theorem bitmap_follows_set (bitmap : Bitmap) (changes : List Change)
    (h : ∀ change ∈ changes, change.InRange) :
    AnswersFrom (changes.foldl apply bitmap) (changes.foldl applyToSet (members bitmap)) := by
  rw [← members_run h]
  exact answersFrom_members _

theorem bitmap_follows_set_sample : AnswersFrom
    ([.setBit 70, .setBit 3, .union (6 : Bitmap), .clearBit 1, .nodeBits].foldl apply empty)
    ([.setBit 70, .setBit 3, .union (6 : Bitmap), .clearBit 1, .nodeBits].foldl applyToSet
      (members empty)) :=
  bitmap_follows_set empty [.setBit 70, .setBit 3, .union (6 : Bitmap), .clearBit 1, .nodeBits]
    (by decide)

end Answers

section Groups

/-- What the sampler draws passes the check against its slot count. -/
theorem validateUpperBitsClear_of_derived {keccak : Keccak} {seed : Bytes 32}
    {nodeCount groupSize : ℕ} {group : Bitmap}
    (h : deriveGroupBitmap keccak seed nodeCount groupSize = .ok group) :
    validateUpperBitsClear group nodeCount = .ok () := by
  have hbounds : ¬(nodeCount = 0 ∨ nodeCount > 256 ∨ groupSize > nodeCount) := by
    intro hbad
    rw [deriveGroupBitmap, deriveGroupBitmapOver, dif_pos hbad] at h
    cases h
  have hpos : 0 < nodeCount := by omega
  have hle : nodeCount ≤ 256 := by omega
  have hsize : groupSize ≤ nodeCount := by omega
  have hrounds : ¬RoundsExhausted (selectionHashRound keccak seed) nodeCount groupSize := by
    intro hexhausted
    rw [deriveGroupBitmap, deriveGroupBitmapOver_of_exhausted hexhausted] at h
    cases h
  obtain ⟨bitmap, hbitmap, hmem⟩ := exists_deriveGroupBitmapOver hpos hle hsize hrounds
  rw [deriveGroupBitmap, hbitmap] at h
  obtain rfl : bitmap = group := Except.ok.inj h
  rw [validateUpperBitsClear_eq, if_pos]
  refine ⟨hle, fun i hi => ?_⟩
  exact drawnGroup_subset hpos groupSize ((hmem i).mp (mem_members.mp hi))

end Groups

end Bitmap

end MolphaVerifier
