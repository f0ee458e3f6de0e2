import MolphaVerifier.RankedFilters
import MolphaVerifier.SignerBitmap
import MolphaVerifier.VisitedPrefixes

/-!
# Exact iteration over the set bits

`forEachSetBit` calls its visitor on the set bits of a bitmap in ascending order, each once, until a
call fails. `nthSetBit` peels the same way and stops at a rank, so it answers with the bit visited
there, and it inverts the count of the set bits below a set bit.
-/

namespace MolphaVerifier

open FixedBytes BitVecIteration VisitedPrefixes RankedFilters

namespace Bitmap

def bitSet (bitmap : Bitmap) (pos : ℕ) : Bool := (bitmap >>> pos) &&& 1#256 != 0

/-- The peeling loop of `nthSetBit`; `cursor` bits are already gone. -/
def nthSetBitFrom (bm : Bitmap) (cursor rank : ℕ) : Option ℕ :=
  if _h : bm = empty then none
  else
    let bitPos := trailingZeros bm
    if cursor = rank then some bitPos
    else nthSetBitFrom (clearBit bm bitPos) (cursor + 1) rank
termination_by bm.toNat
decreasing_by exact toNat_clearBit_ctz_lt _h

/-- The set bit at a rank, counted from zero in ascending order. -/
def nthSetBit (bitmap : Bitmap) (rank : ℕ) : Option ℕ := nthSetBitFrom bitmap 0 rank

/-- Bit `i` of the 32-byte form. -/
def byteBit (bytes : Bytes 32) (i : ℕ) : Bool :=
  (bytes.get ⟨31 - i / 8, by omega⟩).toNat.testBit (i % 8)

variable {bitmap bm : Bitmap} {i cursor rank : ℕ}

theorem bitSet_eq (bitmap : Bitmap) (pos : ℕ) : bitSet bitmap pos = bitmap.getLsbD pos := by
  rw [bitSet, BitVec.and_one_eq_setWidth_ofBool_getLsbD, BitVec.getLsbD_ushiftRight, Nat.add_zero]
  cases bitmap.getLsbD pos with
  | false => decide
  | true => decide

theorem toBytes_load (bytes : Bytes 32) : toBytes (load bytes) = bytes := by
  have hlt : bytesToNat bytes < 2 ^ 256 := (bytesToNat_lt bytes).trans_eq (by norm_num)
  rw [toBytes, load, BitVec.toNat_ofNat, Nat.mod_eq_of_lt hlt, natToBytes_bytesToNat]

theorem byteBit_toBytes (hi : i < 256) : byteBit (toBytes bitmap) i = bitmap.getLsbD i := by
  have hget : (toBytes bitmap).get ⟨31 - i / 8, by omega⟩ = (toBytes bitmap)[31 - i / 8] := rfl
  have hsplit : 8 * (32 - 1 - (31 - i / 8)) + i % 8 = i := by omega
  have hvalue : bytesToNat (toBytes bitmap) = bitmap.toNat :=
    bytesToNat_natToBytes_of_lt (bitmap.isLt.trans_eq (by norm_num))
  rw [byteBit, hget, testBit_getElem _ _ _ (Nat.mod_lt i (by omega)), hsplit, hvalue]
  rfl

theorem mem_setBits_iff_byteBit :
    i ∈ setBits bitmap ↔ i < 256 ∧ byteBit (toBytes bitmap) i = true := by
  rw [mem_setBits]
  constructor
  · intro h
    have hi := BitVec.lt_of_getLsbD h
    exact ⟨hi, by rw [byteBit_toBytes hi, h]⟩
  · rintro ⟨hi, h⟩
    rwa [byteBit_toBytes hi] at h

theorem nthSetBitFrom_eq (h : cursor ≤ rank) :
    nthSetBitFrom bm cursor rank = (setBits bm)[rank - cursor]? := by
  induction hsize : bm.toNat using Nat.strong_induction_on generalizing bm cursor with
  | _ size ih =>
    rw [nthSetBitFrom]
    split
    next hempty =>
      rw [hempty, empty, setBits_zero, List.getElem?_nil]
    next hne =>
      rw [setBits_eq_cons hne]
      dsimp only
      split
      next heq =>
        rw [heq, Nat.sub_self, List.getElem?_cons_zero, trailingZeros]
      next hlater =>
        have hrank : rank - cursor = rank - (cursor + 1) + 1 := by omega
        rw [hrank, List.getElem?_cons_succ]
        exact ih _ (hsize ▸ toNat_clearBit_ctz_lt hne) (by omega) rfl

theorem nthSetBit_eq (bitmap : Bitmap) (rank : ℕ) :
    nthSetBit bitmap rank = (setBits bitmap)[rank]? :=
  nthSetBitFrom_eq (Nat.zero_le rank)

end Bitmap

section Exactness

variable {σ ε : Type} {bm : Bitmap} {f : Visitor ℕ σ ε} {s : σ}

/-- What a run over a bitmap does, with the positions of the calls recorded: the set bits are visited
from the lowest on, all of them or up to the first call that fails. -/
structure IteratesExactly (bm : Bitmap) (f : Visitor ℕ σ ε) (s : σ) : Prop where
  ascending : (setBits bm).SortedLT
  mem_iff : ∀ i, i ∈ setBits bm ↔ i < 256 ∧ Bitmap.byteBit (Bitmap.toBytes bm) i = true
  loaded : ∀ bytes, Bitmap.load bytes = bm → Bitmap.toBytes bm = bytes
  length_eq : (setBits bm).length = Bitmap.popcount bm
  complete : AllSucceed f (setBits bm) s →
    runFrom (forEachSetBit bm (recorded f)) (s, []) =
      (.ok Bitmap.empty, (stateAfter f (setBits bm) s, setBits bm))
  stopped : ∀ k e, FirstFailure f (setBits bm) s k e →
    runFrom (forEachSetBit bm (recorded f)) (s, []) =
      (.error e, (stateAfter f ((setBits bm).take (k + 1)) s, (setBits bm).take (k + 1)))
  decided : AllSucceed f (setBits bm) s ∨ ∃ k e, FirstFailure f (setBits bm) s k e
  unrecorded : runFrom (forEachSetBit bm f) s =
    ((runFrom (forEachSetBit bm (recorded f)) (s, [])).1,
      (runFrom (forEachSetBit bm (recorded f)) (s, [])).2.1)

/-- Selection by rank: the bit visited there, and the inverse of counting the set bits below. -/
structure SelectsByRank (bm : Bitmap) : Prop where
  visited : ∀ rank, Bitmap.nthSetBit bm rank = (setBits bm)[rank]?
  none_iff : ∀ rank, Bitmap.nthSetBit bm rank = none ↔ Bitmap.popcount bm ≤ rank
  some_iff : ∀ rank i, Bitmap.nthSetBit bm rank = some i ↔ Bitmap.bitSet bm i = true ∧
    Nat.count (fun b => Bitmap.bitSet bm b = true) i = rank

/-- A run over a bitmap is the run over its set bits; what is left at its end is empty. -/
theorem runFrom_forEachSetBit_of_ok {s' : σ}
    (h : runFrom (forM (setBits bm) f) s = (.ok PUnit.unit, s')) :
    runFrom (forEachSetBit bm f) s = (.ok Bitmap.empty, s') := by
  rw [forEachSetBit_eq, runFrom_bind_of_ok h, runFrom_pure]

theorem runFrom_forEachSetBit_of_error {s' : σ} {e : ε}
    (h : runFrom (forM (setBits bm) f) s = (.error e, s')) :
    runFrom (forEachSetBit bm f) s = (.error e, s') := by
  rw [forEachSetBit_eq, runFrom_bind_of_error h]

theorem runFrom_forEachSetBit_recorded (bm : Bitmap) (f : Visitor ℕ σ ε) (s : σ) :
    runFrom (forEachSetBit bm f) s =
      ((runFrom (forEachSetBit bm (recorded f)) (s, [])).1,
        (runFrom (forEachSetBit bm (recorded f)) (s, [])).2.1) := by
  have hforM := runFrom_forM_recorded f (setBits bm) s []
  rcases hrun : runFrom (forM (setBits bm) (recorded f)) (s, []) with ⟨answer, s', visited⟩
  rw [hrun] at hforM
  cases answer with
  | error e =>
    rw [runFrom_forEachSetBit_of_error hforM, runFrom_forEachSetBit_of_error hrun]
  | ok =>
    rw [runFrom_forEachSetBit_of_ok hforM, runFrom_forEachSetBit_of_ok hrun]

theorem iteratesExactly (bm : Bitmap) (f : Visitor ℕ σ ε) (s : σ) : IteratesExactly bm f s where
  ascending := sortedLT_setBits bm
  mem_iff := fun _ => Bitmap.mem_setBits_iff_byteBit
  loaded := fun bytes h => by rw [← h, Bitmap.toBytes_load]
  length_eq := (Bitmap.popcount_eq_length bm).symm
  complete := fun h => runFrom_forEachSetBit_of_ok (runFrom_forM_of_allSucceed [] h)
  stopped := fun _ _ h => runFrom_forEachSetBit_of_error (runFrom_forM_of_firstFailure [] h)
  decided := allSucceed_or_firstFailure f (setBits bm) s
  unrecorded := runFrom_forEachSetBit_recorded bm f s

theorem selectsByRank (bm : Bitmap) : SelectsByRank bm where
  visited := Bitmap.nthSetBit_eq bm
  none_iff := fun rank => by
    rw [Bitmap.nthSetBit_eq, List.getElem?_eq_none_iff, Bitmap.popcount_eq_length]
  some_iff := fun rank i => by
    have hmembers : setBits bm = membersBelow (fun i => bm.getLsbD i) 256 := rfl
    rw [Bitmap.nthSetBit_eq, hmembers, getElem?_membersBelow]
    simp only [Bitmap.bitSet_eq]
    constructor
    · rintro ⟨⟨-, hset⟩, hcount⟩
      exact ⟨hset, hcount⟩
    · rintro ⟨hset, hcount⟩
      exact ⟨⟨BitVec.lt_of_getLsbD hset, hset⟩, hcount⟩

/-- Every bitmap is iterated exactly, for every visitor and first state, and selected from by rank. -/
theorem set_bit_iteration (bm : Bitmap) (f : Visitor ℕ σ ε) (s : σ) :
    IteratesExactly bm f s ∧ SelectsByRank bm :=
  ⟨iteratesExactly bm f s, selectsByRank bm⟩

end Exactness

end MolphaVerifier
