import Mathlib.Data.List.Perm.Subperm
import Mathlib.Data.List.Sort

/-!
# The set bits of a bit vector in ascending order

`setBits x` lists the positions of the set bits. Its head is the number of trailing zeros and its
tail the set bits of `x` with that bit cleared, so a loop that peels the lowest bit runs through
this list. An ascending list with the right members is `setBits`.
-/

namespace BitVecIteration

variable {w : ℕ} {x y : BitVec w} {i j : ℕ}

/-- The positions of the set bits, ascending. -/
def setBits (x : BitVec w) : List ℕ := (List.range w).filter fun i => x.getLsbD i

def setBit (x : BitVec w) (i : ℕ) : BitVec w := x ||| (1#w <<< i)

def clearBit (x : BitVec w) (i : ℕ) : BitVec w := x &&& ~~~(1#w <<< i)

@[simp] theorem mem_setBits : i ∈ setBits x ↔ x.getLsbD i = true := by
  simp only [setBits, List.mem_filter, List.mem_range, and_iff_right_iff_imp]
  exact BitVec.lt_of_getLsbD

theorem sortedLT_setBits (x : BitVec w) : (setBits x).SortedLT :=
  (List.pairwise_lt_range.filter _).sortedLT

theorem nodup_setBits (x : BitVec w) : (setBits x).Nodup := (sortedLT_setBits x).nodup

theorem setBits_eq_of_sortedLT {l : List ℕ} (hl : l.SortedLT)
    (hmem : ∀ i, i ∈ l ↔ x.getLsbD i = true) : setBits x = l :=
  (sortedLT_setBits x).eq_of_mem_iff hl fun i => by rw [mem_setBits, hmem]

theorem setBits_injective : Function.Injective (setBits (w := w)) := by
  intro x y h
  refine BitVec.eq_of_getLsbD_eq fun i _ => ?_
  rw [Bool.eq_iff_iff, ← mem_setBits, h, mem_setBits]

@[simp] theorem setBits_zero : setBits (0 : BitVec w) = [] := by simp [setBits]

theorem setBits_eq_nil_iff : setBits x = [] ↔ x = 0 := by
  rw [← setBits_zero (w := w)]
  exact setBits_injective.eq_iff

@[simp] theorem getLsbD_setBit (hi : i < w) :
    (setBit x i).getLsbD j = (x.getLsbD j || decide (j = i)) := by
  rw [setBit, ← BitVec.twoPow_eq, BitVec.getLsbD_or, BitVec.getLsbD_twoPow]
  simp [hi, eq_comm]

@[simp] theorem getLsbD_clearBit :
    (clearBit x i).getLsbD j = (x.getLsbD j && decide (j ≠ i)) := by
  rw [clearBit, ← BitVec.twoPow_eq, BitVec.getLsbD_and, BitVec.getLsbD_not, BitVec.getLsbD_twoPow]
  by_cases hj : j < w
  · by_cases hij : i = j
    · simp [hij, hj]
    · simp [hij, hj, Ne.symm hij]
  · simp [BitVec.getLsbD_of_ge x j (by omega)]

theorem length_setBits (x : BitVec w) : (setBits x).length = x.cpop.toNat := by
  have hcount (k : ℕ) :
      x.cpopNatRec k 0 = ((List.range k).filter fun i => x.getLsbD i).length := by
    induction k with
    | zero => rfl
    | succ k ih =>
      rw [BitVec.cpopNatRec_succ, BitVec.cpopNatRec_eq, ih, List.range_succ, List.filter_append,
        List.length_append]
      cases hk : x.getLsbD k <;> simp [hk]
  rw [BitVec.toNat_cpop, hcount, setBits]

theorem length_setBits_setBit (hi : i < w) (hx : x.getLsbD i = false) :
    (setBits (setBit x i)).length = (setBits x).length + 1 := by
  have hperm : (setBits (setBit x i)).Perm (i :: setBits x) := by
    have hnew : i ∉ setBits x := by
      rw [mem_setBits, hx]
      exact Bool.false_ne_true
    rw [List.perm_ext_iff_of_nodup (nodup_setBits _) ((nodup_setBits x).cons hnew)]
    intro j
    rw [mem_setBits, getLsbD_setBit hi, List.mem_cons, mem_setBits, Bool.or_eq_true,
      decide_eq_true_eq, or_comm]
  rw [hperm.length_eq, List.length_cons]

section PeelLowest

theorem ctz_le (h : x.getLsbD i = true) : x.ctz.toNat ≤ i := by
  by_contra hlt
  rw [BitVec.getLsbD_false_of_lt_ctz (by omega)] at h
  exact absurd h (by simp)

/-- The lowest set bit comes first. -/
theorem setBits_eq_cons (hx : x ≠ 0) :
    setBits x = x.ctz.toNat :: setBits (clearBit x x.ctz.toNat) := by
  have hlow := BitVec.getLsbD_true_ctz_of_ne_zero hx
  refine setBits_eq_of_sortedLT (List.sortedLT_iff_pairwise.mpr ?_) fun i => ?_
  · refine List.pairwise_cons.mpr ⟨fun i hi => ?_, (sortedLT_setBits _).pairwise⟩
    simp only [mem_setBits, getLsbD_clearBit, ne_eq, Bool.and_eq_true, decide_eq_true_eq] at hi
    exact lt_of_le_of_ne (ctz_le hi.1) (Ne.symm hi.2)
  · simp only [List.mem_cons, mem_setBits, getLsbD_clearBit, ne_eq, Bool.and_eq_true,
      decide_eq_true_eq]
    by_cases hi : i = x.ctz.toNat
    · simp [hi, hlow]
    · simp [hi]

/-- Clearing a set bit makes the number smaller, which ends a peeling loop. -/
theorem toNat_clearBit_lt (h : x.getLsbD i = true) : (clearBit x i).toNat < x.toNat := by
  have hsub : clearBit x i ≤ x := by
    rw [BitVec.le_def, clearBit, BitVec.toNat_and]
    exact Nat.and_le_left
  refine lt_of_le_of_ne (BitVec.le_def.mp hsub) fun heq => ?_
  have hbit : (clearBit x i).getLsbD i = true := by rw [BitVec.eq_of_toNat_eq heq, h]
  simp at hbit

theorem toNat_clearBit_ctz_lt (hx : x ≠ 0) : (clearBit x x.ctz.toNat).toNat < x.toNat :=
  toNat_clearBit_lt (BitVec.getLsbD_true_ctz_of_ne_zero hx)

end PeelLowest

section Collect

def ofBits (w : ℕ) (l : List ℕ) : BitVec w := l.foldl setBit 0

theorem getLsbD_foldl_setBit {l : List ℕ} (hl : ∀ i ∈ l, i < w) (x : BitVec w) (j : ℕ) :
    (l.foldl setBit x).getLsbD j = true ↔ x.getLsbD j = true ∨ j ∈ l := by
  induction l generalizing x with
  | nil => simp
  | cons i l ih =>
    rw [List.foldl_cons, ih fun k hk => hl k (List.mem_cons_of_mem i hk),
      getLsbD_setBit (hl i List.mem_cons_self)]
    simp [or_assoc]

theorem getLsbD_ofBits {l : List ℕ} (hl : ∀ i ∈ l, i < w) :
    (ofBits w l).getLsbD j = true ↔ j ∈ l := by
  simp [ofBits, getLsbD_foldl_setBit hl]

theorem setBits_ofBits {l : List ℕ} (hl : ∀ i ∈ l, i < w) (hsorted : l.SortedLT) :
    setBits (ofBits w l) = l :=
  setBits_eq_of_sortedLT hsorted fun _ => (getLsbD_ofBits hl).symm

theorem setBits_setBit_zero (hi : i < w) : setBits (setBit (0 : BitVec w) i) = [i] :=
  setBits_ofBits (l := [i]) (by simpa using hi) (List.pairwise_singleton _ i).sortedLT

end Collect

end BitVecIteration
