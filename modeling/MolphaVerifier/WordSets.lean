import Mathlib.Data.Finset.Sort
import MolphaVerifier.BitVecIteration

/-!
# Words as finite sets

A word stands for the set of the positions of its set bits. The bitwise operations are the set
operations, the population count is the number of members and the ascending set bits are the sorted
members.
-/

namespace WordSets

open BitVecIteration

variable {w : ℕ} {x y : BitVec w} {i k : ℕ}

/-- The positions of the set bits. -/
def members (x : BitVec w) : Finset ℕ := (setBits x).toFinset

@[simp] theorem mem_members : i ∈ members x ↔ x.getLsbD i = true := by
  rw [members, List.mem_toFinset, mem_setBits]

theorem members_injective : Function.Injective (members (w := w)) := by
  intro x y h
  refine BitVec.eq_of_getLsbD_eq fun i _ => ?_
  rw [Bool.eq_iff_iff, ← mem_members, h, mem_members]

@[simp] theorem members_zero : members (0 : BitVec w) = ∅ := by
  rw [members, setBits_zero, List.toFinset_nil]

theorem members_allOnes (w : ℕ) : members (BitVec.allOnes w) = Finset.range w := by
  ext i
  rw [mem_members, BitVec.getLsbD_allOnes, decide_eq_true_eq, Finset.mem_range]

theorem members_and (x y : BitVec w) : members (x &&& y) = members x ∩ members y := by
  ext i
  rw [mem_members, BitVec.getLsbD_and, Bool.and_eq_true, Finset.mem_inter, mem_members, mem_members]

theorem members_or (x y : BitVec w) : members (x ||| y) = members x ∪ members y := by
  ext i
  rw [mem_members, BitVec.getLsbD_or, Bool.or_eq_true, Finset.mem_union, mem_members, mem_members]

theorem members_and_not (x y : BitVec w) : members (x &&& ~~~y) = members x \ members y := by
  ext i
  rw [mem_members, BitVec.getLsbD_and, BitVec.getLsbD_not, Finset.mem_sdiff, mem_members,
    mem_members]
  cases hx : x.getLsbD i with
  | false => simp
  | true => simp [BitVec.lt_of_getLsbD hx]

theorem members_setBit (hi : i < w) (x : BitVec w) :
    members (setBit x i) = insert i (members x) := by
  ext j
  rw [mem_members, getLsbD_setBit hi, Bool.or_eq_true, decide_eq_true_eq, Finset.mem_insert,
    mem_members, or_comm]

theorem members_clearBit (x : BitVec w) (i : ℕ) : members (clearBit x i) = (members x).erase i := by
  ext j
  rw [mem_members, getLsbD_clearBit, Bool.and_eq_true, decide_eq_true_eq, Finset.mem_erase,
    mem_members, and_comm]

theorem card_members (x : BitVec w) : (members x).card = x.cpop.toNat := by
  rw [members, List.toFinset_card_of_nodup (nodup_setBits x), length_setBits]

theorem sort_members (x : BitVec w) : (members x).sort = setBits x := by
  rw [members, List.toFinset_sort _ (nodup_setBits x)]
  exact (sortedLT_setBits x).pairwise.imp Nat.le_of_lt

theorem members_subset_iff : members x ⊆ members y ↔ x &&& ~~~y = 0 := by
  rw [← Finset.sdiff_eq_empty_iff_subset, ← members_and_not, ← members_zero (w := w)]
  exact members_injective.eq_iff

theorem members_lowMask (hk : k < w) : members ((1#w <<< k) - 1#w) = Finset.range k := by
  have hpow : 2 ^ k < 2 ^ w := Nat.pow_lt_pow_right (by decide) hk
  have hone : (1#w).toNat = 1 := BitVec.toNat_one (by omega)
  have hshift : (1#w <<< k).toNat = 2 ^ k := by
    rw [BitVec.toNat_shiftLeft, hone, Nat.one_shiftLeft, Nat.mod_eq_of_lt hpow]
  have hle : 1#w ≤ 1#w <<< k := by
    rw [BitVec.le_def, hone, hshift]
    exact Nat.one_le_two_pow
  ext i
  rw [mem_members, ← BitVec.testBit_toNat, BitVec.toNat_sub_of_le hle, hshift, hone,
    Nat.testBit_two_pow_sub_one, decide_eq_true_eq, Finset.mem_range]

theorem toNat_ctz_zero (w : ℕ) : (0 : BitVec w).ctz.toNat = w := by
  have hw : (BitVec.ofNat w w).toNat = w := by
    rw [BitVec.toNat_ofNat, Nat.mod_eq_of_lt Nat.lt_two_pow_self]
  have hle : (0 : BitVec w).ctz ≤ BitVec.ofNat w w := by
    rw [BitVec.ctz_eq_reverse_clz]
    exact BitVec.clz_le
  have hge : ¬(0 : BitVec w).ctz < BitVec.ofNat w w := fun h =>
    BitVec.ctz_lt_iff_ne_zero.mp h rfl
  rw [BitVec.le_def, hw] at hle
  rw [BitVec.lt_def, hw] at hge
  omega

/-- The trailing zeros end at the lowest member, if there is one. -/
theorem toNat_ctz_eq (x : BitVec w) : x.ctz.toNat = ((members x).sort.head?).getD w := by
  rw [sort_members]
  by_cases hempty : x = 0
  · rw [hempty, setBits_zero, toNat_ctz_zero]
    rfl
  · rw [setBits_eq_cons hempty]
    rfl

end WordSets
