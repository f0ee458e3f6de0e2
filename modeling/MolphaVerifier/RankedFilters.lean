import Mathlib.Data.Nat.Count
import Mathlib.Data.List.Sort

/-!
# The members of a range by their rank

The numbers below a bound that satisfy a test form an ascending list. Its entry at `rank` is the
member with `rank` smaller members below it.
-/

namespace RankedFilters

/-- The numbers below `bound` that pass the test, ascending. -/
def membersBelow (test : ℕ → Bool) (bound : ℕ) : List ℕ := (List.range bound).filter test

variable {test : ℕ → Bool} {bound rank rank' i j : ℕ}

theorem foldl_append_if {α : Type*} (p : α → Bool) (l out : List α) :
    l.foldl (fun out a => if p a then out ++ [a] else out) out = out ++ l.filter p := by
  induction l generalizing out with
  | nil => simp
  | cons a l ih =>
    rw [List.foldl_cons, ih]
    cases h : p a <;> simp [h]

theorem membersBelow_succ (test : ℕ → Bool) (bound : ℕ) :
    membersBelow test (bound + 1) =
      membersBelow test bound ++ if test bound then [bound] else [] := by
  rw [membersBelow, List.range_succ, List.filter_append, membersBelow]
  congr 1
  cases h : test bound <;> simp [h]

theorem length_membersBelow (test : ℕ → Bool) (bound : ℕ) :
    (membersBelow test bound).length = Nat.count (fun i => test i = true) bound := by
  rw [membersBelow, ← List.countP_eq_length_filter]
  simp [Nat.count]

theorem length_membersBelow_le (test : ℕ → Bool) (bound : ℕ) :
    (membersBelow test bound).length ≤ bound := by
  rw [length_membersBelow]
  exact Nat.count_le _

theorem membersBelow_eq_range (h : (membersBelow test bound).length = bound) :
    membersBelow test bound = List.range bound := by
  rw [membersBelow, List.filter_eq_self, ← List.length_filter_eq_length_iff, ← membersBelow, h,
    List.length_range]

theorem membersBelow_eq_append (hi : i < bound) (htest : test i = true) :
    ∃ above, membersBelow test bound = membersBelow test i ++ i :: above := by
  obtain ⟨k, rfl⟩ : ∃ k, bound = i + (k + 1) := ⟨bound - i - 1, by omega⟩
  rw [membersBelow, List.range_add, List.range_succ_eq_map, List.map_cons, List.filter_append,
    Nat.add_zero, List.filter_cons_of_pos htest, membersBelow]
  exact ⟨_, rfl⟩

theorem getElem?_membersBelow_count (hi : i < bound) (htest : test i = true) :
    (membersBelow test bound)[Nat.count (fun i => test i = true) i]? = some i := by
  obtain ⟨above, heq⟩ := membersBelow_eq_append hi htest
  rw [heq, ← length_membersBelow, List.getElem?_append_right le_rfl, Nat.sub_self,
    List.getElem?_cons_zero]

/-- The entry at a rank is the member with that many members below it. -/
theorem getElem?_membersBelow : (membersBelow test bound)[rank]? = some i ↔
    (i < bound ∧ test i = true) ∧ Nat.count (fun i => test i = true) i = rank := by
  constructor
  · intro hget
    have hmem : i < bound ∧ test i = true := by
      simpa [membersBelow] using List.mem_of_getElem? hget
    obtain ⟨hrank, -⟩ := List.getElem?_eq_some_iff.mp hget
    have hnodup : (membersBelow test bound).Nodup := List.nodup_range.filter _
    have hcount := getElem?_membersBelow_count hmem.1 hmem.2
    exact ⟨hmem, ((List.getElem?_inj hrank hnodup).mp (hget.trans hcount.symm)).symm⟩
  · rintro ⟨⟨hi, htest⟩, rfl⟩
    exact getElem?_membersBelow_count hi htest

theorem exists_getElem?_membersBelow (h : rank < (membersBelow test bound).length) :
    ∃ i, (membersBelow test bound)[rank]? = some i :=
  ⟨_, List.getElem?_eq_getElem h⟩

end RankedFilters
