import MolphaVerifier.UniformLaws

/-!
# How long a uniform collection takes

Every draw shows a set of slots. When a draw stays inside a given small set of slots for at most one
outcome in `c`, then `j` draws show fewer than `k` slots with probability at most `2 ^ n / c ^ j`: the
slots shown are one of `2 ^ n` sets, and all `j` draws have to stay inside it.
-/

namespace CollectionTail

open scoped ENNReal

variable {ι D : Type*} [DecidableEq ι] {slots A : Finset ι} {seen : D → Finset ι} {k c N j : ℕ}

def seenBefore (seen : D → Finset ι) (j : ℕ) (draws : Fin N → D) : Finset ι :=
  (Finset.univ.filter fun i : Fin N => i.val < j).biUnion fun i => seen (draws i)

theorem mem_seenBefore {draws : Fin N → D} {a : ι} :
    a ∈ seenBefore seen j draws ↔ ∃ i : Fin N, i.val < j ∧ a ∈ seen (draws i) := by
  simp [seenBefore]

theorem seenBefore_subset_iff {draws : Fin N → D} :
    seenBefore seen j draws ⊆ A ↔ ∀ i : Fin N, i.val < j → seen (draws i) ⊆ A := by
  simp [seenBefore]

variable [Fintype D]

/-- The outcomes that stay inside `A`. -/
def inside (seen : D → Finset ι) (A : Finset ι) : Finset D :=
  Finset.univ.filter fun draw => seen draw ⊆ A

/-- The first `j` draws stay inside, the others are free. -/
theorem card_seenBefore_subset [DecidableEq D] (hj : j ≤ N) :
    (Finset.univ.filter fun draws : Fin N → D => seenBefore seen j draws ⊆ A).card =
      (inside seen A).card ^ j * Fintype.card D ^ (N - j) := by
  have hpi : (Finset.univ.filter fun draws : Fin N → D => seenBefore seen j draws ⊆ A) =
      Fintype.piFinset fun i : Fin N => if i.val < j then inside seen A else Finset.univ := by
    ext draws
    rw [Finset.mem_filter_univ, seenBefore_subset_iff, Fintype.mem_piFinset]
    refine forall_congr' fun i => ?_
    by_cases hi : i.val < j
    · rw [if_pos hi, inside, Finset.mem_filter_univ]
      exact ⟨fun h => h hi, fun h _ => h⟩
    · rw [if_neg hi]
      exact iff_of_true (fun h => absurd h hi) (Finset.mem_univ _)
  have hcard (i : Fin N) : (if i.val < j then inside seen A else Finset.univ).card =
      if i.val < j then (inside seen A).card else Fintype.card D := by
    split <;> rfl
  have hbefore : (Finset.univ.filter fun i : Fin N => i.val < j).card = j := by
    rw [Fin.card_filter_val_lt, Nat.min_eq_right hj]
  have hafter : (Finset.univ.filter fun i : Fin N => ¬i.val < j).card = N - j := by
    have hsplit := Finset.card_filter_add_card_filter_not (s := Finset.univ)
      fun i : Fin N => i.val < j
    rw [hbefore, Finset.card_univ, Fintype.card_fin] at hsplit
    omega
  rw [hpi, Fintype.card_piFinset, Finset.prod_congr rfl fun i _ => hcard i, Finset.prod_ite,
    Finset.prod_const, Finset.prod_const, hbefore, hafter]

variable (hslots : ∀ draw, seen draw ⊆ slots)
  (hinside : ∀ A ⊆ slots, A.card < k → c * (inside seen A).card ≤ Fintype.card D)

include hslots hinside

theorem card_few_le [DecidableEq D] (hj : j ≤ N) :
    c ^ j * (Finset.univ.filter fun draws : Fin N → D => (seenBefore seen j draws).card < k).card ≤
      2 ^ slots.card * Fintype.card (Fin N → D) := by
  have hcover : (Finset.univ.filter fun draws : Fin N → D => (seenBefore seen j draws).card < k) ⊆
      (slots.powerset.filter fun A => A.card < k).biUnion fun A =>
        Finset.univ.filter fun draws : Fin N → D => seenBefore seen j draws ⊆ A := by
    intro draws hdraws
    rw [Finset.mem_filter_univ] at hdraws
    rw [Finset.mem_biUnion]
    refine ⟨seenBefore seen j draws, ?_, ?_⟩
    · rw [Finset.mem_filter, Finset.mem_powerset, seenBefore_subset_iff]
      exact ⟨fun i _ => hslots (draws i), hdraws⟩
    · rw [Finset.mem_filter_univ]
  have hone (A : Finset ι) (hA : A ∈ slots.powerset.filter fun A => A.card < k) :
      c ^ j * (Finset.univ.filter fun draws : Fin N → D => seenBefore seen j draws ⊆ A).card ≤
        Fintype.card (Fin N → D) := by
    rw [Finset.mem_filter, Finset.mem_powerset] at hA
    calc c ^ j * (Finset.univ.filter fun draws : Fin N → D => seenBefore seen j draws ⊆ A).card
        = (c * (inside seen A).card) ^ j * Fintype.card D ^ (N - j) := by
          rw [card_seenBefore_subset hj, Nat.mul_pow, Nat.mul_assoc]
      _ ≤ Fintype.card D ^ j * Fintype.card D ^ (N - j) :=
          Nat.mul_le_mul_right _ (Nat.pow_le_pow_left (hinside A hA.1 hA.2) j)
      _ = Fintype.card (Fin N → D) := by
          rw [← Nat.pow_add, Nat.add_sub_cancel' hj, Fintype.card_fun, Fintype.card_fin]
  calc c ^ j * (Finset.univ.filter fun draws : Fin N → D => (seenBefore seen j draws).card < k).card
      ≤ c ^ j * ∑ A ∈ slots.powerset.filter fun A => A.card < k,
          (Finset.univ.filter fun draws : Fin N → D => seenBefore seen j draws ⊆ A).card :=
        Nat.mul_le_mul_left _ ((Finset.card_le_card hcover).trans Finset.card_biUnion_le)
    _ ≤ (slots.powerset.filter fun A => A.card < k).card * Fintype.card (Fin N → D) := by
        rw [Finset.mul_sum, ← smul_eq_mul]
        exact Finset.sum_le_card_nsmul _ _ _ hone
    _ ≤ 2 ^ slots.card * Fintype.card (Fin N → D) := by
        refine Nat.mul_le_mul_right _ ?_
        rw [← Finset.card_powerset]
        exact Finset.card_filter_le _ _

/-- The number of slots falls short with exponentially small probability. -/
theorem toOuterMeasure_few_le [Nonempty D] (hc : 0 < c) (hj : j ≤ N) :
    (PMF.uniformOfFintype (Fin N → D)).toOuterMeasure
        {draws | (seenBefore seen j draws).card < k} ≤ 2 ^ slots.card / c ^ j := by
  classical
  have h := UniformLaws.toOuterMeasure_uniform_le _ (Nat.pow_pos hc)
    (card_few_le (N := N) hslots hinside hj)
  exact_mod_cast h

end CollectionTail
