import Mathlib.Data.Finset.Card
import Mathlib.Data.Finset.Lattice.Lemmas

/-!
# Collecting distinct elements up to a size

`collect k l s` inserts the elements of `l` into `s` one after the other, as long as fewer than `k`
are there. What is collected from the empty set is the set of the first `k` distinct elements; its
size falls short of `k` exactly when `l` has fewer than `k` distinct elements.
-/

namespace CappedCollection

variable {α : Type*} [DecidableEq α] {k : ℕ} {l l' : List α} {s : Finset α} {a : α}

/-- Insert the elements of a list while fewer than `k` are collected. -/
def collect (k : ℕ) : List α → Finset α → Finset α
  | [], s => s
  | a :: l, s => if s.card < k then collect k l (insert a s) else s

@[simp] theorem collect_nil (k : ℕ) (s : Finset α) : collect k [] s = s := rfl

theorem collect_of_card_ge (h : k ≤ s.card) (l : List α) : collect k l s = s := by
  cases l with
  | nil => rfl
  | cons a l => rw [collect, if_neg (Nat.not_lt.mpr h)]

theorem collect_cons_of_lt (h : s.card < k) :
    collect k (a :: l) s = collect k l (insert a s) := by
  rw [collect, if_pos h]

theorem collect_append (k : ℕ) (l l' : List α) (s : Finset α) :
    collect k (l ++ l') s = collect k l' (collect k l s) := by
  induction l generalizing s with
  | nil => rfl
  | cons a l ih =>
    rcases Nat.lt_or_ge s.card k with h | h
    · rw [List.cons_append, collect_cons_of_lt h, collect_cons_of_lt h, ih]
    · rw [collect_of_card_ge h, collect_of_card_ge h, collect_of_card_ge h]

theorem collect_subset (k : ℕ) (l : List α) (s : Finset α) : collect k l s ⊆ s ∪ l.toFinset := by
  induction l generalizing s with
  | nil => exact Finset.subset_union_left
  | cons a l ih =>
    rcases Nat.lt_or_ge s.card k with h | h
    · have hrest := ih (insert a s)
      rw [collect_cons_of_lt h, List.toFinset_cons, Finset.union_insert, ← Finset.insert_union]
      exact hrest
    · rw [collect_of_card_ge h]
      exact Finset.subset_union_left

/-- The size is capped, and nothing but the cap keeps an element out. -/
theorem card_collect (h : s.card ≤ k) :
    (collect k l s).card = min k (s ∪ l.toFinset).card := by
  induction l generalizing s with
  | nil => rw [collect_nil, List.toFinset_nil, Finset.union_empty, Nat.min_eq_right h]
  | cons a l ih =>
    rcases Nat.lt_or_ge s.card k with hlt | hge
    · have hinsert : (insert a s).card ≤ k := (Finset.card_insert_le a s).trans hlt
      rw [collect_cons_of_lt hlt, ih hinsert, List.toFinset_cons, Finset.union_insert,
        ← Finset.insert_union]
    · have hle : s.card ≤ (s ∪ (a :: l).toFinset).card :=
        Finset.card_le_card Finset.subset_union_left
      rw [collect_of_card_ge hge]
      omega

theorem card_collect_empty (k : ℕ) (l : List α) :
    (collect k l ∅).card = min k l.toFinset.card := by
  rw [card_collect (by simp), Finset.empty_union]

/-- The first `k` distinct elements of a list, in order. -/
def firstDistinct (k : ℕ) (l : List α) : List α := l.eraseDups.take k

/-- What is added to `s` is the first distinct elements outside it, as many as there is room for. -/
theorem collect_eq_union (k : ℕ) (l : List α) (s : Finset α) :
    collect k l s = s ∪ (firstDistinct (k - s.card) (l.filter (· ∉ s))).toFinset := by
  induction l generalizing s with
  | nil => simp [firstDistinct]
  | cons a l ih =>
    rcases Nat.lt_or_ge s.card k with hlt | hge
    swap
    · rw [collect_of_card_ge hge, Nat.sub_eq_zero_of_le hge, firstDistinct, List.take_zero,
        List.toFinset_nil, Finset.union_empty]
    rw [collect_cons_of_lt hlt]
    by_cases hmem : a ∈ s
    · have hfilter : (a :: l).filter (· ∉ s) = l.filter (· ∉ s) := by simp [hmem]
      rw [Finset.insert_eq_of_mem hmem, ih, hfilter]
    · have hfilter : (a :: l).filter (· ∉ s) = a :: l.filter (· ∉ s) := by simp [hmem]
      have hrest : ((l.filter (· ∉ s)).filter fun b => !b == a) = l.filter (· ∉ insert a s) := by
        rw [List.filter_filter]
        refine List.filter_congr fun b _ => ?_
        simp [not_or, beq_eq_decide]
      have hroom : k - s.card = k - (insert a s).card + 1 := by
        rw [Finset.card_insert_of_notMem hmem]
        omega
      rw [ih, hfilter, firstDistinct, firstDistinct, List.eraseDups_cons, hrest, hroom,
        List.take_succ_cons, List.toFinset_cons, Finset.union_insert, Finset.insert_union]

theorem collect_empty (k : ℕ) (l : List α) : collect k l ∅ = (firstDistinct k l).toFinset := by
  simp [collect_eq_union]

theorem collect_empty_mono {k' : ℕ} (h : k ≤ k') (l : List α) :
    collect k l ∅ ⊆ collect k' l ∅ := by
  rw [collect_empty, collect_empty]
  intro a ha
  rw [List.mem_toFinset] at ha ⊢
  exact List.take_subset_take_left _ h ha

theorem collect_map {β : Type*} [DecidableEq β] {f : α → β} (hf : Function.Injective f) (k : ℕ)
    (l : List α) (s : Finset α) : collect k (l.map f) (s.image f) = (collect k l s).image f := by
  induction l generalizing s with
  | nil => rfl
  | cons a l ih =>
    have hcard : (s.image f).card = s.card := Finset.card_image_of_injective s hf
    rcases Nat.lt_or_ge s.card k with hlt | hge
    · rw [List.map_cons, collect_cons_of_lt (hcard.trans_lt hlt), collect_cons_of_lt hlt,
        ← Finset.image_insert, ih]
    · rw [collect_of_card_ge hge, collect_of_card_ge (hge.trans_eq hcard.symm)]

end CappedCollection
