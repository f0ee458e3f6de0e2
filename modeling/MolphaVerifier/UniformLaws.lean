import Mathlib.Data.Fintype.BigOperators
import Mathlib.Probability.Distributions.Uniform

/-!
# Laws of functions of uniform outcomes

Events of a uniform outcome are measured by counting. A family of functions that look at different
coordinates of a uniform vector is independent, and a law that is flat on a finite set and has one
more outcome gives every member of the set its share of what the other outcome leaves.
-/

namespace UniformLaws

open scoped ENNReal

variable {Ω β : Type*} [Fintype Ω] [Nonempty Ω]

theorem toOuterMeasure_uniform (p : Ω → Prop) [DecidablePred p] :
    (PMF.uniformOfFintype Ω).toOuterMeasure {ω | p ω} =
      (Finset.univ.filter p).card / Fintype.card Ω := by
  rw [PMF.toOuterMeasure_uniformOfFintype_apply, ← Fintype.card_subtype]
  rfl

theorem toOuterMeasure_uniform_le (p : Ω → Prop) [DecidablePred p] {a c : ℕ} (hc : 0 < c)
    (h : c * (Finset.univ.filter p).card ≤ a * Fintype.card Ω) :
    (PMF.uniformOfFintype Ω).toOuterMeasure {ω | p ω} ≤ a / c := by
  have hc' : (c : ℝ≥0∞) ≠ 0 := Nat.cast_ne_zero.mpr hc.ne'
  rw [toOuterMeasure_uniform, ENNReal.le_div_iff_mul_le (.inl hc') (.inl (ENNReal.natCast_ne_top c)),
    ← ENNReal.mul_div_right_comm]
  refine ENNReal.div_le_of_le_mul ?_
  rw [mul_comm]
  exact_mod_cast h

theorem map_uniform_apply [DecidableEq β] (X : Ω → β) (b : β) :
    (PMF.uniformOfFintype Ω).map X b =
      (Finset.univ.filter fun ω => X ω = b).card / Fintype.card Ω := by
  rw [← toOuterMeasure_uniform fun ω => X ω = b, ← PMF.toOuterMeasure_apply_singleton,
    PMF.toOuterMeasure_map_apply]
  rfl

section Products

variable {ι : Type*} [Fintype ι] [DecidableEq ι] [DecidableEq β]

/-- Functions of different coordinates of a uniform vector are independent. -/
theorem map_uniform_pi_apply (X : ι → Ω → β) (b : ι → β) :
    (PMF.uniformOfFintype (ι → Ω)).map (fun ω i => X i (ω i)) b =
      ∏ i, (PMF.uniformOfFintype Ω).map (X i) (b i) := by
  have hpi : (Finset.univ.filter fun ω : ι → Ω => (fun i => X i (ω i)) = b) =
      Fintype.piFinset fun i => Finset.univ.filter fun ω => X i ω = b i := by
    ext ω
    rw [Finset.mem_filter_univ, Fintype.mem_piFinset, funext_iff]
    simp only [Finset.mem_filter_univ]
  have hfactor (i : ι) : (PMF.uniformOfFintype Ω).map (X i) (b i) =
      (Finset.univ.filter fun ω => X i ω = b i).card * (Fintype.card Ω : ℝ≥0∞)⁻¹ := by
    rw [map_uniform_apply, div_eq_mul_inv]
  rw [map_uniform_apply, hpi, Fintype.card_piFinset, Finset.prod_congr rfl fun i _ => hfactor i,
    Finset.prod_mul_distrib, Finset.prod_const, Finset.card_univ, Fintype.card_fun, Nat.cast_prod,
    Nat.cast_pow, ← ENNReal.inv_pow, div_eq_mul_inv]

theorem toOuterMeasure_uniform_pi (p : ι → Ω → Prop) [∀ i, DecidablePred (p i)] :
    (PMF.uniformOfFintype (ι → Ω)).toOuterMeasure {ω | ∀ i, p i (ω i)} =
      ∏ i, (PMF.uniformOfFintype Ω).toOuterMeasure {ω | p i ω} := by
  have hjoint : {ω : ι → Ω | ∀ i, p i (ω i)} =
      Set.preimage (fun ω i => decide (p i (ω i))) {fun _ => true} := by
    ext ω
    simp [funext_iff]
  have hfactor (i : ι) : {ω | p i ω} = Set.preimage (fun ω => decide (p i ω)) {true} := by
    ext ω
    simp
  rw [hjoint, ← PMF.toOuterMeasure_map_apply, PMF.toOuterMeasure_apply_singleton,
    map_uniform_pi_apply fun i ω => decide (p i ω)]
  apply Finset.prod_congr rfl
  intro i _
  rw [hfactor, ← PMF.toOuterMeasure_map_apply, PMF.toOuterMeasure_apply_singleton]

end Products

section FlatLaws

variable {p : PMF β} {S : Finset β} {fail b : β}

/-- A law that is flat on a set and has one more outcome. -/
structure FlatExcept (p : PMF β) (S : Finset β) (fail : β) : Prop where
  notMem : fail ∉ S
  eq_of_mem : ∀ b ∈ S, ∀ b' ∈ S, p b = p b'
  eq_zero : ∀ b, b ∉ S → b ≠ fail → p b = 0

theorem FlatExcept.sum_add (h : FlatExcept p S fail) : ∑ b ∈ S, p b + p fail = 1 := by
  classical
  have hsum : tsum p = ∑ b ∈ insert fail S, p b := by
    refine tsum_eq_sum fun b hb => ?_
    rw [Finset.mem_insert, not_or] at hb
    exact h.eq_zero b hb.2 hb.1
  rw [← p.tsum_coe, hsum, Finset.sum_insert h.notMem, add_comm]

theorem FlatExcept.card_mul_add (h : FlatExcept p S fail) (hb : b ∈ S) :
    S.card * p b + p fail = 1 := by
  rw [← h.sum_add, Finset.sum_congr rfl fun b' hb' => h.eq_of_mem b' hb' b hb,
    Finset.sum_const, nsmul_eq_mul]

theorem FlatExcept.apply_eq (h : FlatExcept p S fail) (hb : b ∈ S) :
    p b = (1 - p fail) / S.card := by
  have hcard : (S.card : ℝ≥0∞) ≠ 0 :=
    Nat.cast_ne_zero.mpr (Finset.card_pos.mpr ⟨b, hb⟩).ne'
  have htop : p fail ≠ ∞ := ne_top_of_le_ne_top ENNReal.one_ne_top (p.coe_le_one fail)
  rw [ENNReal.eq_div_iff hcard (ENNReal.natCast_ne_top _)]
  exact ENNReal.eq_sub_of_add_eq htop (h.card_mul_add hb)

theorem FlatExcept.sum_filter (h : FlatExcept p S fail) (event : β → Prop) [DecidablePred event] :
    ∑ b ∈ S.filter event, p b = (1 - p fail) * ((S.filter event).card / S.card) := by
  rw [Finset.sum_congr rfl fun b hb => h.apply_eq (Finset.mem_filter.mp hb).1, Finset.sum_const,
    nsmul_eq_mul]
  simp only [div_eq_mul_inv]
  ring

theorem FlatExcept.toOuterMeasure_eq_sum [DecidableEq β] (h : FlatExcept p S fail)
    (event : β → Prop) [DecidablePred event] :
    p.toOuterMeasure {b | event b} = ∑ b ∈ (insert fail S).filter event, p b := by
  rw [PMF.toOuterMeasure_apply]
  refine (tsum_eq_sum fun b hb => ?_).trans (Finset.sum_congr rfl fun b hb => ?_)
  · by_cases hevent : event b
    · rw [Set.indicator_of_mem (show b ∈ {b | event b} from hevent)]
      rw [Finset.mem_filter, Finset.mem_insert, not_and_or, not_or] at hb
      obtain ⟨hfail, hmem⟩ := hb.resolve_right (not_not.mpr hevent)
      exact h.eq_zero b hmem hfail
    · exact Set.indicator_of_notMem (show b ∉ {b | event b} from hevent) _
  · exact Set.indicator_of_mem (show b ∈ {b | event b} from (Finset.mem_filter.mp hb).2) _

theorem FlatExcept.toOuterMeasure_eq (h : FlatExcept p S fail) (event : β → Prop)
    [DecidablePred event] (hfail : ¬event fail) :
    p.toOuterMeasure {b | event b} = (1 - p fail) * ((S.filter event).card / S.card) := by
  classical
  rw [h.toOuterMeasure_eq_sum, Finset.filter_insert, if_neg hfail, h.sum_filter]

theorem FlatExcept.toOuterMeasure_eq_of_fail (h : FlatExcept p S fail) (event : β → Prop)
    [DecidablePred event] (hfail : event fail) :
    p.toOuterMeasure {b | event b} =
      p fail + (1 - p fail) * ((S.filter event).card / S.card) := by
  classical
  have hnew : fail ∉ S.filter event := fun hmem => h.notMem (Finset.mem_filter.mp hmem).1
  rw [h.toOuterMeasure_eq_sum, Finset.filter_insert, if_pos hfail, Finset.sum_insert hnew,
    h.sum_filter]

/-- A function that tells the outcomes apart carries a flat law along. -/
theorem FlatExcept.map {γ : Type*} [DecidableEq β] [DecidableEq γ] {f : β → γ}
    (h : FlatExcept p S fail) (hf : Set.InjOn f (insert fail S : Finset β)) :
    FlatExcept (p.map f) (S.image f) (f fail) := by
  have hmass (b : β) (hb : b ∈ insert fail S) : p.map f (f b) = p b := by
    rw [PMF.map_apply]
    refine (tsum_eq_single b fun b' hne => ?_).trans (if_pos rfl)
    by_cases hmem : b' ∈ insert fail S
    · exact if_neg fun heq => hne (hf hmem hb heq.symm)
    · rw [Finset.mem_insert, not_or] at hmem
      rw [h.eq_zero b' hmem.2 hmem.1, ite_self]
  constructor
  · rw [Finset.mem_image]
    rintro ⟨b, hb, heq⟩
    have hsame := hf (Finset.mem_insert_of_mem hb) (Finset.mem_insert_self fail S) heq
    exact h.notMem (hsame ▸ hb)
  · intro c hc c' hc'
    obtain ⟨b, hb, rfl⟩ := Finset.mem_image.mp hc
    obtain ⟨b', hb', rfl⟩ := Finset.mem_image.mp hc'
    rw [hmass b (Finset.mem_insert_of_mem hb), hmass b' (Finset.mem_insert_of_mem hb')]
    exact h.eq_of_mem b hb b' hb'
  · intro c hc hfail
    rw [PMF.map_apply, ENNReal.tsum_eq_zero]
    intro b
    by_cases heq : c = f b
    · rw [if_pos heq]
      refine h.eq_zero b (fun hb => hc ?_) ?_
      · rw [heq]
        exact Finset.mem_image_of_mem f hb
      · rintro rfl
        exact hfail heq
    · exact if_neg heq

end FlatLaws

section Subsets

variable {α : Type*} [DecidableEq α] {L B s t : Finset α} {g c : ℕ}

theorem union_inter_eq_left (hs : s ⊆ B) (ht : Disjoint t B) : (s ∪ t) ∩ B = s := by
  rw [Finset.union_inter_distrib_right, Finset.disjoint_iff_inter_eq_empty.mp ht,
    Finset.union_empty, Finset.inter_eq_left.mpr hs]

theorem union_sdiff_eq_right (hs : s ⊆ B) (ht : Disjoint t B) : (s ∪ t) \ B = t := by
  rw [Finset.union_sdiff_distrib, Finset.sdiff_eq_empty_iff_subset.mpr hs, Finset.empty_union,
    Finset.sdiff_eq_self_of_disjoint ht]

theorem card_powersetCard_inter (L B : Finset α) (hc : c ≤ g) :
    ((L.powersetCard g).filter fun C => (C ∩ B).card = c).card =
      (L ∩ B).card.choose c * (L \ B).card.choose (g - c) := by
  rw [← Finset.card_powersetCard, ← Finset.card_powersetCard, ← Finset.card_product]
  refine Finset.card_nbij' (fun C => (C ∩ B, C \ B)) (fun D => D.1 ∪ D.2) ?_ ?_ ?_ ?_
  · intro C hC
    rw [Finset.mem_coe, Finset.mem_filter, Finset.mem_powersetCard] at hC
    obtain ⟨⟨hsub, hcard⟩, hmeet⟩ := hC
    have hsplit := Finset.card_inter_add_card_sdiff C B
    rw [Finset.mem_coe, Finset.mem_product, Finset.mem_powersetCard, Finset.mem_powersetCard]
    refine ⟨⟨Finset.inter_subset_inter_right hsub, hmeet⟩,
      Finset.sdiff_subset_sdiff hsub (Finset.Subset.refl B), ?_⟩
    dsimp only
    omega
  · intro D hD
    rw [Finset.mem_coe, Finset.mem_product, Finset.mem_powersetCard, Finset.mem_powersetCard] at hD
    obtain ⟨⟨hin, hincard⟩, hout, houtcard⟩ := hD
    obtain ⟨hinL, hinB⟩ := Finset.subset_inter_iff.mp hin
    obtain ⟨houtL, houtB⟩ := Finset.subset_sdiff.mp hout
    have hdisjoint : Disjoint D.1 D.2 := (houtB.mono_right hinB).symm
    rw [Finset.mem_coe, Finset.mem_filter, Finset.mem_powersetCard]
    refine ⟨⟨Finset.union_subset hinL houtL, ?_⟩, ?_⟩
    · rw [Finset.card_union_of_disjoint hdisjoint]
      omega
    · rw [union_inter_eq_left hinB houtB, hincard]
  · intro C _
    exact (Finset.union_comm _ _).trans (Finset.sdiff_union_inter C B)
  · intro D hD
    rw [Finset.mem_coe, Finset.mem_product, Finset.mem_powersetCard, Finset.mem_powersetCard] at hD
    obtain ⟨⟨hin, -⟩, hout, -⟩ := hD
    have hinB := (Finset.subset_inter_iff.mp hin).2
    have houtB := (Finset.subset_sdiff.mp hout).2
    exact Prod.ext (union_inter_eq_left hinB houtB) (union_sdiff_eq_right hinB houtB)

theorem card_powersetCard_inter_lt (L B : Finset α) (g k : ℕ) :
    ((L.powersetCard g).filter fun C => (C ∩ B).card < k).card =
      ∑ c ∈ Finset.range (min k (g + 1)),
        (L ∩ B).card.choose c * (L \ B).card.choose (g - c) := by
  have hmaps : ∀ C ∈ (L.powersetCard g).filter fun C => (C ∩ B).card < k,
      (C ∩ B).card ∈ Finset.range (min k (g + 1)) := by
    intro C hC
    rw [Finset.mem_filter, Finset.mem_powersetCard] at hC
    have hle : (C ∩ B).card ≤ C.card := Finset.card_le_card Finset.inter_subset_left
    rw [Finset.mem_range]
    omega
  rw [Finset.card_eq_sum_card_fiberwise hmaps]
  apply Finset.sum_congr rfl
  intro c hc
  rw [Finset.mem_range] at hc
  rw [← card_powersetCard_inter L B (c := c) (by omega), Finset.filter_filter]
  refine congrArg Finset.card (Finset.filter_congr fun C _ => ?_)
  exact and_iff_right_of_imp fun hcard => by omega

variable {p : PMF (Option (Finset α))}

/-- A flat law on the subsets of one size meets a fixed set hypergeometrically. -/
theorem FlatExcept.hypergeometric (h : FlatExcept p ((L.powersetCard g).image some) none)
    (B : Finset α) (hc : c ≤ g) :
    p.toOuterMeasure {o | ∃ C ∈ o, (C ∩ B).card = c} = (1 - p none) *
      (((L ∩ B).card.choose c * (L \ B).card.choose (g - c) : ℕ) / (L.card.choose g : ℕ)) := by
  classical
  have hfilter : ((L.powersetCard g).image some).filter (fun o => ∃ C ∈ o, (C ∩ B).card = c) =
      ((L.powersetCard g).filter fun C => (C ∩ B).card = c).image some := by
    rw [Finset.filter_image]
    refine congrArg (Finset.image some) (Finset.filter_congr fun C _ => ?_)
    simp
  rw [h.toOuterMeasure_eq _ (by simp), hfilter,
    Finset.card_image_of_injective _ (Option.some_injective _),
    Finset.card_image_of_injective _ (Option.some_injective _), card_powersetCard_inter L B hc,
    Finset.card_powersetCard]

theorem FlatExcept.hypergeometric_lt (h : FlatExcept p ((L.powersetCard g).image some) none)
    (B : Finset α) (k : ℕ) :
    p.toOuterMeasure {o | ∀ C ∈ o, (C ∩ B).card < k} = p none + (1 - p none) *
      ((∑ c ∈ Finset.range (min k (g + 1)),
        (L ∩ B).card.choose c * (L \ B).card.choose (g - c) : ℕ) / (L.card.choose g : ℕ)) := by
  classical
  have hfilter : ((L.powersetCard g).image some).filter (fun o => ∀ C ∈ o, (C ∩ B).card < k) =
      ((L.powersetCard g).filter fun C => (C ∩ B).card < k).image some := by
    rw [Finset.filter_image]
    refine congrArg (Finset.image some) (Finset.filter_congr fun C _ => ?_)
    simp
  rw [h.toOuterMeasure_eq_of_fail _ (by simp), hfilter,
    Finset.card_image_of_injective _ (Option.some_injective _),
    Finset.card_image_of_injective _ (Option.some_injective _), card_powersetCard_inter_lt L B g k,
    Finset.card_powersetCard]

end Subsets

end UniformLaws
