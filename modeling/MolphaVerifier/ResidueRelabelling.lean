import Mathlib.Data.Fintype.EquivFin
import Mathlib.Logic.Equiv.Fintype
import Mathlib.Algebra.Group.End
import Mathlib.Probability.Distributions.Uniform

/-!
# Relabelling residues

A permutation of the residues modulo `n` acts on the numbers below a multiple of `n`: the quotient
stays and the residue is renamed. Numbers from the limit on stay. A uniform law that is carried along
by a bijection gives equal mass to the outcomes that the bijection exchanges.
-/

namespace ResidueRelabelling

section Numbers

variable {n limit d : ℕ} (hn : 0 < n) (f f' : Equiv.Perm (Fin n))

/-- Rename the residue of a number below the limit. -/
def relabel (limit : ℕ) (f : Equiv.Perm (Fin n)) (d : ℕ) : ℕ :=
  if d < limit then n * (d / n) + f ⟨d % n, Nat.mod_lt d hn⟩ else d

theorem relabel_of_lt (h : d < limit) :
    relabel hn limit f d = n * (d / n) + f ⟨d % n, Nat.mod_lt d hn⟩ := if_pos h

theorem relabel_of_le (h : limit ≤ d) : relabel hn limit f d = d := if_neg (Nat.not_lt.mpr h)

theorem relabel_mod (h : d < limit) :
    relabel hn limit f d % n = f ⟨d % n, Nat.mod_lt d hn⟩ := by
  rw [relabel_of_lt hn f h, Nat.mul_add_mod, Nat.mod_eq_of_lt (f _).isLt]

theorem relabel_div (h : d < limit) : relabel hn limit f d / n = d / n := by
  rw [relabel_of_lt hn f h, Nat.mul_add_div hn, Nat.div_eq_of_lt (f _).isLt, Nat.add_zero]

/-- A limit that is a multiple of `n` splits no block of residues. -/
theorem relabel_lt_iff (hlimit : n ∣ limit) : relabel hn limit f d < limit ↔ d < limit := by
  rcases Nat.lt_or_ge d limit with h | h
  · have hblock : d / n < limit / n := Nat.div_lt_div_of_lt_of_dvd hlimit h
    rw [← relabel_div hn f h] at hblock
    exact iff_of_true (Nat.lt_of_div_lt_div hblock) h
  · rw [relabel_of_le hn f h]

theorem relabel_relabel (hlimit : n ∣ limit) (d : ℕ) :
    relabel hn limit f' (relabel hn limit f d) = relabel hn limit (f' * f) d := by
  rcases Nat.lt_or_ge d limit with h | h
  · have hlt := (relabel_lt_iff hn f hlimit).mpr h
    rw [relabel_of_lt hn f' hlt, relabel_of_lt hn (f' * f) h, relabel_div hn f h]
    simp only [relabel_mod hn f h, Fin.eta, Equiv.Perm.mul_apply]
  · rw [relabel_of_le hn f h, relabel_of_le hn f' h, relabel_of_le hn (f' * f) h]

theorem relabel_one (limit d : ℕ) : relabel hn limit 1 d = d := by
  rw [relabel]
  split
  · exact Nat.div_add_mod d n
  · rfl

theorem relabel_inv_relabel (hlimit : n ∣ limit) (d : ℕ) :
    relabel hn limit f⁻¹ (relabel hn limit f d) = d := by
  rw [relabel_relabel hn f f⁻¹ hlimit, inv_mul_cancel, relabel_one]

theorem relabel_lt {bound : ℕ} (hlimit : n ∣ limit) (hbound : limit ≤ bound) (h : d < bound) :
    relabel hn limit f d < bound := by
  rcases Nat.lt_or_ge d limit with hlt | hge
  · exact ((relabel_lt_iff hn f hlimit).mpr hlt).trans_le hbound
  · rwa [relabel_of_le hn f hge]

end Numbers

section Slots

variable {n : ℕ}

/-- A permutation of the numbers below `n`, and nothing else. -/
def slotPerm (f : Equiv.Perm (Fin n)) : Equiv.Perm ℕ := f.extendDomain Fin.equivSubtype

theorem slotPerm_apply (f : Equiv.Perm (Fin n)) (i : Fin n) : slotPerm f i = f i :=
  Equiv.Perm.extendDomain_apply_image f Fin.equivSubtype i

theorem slotPerm_apply_of_lt (f : Equiv.Perm (Fin n)) {i : ℕ} (h : i < n) :
    slotPerm f i = f ⟨i, h⟩ := slotPerm_apply f ⟨i, h⟩

theorem slotPerm_apply_of_le (f : Equiv.Perm (Fin n)) {i : ℕ} (h : n ≤ i) : slotPerm f i = i :=
  Equiv.Perm.extendDomain_apply_not_subtype f Fin.equivSubtype (Nat.not_lt.mpr h)

theorem image_slotPerm_range (f : Equiv.Perm (Fin n)) :
    (Finset.range n).image (slotPerm f) = Finset.range n := by
  refine Finset.eq_of_subset_of_card_le ?_ ?_
  · intro i hi
    obtain ⟨j, hj, rfl⟩ := Finset.mem_image.mp hi
    rw [slotPerm_apply_of_lt f (Finset.mem_range.mp hj), Finset.mem_range]
    exact (f _).isLt
  · rw [Finset.card_image_of_injective _ (slotPerm f).injective]

theorem exists_perm_of_card_eq {s t : Finset (Fin n)} (h : s.card = t.card) :
    ∃ f : Equiv.Perm (Fin n), ∀ i, f i ∈ t ↔ i ∈ s := by
  let e : s ≃ t := Finset.equivOfCardEq h
  refine ⟨e.extendSubtype, fun i => ⟨fun hi => ?_, fun hi => e.extendSubtype_mem i hi⟩⟩
  by_contra hnot
  exact e.extendSubtype_not_mem i hnot hi

end Slots

section Laws

variable {Ω β : Type*} [Fintype Ω] [Nonempty Ω]

/-- Outcomes that a bijection of the sample space exchanges are equally likely. -/
theorem map_uniform_apply_eq (e : Equiv.Perm Ω) {X : Ω → β} {b b' : β}
    (h : ∀ ω, X (e ω) = b' ↔ X ω = b) :
    (PMF.uniformOfFintype Ω).map X b = (PMF.uniformOfFintype Ω).map X b' := by
  classical
  rw [PMF.map_apply, PMF.map_apply, ← Equiv.tsum_eq e fun ω =>
    if b' = X ω then PMF.uniformOfFintype Ω ω else 0]
  refine tsum_congr fun ω => ?_
  simp only [PMF.uniformOfFintype_apply, eq_comm (b := X _), h]

end Laws

end ResidueRelabelling
