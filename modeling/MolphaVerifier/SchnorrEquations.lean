import Mathlib.Algebra.Module.Basic
import Mathlib.Algebra.Field.Basic
import Mathlib.Algebra.Module.BigOperators
import Mathlib.LinearAlgebra.Basis.VectorSpace
import Mathlib.LinearAlgebra.Finsupp.LinearCombination
import Mathlib.Tactic.Module
import Mathlib.Tactic.FieldSimp

/-!
# Schnorr equations as ECDSA recoveries

ECDSA recovery with the instance `(r, t, h)` returns `r⁻¹ (t R - h G)`. With `r` the key's first
coordinate, `t = -e r` and `h = -s r` it evaluates the right-hand side `s G - e X` of the Schnorr
equation, and negating both `t` and `R` changes nothing. The scalars are any field and the points
any module over it.
-/

namespace SchnorrEquations

variable {K V : Type*} [Field K] [AddCommGroup V] [Module K V]

/-- What ECDSA recovery computes from the nonce point `R`. -/
def recovered (G R : V) (r t h : K) : V := r⁻¹ • (t • R - h • G)

/-- The nonce point of a Schnorr signature `s` for the key `X` and the challenge `e`. -/
def nonce (G X : V) (s e : K) : V := s • G - e • X

variable (G : V) {R X : V} {r t h s e : K}

/-- The instance is only looked at through `t R`. -/
theorem recovered_congr {R R' : V} {t t' : K} (heq : t' • R' = t • R) (r h : K) :
    recovered G R' r t' h = recovered G R r t h := by
  rw [recovered, heq, recovered]

theorem recovered_neg_neg (R : V) (r t h : K) : recovered G (-R) r (-t) h = recovered G R r t h :=
  recovered_congr G (neg_smul_neg t R) r h

theorem recovered_eq_nonce (hr : r ≠ 0) (ht : t = -(e * r)) (hh : h = -(s * r)) :
    recovered G X r t h = nonce G X s e := by
  have hcancel (k : K) : r⁻¹ * (k * r) = k := by field_simp
  rw [recovered, nonce, ht, hh, smul_sub, smul_smul, smul_smul, mul_neg, mul_neg, hcancel, hcancel]
  module

theorem recovered_zero_hash (hr : r ≠ 0) (ht : t = e * r) : recovered G X r t 0 = e • X := by
  have hcancel : r⁻¹ * (e * r) = e := by field_simp
  rw [recovered, zero_smul, sub_zero, smul_smul, ht, hcancel]

theorem recovered_neg_eq_nonce (hr : r ≠ 0) (ht : t = e * r) (hh : h = -(s * r)) :
    recovered G (-X) r t h = nonce G X s e := by
  rw [← recovered_eq_nonce G hr rfl hh, ← recovered_neg_neg, ht]
  simp [recovered]

/-- Under one challenge the nonces of several keys add up to the nonce of their sum. -/
theorem sum_nonce {ι : Type*} (e : K) (l : List ι) (X : ι → V) (s : ι → K) :
    (l.map fun i => nonce G (X i) (s i) e).sum = nonce G (l.map X).sum (l.map s).sum e := by
  induction l with
  | nil => simp [nonce]
  | cons i l ih =>
    rw [List.map_cons, List.map_cons, List.map_cons, List.sum_cons, List.sum_cons, List.sum_cons,
      ih, nonce, nonce, nonce]
    module

section TwoTranscripts

variable {G : V} {s' e' : K}

theorem scalar_eq_of_nonce_eq (hG : G ≠ 0) (h : nonce G X s e = nonce G X s' e) : s = s' := by
  have hsmul : s • G = s' • G := sub_left_injective h
  exact smul_left_injective K hG hsmul

/-- One nonce under two challenges gives the key away. -/
theorem key_eq_of_nonce_eq (he : e ≠ e') (h : nonce G X s e = nonce G X s' e') :
    X = ((s - s') * (e - e')⁻¹) • G := by
  have hne : e - e' ≠ 0 := sub_ne_zero.mpr he
  have hkey : (e - e') • X = (s - s') • G := by
    rw [nonce, nonce, sub_eq_sub_iff_sub_eq_sub] at h
    rw [sub_smul, sub_smul, h]
  rw [mul_comm, mul_smul, ← hkey, smul_smul, inv_mul_cancel₀ hne, one_smul]

theorem challenge_eq_of_nonce_eq (hX : X ≠ 0) (h : nonce G X s e = nonce G X s e') : e = e' := by
  have hsmul : e • X = e' • X := sub_right_injective h
  exact smul_left_injective K hX hsmul

end TwoTranscripts

/-! Any number of transcripts are the rows of one linear map, with the nonces and the key as the
values of the unit vectors. -/

section Rows

open Submodule

variable {W ι : Type*} [AddCommGroup W] [Module K W] {row : ι → W} {target : W}

theorem map_eq_of_weights [Fintype ι] {u : W →ₗ[K] V} {value : ι → K} {G : V}
    (h : ∀ i, u (row i) = value i • G) {weights : ι → K}
    (hweights : ∑ i, weights i • row i = target) :
    u target = (∑ i, weights i * value i) • G := by
  rw [← hweights, map_sum, Finset.sum_smul]
  apply Finset.sum_congr rfl
  intro i _
  rw [map_smul, h, mul_smul]

/-- Off the span of the rows any value can be had without a change on the rows. -/
theorem exists_map_eq_of_notMem (h : target ∉ span K (Set.range row)) (u : W →ₗ[K] V) (v : V) :
    ∃ u' : W →ₗ[K] V, (∀ i, u' (row i) = u (row i)) ∧ u' target = v := by
  obtain ⟨u', hspan, htarget⟩ :=
    LinearMap.exists_extend_of_notMem (u.comp (span K (Set.range row)).subtype) h v
  refine ⟨u', ?_, htarget⟩
  intro i
  exact LinearMap.congr_fun hspan ⟨row i, subset_span (Set.mem_range_self i)⟩

end Rows

end SchnorrEquations
