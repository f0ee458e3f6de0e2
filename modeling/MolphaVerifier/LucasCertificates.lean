import Mathlib.NumberTheory.LucasPrimality
import Mathlib.Data.List.Prime

/-!
# Primality from Lucas certificates

A certificate lists a number, a witness `a` and the prime factorization of the number's
predecessor. The check is Boolean and evaluates each power by windows of its exponent, so the kernel
can run it on numbers of several hundred bits. Certificates are chained: the factors of an entry are
looked up among the primes already established.
-/

namespace LucasCertificates

/-- `a ^ e % m`, six bits of the exponent at a time, for an exponent of at most `6 * digits` bits. -/
def windowPow (m a : ℕ) : ℕ → ℕ → ℕ
  | 0, _ => 1 % m
  | digits + 1, e => if e = 0 then 1 % m else windowPow m a digits (e / 64) ^ 64 * a ^ (e % 64) % m

theorem windowPow_eq (m a digits : ℕ) {e : ℕ} (he : e < 64 ^ digits) :
    windowPow m a digits e = a ^ e % m := by
  induction digits generalizing e with
  | zero =>
    obtain rfl : e = 0 := by simpa using he
    simp [windowPow]
  | succ digits ih =>
    by_cases hzero : e = 0
    · simp [windowPow, hzero]
    · have hquot : e / 64 < 64 ^ digits := by rw [pow_succ] at he; omega
      have hsplit : a ^ e = (a ^ (e / 64)) ^ 64 * a ^ (e % 64) := by
        rw [← pow_mul, ← pow_add, Nat.div_add_mod']
      rw [windowPow, if_neg hzero, ih hquot, hsplit]
      exact ((Nat.mod_modEq _ m).pow 64).mul_right _

/-- `a ^ e % m` for an exponent of at most 256 bits. -/
def powMod (m a e : ℕ) : ℕ := windowPow m a 43 e

theorem powMod_eq {m e : ℕ} (he : e < 2 ^ 256) (a : ℕ) : powMod m a e = a ^ e % m :=
  windowPow_eq m a 43 (he.trans (by norm_num))

theorem natCast_pow_eq_one_iff {m e : ℕ} (hm : 1 < m) (he : e < 2 ^ 256) (a : ℕ) :
    (a : ZMod m) ^ e = 1 ↔ powMod m a e = 1 := by
  rw [powMod_eq he, ← Nat.cast_pow, ← Nat.cast_one, ZMod.natCast_eq_natCast_iff',
    Nat.mod_eq_of_lt hm]

/-- One certificate: the number, Lucas's witness, and the prime powers of its predecessor. -/
structure Certificate where
  number : ℕ
  witness : ℕ
  factors : List (ℕ × ℕ)

/-- The conditions of Lucas's test, with every factor among the `known` numbers. -/
def Certificate.passes (c : Certificate) (known : List ℕ) : Bool :=
  decide (1 < c.number) && decide (c.number < 2 ^ 256) &&
    decide ((c.factors.map fun f => f.1 ^ f.2).prod = c.number - 1) &&
    decide (powMod c.number c.witness (c.number - 1) = 1) &&
    c.factors.all fun f =>
      known.contains f.1 && decide (powMod c.number c.witness ((c.number - 1) / f.1) ≠ 1)

theorem Certificate.prime_of_passes {c : Certificate} {known : List ℕ}
    (hknown : ∀ q ∈ known, q.Prime) (h : c.passes known = true) : c.number.Prime := by
  simp only [passes, Bool.and_eq_true, decide_eq_true_eq, List.all_eq_true,
    List.contains_iff_mem] at h
  obtain ⟨⟨⟨⟨hone, hlt⟩, hprod⟩, hfull⟩, hfactors⟩ := h
  have hexp {e : ℕ} (he : e ≤ c.number - 1) : e < 2 ^ 256 := by omega
  refine lucas_primality c.number c.witness
    ((natCast_pow_eq_one_iff hone (hexp le_rfl) _).mpr hfull) ?_
  intro q hq hdvd
  rw [← hprod, Prime.dvd_prod_iff hq.prime] at hdvd
  obtain ⟨_, hmem, hqpow⟩ := hdvd
  obtain ⟨f, hf, rfl⟩ := List.mem_map.mp hmem
  obtain ⟨hfknown, hfpow⟩ := hfactors f hf
  obtain rfl : q = f.1 :=
    (Nat.prime_dvd_prime_iff_eq hq (hknown _ hfknown)).mp (hq.dvd_of_dvd_pow hqpow)
  rwa [ne_eq, natCast_pow_eq_one_iff hone (hexp (Nat.div_le_self _ _))]

/-- Check certificates in order, each one extending the list of known primes. -/
def chainPasses (known : List ℕ) : List Certificate → Bool
  | [] => true
  | c :: cs => c.passes known && chainPasses (c.number :: known) cs

theorem prime_of_chainPasses {known : List ℕ} {cs : List Certificate}
    (hknown : ∀ q ∈ known, q.Prime) (h : chainPasses known cs = true) :
    ∀ c ∈ cs, c.number.Prime := by
  induction cs generalizing known with
  | nil => simp
  | cons c cs ih =>
    rw [chainPasses, Bool.and_eq_true] at h
    have hc := Certificate.prime_of_passes hknown h.1
    have hrest := ih
      (show ∀ q ∈ c.number :: known, q.Prime by simpa only [List.forall_mem_cons] using ⟨hc, hknown⟩) h.2
    simpa only [List.forall_mem_cons] using ⟨hc, hrest⟩

end LucasCertificates
