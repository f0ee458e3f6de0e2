import MolphaVerifier.LimbArithmetic

/-!
# Barrett reduction

The quotient of `x < B * R` by `m` is estimated from `μ = B * R / m` with two shifts and a product.
The estimate is never too large and at most two too small, so what is left of `x` is below `3 m` and
two conditional subtractions finish the reduction. Both facts are stated for any split of the
power `B * R`, and the subtractions for limbs of any number.
-/

namespace BarrettReduction

open LimbArithmetic

/-- The estimate of `x / m` from the reciprocal `μ`. -/
def quotientEstimate (B R μ x : ℕ) : ℕ := x / B * μ / R

variable {B R m x : ℕ}

theorem quotientEstimate_mul_le (hB : 0 < B) (hR : 0 < R) :
    quotientEstimate B R (B * R / m) x * m ≤ x := by
  refine Nat.le_of_mul_le_mul_left ?_ (Nat.mul_pos hB hR)
  have hquotient : quotientEstimate B R (B * R / m) x * R ≤ x / B * (B * R / m) :=
    Nat.div_mul_le_self _ _
  calc B * R * (quotientEstimate B R (B * R / m) x * m)
      = B * m * (quotientEstimate B R (B * R / m) x * R) := by ring
    _ ≤ B * m * (x / B * (B * R / m)) := Nat.mul_le_mul_left _ hquotient
    _ = (x / B * B) * (B * R / m * m) := by ring
    _ ≤ x * (B * R) := Nat.mul_le_mul (Nat.div_mul_le_self _ _) (Nat.div_mul_le_self _ _)
    _ = B * R * x := Nat.mul_comm _ _

/-- The three roundings together lose less than three multiples of the modulus. -/
theorem lt_quotientEstimate_mul (hB : 0 < B) (hR : 0 < R) (hBm : B ≤ m) (hx : x < B * R) :
    x < (quotientEstimate B R (B * R / m) x + 3) * m := by
  have hm : 0 < m := hB.trans_le hBm
  have hx' : x < (x / B + 1) * B := (Nat.div_lt_iff_lt_mul hB).mp (Nat.lt_succ_self _)
  have hmu : B * R < (B * R / m + 1) * m := (Nat.div_lt_iff_lt_mul hm).mp (Nat.lt_succ_self _)
  have hquotient : x / B * (B * R / m) < (quotientEstimate B R (B * R / m) x + 1) * R :=
    (Nat.div_lt_iff_lt_mul hR).mp (Nat.lt_succ_self _)
  have hmuR : B * R / m ≤ R := Nat.div_le_of_le_mul (Nat.mul_le_mul_right R hBm)
  generalize B * R / m = μ at *
  generalize quotientEstimate B R μ x = q at *
  refine Nat.lt_of_mul_lt_mul_left (a := B * R) ?_
  calc B * R * x ≤ (μ + 1) * m * x := Nat.mul_le_mul_right x hmu.le
    _ = μ * m * x + m * x := by ring
    _ < μ * m * ((x / B + 1) * B) + m * (B * R) :=
        Nat.add_lt_add_of_le_of_lt (Nat.mul_le_mul_left _ hx'.le) (Nat.mul_lt_mul_of_pos_left hx hm)
    _ = x / B * μ * (m * B) + μ * (m * B) + m * (B * R) := by ring
    _ ≤ (q + 1) * R * (m * B) + R * (m * B) + m * (B * R) :=
        Nat.add_le_add_right (Nat.add_le_add (Nat.mul_le_mul_right _ hquotient.le)
          (Nat.mul_le_mul_right _ hmuR)) _
    _ = B * R * ((q + 3) * m) := by ring

theorem sub_quotientEstimate_mul_mod (hB : 0 < B) (hR : 0 < R) :
    (x - quotientEstimate B R (B * R / m) x * m) % m = x % m := by
  rw [Nat.mul_comm, Nat.sub_mul_mod]
  rw [Nat.mul_comm]
  exact quotientEstimate_mul_le hB hR

/-- Subtract the modulus while the number is not below it, at most so many times. -/
def correct {k : ℕ} (modulus : Limbs k) : ℕ → Limbs k → Limbs k
  | 0, r => r
  | times + 1, r =>
    if compareLimbs r modulus = .lt then r else correct modulus times (subLimbs r modulus)

theorem limbsToNat_correct {k : ℕ} {modulus r : Limbs k} (times : ℕ)
    (hr : limbsToNat r < (times + 1) * limbsToNat modulus) :
    limbsToNat (correct modulus times r) = limbsToNat r % limbsToNat modulus := by
  induction times generalizing r with
  | zero => rw [correct, Nat.mod_eq_of_lt (by simpa using hr)]
  | succ times ih =>
    simp only [correct, compareLimbs_eq, compare_lt_iff_lt]
    split
    next hlt => rw [Nat.mod_eq_of_lt hlt]
    next hge =>
      have hle := Nat.le_of_not_lt hge
      have hsub := limbsToNat_subLimbs hle
      rw [Nat.add_mul (times + 1)] at hr
      rw [ih (by omega), hsub, Nat.mod_eq_sub_mod hle]

end BarrettReduction
