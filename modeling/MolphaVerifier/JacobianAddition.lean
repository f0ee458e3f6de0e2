import MolphaVerifier.ShortWeierstrassPoints
import Mathlib.Tactic.FieldSimp
import Mathlib.Tactic.LinearCombination

/-!
# Jacobian coordinates on `y² = x³ + b`

A Jacobian triple carries its own infinity flag, which is separate from its third coordinate, and
stands for the affine point `(x / z², y / z³)` when the flag is clear. `Represents` ties a triple to
a point of the group; doubling and mixed addition are proved to represent the group sum.
-/

namespace ShortWeierstrass

/-- An affine point with an explicit infinity flag. -/
structure Affine (F : Type*) where
  x : F
  y : F
  infinity : Bool
  deriving DecidableEq

/-- A Jacobian triple with an explicit infinity flag. -/
structure Jacobian (F : Type*) where
  x : F
  y : F
  z : F
  infinity : Bool
  deriving DecidableEq

variable {F : Type*} [Field F]

namespace Jacobian

def ofAffine (a : Affine F) : Jacobian F := ⟨a.x, a.y, 1, a.infinity⟩

/-- `2 (x, y)` has slope `3 x² / 2 y`; clearing denominators gives these three polynomials. -/
def double (a : Jacobian F) : Jacobian F :=
  if a.infinity then a
  else
    let s := a.x * a.y ^ 2
    let m := 3 * a.x ^ 2
    ⟨m ^ 2 - 8 * s, m * (12 * s - m ^ 2) - 8 * a.y ^ 4, 2 * a.y * a.z, false⟩

/-- Add an affine point. The two differences vanish together exactly when the summands are equal. -/
def addAffine [DecidableEq F] (a : Jacobian F) (c : Affine F) : Jacobian F :=
  if a.infinity then ofAffine c
  else if c.infinity then a
  else
    let h := c.x * a.z ^ 2 - a.x
    let i := c.y * a.z ^ 3 - a.y
    if h = 0 then
      if i = 0 then a.double else ⟨0, 0, 0, true⟩
    else
      let x := i ^ 2 - h ^ 3 - 2 * a.x * h ^ 2
      ⟨x, i * (a.x * h ^ 2 - x) - a.y * h ^ 3, a.z * h, false⟩

def toAffine (a : Jacobian F) : Affine F := ⟨a.x / a.z ^ 2, a.y / a.z ^ 3, a.infinity⟩

/-- A finite triple has a nonzero third coordinate. -/
def Proper (a : Jacobian F) : Prop := a.infinity = false → a.z ≠ 0

/-- The triple stands for the point `P`. -/
def Represents {b : F} (a : Jacobian F) (P : Point b) : Prop :=
  a.infinity = true ∧ P = 0 ∨
    a.infinity = false ∧ a.z ≠ 0 ∧ HasCoords P (a.x / a.z ^ 2) (a.y / a.z ^ 3)

variable {b : F} {a : Jacobian F} {c : Affine F} {P Q : Point b}

theorem represents_of_infinity (h : a.infinity = true) : a.Represents P ↔ P = 0 := by
  simp [Represents, h]

theorem represents_of_finite (h : a.infinity = false) :
    a.Represents P ↔ a.z ≠ 0 ∧ HasCoords P (a.x / a.z ^ 2) (a.y / a.z ^ 3) := by
  simp [Represents, h]

theorem Represents.proper (h : a.Represents P) : a.Proper := fun hfin =>
  ((represents_of_finite hfin).mp h).1

theorem Represents.infinity_iff (h : a.Represents P) : a.infinity = true ↔ P = 0 := by
  cases hinf : a.infinity with
  | true => simpa using (represents_of_infinity hinf).mp h
  | false => simpa using ((represents_of_finite hinf).mp h).2.ne_zero

theorem represents_ofAffine (hc : c.infinity = false) (h : HasCoords P c.x c.y) :
    (ofAffine c).Represents P := by
  rw [represents_of_finite (by simpa [ofAffine] using hc)]
  simpa [ofAffine] using h

theorem y_ne_zero_of_sub_eq_zero (hz : a.z ≠ 0) (hy : c.y ≠ 0) (hi : c.y * a.z ^ 3 - a.y = 0) :
    a.y ≠ 0 := by
  rw [← sub_eq_zero.mp hi]
  exact mul_ne_zero hy (pow_ne_zero 3 hz)

variable [DecidableEq F]

theorem represents_double (h2 : (2 : F) ≠ 0) (hy : a.infinity = false → a.y ≠ 0)
    (h : a.Represents P) : a.double.Represents (P + P) := by
  cases hinf : a.infinity with
  | true =>
    rw [double, if_pos hinf, represents_of_infinity hinf]
    rw [represents_of_infinity hinf] at h
    rw [h, add_zero]
  | false =>
    obtain ⟨hz, hcoords⟩ := (represents_of_finite hinf).mp h
    rw [double, if_neg (by simp [hinf]), represents_of_finite rfl]
    have hay : a.y ≠ 0 := hy hinf
    refine ⟨mul_ne_zero (mul_ne_zero h2 hay) hz, ?_⟩
    refine hcoords.add_tangent h2 (div_ne_zero hay (pow_ne_zero 3 hz)) rfl ?_ ?_
    · simp only
      field_simp
      ring
    · simp only
      field_simp
      ring

theorem represents_addAffine_of_ne (hinf : a.infinity = false) (hc : c.infinity = false)
    (hz : a.z ≠ 0) (hP : HasCoords P (a.x / a.z ^ 2) (a.y / a.z ^ 3)) (hQ : HasCoords Q c.x c.y)
    (hh : c.x * a.z ^ 2 - a.x ≠ 0) : (a.addAffine c).Represents (P + Q) := by
  have hne : a.x / a.z ^ 2 ≠ c.x := by
    intro h
    rw [div_eq_iff (pow_ne_zero 2 hz)] at h
    exact hh (sub_eq_zero.mpr h.symm)
  -- both differences become variables, and the affine summand is written through them
  have hcx : c.x = (a.x + (c.x * a.z ^ 2 - a.x)) / a.z ^ 2 := by field_simp; ring
  have hcy : c.y = (a.y + (c.y * a.z ^ 3 - a.y)) / a.z ^ 3 := by field_simp; ring
  rw [addAffine, if_neg (by simp [hinf]), if_neg (by simp [hc])]
  simp only [hh, if_false]
  generalize c.x * a.z ^ 2 - a.x = h at hh hcx ⊢
  generalize c.y * a.z ^ 3 - a.y = i at hcy ⊢
  have hslope : i / (a.z * h) = (a.y / a.z ^ 3 - c.y) / (a.x / a.z ^ 2 - c.x) := by
    rw [hcx, hcy, ← sub_div, ← sub_div, sub_add_cancel_left, sub_add_cancel_left]
    field_simp
  rw [represents_of_finite rfl]
  refine ⟨mul_ne_zero hz hh, hP.add_chord hQ hne hslope ?_ ?_⟩
  · rw [hcx]
    field_simp
    ring
  · field_simp

theorem represents_addAffine_of_eq (h2 : (2 : F) ≠ 0) (hinf : a.infinity = false)
    (hc : c.infinity = false) (hy : c.y ≠ 0) (ha : a.Represents P) (hQ : HasCoords Q c.x c.y)
    (hh : c.x * a.z ^ 2 - a.x = 0) : (a.addAffine c).Represents (P + Q) := by
  obtain ⟨hz, hP⟩ := (represents_of_finite hinf).mp ha
  have hx : a.x / a.z ^ 2 = c.x := by
    rw [div_eq_iff (pow_ne_zero 2 hz)]
    exact (sub_eq_zero.mp hh).symm
  have hyiff : c.y * a.z ^ 3 - a.y = 0 ↔ a.y / a.z ^ 3 = c.y := by
    rw [div_eq_iff (pow_ne_zero 3 hz), sub_eq_zero, eq_comm]
  rw [hx] at hP
  rw [addAffine, if_neg (by simp [hinf]), if_neg (by simp [hc])]
  by_cases hi : c.y * a.z ^ 3 - a.y = 0
  · simp only [hh, hi, if_true]
    have hPQ : P = Q := by
      rw [hyiff.mp hi] at hP
      exact hP.ext hQ
    rw [← hPQ]
    exact represents_double h2 (fun _ => y_ne_zero_of_sub_eq_zero hz hy hi) ha
  · simp only [hh, hi, if_true, if_false]
    rw [represents_of_infinity rfl]
    rcases eq_or_eq_neg_of_hasCoords hP hQ with ⟨hyy, -⟩ | ⟨-, hneg⟩
    · exact absurd (hyiff.mpr hyy) hi
    · rw [hneg, neg_add_cancel]

/-- Mixed addition represents the group sum. A point of order two would break the doubling branch,
so the affine summand must not be one. -/
theorem represents_addAffine (h2 : (2 : F) ≠ 0) (hc : c.infinity = false) (hy : c.y ≠ 0)
    (ha : a.Represents P) (hQ : HasCoords Q c.x c.y) : (a.addAffine c).Represents (P + Q) := by
  cases hinf : a.infinity with
  | true =>
    rw [addAffine, if_pos hinf, (represents_of_infinity hinf).mp ha, zero_add]
    exact represents_ofAffine hc hQ
  | false =>
    obtain ⟨hz, hP⟩ := (represents_of_finite hinf).mp ha
    by_cases hh : c.x * a.z ^ 2 - a.x = 0
    · exact represents_addAffine_of_eq h2 hinf hc hy ha hQ hh
    · exact represents_addAffine_of_ne hinf hc hz hP hQ hh

/-- Off the curve as well, mixed addition of a point with nonzero second coordinate keeps triples
proper: doubling happens only when the triple's second coordinate is nonzero too. -/
theorem proper_addAffine (h2 : (2 : F) ≠ 0) (hc : c.infinity = false) (hy : c.y ≠ 0)
    (ha : a.Proper) : (a.addAffine c).Proper := by
  cases hinf : a.infinity with
  | true =>
    rw [addAffine, if_pos hinf]
    intro _
    exact one_ne_zero
  | false =>
    have hz := ha hinf
    rw [addAffine, if_neg (by simp [hinf]), if_neg (by simp [hc])]
    by_cases hh : c.x * a.z ^ 2 - a.x = 0
    · by_cases hi : c.y * a.z ^ 3 - a.y = 0
      · simp only [hh, hi, if_true, double, hinf, Bool.false_eq_true, if_false]
        intro _
        exact mul_ne_zero (mul_ne_zero h2 (y_ne_zero_of_sub_eq_zero hz hy hi)) hz
      · simp [hh, hi, Proper]
    · simp only [hh, if_false]
      intro _
      exact mul_ne_zero hz hh

/-- `e` times an affine point by doubling and adding, for an `e` of at most `bits` bits. -/
def scalarMul (c : Affine F) : ℕ → ℕ → Jacobian F
  | 0, _ => ⟨0, 0, 0, true⟩
  | bits + 1, e =>
    let a := (scalarMul c bits (e / 2)).double
    if e % 2 = 1 then a.addAffine c else a

/-- On a curve without points of order two, doubling and adding represents the multiple. -/
theorem represents_scalarMul (h2 : (2 : F) ≠ 0) (hroot : ∀ x : F, x ^ 3 + b ≠ 0)
    (hc : c.infinity = false) (hQ : HasCoords Q c.x c.y) (bits : ℕ) {e : ℕ} (he : e < 2 ^ bits) :
    (scalarMul c bits e).Represents (e • Q) := by
  induction bits generalizing e with
  | zero =>
    obtain rfl : e = 0 := by simpa using he
    rw [zero_smul]
    exact (represents_of_infinity rfl).mpr rfl
  | succ bits ih =>
    have hhalf := ih (e := e / 2) (by rw [pow_succ] at he; omega)
    have hdouble := represents_double h2
      (fun hfin => by
        obtain ⟨-, hcoords⟩ := (represents_of_finite hfin).mp hhalf
        have := hcoords.y_ne_zero hroot
        contrapose! this
        rw [this, zero_div]) hhalf
    rw [← two_nsmul, ← mul_smul] at hdouble
    simp only [scalarMul]
    rcases Nat.mod_two_eq_zero_or_one e with h | h
    · rw [if_neg (by omega)]
      rwa [show 2 * (e / 2) = e by omega] at hdouble
    · rw [if_pos h]
      have hadd := represents_addAffine h2 hc (hQ.y_ne_zero hroot) hdouble hQ
      rwa [← succ_nsmul, show 2 * (e / 2) + 1 = e by omega] at hadd

end Jacobian

end ShortWeierstrass
