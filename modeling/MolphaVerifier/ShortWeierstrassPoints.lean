import Mathlib.AlgebraicGeometry.EllipticCurve.Affine.Point
import Mathlib.GroupTheory.Perm.Cycle.Type

/-!
# Points of `y² = x³ + b` by their coordinates

`HasCoords P x y` says that `P` is the affine point `(x, y)`. Sums are described by the chord and
tangent formulas on coordinates, so later modules never open the inductive type of points. The last
section counts: a point of prime order `q` with `2 |F| + 1 < 3 q`, on a curve without points of
order two, forces the whole group to have order `q`.
-/

namespace ShortWeierstrass

variable {F : Type*} [Field F]

def curve (b : F) : WeierstrassCurve.Affine F := ⟨0, 0, 0, 0, b⟩

abbrev Point (b : F) : Type _ := (curve b).Point

def OnCurve (b x y : F) : Prop := y ^ 2 = x ^ 3 + b

instance [DecidableEq F] (b x y : F) : Decidable (OnCurve b x y) :=
  inferInstanceAs (Decidable (y ^ 2 = x ^ 3 + b))

/-- `P` is the affine point with coordinates `(x, y)`. -/
def HasCoords {b : F} (P : Point b) (x y : F) : Prop := ∃ h, P = .some x y h

variable {b : F} {P Q : Point b} {x y x₁ y₁ x₂ y₂ : F}

theorem equation_iff : (curve b).Equation x y ↔ OnCurve b x y := by
  simp [WeierstrassCurve.Affine.equation_iff, curve, OnCurve]

@[simp] theorem negY_eq : (curve b).negY x y = -y := by
  simp [WeierstrassCurve.Affine.negY, curve]

theorem nonsingular_of_ne_zero (h2 : (2 : F) ≠ 0) (hy : y ≠ 0) (h : OnCurve b x y) :
    (curve b).Nonsingular x y := by
  rw [WeierstrassCurve.Affine.nonsingular_iff']
  refine ⟨equation_iff.mpr h, .inr ?_⟩
  simpa [curve] using ⟨h2, hy⟩

theorem exists_hasCoords_of_onCurve (h2 : (2 : F) ≠ 0) (hy : y ≠ 0) (h : OnCurve b x y) :
    ∃ P : Point b, HasCoords P x y :=
  ⟨.some x y (nonsingular_of_ne_zero h2 hy h), _, rfl⟩

namespace HasCoords

theorem onCurve (h : HasCoords P x y) : OnCurve b x y := by
  obtain ⟨hns, -⟩ := h
  exact equation_iff.mp hns.1

theorem y_ne_zero (h : HasCoords P x y) (hroot : ∀ x : F, x ^ 3 + b ≠ 0) : y ≠ 0 := by
  rintro rfl
  have := h.onCurve
  rw [OnCurve] at this
  exact hroot x (by linear_combination -this)

theorem ne_zero (h : HasCoords P x y) : P ≠ 0 := by
  obtain ⟨hns, rfl⟩ := h
  exact WeierstrassCurve.Affine.Point.some_ne_zero hns

theorem unique (h : HasCoords P x₁ y₁) (h' : HasCoords P x₂ y₂) : x₁ = x₂ ∧ y₁ = y₂ := by
  obtain ⟨hns, rfl⟩ := h
  obtain ⟨hns', heq⟩ := h'
  exact (WeierstrassCurve.Affine.Point.some.injEq ..).mp heq

theorem ext (h : HasCoords P x y) (h' : HasCoords Q x y) : P = Q := by
  obtain ⟨hns, rfl⟩ := h
  obtain ⟨hns', rfl⟩ := h'
  rfl

theorem neg (h : HasCoords P x y) : HasCoords (-P) x (-y) := by
  obtain ⟨hns, rfl⟩ := h
  rw [WeierstrassCurve.Affine.Point.neg_some]
  simp only [negY_eq]
  exact ⟨_, rfl⟩

end HasCoords

theorem ne_zero_iff_exists_hasCoords : P ≠ 0 ↔ ∃ x y, HasCoords P x y := by
  constructor
  · intro h
    cases P with
    | zero => exact absurd rfl h
    | some x y hns => exact ⟨x, y, hns, rfl⟩
  · rintro ⟨x, y, h⟩
    exact h.ne_zero

theorem eq_or_eq_neg_of_hasCoords (h : HasCoords P x y₁) (h' : HasCoords Q x y₂) :
    y₁ = y₂ ∧ P = Q ∨ y₁ = -y₂ ∧ P = -Q := by
  have hsq : y₁ ^ 2 = y₂ ^ 2 := h.onCurve.trans h'.onCurve.symm
  rcases sq_eq_sq_iff_eq_or_eq_neg.mp hsq with rfl | rfl
  · exact .inl ⟨rfl, h.ext h'⟩
  · exact .inr ⟨rfl, h.ext h'.neg⟩

section FirstCoordinate

def firstCoord : Point b → Option F
  | .zero => none
  | .some x _ _ => some x

theorem firstCoord_of_hasCoords (h : HasCoords P x y) : firstCoord P = some x := by
  obtain ⟨hns, rfl⟩ := h
  rfl

theorem firstCoord_eq_none_iff : firstCoord P = none ↔ P = 0 := by
  cases P with
  | zero => exact ⟨fun _ => rfl, fun _ => rfl⟩
  | some x y h => exact ⟨fun h => (nomatch h), fun h => (nomatch h)⟩

theorem firstCoord_eq_some_iff : firstCoord P = some x ↔ ∃ y, HasCoords P x y := by
  constructor
  · intro hx
    cases P with
    | zero => cases hx
    | some x' y' h =>
      obtain rfl : x' = x := Option.some.inj hx
      exact ⟨y', h, rfl⟩
  · rintro ⟨y, hcoords⟩
    exact firstCoord_of_hasCoords hcoords

/-- Every first coordinate belongs to at most two points, a point and its opposite. -/
theorem card_firstCoord_le [Fintype (Point b)] [DecidableEq F] (x : F) :
    (Finset.univ.filter fun P : Point b => firstCoord P = some x).card ≤ 2 := by
  classical
  rcases Finset.eq_empty_or_nonempty
    (Finset.univ.filter fun P : Point b => firstCoord P = some x) with hempty | ⟨R, hR⟩
  · rw [hempty, Finset.card_empty]
    exact Nat.zero_le 2
  · obtain ⟨y₂, hR⟩ := firstCoord_eq_some_iff.mp (Finset.mem_filter.mp hR).2
    have hsub : (Finset.univ.filter fun P : Point b => firstCoord P = some x) ⊆ {R, -R} := by
      intro P hP
      obtain ⟨y₁, hP⟩ := firstCoord_eq_some_iff.mp (Finset.mem_filter.mp hP).2
      rw [Finset.mem_insert, Finset.mem_singleton]
      rcases eq_or_eq_neg_of_hasCoords hP hR with ⟨-, hsame⟩ | ⟨-, hneg⟩
      · exact .inl hsame
      · exact .inr hneg
    exact (Finset.card_le_card hsub).trans Finset.card_le_two

end FirstCoordinate

section Addition

variable [DecidableEq F]

theorem HasCoords.add_chord {s x₃ y₃ : F} (h : HasCoords P x₁ y₁) (h' : HasCoords Q x₂ y₂)
    (hx : x₁ ≠ x₂) (hs : s = (y₁ - y₂) / (x₁ - x₂)) (hx₃ : x₃ = s ^ 2 - x₁ - x₂)
    (hy₃ : y₃ = s * (x₁ - x₃) - y₁) : HasCoords (P + Q) x₃ y₃ := by
  obtain ⟨hns, rfl⟩ := h
  obtain ⟨hns', rfl⟩ := h'
  rw [WeierstrassCurve.Affine.Point.add_of_X_ne hx]
  have hslope : (curve b).slope x₁ x₂ y₁ y₂ = s := by
    rw [WeierstrassCurve.Affine.slope_of_X_ne hx, hs]
  have hX : (curve b).addX x₁ x₂ ((curve b).slope x₁ x₂ y₁ y₂) = x₃ := by
    rw [hslope, hx₃]
    simp [WeierstrassCurve.Affine.addX, curve]
  have hY : (curve b).addY x₁ x₂ y₁ ((curve b).slope x₁ x₂ y₁ y₂) = y₃ := by
    rw [WeierstrassCurve.Affine.addY, negY_eq, WeierstrassCurve.Affine.negAddY, hX, hslope, hy₃]
    ring
  simp only [hX, hY]
  exact ⟨_, rfl⟩

theorem HasCoords.add_tangent {s x₃ y₃ : F} (h : HasCoords P x y) (h2 : (2 : F) ≠ 0) (hy : y ≠ 0)
    (hs : s = 3 * x ^ 2 / (2 * y)) (hx₃ : x₃ = s ^ 2 - 2 * x) (hy₃ : y₃ = s * (x - x₃) - y) :
    HasCoords (P + P) x₃ y₃ := by
  obtain ⟨hns, rfl⟩ := h
  have hne : y ≠ (curve b).negY x y := by
    rw [negY_eq, ne_eq, eq_neg_iff_add_eq_zero, ← two_mul]
    exact mul_ne_zero h2 hy
  rw [WeierstrassCurve.Affine.Point.add_self_of_Y_ne hne]
  have hslope : (curve b).slope x x y y = s := by
    rw [WeierstrassCurve.Affine.slope_of_Y_ne rfl hne, negY_eq, hs]
    simp [curve, two_mul]
  have hX : (curve b).addX x x ((curve b).slope x x y y) = x₃ := by
    rw [hslope, hx₃]
    simp only [WeierstrassCurve.Affine.addX, curve]
    ring
  have hY : (curve b).addY x x y ((curve b).slope x x y y) = y₃ := by
    rw [WeierstrassCurve.Affine.addY, negY_eq, WeierstrassCurve.Affine.negAddY, hX, hslope, hy₃]
    ring
  simp only [hX, hY]
  exact ⟨_, rfl⟩

/-- A point of order two would have a second coordinate equal to its negation, which is zero. -/
theorem two_nsmul_ne_zero (h2 : (2 : F) ≠ 0) (hroot : ∀ x : F, x ^ 3 + b ≠ 0) {T : Point b}
    (hT : T ≠ 0) : 2 • T ≠ 0 := by
  intro htwo
  obtain ⟨x, y, hxy⟩ := ne_zero_iff_exists_hasCoords.mp hT
  have hself : T = -T := by
    rw [eq_neg_iff_add_eq_zero, ← two_nsmul, htwo]
  have hneg := hxy.neg
  rw [← hself] at hneg
  have hy : y = -y := (hxy.unique hneg).2
  have hdouble : 2 * y = 0 := by linear_combination hy
  exact hxy.y_ne_zero hroot ((mul_eq_zero.mp hdouble).resolve_left h2)

end Addition

section Counting

variable [Finite F] (b)

instance : Finite (Point b) :=
  have : Finite (WithZero {xy : F × F // (curve b).Nonsingular xy.1 xy.2}) :=
    inferInstanceAs (Finite (Option {xy : F × F // (curve b).Nonsingular xy.1 xy.2}))
  .of_equiv _ ((curve b).nonsingularPointEquiv).symm

theorem natCard_point_le : Nat.card (Point b) ≤ 2 * Nat.card F + 1 := by
  classical
  have := Fintype.ofFinite F
  have := Fintype.ofFinite (Point b)
  have hfibre : ∀ a : Option F,
      (Finset.univ.filter fun P : Point b => firstCoord P = a).card ≤ if a = none then 1 else 2 := by
    intro a
    cases a with
    | none =>
      refine Finset.card_le_one.mpr fun P hP Q hQ => ?_
      have hP := firstCoord_eq_none_iff.mp (Finset.mem_filter.mp hP).2
      have hQ := firstCoord_eq_none_iff.mp (Finset.mem_filter.mp hQ).2
      rw [hP, hQ]
    | some x => simpa using card_firstCoord_le x
  calc Nat.card (Point b) = (Finset.univ : Finset (Point b)).card := by simp
    _ = ∑ a : Option F, (Finset.univ.filter fun P : Point b => firstCoord P = a).card :=
        Finset.card_eq_sum_card_fiberwise fun _ _ => Finset.mem_univ _
    _ ≤ ∑ a : Option F, if a = none then 1 else 2 := Finset.sum_le_sum fun a _ => hfibre a
    _ = 2 * Nat.card F + 1 := by
        rw [Fintype.sum_option]
        simp only [reduceCtorEq, if_true, if_false, Finset.sum_const, Finset.card_univ,
          Nat.card_eq_fintype_card, smul_eq_mul]
        ring

variable [DecidableEq F] {b}

/-- A group that is too small to contain three copies of a subgroup of prime order `q`, and that has
no element of order two, has order `q`. -/
theorem natCard_point_eq_of_prime_order {q : ℕ} (hq : q.Prime) {G : Point b} (hG : G ≠ 0)
    (hqG : q • G = 0) (h2 : (2 : F) ≠ 0) (hroot : ∀ x : F, x ^ 3 + b ≠ 0)
    (hbound : 2 * Nat.card F + 1 < 3 * q) : Nat.card (Point b) = q := by
  have : Fact q.Prime := ⟨hq⟩
  have horder : addOrderOf G = q := addOrderOf_eq_prime hqG hG
  obtain ⟨k, hk⟩ : q ∣ Nat.card (Point b) := horder ▸ addOrderOf_dvd_natCard G
  have hpos : 0 < Nat.card (Point b) := Nat.card_pos
  have hk3 : k < 3 := by
    by_contra hge
    have : q * 3 ≤ q * k := Nat.mul_le_mul_left q (by omega)
    have := natCard_point_le b
    omega
  have hnotwo : k ≠ 2 := by
    rintro rfl
    have : Fact (Nat.Prime 2) := ⟨Nat.prime_two⟩
    obtain ⟨T, hT⟩ := exists_prime_orderOf_dvd_card' (G := Multiplicative (Point b)) 2
      ⟨q, by rw [Nat.card_congr Multiplicative.toAdd, hk, mul_comm]⟩
    obtain ⟨hsq, hne⟩ := orderOf_eq_prime_iff.mp hT
    exact two_nsmul_ne_zero h2 hroot (fun h => hne (Multiplicative.toAdd.injective h))
      (congrArg Multiplicative.toAdd hsq)
  have hk0 : k ≠ 0 := by
    rintro rfl
    omega
  obtain rfl : k = 1 := by omega
  omega

end Counting

end ShortWeierstrass
