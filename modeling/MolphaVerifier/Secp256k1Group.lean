import MolphaVerifier.JacobianAddition
import MolphaVerifier.LucasCertificates
import Mathlib.Algebra.Field.ZMod
import Mathlib.Algebra.Module.ZMod
import Mathlib.FieldTheory.Finite.Basic
import Mathlib.Tactic.NormNum.Prime

/-!
# The group of secp256k1

The field prime and the group order are proved prime by certificates. The curve has no point with a
zero coordinate, because `7` is not a square and `-7` is not a cube. The generator has order `n` by
evaluation, and since `2p + 1 < 3n` and there is no point of order two, the whole group has order
`n`. Nothing about the curve is assumed.
-/

namespace Secp256k1

open ShortWeierstrass LucasCertificates

/-- The field prime `2^256 - 2^32 - 977`. -/
def p : ℕ := 0xFFFFFFFFFFFFFFFFFFFFFFFFFFFFFFFFFFFFFFFFFFFFFFFFFFFFFFFEFFFFFC2F

def n : ℕ := 0xFFFFFFFFFFFFFFFFFFFFFFFFFFFFFFFEBAAEDCE6AF48A03BBFD25E8CD0364141

private def smallPrimes : List ℕ :=
  [2, 3, 5, 7, 11, 13, 17, 19, 23, 29, 31, 41, 53, 59, 97, 109, 113, 149, 293, 419, 461, 631, 797,
    971, 1373, 1627, 1871, 2011, 2621, 2657, 2731, 2861, 4051, 4423, 5323, 7723, 9349, 13441, 16699,
    20113, 24809, 28181, 41201, 85831, 96557]

private theorem prime_of_mem_smallPrimes : ∀ q ∈ smallPrimes, q.Prime := by
  simp only [smallPrimes, List.forall_mem_cons, List.not_mem_nil, false_imp_iff, implies_true,
    and_true]
  norm_num

private def certificates : List Certificate := [
  ⟨13331831, 13, [(2, 1), (5, 1), (971, 1), (1373, 1)]⟩,
  ⟨173378833005251801, 6, [(2, 3), (5, 2), (2621, 1), (24809, 1), (13331831, 1)]⟩,
  ⟨22149492674086928081353, 5, [(2, 3), (3, 1), (5323, 1), (173378833005251801, 1)]⟩,
  ⟨132896956044521568488119, 6, [(2, 1), (3, 1), (22149492674086928081353, 1)]⟩,
  ⟨1206781, 10, [(2, 2), (3, 1), (5, 1), (20113, 1)]⟩,
  ⟨7240687, 3, [(2, 1), (3, 1), (1206781, 1)]⟩,
  ⟨107590001, 3, [(2, 4), (5, 4), (7, 1), (29, 1), (53, 1)]⟩,
  ⟨255515944373312847190720520512484175977, 3, [(2, 3), (7, 2), (11, 1), (1627, 1), (2657, 1),
    (4423, 1), (41201, 1), (96557, 1), (7240687, 1), (107590001, 1)]⟩,
  ⟨205115282021455665897114700593932402728804164701536103180137503955397371, 10, [(2, 1), (3, 1),
    (5, 1), (29, 2), (31, 1), (7723, 1), (132896956044521568488119, 1),
    (255515944373312847190720520512484175977, 1)]⟩,
  ⟨p, 3, [(2, 1), (3, 1), (7, 1), (13441, 1),
    (205115282021455665897114700593932402728804164701536103180137503955397371, 1)]⟩,
  ⟨4681609, 23, [(2, 3), (3, 1), (97, 1), (2011, 1)]⟩,
  ⟨107361793816595537, 3, [(2, 4), (16699, 1), (85831, 1), (4681609, 1)]⟩,
  ⟨120233, 3, [(2, 3), (7, 1), (19, 1), (113, 1)]⟩,
  ⟨44706919, 6, [(2, 1), (3, 1), (797, 1), (9349, 1)]⟩,
  ⟨174723607534414371449, 3, [(2, 3), (17, 1), (59, 1), (4051, 1), (120233, 1), (44706919, 1)]⟩,
  ⟨305873, 3, [(2, 4), (7, 1), (2731, 1)]⟩,
  ⟨545358713, 5, [(2, 3), (41, 1), (59, 1), (28181, 1)]⟩,
  ⟨1627771, 3, [(2, 1), (3, 1), (5, 1), (29, 1), (1871, 1)]⟩,
  ⟨297159362677, 2, [(2, 2), (3, 2), (11, 1), (461, 1), (1627771, 1)]⟩,
  ⟨29047611873442575647497758179, 2, [(2, 1), (293, 1), (305873, 1), (545358713, 1),
    (297159362677, 1)]⟩,
  ⟨341948486974166000522343609283189, 2, [(2, 2), (3, 3), (109, 1),
    (29047611873442575647497758179, 1)]⟩,
  ⟨n, 7, [(2, 6), (3, 1), (149, 1), (631, 1), (107361793816595537, 1), (174723607534414371449, 1),
    (341948486974166000522343609283189, 1)]⟩]

private theorem prime_of_mem_certificates : ∀ c ∈ certificates, c.number.Prime :=
  prime_of_chainPasses prime_of_mem_smallPrimes (by decide +kernel)

theorem prime_p : p.Prime := prime_of_mem_certificates certificates[9] (by simp [certificates])

theorem prime_n : n.Prime := prime_of_mem_certificates certificates[21] (by simp [certificates])

instance : Fact p.Prime := ⟨prime_p⟩

instance : Fact n.Prime := ⟨prime_n⟩

theorem n_lt_p : n < p := by norm_num [n, p]

theorem p_lt_two_pow : p < 2 ^ 256 := by norm_num [p]

theorem p_odd : p % 2 = 1 := by norm_num [p]

theorem natCast_ne_zero {k : ℕ} (hk : 0 < k) (hkp : k < p) : (k : ZMod p) ≠ 0 := by
  rw [ne_eq, ZMod.natCast_eq_zero_iff]
  exact Nat.not_dvd_of_pos_of_lt hk hkp

theorem two_ne_zero : (2 : ZMod p) ≠ 0 := natCast_ne_zero (k := 2) two_pos (by norm_num [p])

theorem seven_ne_zero : (7 : ZMod p) ≠ 0 := natCast_ne_zero (k := 7) (by norm_num) (by norm_num [p])

private theorem powMod_neg_seven : powMod p (p - 7) ((p - 1) / 3) ≠ 1 := by decide +kernel

private theorem powMod_seven : powMod p 7 ((p - 1) / 2) ≠ 1 := by decide +kernel

/-- The right-hand side of the curve equation. -/
abbrev cubic (x : ZMod p) : ZMod p := x ^ 3 + 7

/-- `-7` is not a cube, so the curve has no point of order two. -/
theorem cube_add_seven_ne_zero (x : ZMod p) : x ^ 3 + 7 ≠ 0 := by
  intro h
  have hx : x ≠ 0 := by
    rintro rfl
    rw [zero_pow three_ne_zero, zero_add] at h
    exact seven_ne_zero h
  have hcube : x ^ 3 = ((p - 7 : ℕ) : ZMod p) := by
    rw [Nat.cast_sub (by norm_num [p]), ZMod.natCast_self]
    push_cast
    linear_combination h
  have hone : ((p - 7 : ℕ) : ZMod p) ^ ((p - 1) / 3) = 1 := by
    rw [← hcube, ← pow_mul, show 3 * ((p - 1) / 3) = p - 1 by norm_num [p]]
    exact ZMod.pow_card_sub_one_eq_one hx
  rw [natCast_pow_eq_one_iff prime_p.one_lt (by norm_num [p])] at hone
  exact powMod_neg_seven hone

/-- `7` is not a square, so no point has first coordinate zero. -/
theorem sq_ne_seven (y : ZMod p) : y ^ 2 ≠ 7 := by
  intro h
  have hy : y ≠ 0 := by
    rintro rfl
    rw [zero_pow (by norm_num)] at h
    exact seven_ne_zero h.symm
  have hone : ((7 : ℕ) : ZMod p) ^ ((p - 1) / 2) = 1 := by
    rw [Nat.cast_ofNat, ← h, ← pow_mul, show 2 * ((p - 1) / 2) = p - 1 by norm_num [p]]
    exact ZMod.pow_card_sub_one_eq_one hy
  rw [natCast_pow_eq_one_iff prime_p.one_lt (by norm_num [p])] at hone
  exact powMod_seven hone

abbrev Point : Type := ShortWeierstrass.Point (7 : ZMod p)

variable {P : Point} {x y : ZMod p}

theorem y_ne_zero (h : HasCoords P x y) : y ≠ 0 := h.y_ne_zero cube_add_seven_ne_zero

theorem x_ne_zero (h : HasCoords P x y) : x ≠ 0 := by
  rintro rfl
  have := h.onCurve
  rw [OnCurve] at this
  exact sq_ne_seven y (by linear_combination this)

theorem exists_hasCoords (h : OnCurve (7 : ZMod p) x y) : ∃ P : Point, HasCoords P x y := by
  refine exists_hasCoords_of_onCurve two_ne_zero ?_ h
  rintro rfl
  rw [OnCurve] at h
  exact cube_add_seven_ne_zero x (by linear_combination -h)

def generatorX : ZMod p := 0x79BE667EF9DCBBAC55A06295CE870B07029BFCDB2DCE28D959F2815B16F81798

def generatorY : ZMod p := 0x483ADA7726A3C4655DA4FBFC0E1108A8FD17B448A68554199C47D08FFB10D4B8

def G : Point :=
  .some generatorX generatorY
    (nonsingular_of_ne_zero two_ne_zero (by decide +kernel) (by decide +kernel))

theorem hasCoords_G : HasCoords G generatorX generatorY := ⟨_, rfl⟩

private theorem val_lt_of_eq_natCast {x : ZMod p} {k : ℕ} (h : x = (k : ZMod p)) (hk : k < n) :
    x.val < n := by
  rwa [h, ZMod.val_natCast_of_lt (hk.trans n_lt_p)]

theorem generatorX_val_lt : generatorX.val < n :=
  val_lt_of_eq_natCast (k := 0x79BE667EF9DCBBAC55A06295CE870B07029BFCDB2DCE28D959F2815B16F81798)
    (by rw [Nat.cast_ofNat, generatorX]) (by norm_num [n])

theorem generatorY_val_even : generatorY.val % 2 = 0 := by
  have hcast : generatorY =
      ((0x483ADA7726A3C4655DA4FBFC0E1108A8FD17B448A68554199C47D08FFB10D4B8 : ℕ) : ZMod p) := by
    rw [Nat.cast_ofNat, generatorY]
  rw [hcast, ZMod.val_natCast_of_lt (by norm_num [p])]

private def generatorMultiple (e : ℕ) : Jacobian (ZMod p) :=
  Jacobian.scalarMul ⟨generatorX, generatorY, false⟩ 256 e

private theorem represents_generatorMultiple {e : ℕ} (he : e < 2 ^ 256) :
    (generatorMultiple e).Represents (e • G) :=
  Jacobian.represents_scalarMul two_ne_zero cube_add_seven_ne_zero rfl hasCoords_G 256 he

/-- The coordinates of a multiple of the generator are checked by doubling and adding. -/
private theorem hasCoords_nsmul_G {e : ℕ} (he : e < 2 ^ 256)
    (h : (generatorMultiple e).infinity = false ∧
      (generatorMultiple e).x = x * (generatorMultiple e).z ^ 2 ∧
      (generatorMultiple e).y = y * (generatorMultiple e).z ^ 3) : HasCoords (e • G) x y := by
  obtain ⟨hfin, hx, hy⟩ := h
  obtain ⟨hz, hcoords⟩ :=
    (Jacobian.represents_of_finite hfin).mp (represents_generatorMultiple he)
  rwa [hx, hy, mul_div_cancel_right₀ _ (pow_ne_zero 2 hz),
    mul_div_cancel_right₀ _ (pow_ne_zero 3 hz)] at hcoords

theorem pred_n_nsmul_G : (n - 1) • G = -G :=
  (hasCoords_nsmul_G (by norm_num [n]) (by decide +kernel)).ext hasCoords_G.neg

theorem hasCoords_one_nsmul_G : HasCoords (1 • G) generatorX generatorY := by
  rw [one_nsmul]
  exact hasCoords_G

def doubledX : ZMod p := 0xC6047F9441ED7D6D3045406E95C07CD85C778E4B8CEF3CA7ABAC09B95C709EE5

def doubledY : ZMod p := 0x1AE168FEA63DC339A3C58419466CEAEEF7F632653266D0E1236431A950CFE52A

theorem hasCoords_two_nsmul_G : HasCoords (2 • G) doubledX doubledY :=
  hasCoords_nsmul_G (by norm_num) (by decide +kernel)

theorem doubledX_val_lt : doubledX.val < n :=
  val_lt_of_eq_natCast (k := 0xC6047F9441ED7D6D3045406E95C07CD85C778E4B8CEF3CA7ABAC09B95C709EE5)
    (by rw [Nat.cast_ofNat, doubledX]) (by norm_num [n])

def tripledX : ZMod p := 0xF9308A019258C31049344F85F89D5229B531C845836F99B08601F113BCE036F9

def tripledY : ZMod p := 0x388F7B0F632DE8140FE337E62A37F3566500A99934C2231B6CB9FD7584B8E672

theorem hasCoords_three_nsmul_G : HasCoords (3 • G) tripledX tripledY :=
  hasCoords_nsmul_G (by norm_num) (by decide +kernel)

theorem tripledX_val_lt : tripledX.val < n :=
  val_lt_of_eq_natCast (k := 0xF9308A019258C31049344F85F89D5229B531C845836F99B08601F113BCE036F9)
    (by rw [Nat.cast_ofNat, tripledX]) (by norm_num [n])

theorem n_nsmul_G : n • G = 0 := by
  have hsucc : n = n - 1 + 1 := by norm_num [n]
  rw [hsucc, succ_nsmul, pred_n_nsmul_G, neg_add_cancel]

/-- The group of secp256k1 has order `n`. -/
theorem natCard_point : Nat.card Point = n :=
  natCard_point_eq_of_prime_order prime_n hasCoords_G.ne_zero n_nsmul_G two_ne_zero
    cube_add_seven_ne_zero (by rw [Nat.card_zmod]; norm_num [n, p])

theorem n_nsmul (P : Point) : n • P = 0 := natCard_point ▸ card_nsmul_eq_zero'

/-- Scalars modulo `n` act on the points. -/
noncomputable instance : Module (ZMod n) Point := AddCommGroup.zmodModule n_nsmul

theorem natCast_smul (k : ℕ) (P : Point) : (k : ZMod n) • P = k • P := Nat.cast_smul_eq_nsmul ..

theorem smul_G_ne_zero_iff {k : ZMod n} : k • G ≠ 0 ↔ k ≠ 0 := by
  rw [ne_eq, smul_eq_zero, or_iff_left hasCoords_G.ne_zero]

theorem natCast_smul_G_ne_zero {k : ℕ} (hpos : 0 < k) (hlt : k < n) : (k : ZMod n) • G ≠ 0 := by
  rw [smul_G_ne_zero_iff, ne_eq, ZMod.natCast_eq_zero_iff]
  exact Nat.not_dvd_of_pos_of_lt hpos hlt

theorem nsmul_G_ne {m m' : ℕ} (hlt : m < m') (hm' : m' < n) : m' • G ≠ m • G := by
  rw [← Nat.sub_add_cancel hlt.le, add_nsmul, ne_eq, add_eq_right, ← natCast_smul]
  exact natCast_smul_G_ne_zero (Nat.sub_pos_of_lt hlt) ((Nat.sub_le _ _).trans_lt hm')

-- later proofs compare numbers with `p` and `n` and must not unfold the literals
attribute [irreducible] p n

end Secp256k1
