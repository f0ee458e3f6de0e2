import MolphaVerifier.ScalarArithmetic

/-!
# Multiplication modulo the group order

The reduction and the product are exact, and the checked ones of a debug build, which stop at an
overflow of the 128-bit accumulator, at a write past a buffer and at the closing assertion, never
stop.
-/

namespace MolphaVerifier

open FixedBytes LimbArithmetic BarrettReduction

theorem compareLimbs_correct_barrettRemainder (x : Limbs 8) :
    compareLimbs (correct secp256k1OrderLimbsLe5 2 (barrettRemainder x)) secp256k1OrderLimbsLe5 =
      .lt := by
  rw [compareLimbs_eq, compare_lt_iff_lt, limbsToNat_correct_barrettRemainder,
    limbsToNat_secp256k1OrderLimbsLe5]
  exact Nat.mod_lt _ n_pos

theorem checkedBarrettReduceModN_eq (x : Limbs 8) :
    checkedBarrettReduceModN x = some (barrettReduceModN x) := by
  have hassert := compareLimbs_correct_barrettRemainder x
  calc checkedBarrettReduceModN x
      = assertReduced (correct secp256k1OrderLimbsLe5 2 (barrettRemainder x)) :=
        (CheckedLimbs.bind_mulLimbs _ _ _).trans (CheckedLimbs.bind_mulLimbs _ _ _)
    _ = some (barrettReduceModN x) := by
        rw [assertReduced, if_pos hassert, barrettReduceModN_eq]

theorem checkedMulModNBarrett_eq (a b : Bytes 32) :
    checkedMulModNBarrett a b = some (mulMod a b) := by
  rw [checkedMulModNBarrett, CheckedLimbs.bind_mulLimbs, checkedBarrettReduceModN_eq]
  rfl

/-- The corrections take off a multiple of the order, at most twice. -/
theorem exists_corrections (x : Limbs 8) : ∃ times ≤ 2,
    limbsToNat (barrettReduceModN x) + times * Secp256k1.n = limbsToNat (barrettRemainder x) := by
  have hrem := limbsToNat_barrettRemainder x
  have hlt := sub_barrettQuotient_mul_lt x
  rw [← hrem] at hlt
  have hmod : limbsToNat (barrettRemainder x) % Secp256k1.n =
      limbsToNat (barrettReduceModN x) := by
    rw [limbsToNat_barrettReduceModN, hrem, Nat.mul_comm, Nat.sub_mul_mod]
    rw [Nat.mul_comm]
    exact barrettQuotient_mul_le x
  refine ⟨limbsToNat (barrettRemainder x) / Secp256k1.n, ?_, ?_⟩
  · exact Nat.le_of_lt_succ ((Nat.div_lt_iff_lt_mul n_pos).mpr hlt)
  · rw [← hmod, Nat.mul_comm]
    exact Nat.mod_add_div _ _

/-- `mulMod` returns the canonical encoding of the product for all byte strings, and the reduction
the residue for all 512-bit numbers. No check of a debug build fails, the difference that the
reduction keeps in five limbs is the exact one, and at most two corrections follow. -/
theorem multiplication_exact :
    (∀ a b : Bytes 32,
      mulMod a b = natToBytes 32 (bytesToNat a * bytesToNat b % Secp256k1.n) ∧
      checkedMulModNBarrett a b = some (mulMod a b)) ∧
    ∀ x : Limbs 8,
      limbsToNat (barrettReduceModN x) = limbsToNat x % Secp256k1.n ∧
      checkedBarrettReduceModN x = some (barrettReduceModN x) ∧
      limbsToNat (barrettQuotient x) * Secp256k1.n ≤ limbsToNat x ∧
      limbsToNat (barrettRemainder x) =
        limbsToNat x - limbsToNat (barrettQuotient x) * Secp256k1.n ∧
      ∃ times ≤ 2, limbsToNat (barrettReduceModN x) + times * Secp256k1.n =
        limbsToNat (barrettRemainder x) := by
  constructor
  · intro a b
    refine ⟨?_, checkedMulModNBarrett_eq a b⟩
    rw [← bytesToNat_mulMod, natToBytes_bytesToNat]
  · intro x
    exact ⟨limbsToNat_barrettReduceModN x, checkedBarrettReduceModN_eq x, barrettQuotient_mul_le x,
      limbsToNat_barrettRemainder x, exists_corrections x⟩

end MolphaVerifier
