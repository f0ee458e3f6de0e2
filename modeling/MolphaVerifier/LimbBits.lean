import Mathlib.Data.Nat.Bitwise
import MolphaVerifier.FixedBytes
import MolphaVerifier.LimbArithmetic

/-!
# The bits of a number in limbs

Bit `pos` of a number kept in 64-bit limbs is bit `pos % 64` of limb `pos / 64`. The limb operations
of a bit set (testing and setting one bit, the exclusive or of two sets, the mask of the low bits)
are read bit by bit, and so is the big-endian byte string of the limbs.
-/

namespace LimbBits

open FixedBytes LimbArithmetic

variable {k : ℕ} {pos : ℕ}

theorem testBit_limbsToNat (x : Limbs k) (h : pos / 64 < k) :
    (limbsToNat x).testBit pos = x[pos / 64].toNat.testBit (pos % 64) := by
  have hlimb : x[pos / 64].toNat = limbsToNat x / 2 ^ (64 * (pos / 64)) % 2 ^ 64 := by
    have hdigit := toNat_getD x.toList (pos / 64)
    rw [← pow_mul] at hdigit
    rw [limbsToNat, ← hdigit]
    simp [h]
  have hpos : pos % 64 + 64 * (pos / 64) = pos := Nat.mod_add_div pos 64
  rw [hlimb, Nat.testBit_mod_two_pow, Nat.testBit_div_two_pow, hpos,
    decide_eq_true (Nat.mod_lt pos (by decide)), Bool.true_and]

theorem testBit_limbsToNat_of_ge (x : Limbs k) (h : k ≤ pos / 64) :
    (limbsToNat x).testBit pos = false := by
  have hlt := limbsToNat_lt x
  rw [← pow_mul] at hlt
  exact Nat.testBit_lt_two_pow (hlt.trans_le (Nat.pow_le_pow_right (by decide) (by omega)))

theorem testBit_one_shiftLeft {bit i : ℕ} (hbit : bit < 64) :
    ((1 : UInt64) <<< UInt64.ofNat bit).toNat.testBit i = decide (i = bit) := by
  have hshift : (UInt64.ofNat bit).toNat % 64 = bit := by
    rw [UInt64.toNat_ofNat_of_lt' (by rw [UInt64.size]; omega), Nat.mod_eq_of_lt hbit]
  have hpow : (2 : ℕ) ^ bit < 2 ^ 64 := Nat.pow_lt_pow_right (by decide) hbit
  rw [UInt64.toNat_shiftLeft, hshift, UInt64.toNat_one, Nat.one_shiftLeft, Nat.mod_eq_of_lt hpow,
    Nat.testBit_two_pow]
  exact decide_eq_decide.mpr eq_comm

theorem and_one_shiftLeft_eq_zero_iff {bit : ℕ} (hbit : bit < 64) (limb : UInt64) :
    limb &&& ((1 : UInt64) <<< UInt64.ofNat bit) = 0 ↔ limb.toNat.testBit bit = false := by
  rw [← UInt64.toNat_inj, UInt64.toNat_and, UInt64.toNat_zero]
  constructor
  · intro h
    have hbitwise := congrArg (fun x => Nat.testBit x bit) h
    simpa only [Nat.testBit_and, testBit_one_shiftLeft hbit, decide_true, Bool.and_true,
      Nat.zero_testBit] using hbitwise
  · intro h
    refine Nat.eq_of_testBit_eq fun i => ?_
    rw [Nat.testBit_and, testBit_one_shiftLeft hbit, Nat.zero_testBit]
    by_cases hi : i = bit
    · simp [hi, h]
    · simp [hi]

theorem testBit_limbsToNat_set (x : Limbs k) (h : pos / 64 < k) (i : ℕ) :
    (limbsToNat (x.set (pos / 64) (x[pos / 64] |||
        (1 : UInt64) <<< UInt64.ofNat (pos % 64)) h)).testBit i =
      ((limbsToNat x).testBit i || decide (i = pos)) := by
  have hbit : pos % 64 < 64 := Nat.mod_lt pos (by decide)
  rcases Nat.lt_or_ge (i / 64) k with hi | hi
  · rw [testBit_limbsToNat _ hi, testBit_limbsToNat _ hi]
    by_cases hlimb : pos / 64 = i / 64
    · have hsame : i % 64 = pos % 64 ↔ i = pos := by omega
      simp only [Vector.getElem_set, hlimb, if_true, UInt64.toNat_or,
        Nat.testBit_or, testBit_one_shiftLeft hbit, hsame]
    · have hne : i ≠ pos := fun h => hlimb (by rw [h])
      simp only [Vector.getElem_set, hlimb, if_false, hne, decide_false,
        Bool.or_false]
  · have hne : i ≠ pos := by
      rintro rfl
      omega
    rw [testBit_limbsToNat_of_ge _ hi, testBit_limbsToNat_of_ge _ hi]
    simp [hne]

theorem testBit_limbsToNat_xor (x y : Limbs k) (i : ℕ) :
    (limbsToNat (Vector.zipWith (· ^^^ ·) x y)).testBit i =
      ((limbsToNat x).testBit i ^^ (limbsToNat y).testBit i) := by
  rcases Nat.lt_or_ge (i / 64) k with hi | hi
  · rw [testBit_limbsToNat _ hi, testBit_limbsToNat _ hi, testBit_limbsToNat _ hi]
    simp
  · rw [testBit_limbsToNat_of_ge _ hi, testBit_limbsToNat_of_ge _ hi, testBit_limbsToNat_of_ge _ hi]
    rfl

theorem testBit_limbsToNat_zero (k i : ℕ) :
    (limbsToNat (Vector.replicate k 0 : Limbs k)).testBit i = false := by
  rcases Nat.lt_or_ge (i / 64) k with hi | hi
  · rw [testBit_limbsToNat _ hi]
    simp
  · exact testBit_limbsToNat_of_ge _ hi

/-- The bytes of the limbs, highest limb first, are the bytes of the number. -/
theorem beNat_flatMap (l : List UInt64) :
    beNat (l.reverse.flatMap fun limb => (natToBytes 8 limb.toNat).toList) = leNat l := by
  induction l with
  | nil => rfl
  | cons a l ih =>
    have ha : a.toNat < 256 ^ 8 := a.toNat_lt.trans_eq (by norm_num)
    have hlow : bytesToNat (natToBytes 8 a.toNat) = a.toNat := bytesToNat_natToBytes_of_lt ha
    rw [bytesToNat] at hlow
    rw [List.reverse_cons, List.flatMap_append, beNat_append, ih, List.flatMap_singleton, hlow,
      Vector.length_toList, leNat_cons]
    ring

end LimbBits
