import Mathlib.Algebra.Group.Basic
import Mathlib.Data.List.Induction
import Mathlib.Data.Nat.Bitwise

/-!
# Square and multiply from the most significant bit

A power is computed by one squaring for each bit of the exponent and one product for each set bit,
starting with the base at the first set bit instead of with one. `scan` keeps the accumulator as an
`Option` that is empty until then. After any prefix of the bits it holds the power of the number that
the prefix stands for. `plainScan` starts with one instead and treats every bit alike.
-/

namespace SquareAndMultiply

/-- The number of a bit string, most significant bit first. -/
def bitsValue (bits : List Bool) : ℕ := bits.foldl (fun value bit => 2 * value + bit.toNat) 0

theorem bitsValue_append_singleton (bits : List Bool) (bit : Bool) :
    bitsValue (bits ++ [bit]) = 2 * bitsValue bits + bit.toNat := by
  simp [bitsValue]

/-- The low `w` bits of a number, highest first, stand for its residue. -/
theorem bitsValue_testBit (w x : ℕ) :
    bitsValue ((List.range w).map fun i => x.testBit (w - 1 - i)) = x % 2 ^ w := by
  induction w generalizing x with
  | zero => simp [bitsValue, Nat.mod_one]
  | succ w ih =>
    have hinit : (List.range w).map (fun i => x.testBit (w + 1 - 1 - i)) =
        (List.range w).map fun i => (x / 2).testBit (w - 1 - i) := by
      refine List.map_congr_left fun i hi => ?_
      have hlt := List.mem_range.mp hi
      rw [← Nat.testBit_succ]
      congr 1
      omega
    have hlast : (x.testBit 0).toNat = x % 2 := by
      rw [Nat.testBit_zero]
      rcases Nat.mod_two_eq_zero_or_one x with h | h <;> simp [h]
    rw [List.range_succ, List.map_append, List.map_singleton, bitsValue_append_singleton, hinit, ih]
    simp only [Nat.add_sub_cancel, Nat.sub_self, hlast]
    rw [pow_succ', Nat.mod_mul, Nat.add_comm]

variable {M : Type*} [Monoid M] (x : M)

/-- One bit: nothing before the first set bit, then a squaring and a product when the bit is set. -/
def step (acc : Option M) (bit : Bool) : Option M :=
  match acc with
  | none => if bit then some x else none
  | some r => some (if bit then r * r * x else r * r)

def scan (bits : List Bool) : Option M := bits.foldl (step x) none

theorem step_power (e : ℕ) (bit : Bool) :
    step x (if e = 0 then none else some (x ^ e)) bit =
      if 2 * e + bit.toNat = 0 then none else some (x ^ (2 * e + bit.toNat)) := by
  by_cases he : e = 0
  · cases bit <;> simp [step, he]
  · have hdouble : x ^ e * x ^ e = x ^ (2 * e) := by rw [← pow_add, two_mul]
    cases bit <;> simp [step, he, hdouble, pow_succ]

theorem scan_eq (bits : List Bool) :
    scan x bits = if bitsValue bits = 0 then none else some (x ^ bitsValue bits) := by
  induction bits using List.reverseRecOn with
  | nil => rfl
  | append_singleton bits bit ih =>
    rw [scan, List.foldl_append, ← scan, ih, bitsValue_append_singleton]
    exact step_power x (bitsValue bits) bit

/-- One bit of the scan that starts with one. -/
def plainStep (r : M) (bit : Bool) : M := if bit then r * r * x else r * r

def plainScan (bits : List Bool) : M := bits.foldl (plainStep x) 1

theorem plainStep_power (e : ℕ) (bit : Bool) :
    plainStep x (x ^ e) bit = x ^ (2 * e + bit.toNat) := by
  have hdouble : x ^ e * x ^ e = x ^ (2 * e) := by rw [← pow_add, two_mul]
  cases bit with
  | false => simp [plainStep, hdouble]
  | true => simp [plainStep, hdouble, pow_succ]

/-- Leading zeros only square one. -/
theorem plainScan_eq (bits : List Bool) : plainScan x bits = x ^ bitsValue bits := by
  induction bits using List.reverseRecOn with
  | nil => rw [plainScan, List.foldl_nil, bitsValue, List.foldl_nil, pow_zero]
  | append_singleton bits bit ih =>
    rw [plainScan, List.foldl_append, ← plainScan, ih, bitsValue_append_singleton]
    exact plainStep_power x (bitsValue bits) bit

end SquareAndMultiply
