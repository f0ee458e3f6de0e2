import MolphaVerifier.LimbArithmetic

/-!
# Multiplication with its checks

The schoolbook multiplication of `LimbArithmetic` wraps at 128 bits and drops what does not fit its
buffer. Here the same rows stop at an overflow of the accumulator and at a write past the end. With
room for the product they never stop.
-/

namespace CheckedLimbs

open LimbArithmetic

/-- A number as a 128-bit word, if it fits. -/
def wide (x : ℕ) : Option (BitVec 128) :=
  if x < 2 ^ 128 then some (BitVec.ofNat 128 x) else none

/-- `a * b + o + c`, where the product and both sums have to fit. -/
def mulAddWide (a b o c : UInt64) : Option (BitVec 128) := do
  let product ← wide (a.toNat * b.toNat)
  let sum ← wide (product.toNat + o.toNat)
  wide (sum.toNat + c.toNat)

def mulRow (a : UInt64) : List UInt64 → List UInt64 → UInt64 → Option (List UInt64)
  | b :: bs, o :: out, carry => do
    let t ← mulAddWide a b o carry
    let rest ← mulRow a bs out (highWord t)
    pure (lowWord t :: rest)
  | [], _ :: out, carry => some (carry :: out)
  -- the next write would be past the end of the buffer
  | _, [], _ => none

def mulRows : List UInt64 → List UInt64 → List UInt64 → Option (List UInt64)
  | a :: as, bs, out => do
    match ← mulRow a bs out 0 with
    | o :: out =>
      let rest ← mulRows as bs out
      pure (o :: rest)
    | [] => none
  | [], _, out => some out

def asLimbs (k : ℕ) (l : List UInt64) : Option (Limbs k) :=
  if h : l.length = k then some ⟨l.toArray, h⟩ else none

def mulLimbs {j k : ℕ} (a : Limbs j) (b : Limbs k) : Option (Limbs (j + k)) := do
  let out ← mulRows a.toList b.toList (List.replicate (j + k) 0)
  asLimbs (j + k) out

theorem wide_eq {x : ℕ} (h : x < 2 ^ 128) : wide x = some (BitVec.ofNat 128 x) := by
  rw [wide, if_pos h]

theorem mul_add_add_lt (a b o c : UInt64) :
    a.toNat * b.toNat + o.toNat + c.toNat < 2 ^ 128 := by
  rw [← toNat_mulAddWide]
  exact (LimbArithmetic.mulAddWide a b o c).isLt

theorem mulAddWide_eq (a b o c : UInt64) :
    mulAddWide a b o c = some (LimbArithmetic.mulAddWide a b o c) := by
  have htotal := mul_add_add_lt a b o c
  have hproduct : a.toNat * b.toNat < 2 ^ 128 := by omega
  have hsum : a.toNat * b.toNat + o.toNat < 2 ^ 128 := by omega
  have hval := toNat_mulAddWide a b o c
  rw [mulAddWide, wide_eq hproduct, Option.bind_eq_bind, Option.bind_some, BitVec.toNat_ofNat,
    Nat.mod_eq_of_lt hproduct, wide_eq hsum, Option.bind_some, BitVec.toNat_ofNat,
    Nat.mod_eq_of_lt hsum, wide_eq htotal, ← hval, BitVec.ofNat_toNat, BitVec.setWidth_eq]

theorem length_mulRow (a : UInt64) (bs out : List UInt64) (carry : UInt64) :
    (LimbArithmetic.mulRow a bs out carry).length = out.length := by
  induction out generalizing bs carry with
  | nil => cases bs <;> rfl
  | cons o out ih =>
    cases bs with
    | nil => rfl
    | cons b bs => simp [LimbArithmetic.mulRow, ih]

/-- A row writes one limb past the second factor. -/
theorem mulRow_eq (a : UInt64) (bs out : List UInt64) (carry : UInt64)
    (hroom : bs.length < out.length) :
    mulRow a bs out carry = some (LimbArithmetic.mulRow a bs out carry) := by
  induction bs generalizing out carry with
  | nil =>
    cases out with
    | nil => cases hroom
    | cons o out => rfl
  | cons b bs ih =>
    cases out with
    | nil => cases hroom
    | cons o out =>
      have hrest := ih out (highWord (LimbArithmetic.mulAddWide a b o carry))
        (Nat.lt_of_succ_lt_succ hroom)
      rw [mulRow, mulAddWide_eq, Option.bind_eq_bind, Option.bind_some, hrest, Option.bind_eq_bind,
        Option.bind_some]
      rfl

theorem mulRows_eq (as bs out : List UInt64) (hroom : as.length + bs.length ≤ out.length) :
    mulRows as bs out = some (LimbArithmetic.mulRows as bs out) := by
  induction as generalizing out with
  | nil => rfl
  | cons a as ih =>
    rw [List.length_cons] at hroom
    have hrow := mulRow_eq a bs out 0 (by omega)
    have hlength := length_mulRow a bs out 0
    rw [mulRows, hrow, Option.bind_eq_bind, Option.bind_some, LimbArithmetic.mulRows]
    cases hres : LimbArithmetic.mulRow a bs out 0 with
    | nil =>
      rw [hres, List.length_nil] at hlength
      omega
    | cons o res =>
      rw [hres, List.length_cons] at hlength
      have hrest := ih res (by omega)
      simp only [hrest]
      rfl

theorem mulLimbs_eq {j k : ℕ} (a : Limbs j) (b : Limbs k) :
    mulLimbs a b = some (LimbArithmetic.mulLimbs a b) := by
  have hrows := mulRows_eq a.toList b.toList (List.replicate (j + k) 0) (by simp)
  have hlength : (LimbArithmetic.mulRows a.toList b.toList (List.replicate (j + k) 0)).length =
      j + k := (LimbArithmetic.mulLimbs a b).size_toArray
  rw [mulLimbs, hrows, Option.bind_eq_bind, Option.bind_some, asLimbs, dif_pos hlength]
  rfl

theorem bind_mulLimbs {j k : ℕ} {β : Type} (a : Limbs j) (b : Limbs k)
    (next : Limbs (j + k) → Option β) :
    (mulLimbs a b >>= next) = next (LimbArithmetic.mulLimbs a b) := by
  rw [mulLimbs_eq]
  rfl

end CheckedLimbs
