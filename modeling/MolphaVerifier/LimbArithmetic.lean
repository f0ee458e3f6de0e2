import MolphaVerifier.FixedBytes
import Mathlib.Tactic.Linarith

/-!
# Multi-limb arithmetic on little-endian lists of 64-bit words

Comparison from the top limb, subtraction with a borrow chain, schoolbook multiplication into a
zeroed buffer with a 128-bit accumulator, and right shifts through a window of limbs. Each operation
has one theorem, which says what it does to the represented numbers.
-/

namespace LimbArithmetic

open FixedBytes

/-- `k` limbs, least significant first. -/
abbrev Limbs (k : ℕ) : Type := Vector UInt64 k

/-- The number of a list of limbs, least significant limb first. -/
def leNat (l : List UInt64) : ℕ := Nat.ofDigits (2 ^ 64) (l.map UInt64.toNat)

def limbsToNat {k : ℕ} (x : Limbs k) : ℕ := leNat x.toList

@[simp] theorem leNat_nil : leNat [] = 0 := rfl

@[simp] theorem leNat_cons (a : UInt64) (l : List UInt64) :
    leNat (a :: l) = a.toNat + 2 ^ 64 * leNat l := by
  simp [leNat, Nat.ofDigits_cons]

theorem leNat_append (a b : List UInt64) :
    leNat (a ++ b) = leNat a + (2 ^ 64) ^ a.length * leNat b := by
  simp [leNat, Nat.ofDigits_append]

theorem leNat_lt (l : List UInt64) : leNat l < (2 ^ 64) ^ l.length := by
  have h := Nat.ofDigits_lt_base_pow_length (b := 2 ^ 64) (l := l.map UInt64.toNat) (by decide)
    (by simpa using fun a _ => a.toNat_lt)
  simpa [leNat] using h

theorem limbsToNat_lt {k : ℕ} (x : Limbs k) : limbsToNat x < (2 ^ 64) ^ k := by
  simpa [limbsToNat] using leNat_lt x.toList

theorem toNat_getD (l : List UInt64) (i : ℕ) :
    (l.getD i 0).toNat = leNat l / (2 ^ 64) ^ i % 2 ^ 64 := by
  induction l generalizing i with
  | nil => simp
  | cons a l ih =>
    have ha := a.toNat_lt
    cases i with
    | zero => simp [Nat.add_mul_mod_self_left, Nat.mod_eq_of_lt ha]
    | succ i =>
      rw [List.getD_cons_succ, ih, leNat_cons, pow_succ' (2 ^ 64) i, ← Nat.div_div_eq_div_mul,
        Nat.add_mul_div_left _ _ (by decide), Nat.div_eq_of_lt ha, zero_add]

section Compare

/-- Compare limb by limb; the first argument of each list is the most significant. -/
def compareFromTop : List UInt64 → List UInt64 → Ordering
  | a :: as, b :: bs => if a < b then .lt else if a > b then .gt else compareFromTop as bs
  | _, _ => .eq

theorem compareFromTop_eq {as bs : List UInt64} (h : as.length = bs.length) :
    compareFromTop as bs = compare (leNat as.reverse) (leNat bs.reverse) := by
  induction as generalizing bs with
  | nil =>
    obtain rfl : bs = [] := by simpa using h.symm
    simp [compareFromTop]
  | cons a as ih =>
    cases bs with
    | nil => simp at h
    | cons b bs =>
      have hlen : as.length = bs.length := by simpa using h
      have has := leNat_lt as.reverse
      have hbs := leNat_lt bs.reverse
      simp only [List.reverse_cons, leNat_append, leNat_cons, leNat_nil, List.length_reverse,
        mul_zero, add_zero] at has hbs ⊢
      rw [hlen] at has ⊢
      generalize (2 ^ 64) ^ bs.length = w at *
      rcases lt_trichotomy a.toNat b.toNat with hab | hab | hab
      · rw [compareFromTop, if_pos (UInt64.lt_iff_toNat_lt.mpr hab), eq_comm, compare_lt_iff_lt]
        have : w * (a.toNat + 1) ≤ w * b.toNat := Nat.mul_le_mul_left w hab
        rw [Nat.mul_add] at this
        omega
      · obtain rfl := UInt64.toNat_inj.mp hab
        rw [compareFromTop, if_neg (by simp), if_neg (by simp), ih hlen]
        simp only [Nat.compare_eq_ite_lt, Nat.add_lt_add_iff_right]
      · have hnot : ¬a < b := by
          rw [UInt64.lt_iff_toNat_lt]
          omega
        rw [compareFromTop, if_neg hnot, if_pos (UInt64.lt_iff_toNat_lt.mpr hab), eq_comm,
          compare_gt_iff_gt]
        have : w * (b.toNat + 1) ≤ w * a.toNat := Nat.mul_le_mul_left w hab
        rw [Nat.mul_add] at this
        omega

/-- Compare two numbers of equally many limbs. -/
def compareLimbs {k : ℕ} (a b : Limbs k) : Ordering :=
  compareFromTop a.toList.reverse b.toList.reverse

theorem compareLimbs_eq {k : ℕ} (a b : Limbs k) :
    compareLimbs a b = compare (limbsToNat a) (limbsToNat b) := by
  rw [compareLimbs, compareFromTop_eq (by simp), List.reverse_reverse, List.reverse_reverse]
  rfl

end Compare

section Subtract

/-- Subtract limb by limb. Each position subtracts the other limb and then the borrow, and borrows
from the next position when either subtraction wraps. -/
def subWithBorrow : List UInt64 → List UInt64 → UInt64 → List UInt64
  | a :: as, b :: bs, borrow =>
    let r₁ := a - b
    let r₂ := r₁ - borrow
    r₂ :: subWithBorrow as bs (if a < b ∨ r₁ < borrow then 1 else 0)
  | _, _, _ => []

theorem length_subWithBorrow (as bs : List UInt64) (borrow : UInt64) :
    (subWithBorrow as bs borrow).length = min as.length bs.length := by
  induction as generalizing bs borrow with
  | nil => simp [subWithBorrow]
  | cons a as ih =>
    cases bs with
    | nil => simp [subWithBorrow]
    | cons b bs => simp [subWithBorrow, ih]

/-- One position: the wrapped difference, and the borrow in units of the next position. -/
theorem sub_sub_toNat (a b borrow : UInt64) (h : borrow.toNat ≤ 1) :
    (a - b - borrow).toNat + b.toNat + borrow.toNat =
      a.toNat + 2 ^ 64 * (if a < b ∨ a - b < borrow then 1 else 0) := by
  have ha := a.toNat_lt
  have hb := b.toNat_lt
  simp only [UInt64.lt_iff_toNat_lt, UInt64.toNat_sub]
  split <;> omega

theorem leNat_subWithBorrow (as bs : List UInt64) (hlen : as.length = bs.length) (borrow : UInt64)
    (hborrow : borrow.toNat ≤ 1) :
    ∃ c ≤ 1, leNat (subWithBorrow as bs borrow) + leNat bs + borrow.toNat =
      leNat as + (2 ^ 64) ^ as.length * c := by
  induction as generalizing bs borrow with
  | nil =>
    obtain rfl : bs = [] := by simpa using hlen.symm
    exact ⟨borrow.toNat, hborrow, by simp [subWithBorrow]⟩
  | cons a as ih =>
    cases bs with
    | nil => simp at hlen
    | cons b bs =>
      have hstep := sub_sub_toNat a b borrow hborrow
      obtain ⟨c, hc, hrest⟩ := ih bs (by simpa using hlen)
        (if a < b ∨ a - b < borrow then 1 else 0) (by split <;> simp)
      refine ⟨c, hc, ?_⟩
      have hcast : (if a < b ∨ a - b < borrow then 1 else 0 : UInt64).toNat =
          if a < b ∨ a - b < borrow then 1 else 0 := by split <;> rfl
      rw [hcast] at hrest
      rw [subWithBorrow, leNat_cons, leNat_cons, leNat_cons, List.length_cons,
        pow_succ' (2 ^ 64) as.length]
      have hscaled := congrArg (2 ^ 64 * ·) hrest
      simp only [Nat.mul_add, ← Nat.mul_assoc] at hscaled
      linarith

/-- Difference of two numbers of equally many limbs, wrapping below zero. -/
def subLimbs {k : ℕ} (a b : Limbs k) : Limbs k :=
  ⟨(subWithBorrow a.toList b.toList 0).toArray, by simp [length_subWithBorrow]⟩

theorem limbsToNat_subLimbs {k : ℕ} {a b : Limbs k} (h : limbsToNat b ≤ limbsToNat a) :
    limbsToNat (subLimbs a b) = limbsToNat a - limbsToNat b := by
  obtain ⟨c, hc, heq⟩ := leNat_subWithBorrow a.toList b.toList (by simp) 0 (by simp)
  have hlt := limbsToNat_lt (subLimbs a b)
  simp only [limbsToNat, subLimbs, Vector.toList_mk, Vector.length_toList, UInt64.toNat_zero,
    add_zero] at *
  have hc0 : c = 0 := by
    by_contra hne
    obtain rfl : c = 1 := by omega
    omega
  rw [hc0] at heq
  omega

theorem limbsToNat_subLimbs_of_lt {k : ℕ} {a b : Limbs k} (h : limbsToNat a < limbsToNat b) :
    limbsToNat (subLimbs a b) = (2 ^ 64) ^ k + limbsToNat a - limbsToNat b := by
  obtain ⟨c, hc, heq⟩ := leNat_subWithBorrow a.toList b.toList (by simp) 0 (by simp)
  simp only [limbsToNat, subLimbs, Vector.toList_mk, Vector.length_toList, UInt64.toNat_zero,
    add_zero] at *
  have hc1 : c = 1 := by
    by_contra hne
    obtain rfl : c = 0 := by omega
    omega
  rw [hc1] at heq
  omega

end Subtract

section Multiply

def mulAddWide (a b o c : UInt64) : BitVec 128 :=
  a.toBitVec.setWidth 128 * b.toBitVec.setWidth 128 + o.toBitVec.setWidth 128 +
    c.toBitVec.setWidth 128

def lowWord (t : BitVec 128) : UInt64 := ⟨t.setWidth 64⟩

def highWord (t : BitVec 128) : UInt64 := ⟨(t >>> 64).setWidth 64⟩

/-- The accumulation never overflows 128 bits. -/
theorem toNat_mulAddWide (a b o c : UInt64) :
    (mulAddWide a b o c).toNat = a.toNat * b.toNat + o.toNat + c.toNat := by
  have ha := a.toNat_lt
  have hb := b.toNat_lt
  have ho := o.toNat_lt
  have hc := c.toNat_lt
  have hab : a.toNat * b.toNat ≤ (2 ^ 64 - 1) * (2 ^ 64 - 1) :=
    Nat.mul_le_mul (by omega) (by omega)
  simp only [mulAddWide, BitVec.toNat_add, BitVec.toNat_mul, BitVec.toNat_setWidth,
    UInt64.toNat_toBitVec]
  rw [Nat.mod_eq_of_lt (by omega : a.toNat < 2 ^ 128),
    Nat.mod_eq_of_lt (by omega : b.toNat < 2 ^ 128),
    Nat.mod_eq_of_lt (by omega : o.toNat < 2 ^ 128),
    Nat.mod_eq_of_lt (by omega : c.toNat < 2 ^ 128),
    Nat.mod_eq_of_lt (by omega : a.toNat * b.toNat < 2 ^ 128),
    Nat.mod_eq_of_lt (by omega : a.toNat * b.toNat + o.toNat < 2 ^ 128), Nat.mod_eq_of_lt (by omega)]

theorem lowWord_add_highWord (t : BitVec 128) :
    (lowWord t).toNat + 2 ^ 64 * (highWord t).toNat = t.toNat := by
  have ht := t.isLt
  have hlow : (lowWord t).toNat = t.toNat % 2 ^ 64 := by
    simp [lowWord, UInt64.toNat]
  have hhigh : (highWord t).toNat = t.toNat / 2 ^ 64 % 2 ^ 64 := by
    simp [highWord, UInt64.toNat, Nat.shiftRight_eq_div_pow]
  omega

/-- Add `a` times the limbs to the buffer, and overwrite the next limb of the buffer with the last
carry. -/
def mulRow (a : UInt64) : List UInt64 → List UInt64 → UInt64 → List UInt64
  | b :: bs, o :: out, carry =>
    let t := mulAddWide a b o carry
    lowWord t :: mulRow a bs out (highWord t)
  | [], _ :: out, carry => carry :: out
  | _, [], _ => []

/-- Add the product to the buffer, one row for each limb of the first factor. -/
def mulRows : List UInt64 → List UInt64 → List UInt64 → List UInt64
  | a :: as, bs, out =>
    match mulRow a bs out 0 with
    | o :: out => o :: mulRows as bs out
    | [] => []
  | [], _, out => out

theorem mulRow_eq (a : UInt64) (bs front : List UInt64)
    (hlen : front.length = bs.length) (tail : List UInt64) (carry : UInt64) :
    ∃ res, mulRow a bs (front ++ 0 :: tail) carry = res ++ tail ∧ res.length = bs.length + 1 ∧
      leNat res = leNat front + a.toNat * leNat bs + carry.toNat := by
  induction bs generalizing front carry with
  | nil =>
    obtain rfl : front = [] := by simpa using hlen
    exact ⟨[carry], by simp [mulRow], by simp, by simp⟩
  | cons b bs ih =>
    cases front with
    | nil => simp at hlen
    | cons o front =>
      obtain ⟨res, hrow, hres, hval⟩ := ih front (by simpa using hlen)
        (highWord (mulAddWide a b o carry))
      refine ⟨lowWord (mulAddWide a b o carry) :: res, by simp [mulRow, hrow], by simp [hres], ?_⟩
      have hwords := lowWord_add_highWord (mulAddWide a b o carry)
      rw [toNat_mulAddWide] at hwords
      simp only [leNat_cons, hval]
      linarith

theorem mulRows_eq (as bs front : List UInt64) (hlen : front.length = bs.length) :
    (mulRows as bs (front ++ List.replicate as.length 0)).length = as.length + bs.length ∧
      leNat (mulRows as bs (front ++ List.replicate as.length 0)) =
        leNat front + leNat as * leNat bs := by
  induction as generalizing front with
  | nil => simp [mulRows, hlen]
  | cons a as ih =>
    obtain ⟨res, hrow, hres, hval⟩ := mulRow_eq a bs front hlen (List.replicate as.length 0) 0
    cases res with
    | nil => simp at hres
    | cons o res =>
      obtain ⟨ihlen, ihval⟩ := ih res (by simpa using hres)
      rw [List.length_cons, List.replicate_succ, mulRows, hrow]
      simp only [List.cons_append, List.length_cons, leNat_cons, ihlen, ihval] at hval ⊢
      refine ⟨by omega, ?_⟩
      simp only [UInt64.toNat_zero, add_zero] at hval
      linarith

/-- The product of two numbers, in as many limbs as both factors have together. -/
def mulLimbs {j k : ℕ} (a : Limbs j) (b : Limbs k) : Limbs (j + k) :=
  ⟨(mulRows a.toList b.toList (List.replicate (j + k) 0)).toArray, by
    have h := (mulRows_eq a.toList b.toList (List.replicate k 0) (by simp)).1
    rw [List.replicate_append_replicate] at h
    simpa [Nat.add_comm k j] using h⟩

theorem limbsToNat_mulLimbs {j k : ℕ} (a : Limbs j) (b : Limbs k) :
    limbsToNat (mulLimbs a b) = limbsToNat a * limbsToNat b := by
  have h := (mulRows_eq a.toList b.toList (List.replicate k 0) (by simp)).2
  have hzero : leNat (List.replicate k 0) = 0 := by simp [leNat, Nat.ofDigits_replicate_zero]
  rw [List.replicate_append_replicate, hzero, zero_add] at h
  simpa [limbsToNat, mulLimbs, Nat.add_comm k j] using h

end Multiply

section Shift

/-- Limb `i` of the number shifted right by `64 * lo + shift` bits, joined from two limbs; limbs
past the end are zero. -/
def shiftedLimb {k : ℕ} (x : Limbs k) (lo : ℕ) (shift : UInt64) (i : ℕ) : UInt64 :=
  (x.toList.getD (lo + i) 0 >>> shift) ||| (x.toList.getD (lo + i + 1) 0 <<< (64 - shift))

/-- `m` limbs of the number shifted right by `64 * lo + shift` bits. -/
def shiftWindow {k : ℕ} (m : ℕ) (x : Limbs k) (lo : ℕ) (shift : UInt64) : Limbs m :=
  Vector.ofFn fun i => shiftedLimb x lo shift i

theorem join_words (v s : ℕ) (hs : s < 64) :
    (v % 2 ^ 64) >>> s ||| ((v / 2 ^ 64 % 2 ^ 64) <<< (64 - s)) % 2 ^ 64 =
      v / 2 ^ s % 2 ^ 64 := by
  apply Nat.eq_of_testBit_eq
  intro i
  simp only [Nat.testBit_or, Nat.testBit_shiftRight, Nat.testBit_mod_two_pow,
    Nat.testBit_shiftLeft, Nat.testBit_div_two_pow]
  rcases Nat.lt_or_ge i (64 - s) with hi | hi
  · have h₁ : s + i < 64 := by omega
    have h₂ : ¬i ≥ 64 - s := by omega
    have h₃ : i < 64 := by omega
    simp [h₁, h₂, h₃, Nat.add_comm]
  · have h₁ : ¬s + i < 64 := by omega
    have h₂ : i - (64 - s) + 64 = i + s := by omega
    by_cases h₃ : i < 64
    · have h₄ : i - (64 - s) < 64 := by omega
      simp [h₁, hi, h₃, h₄, h₂]
    · simp [h₁, h₃]

theorem toNat_shiftedLimb {k : ℕ} (x : Limbs k) (lo : ℕ) {shift : UInt64} (h₀ : 0 < shift.toNat)
    (h₁ : shift.toNat < 64) (i : ℕ) :
    (shiftedLimb x lo shift i).toNat =
      limbsToNat x / 2 ^ (64 * lo + shift.toNat) / (2 ^ 64) ^ i % 2 ^ 64 := by
  have hsub : (64 - shift).toNat = 64 - shift.toNat := by
    rw [UInt64.toNat_sub_of_le _ _ (UInt64.le_iff_toNat_le.mpr h₁.le)]
    rfl
  have hnext : limbsToNat x / (2 ^ 64) ^ (lo + i + 1) =
      limbsToNat x / (2 ^ 64) ^ (lo + i) / 2 ^ 64 := by
    rw [pow_succ, Nat.div_div_eq_div_mul]
  rw [shiftedLimb, UInt64.toNat_or, UInt64.toNat_shiftRight, UInt64.toNat_shiftLeft, toNat_getD,
    toNat_getD, hsub, Nat.mod_eq_of_lt h₁, Nat.mod_eq_of_lt (by omega : 64 - shift.toNat < 64)]
  rw [← limbsToNat, hnext, join_words _ _ h₁, Nat.div_div_eq_div_mul, Nat.div_div_eq_div_mul]
  congr 2
  rw [← pow_mul, ← pow_mul, ← pow_add, ← pow_add]
  congr 1
  omega

theorem limbsToNat_shiftWindow {k : ℕ} (m : ℕ) (x : Limbs k) (lo : ℕ) {shift : UInt64}
    (h₀ : 0 < shift.toNat) (h₁ : shift.toNat < 64) :
    limbsToNat (shiftWindow m x lo shift) =
      limbsToNat x / 2 ^ (64 * lo + shift.toNat) % (2 ^ 64) ^ m := by
  have hdigits : (shiftWindow m x lo shift).toList.map UInt64.toNat =
      (List.range m).map fun i =>
        limbsToNat x / 2 ^ (64 * lo + shift.toNat) / (2 ^ 64) ^ i % 2 ^ 64 := by
    apply List.ext_getElem
    · simp
    · intro i h h'
      simp [shiftWindow, toNat_shiftedLimb x lo h₀ h₁]
  rw [limbsToNat, leNat, hdigits, ofDigits_map_div_mod]

theorem limbsToNat_shiftWindow_of_le {k m lo : ℕ} (x : Limbs k) {shift : UInt64} (hk : k ≤ lo + m)
    (h₀ : 0 < shift.toNat) (h₁ : shift.toNat < 64) :
    limbsToNat (shiftWindow m x lo shift) = limbsToNat x / 2 ^ (64 * lo + shift.toNat) := by
  rw [limbsToNat_shiftWindow m x lo h₀ h₁]
  refine Nat.mod_eq_of_lt (Nat.div_lt_of_lt_mul ?_)
  have hx := limbsToNat_lt x
  rw [← pow_mul] at hx ⊢
  rw [← pow_add]
  exact hx.trans_le (Nat.pow_le_pow_right (by decide) (by omega))

end Shift

section Truncate

def lowLimbs {k : ℕ} (m : ℕ) (x : Limbs k) (h : m ≤ k := by omega) : Limbs m :=
  Vector.ofFn fun i => x[i]

theorem limbsToNat_lowLimbs {k : ℕ} (m : ℕ) (x : Limbs k) (h : m ≤ k) :
    limbsToNat (lowLimbs m x h) = limbsToNat x % (2 ^ 64) ^ m := by
  have hdigits : (lowLimbs m x h).toList.map UInt64.toNat =
      (List.range m).map fun i => limbsToNat x / (2 ^ 64) ^ i % 2 ^ 64 := by
    apply List.ext_getElem
    · simp
    · intro i h₁ h₂
      have hi : i < m := by simpa using h₂
      have hget : x[i].toNat = limbsToNat x / (2 ^ 64) ^ i % 2 ^ 64 := by
        rw [limbsToNat, ← toNat_getD]
        simp [hi.trans_le h]
      simpa [lowLimbs] using hget
  rw [limbsToNat, leNat, hdigits, ofDigits_map_div_mod]

theorem limbsToNat_subLimbs_lowLimbs {j k m : ℕ} {a : Limbs j} {b : Limbs k} (hj : m ≤ j)
    (hk : m ≤ k) (hle : limbsToNat b ≤ limbsToNat a)
    (hfit : limbsToNat a - limbsToNat b < (2 ^ 64) ^ m) :
    limbsToNat (subLimbs (lowLimbs m a hj) (lowLimbs m b hk)) = limbsToNat a - limbsToNat b := by
  have ha := limbsToNat_lowLimbs m a hj
  have hb := limbsToNat_lowLimbs m b hk
  have hmod : (limbsToNat a - limbsToNat b) % (2 ^ 64) ^ m = limbsToNat a - limbsToNat b :=
    Nat.mod_eq_of_lt hfit
  have hsum : limbsToNat a = limbsToNat a - limbsToNat b + limbsToNat b := by omega
  have hdiv : (limbsToNat a - limbsToNat b + limbsToNat b % (2 ^ 64) ^ m) % (2 ^ 64) ^ m =
      limbsToNat (lowLimbs m a hj) := by
    rw [ha, Nat.add_mod_mod, ← hsum]
  rw [← hb] at hdiv
  have hblt := limbsToNat_lt (lowLimbs m b hk)
  generalize hw : (2 ^ 64) ^ m = w at *
  by_cases hlt : limbsToNat a - limbsToNat b + limbsToNat (lowLimbs m b hk) < w
  · rw [Nat.mod_eq_of_lt hlt] at hdiv
    rw [limbsToNat_subLimbs (by omega)]
    omega
  · rw [Nat.mod_eq_sub_mod (by omega), Nat.mod_eq_of_lt (by omega)] at hdiv
    rw [limbsToNat_subLimbs_of_lt (by omega), hw]
    omega

end Truncate

end LimbArithmetic
