import MolphaVerifier.ModularMultiplication
import MolphaVerifier.SquareAndMultiply

/-!
# Powers and inverses modulo the order

`modPow` squares and multiplies over the bits of a reduced exponent. It agrees with the plain loop,
which starts with one and skips no leading zeros. `invMod` is the power `n - 2`. The zero test of
`invMod` is on the bytes and not on the residue. The order itself is the one input where the two
differ: it gets the answer zero.
-/

namespace MolphaVerifier

open FixedBytes SquareAndMultiply

def secp256k1OrderMinusTwo : Bytes 32 := #v[
  0xFF, 0xFF, 0xFF, 0xFF, 0xFF, 0xFF, 0xFF, 0xFF, 0xFF, 0xFF, 0xFF, 0xFF, 0xFF, 0xFF, 0xFF, 0xFE,
  0xBA, 0xAE, 0xDC, 0xE6, 0xAF, 0x48, 0xA0, 0x3B, 0xBF, 0xD2, 0x5E, 0x8C, 0xD0, 0x36, 0x41, 0x3F]

theorem bytesToNat_secp256k1OrderMinusTwo :
    bytesToNat secp256k1OrderMinusTwo = Secp256k1.n - 2 := by
  rw [Secp256k1.n, bytesToNat]
  decide

/-- Bit 0 is the most significant bit of byte 0. -/
def getBitBe (x : Bytes 32) (bitIndex : Fin 256) : UInt8 :=
  let byte : Fin 32 := ⟨bitIndex.val / 8, Nat.div_lt_of_lt_mul bitIndex.isLt⟩
  let bit := 7 - bitIndex.val % 8
  (x.get byte >>> UInt8.ofNat bit) &&& 1

/-- One round of the power loop on the result and the flag for the first set bit. -/
def modPowStep (exp baseRed : Bytes 32) (state : Bytes 32 × Bool) (i : Fin 256) :
    Bytes 32 × Bool :=
  let (result, seen) := state
  let bit := getBitBe exp i
  if bit = 0 ∧ !seen then (result, seen)
  else if !seen then (baseRed, true)
  else
    let result := mulMod result result
    if bit = 1 then (mulMod result baseRed, seen) else (result, seen)

def modPow (base exponent : Bytes 32) : Bytes 32 :=
  let exp := modReduceOnce exponent
  let baseRed := modReduceOnce base
  let (result, seen) :=
    (List.finRange 256).foldl (modPowStep exp baseRed) (Vector.replicate 32 0, false)
  -- the power with exponent zero is one
  if !seen then result.set 31 1 else result

def invMod (a : Bytes 32) : Option (Bytes 32) :=
  if isZero a then none else some (modPow a secp256k1OrderMinusTwo)

section Bits

theorem toNat_shiftRight_and_one (b : UInt8) {k : ℕ} (hk : k < 8) :
    ((b >>> UInt8.ofNat k) &&& 1).toNat = (b.toNat.testBit k).toNat := by
  have hshift : (UInt8.ofNat k).toNat % 8 = k := by
    rw [UInt8.toNat_ofNat_of_lt' (by rw [UInt8.size]; omega), Nat.mod_eq_of_lt hk]
  rw [UInt8.toNat_and, UInt8.toNat_shiftRight, hshift, UInt8.toNat_one, Nat.and_one_is_mod,
    Nat.shiftRight_eq_div_pow, Nat.testBit_eq_decide_div_mod_eq]
  rcases Nat.mod_two_eq_zero_or_one (b.toNat / 2 ^ k) with h | h <;> simp [h]

theorem toNat_getBitBe (x : Bytes 32) (i : Fin 256) :
    (getBitBe x i).toNat = ((bytesToNat x).testBit (255 - i.val)).toNat := by
  have hi := i.isLt
  have hlt : i.val / 8 < 32 := Nat.div_lt_of_lt_mul hi
  have hsplit : 8 * (32 - 1 - i.val / 8) + (7 - i.val % 8) = 255 - i.val := by omega
  have hget : x.get ⟨i.val / 8, hlt⟩ = x[i.val / 8] := rfl
  rw [getBitBe, toNat_shiftRight_and_one _ (by omega), hget, testBit_getElem x _ hlt (by omega),
    hsplit]

/-- The bits of the exponent in the order of the loop. -/
def exponentBits (exp : Bytes 32) : List Bool :=
  (List.finRange 256).map fun i => (bytesToNat exp).testBit (255 - i.val)

theorem bitsValue_exponentBits (exp : Bytes 32) :
    bitsValue (exponentBits exp) = bytesToNat exp := by
  have hrange : exponentBits exp =
      (List.range 256).map fun i => (bytesToNat exp).testBit (256 - 1 - i) := by
    rw [← List.map_coe_finRange_eq_range, List.map_map]
    rfl
  have hlt := bytesToNat_lt exp
  rw [hrange, bitsValue_testBit, Nat.mod_eq_of_lt (hlt.trans_eq (by norm_num))]

theorem getBitBe_eq_zero_iff (exp : Bytes 32) (i : Fin 256) :
    getBitBe exp i = 0 ↔ (bytesToNat exp).testBit (255 - i.val) = false := by
  rw [← UInt8.toNat_inj, toNat_getBitBe, UInt8.toNat_zero, Bool.toNat_eq_zero]

theorem getBitBe_eq_one_iff (exp : Bytes 32) (i : Fin 256) :
    getBitBe exp i = 1 ↔ (bytesToNat exp).testBit (255 - i.val) = true := by
  rw [← UInt8.toNat_inj, toNat_getBitBe, UInt8.toNat_one, Bool.toNat_eq_one]

end Bits

section Powers

variable {exp baseRed : Bytes 32}

/-- What the loop has computed: nothing before the first set bit. -/
def powState (state : Bytes 32 × Bool) : Option (ZMod Secp256k1.n) :=
  if state.2 then some (toScalar state.1) else none

/-- The result is canonical, and still zero before the first set bit. -/
structure PowCanonical (state : Bytes 32 × Bool) : Prop where
  lt : bytesToNat state.1 < Secp256k1.n
  zero : state.2 = false → state.1 = Vector.replicate 32 0

/-- One round of the loop is one step of the scan. -/
theorem powState_modPowStep (exp baseRed : Bytes 32) (state : Bytes 32 × Bool) (i : Fin 256) :
    step (toScalar baseRed) (powState state) ((bytesToNat exp).testBit (255 - i.val)) =
      powState (modPowStep exp baseRed state i) := by
  obtain ⟨result, seen⟩ := state
  have hzero := getBitBe_eq_zero_iff exp i
  have hone := getBitBe_eq_one_iff exp i
  cases hbit : (bytesToNat exp).testBit (255 - i.val) with
  | false =>
    rw [hbit] at hzero hone
    cases seen <;> simp [modPowStep, powState, step, hzero.mpr rfl, toScalar_mulMod]
  | true =>
    rw [hbit] at hzero hone
    cases seen <;> simp [modPowStep, powState, step, hone.mpr rfl, toScalar_mulMod]

theorem PowCanonical.modPowStep (hbase : bytesToNat baseRed < Secp256k1.n)
    {state : Bytes 32 × Bool} (h : PowCanonical state) (i : Fin 256) :
    PowCanonical (modPowStep exp baseRed state i) := by
  obtain ⟨result, seen⟩ := state
  rw [MolphaVerifier.modPowStep]
  dsimp only
  split
  · exact h
  split
  · exact ⟨hbase, fun hseen => nomatch hseen⟩
  next hseen =>
    obtain rfl : seen = true := by simpa using hseen
    split
    · exact ⟨bytesToNat_mulMod_lt _ _, fun hseen => nomatch hseen⟩
    · exact ⟨bytesToNat_mulMod_lt _ _, fun hseen => nomatch hseen⟩

theorem powState_loop (exp baseRed : Bytes 32) :
    powState ((List.finRange 256).foldl (modPowStep exp baseRed) (Vector.replicate 32 0, false)) =
      scan (toScalar baseRed) (exponentBits exp) := by
  rw [scan, exponentBits, List.foldl_map]
  exact (List.foldl_hom powState (powState_modPowStep exp baseRed)).symm

theorem powCanonical_loop (hbase : bytesToNat baseRed < Secp256k1.n) (l : List (Fin 256))
    {state : Bytes 32 × Bool} (h : PowCanonical state) :
    PowCanonical (l.foldl (modPowStep exp baseRed) state) := by
  induction l generalizing state with
  | nil => exact h
  | cons i l ih => exact ih (h.modPowStep hbase i)

theorem powCanonical_start : PowCanonical (Vector.replicate 32 0, false) where
  lt := by
    rw [bytesToNat_eq_zero_iff.mpr (by simp)]
    exact n_pos
  zero := fun _ => rfl

/-- What the loop leaves for the exponent zero, with the last byte set. -/
def oneBytes : Bytes 32 := (Vector.replicate 32 0).set 31 1

theorem oneBytes_eq : oneBytes = natToBytes 32 1 := by decide

theorem toScalar_oneBytes : toScalar oneBytes = 1 := by
  rw [oneBytes_eq, toScalar_natToBytes (by norm_num), Nat.cast_one]

theorem bytesToNat_oneBytes_lt : bytesToNat oneBytes < Secp256k1.n := by
  rw [oneBytes_eq, bytesToNat_natToBytes_of_lt (by norm_num)]
  exact Secp256k1.prime_n.one_lt

/-- The result is the canonical power; the exponent is taken modulo the order. -/
theorem modPow_exact (base exponent : Bytes 32) :
    bytesToNat (modPow base exponent) < Secp256k1.n ∧
      toScalar (modPow base exponent) =
        toScalar base ^ (bytesToNat exponent % Secp256k1.n) := by
  have hstate := powState_loop (modReduceOnce exponent) (modReduceOnce base)
  have hcanonical : PowCanonical ((List.finRange 256).foldl
      (modPowStep (modReduceOnce exponent) (modReduceOnce base)) (Vector.replicate 32 0, false)) :=
    powCanonical_loop (bytesToNat_modReduceOnce_lt base) _ powCanonical_start
  rw [scan_eq, bitsValue_exponentBits, bytesToNat_modReduceOnce, toScalar_modReduceOnce] at hstate
  rw [modPow]
  generalize (List.finRange 256).foldl _ _ = final at hstate hcanonical
  obtain ⟨result, seen⟩ := final
  by_cases hzero : bytesToNat exponent % Secp256k1.n = 0
  · rw [if_pos hzero] at hstate
    cases seen with
    | true => simp [powState] at hstate
    | false =>
      obtain rfl := hcanonical.zero rfl
      change bytesToNat oneBytes < _ ∧ toScalar oneBytes = _
      rw [hzero, pow_zero]
      exact ⟨bytesToNat_oneBytes_lt, toScalar_oneBytes⟩
  · rw [if_neg hzero] at hstate
    cases seen with
    | false => simp [powState] at hstate
    | true => exact ⟨hcanonical.lt, Option.some.inj hstate⟩

end Powers

section PlainLoop

/-- One round of the loop that starts with one. -/
def modPowNaiveStep (exp baseRed result : Bytes 32) (i : Fin 256) : Bytes 32 :=
  let result := mulMod result result
  if getBitBe exp i = 1 then mulMod result baseRed else result

/-- Square and multiply with no case for leading zeros. -/
def modPowNaiveReference (base exponent : Bytes 32) : Bytes 32 :=
  let exp := modReduceOnce exponent
  let baseRed := modReduceOnce base
  (List.finRange 256).foldl (modPowNaiveStep exp baseRed) ((Vector.replicate 32 0).set 31 1)

variable {exp baseRed : Bytes 32}

theorem toScalar_modPowNaiveStep (exp baseRed result : Bytes 32) (i : Fin 256) :
    plainStep (toScalar baseRed) (toScalar result) ((bytesToNat exp).testBit (255 - i.val)) =
      toScalar (modPowNaiveStep exp baseRed result i) := by
  have hone := getBitBe_eq_one_iff exp i
  cases hbit : (bytesToNat exp).testBit (255 - i.val) with
  | false =>
    rw [hbit] at hone
    have hclear : getBitBe exp i ≠ 1 := fun h => Bool.false_ne_true (hone.mp h)
    simp [modPowNaiveStep, plainStep, hclear, toScalar_mulMod]
  | true =>
    rw [hbit] at hone
    simp [modPowNaiveStep, plainStep, hone.mpr rfl, toScalar_mulMod]

theorem bytesToNat_modPowNaiveStep_lt (result : Bytes 32) (i : Fin 256) :
    bytesToNat (modPowNaiveStep exp baseRed result i) < Secp256k1.n := by
  rw [modPowNaiveStep]
  split
  · exact bytesToNat_mulMod_lt _ _
  · exact bytesToNat_mulMod_lt _ _

theorem bytesToNat_foldl_modPowNaiveStep_lt (l : List (Fin 256)) {result : Bytes 32}
    (h : bytesToNat result < Secp256k1.n) :
    bytesToNat (l.foldl (modPowNaiveStep exp baseRed) result) < Secp256k1.n := by
  induction l generalizing result with
  | nil => exact h
  | cons i l ih => exact ih (bytesToNat_modPowNaiveStep_lt result i)

theorem modPowNaiveReference_exact (base exponent : Bytes 32) :
    bytesToNat (modPowNaiveReference base exponent) < Secp256k1.n ∧
      toScalar (modPowNaiveReference base exponent) =
        toScalar base ^ (bytesToNat exponent % Secp256k1.n) := by
  constructor
  · exact bytesToNat_foldl_modPowNaiveStep_lt _ bytesToNat_oneBytes_lt
  · have hscan : toScalar (modPowNaiveReference base exponent) =
        plainScan (toScalar (modReduceOnce base)) (exponentBits (modReduceOnce exponent)) := by
      rw [plainScan, exponentBits, List.foldl_map, ← toScalar_oneBytes]
      exact (List.foldl_hom toScalar
        (toScalar_modPowNaiveStep (modReduceOnce exponent) (modReduceOnce base))).symm
    rw [hscan, plainScan_eq, bitsValue_exponentBits, bytesToNat_modReduceOnce,
      toScalar_modReduceOnce]

/-- Below the order the result is the power of the numbers, whatever the base, and the seeded loop is
the plain one. -/
theorem modPow_is_power (base exponent : Bytes 32) (h : bytesToNat exponent < Secp256k1.n) :
    bytesToNat (modPow base exponent) =
        bytesToNat base ^ bytesToNat exponent % Secp256k1.n ∧
      modPow base exponent = modPowNaiveReference base exponent := by
  obtain ⟨hlt, hpow⟩ := modPow_exact base exponent
  obtain ⟨hplainLt, hplain⟩ := modPowNaiveReference_exact base exponent
  refine ⟨?_, eq_of_toScalar_eq hlt hplainLt (hpow.trans hplain.symm)⟩
  have hcast : ((bytesToNat (modPow base exponent) : ℕ) : ZMod Secp256k1.n) =
      ((bytesToNat base ^ bytesToNat exponent : ℕ) : ZMod Secp256k1.n) := by
    rw [Nat.mod_eq_of_lt h] at hpow
    rw [Nat.cast_pow]
    exact hpow
  have hmod := (ZMod.natCast_eq_natCast_iff' _ _ _).mp hcast
  rwa [Nat.mod_eq_of_lt hlt] at hmod

/-- Bases that are not canonical: the power of the order for zero is one, and the cube of two more
than the order is eight. -/
theorem modPow_is_power_sample :
    (bytesToNat (modPow secp256k1Order (natToBytes 32 0)) = 1 ∧
      modPow secp256k1Order (natToBytes 32 0) =
        modPowNaiveReference secp256k1Order (natToBytes 32 0)) ∧
    bytesToNat (modPow (natToBytes 32 (Secp256k1.n + 2)) (natToBytes 32 3)) = 8 ∧
      modPow (natToBytes 32 (Secp256k1.n + 2)) (natToBytes 32 3) =
        modPowNaiveReference (natToBytes 32 (Secp256k1.n + 2)) (natToBytes 32 3) := by
  have hexponent {k : ℕ} (hk : k < 4) : bytesToNat (natToBytes 32 k) = k :=
    bytesToNat_natToBytes_of_lt (hk.trans (by norm_num))
  have hbase : bytesToNat (natToBytes 32 (Secp256k1.n + 2)) = Secp256k1.n + 2 :=
    bytesToNat_natToBytes_of_lt (by norm_num [Secp256k1.n])
  have hlt {k : ℕ} (hk : k < 4) : bytesToNat (natToBytes 32 k) < Secp256k1.n := by
    rw [hexponent hk]
    exact hk.trans (by norm_num [Secp256k1.n])
  have hzero := modPow_is_power secp256k1Order _ (hlt (show 0 < 4 by norm_num))
  have hthree := modPow_is_power (natToBytes 32 (Secp256k1.n + 2)) _
    (hlt (show 3 < 4 by norm_num))
  rw [hexponent (by norm_num), pow_zero, Nat.mod_eq_of_lt Secp256k1.prime_n.one_lt] at hzero
  have hcube : (Secp256k1.n + 2) ^ 3 % Secp256k1.n = 8 := by norm_num [Secp256k1.n]
  rw [hbase, hexponent (by norm_num), hcube] at hthree
  exact ⟨hzero, hthree⟩

end PlainLoop

section Inverses

variable {a : Bytes 32}

/-- Inversion on the residue: nothing for zero, and the canonical inverse otherwise. -/
structure InvertsExactly (a : Bytes 32) (outcome : Option (Bytes 32)) : Prop where
  none_iff : outcome = none ↔ bytesToNat a % Secp256k1.n = 0
  inverse : bytesToNat a % Secp256k1.n ≠ 0 → ∃ b, outcome = some b ∧ bytesToNat b < Secp256k1.n ∧
    mulMod a b = natToBytes 32 1

theorem invMod_eq_none_iff : invMod a = none ↔ bytesToNat a = 0 := by
  rw [invMod, ← isZero_iff]
  cases isZero a <;> simp

theorem exists_invMod (h : bytesToNat a ≠ 0) : ∃ b, invMod a = some b ∧
    bytesToNat b < Secp256k1.n ∧ toScalar b = (toScalar a)⁻¹ := by
  have hnonzero : isZero a = false := by
    rw [← Bool.not_eq_true, isZero_iff]
    exact h
  obtain ⟨hlt, hpow⟩ := modPow_exact a secp256k1OrderMinusTwo
  have hexp : bytesToNat secp256k1OrderMinusTwo % Secp256k1.n = Secp256k1.n - 2 := by
    have hn := n_pos
    rw [bytesToNat_secp256k1OrderMinusTwo, Nat.mod_eq_of_lt (by omega)]
  refine ⟨modPow a secp256k1OrderMinusTwo, ?_, hlt, ?_⟩
  · rw [invMod, hnonzero]
    rfl
  · rw [hpow, hexp]
    rcases eq_or_ne (toScalar a) 0 with hzero | hne
    · rw [hzero, inv_zero, zero_pow (by norm_num [Secp256k1.n])]
    · refine eq_inv_of_mul_eq_one_left ?_
      rw [← pow_succ, show Secp256k1.n - 2 + 1 = Secp256k1.n - 1 by norm_num [Secp256k1.n]]
      exact ZMod.pow_card_sub_one_eq_one hne

theorem mulMod_eq_one {b : Bytes 32} (ha : toScalar a ≠ 0) (hb : toScalar b = (toScalar a)⁻¹) :
    mulMod a b = natToBytes 32 1 := by
  have hproduct : toScalar (mulMod a b) = toScalar (natToBytes 32 1) := by
    rw [toScalar_mulMod, hb, mul_inv_cancel₀ ha, toScalar_natToBytes (by norm_num), Nat.cast_one]
  have hone : bytesToNat (natToBytes 32 1) = 1 := bytesToNat_natToBytes_of_lt (by norm_num)
  refine eq_of_toScalar_eq (bytesToNat_mulMod_lt a b) ?_ hproduct
  rw [hone]
  exact Secp256k1.prime_n.one_lt

/-- The order is the one 32-byte multiple of the order that is not zero. -/
theorem eq_zero_or_order_iff : bytesToNat a % Secp256k1.n = 0 ↔
    bytesToNat a = 0 ∨ bytesToNat a = Secp256k1.n := by
  have hlt := bytesToNat_lt a
  have htwo := two_pow_256_lt_two_mul_n
  have hpow : (256 : ℕ) ^ 32 = 2 ^ 256 := by norm_num
  have hn := n_pos
  rw [← Nat.dvd_iff_mod_eq_zero]
  constructor
  · rintro ⟨k, hk⟩
    have hk2 : k < 2 := by
      by_contra hge
      have hmul : Secp256k1.n * 2 ≤ Secp256k1.n * k := Nat.mul_le_mul_left _ (by omega)
      omega
    interval_cases k
    · exact .inl hk
    · exact .inr (by rw [hk, Nat.mul_one])
  · rintro (h | h)
    · exact h ▸ dvd_zero _
    · exact h ▸ dvd_refl _

theorem invMod_of_order (h : bytesToNat a = Secp256k1.n) :
    invMod a = some (natToBytes 32 0) := by
  have hn := n_pos
  obtain ⟨b, hb, hlt, hinv⟩ := exists_invMod (a := a) (by omega)
  have hzero : toScalar a = 0 := by
    rw [toScalar_eq_zero_iff, h, Nat.mod_self]
  have hbytes : bytesToNat (natToBytes 32 0) = 0 := bytesToNat_natToBytes_of_lt (by norm_num)
  rw [hzero, inv_zero] at hinv
  rw [hb, Option.some.injEq]
  refine eq_of_toScalar_eq hlt (by omega) ?_
  rw [hinv, toScalar_natToBytes (by norm_num), Nat.cast_zero]

theorem not_invertsExactly_of_order (h : bytesToNat a = Secp256k1.n) :
    ¬InvertsExactly a (invMod a) := by
  intro hexact
  have hnone := hexact.none_iff.mpr (by rw [h, Nat.mod_self])
  rw [invMod_of_order h] at hnone
  cases hnone

/-- Inversion is exact on every input but the order. -/
theorem invMod_exact_iff (a : Bytes 32) :
    InvertsExactly a (invMod a) ↔ bytesToNat a ≠ Secp256k1.n := by
  refine ⟨fun h horder => not_invertsExactly_of_order horder h, fun hne => ⟨?_, fun hnonzero => ?_⟩⟩
  · rw [invMod_eq_none_iff, eq_zero_or_order_iff, or_iff_left hne]
  · have hzero : bytesToNat a ≠ 0 := fun h => hnonzero (by rw [h, Nat.zero_mod])
    obtain ⟨b, hb, hlt, hinv⟩ := exists_invMod hzero
    refine ⟨b, hb, hlt, mulMod_eq_one ?_ hinv⟩
    rw [ne_eq, toScalar_eq_zero_iff]
    exact hnonzero

/-- The order itself gets an answer. -/
theorem order_inverted_to_zero : invMod secp256k1Order = some (natToBytes 32 0) ∧
    ¬InvertsExactly secp256k1Order (invMod secp256k1Order) :=
  ⟨invMod_of_order bytesToNat_secp256k1Order,
    not_invertsExactly_of_order bytesToNat_secp256k1Order⟩

end Inverses

end MolphaVerifier
