import MolphaVerifier.AttestationMessage
import MolphaVerifier.BarrettReduction
import MolphaVerifier.CheckedLimbs
import MolphaVerifier.Secp256k1Group

/-!
# Scalars modulo the group order, and the Schnorr equation as an ECDSA recovery

Scalars travel as 32 big-endian bytes and are computed on as little-endian limbs. Every operation
has a lemma giving the number it returns; the last section gives the recovery instance that
`evmSchnorrEcdsaInputs` builds.
-/

namespace MolphaVerifier

open FixedBytes LimbArithmetic BarrettReduction

def secp256k1Order : Bytes 32 := #v[
  0xFF, 0xFF, 0xFF, 0xFF, 0xFF, 0xFF, 0xFF, 0xFF, 0xFF, 0xFF, 0xFF, 0xFF, 0xFF, 0xFF, 0xFF, 0xFE,
  0xBA, 0xAE, 0xDC, 0xE6, 0xAF, 0x48, 0xA0, 0x3B, 0xBF, 0xD2, 0x5E, 0x8C, 0xD0, 0x36, 0x41, 0x41]

def secp256k1OrderHalf : Bytes 32 := #v[
  0x7F, 0xFF, 0xFF, 0xFF, 0xFF, 0xFF, 0xFF, 0xFF, 0xFF, 0xFF, 0xFF, 0xFF, 0xFF, 0xFF, 0xFF, 0xFF,
  0x5D, 0x57, 0x6E, 0x73, 0x57, 0xA4, 0x50, 0x1D, 0xDF, 0xE9, 0x2F, 0x46, 0x68, 0x1B, 0x20, 0xA0]

def secp256k1OrderLimbsLe : Limbs 4 :=
  #v[0xBFD25E8CD0364141, 0xBAAEDCE6AF48A03B, 0xFFFFFFFFFFFFFFFE, 0xFFFFFFFFFFFFFFFF]

/-- The Barrett reciprocal `2^512 / n`. -/
def secp256k1OrderBarrettMuLimbsLe : Limbs 5 :=
  #v[0x402DA1732FC9BEC0, 0x4551231950B75FC4, 0x0000000000000001, 0x0000000000000000,
    0x0000000000000001]

/-- The order widened to five limbs, for the last steps of the reduction. -/
def secp256k1OrderLimbsLe5 : Limbs 5 := secp256k1OrderLimbsLe.push 0

theorem bytesToNat_secp256k1Order : bytesToNat secp256k1Order = Secp256k1.n := by
  rw [Secp256k1.n, bytesToNat]
  decide

theorem bytesToNat_secp256k1OrderHalf : bytesToNat secp256k1OrderHalf = Secp256k1.n / 2 := by
  rw [Secp256k1.n, bytesToNat]
  decide

theorem limbsToNat_secp256k1OrderLimbsLe : limbsToNat secp256k1OrderLimbsLe = Secp256k1.n := by
  rw [Secp256k1.n]
  decide

theorem limbsToNat_secp256k1OrderLimbsLe5 : limbsToNat secp256k1OrderLimbsLe5 = Secp256k1.n := by
  rw [Secp256k1.n]
  decide

theorem limbsToNat_secp256k1OrderBarrettMuLimbsLe :
    limbsToNat secp256k1OrderBarrettMuLimbsLe = 2 ^ 255 * 2 ^ 257 / Secp256k1.n := by
  decide +kernel

section Limbs

def be32ToLimbsLe (x : Bytes 32) : Limbs 4 :=
  Vector.ofFn fun i => UInt64.ofNat (bytesToNat (slice x (32 - (i + 1) * 8) 8))

def limbsLeToBe32 (x : Limbs 4) : Bytes 32 :=
  natToBytes 8 x[3].toNat ++ natToBytes 8 x[2].toNat ++ natToBytes 8 x[1].toNat ++
    natToBytes 8 x[0].toNat

theorem limbsToNat_be32ToLimbsLe (x : Bytes 32) : limbsToNat (be32ToLimbsLe x) = bytesToNat x := by
  have hdigits : (be32ToLimbsLe x).toList.map UInt64.toNat =
      (List.range 4).map fun i => bytesToNat x / (2 ^ 64) ^ i % 2 ^ 64 := by
    apply List.ext_getElem
    · simp
    · intro i h₁ h₂
      have hi : i < 4 := by simpa using h₂
      have hlt := bytesToNat_lt (slice x (32 - (i + 1) * 8) 8)
      have hexp : 32 - (32 - (i + 1) * 8) - 8 = 8 * i := by omega
      simp only [be32ToLimbsLe, List.getElem_map, Vector.getElem_toList, Vector.getElem_ofFn,
        List.getElem_range]
      rw [UInt64.toNat_ofNat_of_lt' hlt, bytesToNat_slice, hexp, Nat.pow_mul]
      norm_num
  rw [limbsToNat, leNat, hdigits, ofDigits_map_div_mod]
  exact Nat.mod_eq_of_lt (by simpa [← pow_mul] using bytesToNat_lt x)

theorem bytesToNat_limbsLeToBe32 (x : Limbs 4) : bytesToNat (limbsLeToBe32 x) = limbsToNat x := by
  have hlist : x.toList = [x[0], x[1], x[2], x[3]] := by
    apply List.ext_getElem
    · simp
    · intro i h₁ h₂
      have hi : i < 4 := by simpa using h₂
      interval_cases i <;> rfl
  have hlimb (a : UInt64) : bytesToNat (natToBytes 8 a.toNat) = a.toNat :=
    bytesToNat_natToBytes_of_lt a.toNat_lt
  simp only [limbsLeToBe32, bytesToNat_append, hlimb]
  rw [limbsToNat, hlist]
  simp only [leNat_cons, leNat_nil]
  ring

end Limbs

section Reduction

variable (a b x : Bytes 32)

def isZero (x : Bytes 32) : Bool := x.all (· == 0)

def cmpBe (a b : Bytes 32) : Ordering := compareLimbs (be32ToLimbsLe a) (be32ToLimbsLe b)

/-- `a - b` modulo `2^256`. -/
def subBe (a b : Bytes 32) : Bytes 32 :=
  limbsLeToBe32 (subLimbs (be32ToLimbsLe a) (be32ToLimbsLe b))

def secp256k1ScalarIsValidNonzero (x : Bytes 32) : Bool :=
  !isZero x && cmpBe x secp256k1Order == .lt

/-- `-value` modulo the order, for a canonical scalar. -/
def negateModN (value : Bytes 32) : Bytes 32 :=
  if isZero value then Vector.replicate 32 0 else subBe secp256k1Order value

def reduceModNLe (x : Limbs 4) : Limbs 4 :=
  if compareLimbs x secp256k1OrderLimbsLe ≠ .lt then subLimbs x secp256k1OrderLimbsLe else x

/-- One conditional subtraction is enough, since the order is above `2^255`. -/
def modReduceOnce (x : Bytes 32) : Bytes 32 := limbsLeToBe32 (reduceModNLe (be32ToLimbsLe x))

def secp256k1ScalarReduceBe (x : Bytes 32) : Bytes 32 := modReduceOnce x

/-- `x / 2^255`. -/
def shr255From512 (x : Limbs 8) : Limbs 5 := shiftWindow 5 x 3 63

/-- The estimate under-shoots by at most two, so the raw remainder needs 258 bits and is carried in
five limbs; the limbs above cancel. -/
def barrettReduceModN (x : Limbs 8) : Limbs 4 :=
  let q1 := shr255From512 x
  let q2 : Limbs 10 := mulLimbs q1 secp256k1OrderBarrettMuLimbsLe
  let q3 : Limbs 5 := shiftWindow 5 q2 4 1
  let q3n : Limbs 9 := mulLimbs q3 secp256k1OrderLimbsLe
  let r := subLimbs (lowLimbs 5 x) (lowLimbs 5 q3n)
  lowLimbs 4 (correct secp256k1OrderLimbsLe5 2 r)

def mulModNBarrett (a b : Bytes 32) : Bytes 32 :=
  let prod := mulLimbs (reduceModNLe (be32ToLimbsLe a)) (reduceModNLe (be32ToLimbsLe b))
  limbsLeToBe32 (barrettReduceModN prod)

def mulMod (a b : Bytes 32) : Bytes 32 := mulModNBarrett a b

/-- The assertion that closes the reduction, and what it returns. -/
def assertReduced (r : Limbs 5) : Option (Limbs 4) :=
  if compareLimbs r secp256k1OrderLimbsLe5 = .lt then some (lowLimbs 4 r) else none

/-- The reduction as a debug build runs it. -/
def checkedBarrettReduceModN (x : Limbs 8) : Option (Limbs 4) := do
  let q1 := shr255From512 x
  let q2 : Limbs 10 ← CheckedLimbs.mulLimbs q1 secp256k1OrderBarrettMuLimbsLe
  let q3 : Limbs 5 := shiftWindow 5 q2 4 1
  let q3n : Limbs 9 ← CheckedLimbs.mulLimbs q3 secp256k1OrderLimbsLe
  let r := subLimbs (lowLimbs 5 x) (lowLimbs 5 q3n)
  assertReduced (correct secp256k1OrderLimbsLe5 2 r)

/-- The product as a debug build runs it. -/
def checkedMulModNBarrett (a b : Bytes 32) : Option (Bytes 32) := do
  let prod ← CheckedLimbs.mulLimbs (reduceModNLe (be32ToLimbsLe a)) (reduceModNLe (be32ToLimbsLe b))
  let r ← checkedBarrettReduceModN prod
  pure (limbsLeToBe32 r)

theorem isZero_iff : isZero x = true ↔ bytesToNat x = 0 := by
  simp [isZero, bytesToNat_eq_zero_iff]

theorem cmpBe_eq : cmpBe a b = compare (bytesToNat a) (bytesToNat b) := by
  rw [cmpBe, compareLimbs_eq, limbsToNat_be32ToLimbsLe, limbsToNat_be32ToLimbsLe]

theorem secp256k1ScalarIsValidNonzero_iff :
    secp256k1ScalarIsValidNonzero x = true ↔ 0 < bytesToNat x ∧ bytesToNat x < Secp256k1.n := by
  have hzero := isZero_iff x
  rw [secp256k1ScalarIsValidNonzero, cmpBe_eq, bytesToNat_secp256k1Order, Bool.and_eq_true,
    beq_iff_eq, compare_lt_iff_lt, Bool.not_eq_true', ← Bool.not_eq_true, hzero, Nat.pos_iff_ne_zero]

variable {a b x}

theorem bytesToNat_subBe (h : bytesToNat b ≤ bytesToNat a) :
    bytesToNat (subBe a b) = bytesToNat a - bytesToNat b := by
  rw [subBe, bytesToNat_limbsLeToBe32, limbsToNat_subLimbs] <;>
    simp only [limbsToNat_be32ToLimbsLe, h]

theorem bytesToNat_subBe_order (h : bytesToNat x ≤ Secp256k1.n) :
    bytesToNat (subBe secp256k1Order x) = Secp256k1.n - bytesToNat x := by
  rw [← bytesToNat_secp256k1Order] at h ⊢
  exact bytesToNat_subBe h

theorem bytesToNat_negateModN (h : bytesToNat x < Secp256k1.n) :
    bytesToNat (negateModN x) = (Secp256k1.n - bytesToNat x) % Secp256k1.n := by
  rw [negateModN]
  split
  next hzero =>
    rw [isZero_iff] at hzero
    rw [hzero, Nat.sub_zero, Nat.mod_self, bytesToNat_eq_zero_iff]
    simp
  next hzero =>
    rw [isZero_iff] at hzero
    rw [bytesToNat_subBe_order h.le, Nat.mod_eq_of_lt (by omega)]

theorem two_pow_256_lt_two_mul_n : 2 ^ 256 < 2 * Secp256k1.n := by norm_num [Secp256k1.n]

theorem n_pos : 0 < Secp256k1.n := Secp256k1.prime_n.pos

theorem limbsToNat_reduceModNLe (x : Limbs 4) :
    limbsToNat (reduceModNLe x) = limbsToNat x % Secp256k1.n := by
  have hlt := limbsToNat_lt x
  have hn := two_pow_256_lt_two_mul_n
  rw [← pow_mul] at hlt
  simp only [reduceModNLe, compareLimbs_eq, limbsToNat_secp256k1OrderLimbsLe, ne_eq,
    compare_lt_iff_lt, not_lt]
  split
  next hge =>
    rw [limbsToNat_subLimbs (by rwa [limbsToNat_secp256k1OrderLimbsLe]),
      limbsToNat_secp256k1OrderLimbsLe, Nat.mod_eq_sub_mod hge, Nat.mod_eq_of_lt (by omega)]
  next hlt => rw [Nat.mod_eq_of_lt (by omega)]

theorem bytesToNat_modReduceOnce (x : Bytes 32) :
    bytesToNat (modReduceOnce x) = bytesToNat x % Secp256k1.n := by
  rw [modReduceOnce, bytesToNat_limbsLeToBe32, limbsToNat_reduceModNLe, limbsToNat_be32ToLimbsLe]

theorem bytesToNat_modReduceOnce_lt (x : Bytes 32) : bytesToNat (modReduceOnce x) < Secp256k1.n := by
  rw [bytesToNat_modReduceOnce]
  exact Nat.mod_lt _ n_pos

def barrettQuotient (x : Limbs 8) : Limbs 5 :=
  shiftWindow 5 (mulLimbs (shr255From512 x) secp256k1OrderBarrettMuLimbsLe) 4 1

def barrettRemainder (x : Limbs 8) : Limbs 5 :=
  subLimbs (lowLimbs 5 x) (lowLimbs 5 (mulLimbs (barrettQuotient x) secp256k1OrderLimbsLe))

theorem barrettReduceModN_eq (x : Limbs 8) : barrettReduceModN x =
    lowLimbs 4 (correct secp256k1OrderLimbsLe5 2 (barrettRemainder x)) := rfl

/-- The third limb window is the Barrett estimate of the quotient; both windows are wide enough. -/
theorem limbsToNat_barrettQuotient (x : Limbs 8) : limbsToNat (barrettQuotient x) =
    quotientEstimate (2 ^ 255) (2 ^ 257) (2 ^ 255 * 2 ^ 257 / Secp256k1.n) (limbsToNat x) := by
  have hq1 : limbsToNat (shr255From512 x) = limbsToNat x / 2 ^ 255 :=
    limbsToNat_shiftWindow_of_le x (by decide) (by decide) (by decide)
  have hq1lt : limbsToNat (shr255From512 x) < 2 ^ (64 * 4 + (1 : UInt64).toNat) := by
    rw [hq1]
    refine Nat.div_lt_of_lt_mul ?_
    have hx := limbsToNat_lt x
    rwa [← pow_mul, show 64 * 8 = 255 + (64 * 4 + (1 : UInt64).toNat) from rfl, pow_add] at hx
  have hmu := limbsToNat_lt secp256k1OrderBarrettMuLimbsLe
  have hexp : 257 = 64 * 4 + (1 : UInt64).toNat := rfl
  rw [barrettQuotient, limbsToNat_shiftWindow 5 _ 4 (by decide) (by decide), limbsToNat_mulLimbs,
    quotientEstimate, ← limbsToNat_secp256k1OrderBarrettMuLimbsLe, ← hq1, hexp]
  exact Nat.mod_eq_of_lt (Nat.div_lt_of_lt_mul (Nat.mul_lt_mul'' hq1lt hmu))

theorem barrettQuotient_mul_le (x : Limbs 8) :
    limbsToNat (barrettQuotient x) * Secp256k1.n ≤ limbsToNat x := by
  rw [limbsToNat_barrettQuotient]
  exact quotientEstimate_mul_le (Nat.two_pow_pos 255) (pow_pos two_pos _)

/-- The estimate is at most two too small. -/
theorem sub_barrettQuotient_mul_lt (x : Limbs 8) :
    limbsToNat x - limbsToNat (barrettQuotient x) * Secp256k1.n < 3 * Secp256k1.n := by
  have hx : limbsToNat x < 2 ^ 255 * 2 ^ 257 := by
    rw [← pow_add, show 255 + 257 = 64 * 8 from rfl, pow_mul]
    exact limbsToNat_lt x
  have hBn : 2 ^ 255 ≤ Secp256k1.n := by norm_num [Secp256k1.n]
  have hB : 0 < 2 ^ 255 := Nat.two_pow_pos 255
  have hR : 0 < 2 ^ 257 := pow_pos two_pos 257
  have hlt := lt_quotientEstimate_mul hB hR hBn hx
  rw [← limbsToNat_barrettQuotient, Nat.add_mul] at hlt
  omega

/-- The limbs above the fifth cancel. -/
theorem limbsToNat_barrettRemainder (x : Limbs 8) : limbsToNat (barrettRemainder x) =
    limbsToNat x - limbsToNat (barrettQuotient x) * Secp256k1.n := by
  have hle := barrettQuotient_mul_le x
  have hlt := sub_barrettQuotient_mul_lt x
  have hsmall : 3 * Secp256k1.n < (2 ^ 64) ^ 5 := by norm_num [Secp256k1.n]
  have hq3n := limbsToNat_mulLimbs (barrettQuotient x) secp256k1OrderLimbsLe
  rw [limbsToNat_secp256k1OrderLimbsLe] at hq3n
  rw [barrettRemainder, limbsToNat_subLimbs_lowLimbs (by omega) (by omega) (by omega) (by omega),
    hq3n]

theorem limbsToNat_correct_barrettRemainder (x : Limbs 8) :
    limbsToNat (correct secp256k1OrderLimbsLe5 2 (barrettRemainder x)) =
      limbsToNat x % Secp256k1.n := by
  have hB : 0 < 2 ^ 255 := Nat.two_pow_pos 255
  have hR : 0 < 2 ^ 257 := pow_pos two_pos 257
  have hmod := sub_quotientEstimate_mul_mod (m := Secp256k1.n) (x := limbsToNat x) hB hR
  rw [← limbsToNat_barrettQuotient, ← limbsToNat_barrettRemainder] at hmod
  have hlt := sub_barrettQuotient_mul_lt x
  rw [← limbsToNat_barrettRemainder] at hlt
  rw [limbsToNat_correct, limbsToNat_secp256k1OrderLimbsLe5, hmod]
  rw [limbsToNat_secp256k1OrderLimbsLe5]
  exact hlt

/-- The reduction is exact for every 512-bit number. -/
theorem limbsToNat_barrettReduceModN (x : Limbs 8) :
    limbsToNat (barrettReduceModN x) = limbsToNat x % Secp256k1.n := by
  have hfour : Secp256k1.n < (2 ^ 64) ^ 4 := by norm_num [Secp256k1.n]
  rw [barrettReduceModN_eq, limbsToNat_lowLimbs, limbsToNat_correct_barrettRemainder]
  exact Nat.mod_eq_of_lt ((Nat.mod_lt _ n_pos).trans hfour)

theorem bytesToNat_mulMod (a b : Bytes 32) :
    bytesToNat (mulMod a b) = bytesToNat a * bytesToNat b % Secp256k1.n := by
  rw [mulMod, mulModNBarrett, bytesToNat_limbsLeToBe32, limbsToNat_barrettReduceModN,
    limbsToNat_mulLimbs, limbsToNat_reduceModNLe, limbsToNat_reduceModNLe,
    limbsToNat_be32ToLimbsLe, limbsToNat_be32ToLimbsLe, ← Nat.mul_mod]

end Reduction

section RecoveryInputs

/-- Normalize ECDSA `s` to the lower half of the scalars, flipping the recovery parity when it
changes. Returns the new recovery id and the rewritten signature. -/
def secp256k1EcdsaNormalizeLowS (recoveryId : UInt8) (signature64 : Bytes 64) :
    Except AttestationError (UInt8 × Bytes 64) :=
  let s := rightHalf signature64
  let normalized :=
    if cmpBe s secp256k1OrderHalf = .gt then
      (recoveryId ^^^ 1, leftHalf signature64 ++ subBe secp256k1Order s)
    else (recoveryId, signature64)
  if isZero (rightHalf normalized.2) then .error .invalidSignature else .ok normalized

/-- The recovery id, the ECDSA signature and the ECDSA hash whose recovery evaluates the Schnorr
equation. The signature's `r` is the key's first coordinate, not reduced. -/
def evmSchnorrEcdsaInputs (keccak : Keccak) (pubkeyCompressed : Bytes 33)
    (msgHash signature : Bytes 32) (commitment : Bytes 20) :
    Except AttestationError (UInt8 × Bytes 64 × Bytes 32) :=
  let parityPrefix := leadByte pubkeyCompressed
  if parityPrefix ≠ 0x02 ∧ parityPrefix ≠ 0x03 then .error .invalidSignature
  else
    let recoveryId := parityPrefix &&& 1
    let px := afterLead pubkeyCompressed
    let pxModN := modReduceOnce px
    if isZero pxModN then .error .invalidSignature
    else
      let challengeHash :=
        hashv keccak [px.toList, [recoveryId], msgHash.toList, commitment.toList]
      let challenge := modReduceOnce challengeHash
      let sigRed := modReduceOnce signature
      let msgMul := mulMod sigRed pxModN
      let eEcdsa := subBe secp256k1Order msgMul
      let ecdsaSMul := mulMod challenge pxModN
      let sEcdsa := subBe secp256k1Order ecdsaSMul
      if isZero sEcdsa then .error .invalidSignature
      else
        -- recovery rejects the upper half of the scalars
        let normalized :=
          if cmpBe sEcdsa secp256k1OrderHalf = .gt then
            (recoveryId ^^^ 1, subBe secp256k1Order sEcdsa)
          else (recoveryId, sEcdsa)
        .ok (normalized.1, px ++ normalized.2, eEcdsa)

def ethAddressFromUncompressedPubkey (keccak : Keccak) (uncompressedXy : Bytes 64) : Bytes 20 :=
  slice (hashv keccak [uncompressedXy.toList]) 12 20

def toScalar (x : Bytes 32) : ZMod Secp256k1.n := bytesToNat x

def schnorrChallenge (keccak : Keccak) (px : Bytes 32) (parity : UInt8) (msgHash : Bytes 32)
    (commitment : Bytes 20) : ZMod Secp256k1.n :=
  toScalar (hashv keccak [px.toList, [parity], msgHash.toList, commitment.toList])

theorem toScalar_modReduceOnce (x : Bytes 32) : toScalar (modReduceOnce x) = toScalar x := by
  rw [toScalar, bytesToNat_modReduceOnce, ZMod.natCast_mod, toScalar]

theorem toScalar_mulMod (a b : Bytes 32) : toScalar (mulMod a b) = toScalar a * toScalar b := by
  rw [toScalar, bytesToNat_mulMod, ZMod.natCast_mod, Nat.cast_mul, toScalar, toScalar]

theorem toScalar_subBe_order {x : Bytes 32} (h : bytesToNat x ≤ Secp256k1.n) :
    toScalar (subBe secp256k1Order x) = -toScalar x := by
  rw [toScalar, bytesToNat_subBe_order h, Nat.cast_sub h, ZMod.natCast_self, zero_sub, toScalar]

theorem toScalar_natToBytes {x : ℕ} (h : x < 256 ^ 32) : toScalar (natToBytes 32 x) = x := by
  rw [toScalar, bytesToNat_natToBytes_of_lt h]

theorem toScalar_eq_zero_iff {x : Bytes 32} :
    toScalar x = 0 ↔ bytesToNat x % Secp256k1.n = 0 := by
  rw [toScalar, ZMod.natCast_eq_zero_iff, Nat.dvd_iff_mod_eq_zero]

/-- A canonical scalar is its residue. -/
theorem eq_of_toScalar_eq {s s' : Bytes 32} (hs : bytesToNat s < Secp256k1.n)
    (hs' : bytesToNat s' < Secp256k1.n) (h : toScalar s = toScalar s') : s = s' := by
  have hmod := (ZMod.natCast_eq_natCast_iff' _ _ _).mp h
  rw [Nat.mod_eq_of_lt hs, Nat.mod_eq_of_lt hs'] at hmod
  exact bytesToNat_injective hmod

theorem bytesToNat_mulMod_lt (a b : Bytes 32) : bytesToNat (mulMod a b) < Secp256k1.n := by
  rw [bytesToNat_mulMod]
  exact Nat.mod_lt _ n_pos

theorem evmSchnorrEcdsaInputs_of_zero (keccak : Keccak) (pk : Bytes 33)
    (h : toScalar (afterLead pk) = 0) (msgHash signature : Bytes 32) (commitment : Bytes 20) :
    evmSchnorrEcdsaInputs keccak pk msgHash signature commitment = .error .invalidSignature := by
  have hzero : isZero (modReduceOnce (afterLead pk)) = true := by
    rw [isZero_iff, bytesToNat_modReduceOnce, toScalar_eq_zero_iff.mp h]
  simp [evmSchnorrEcdsaInputs, hzero]

/-- Negating a canonical scalar gives at least one, so the zero check of the source never fires. -/
theorem isZero_subBe_order {m : Bytes 32} (hm : bytesToNat m < Secp256k1.n) :
    isZero (subBe secp256k1Order m) = false := by
  rw [← Bool.not_eq_true, isZero_iff, bytesToNat_subBe_order hm.le]
  omega

theorem exists_lower_negation {m : Bytes 32} (hm : bytesToNat m < Secp256k1.n) (parity : UInt8) :
    ∃ v t, (if cmpBe (subBe secp256k1Order m) secp256k1OrderHalf = .gt then
        (parity ^^^ 1, subBe secp256k1Order (subBe secp256k1Order m))
      else (parity, subBe secp256k1Order m)) = (v, t) ∧ bytesToNat t ≤ Secp256k1.n / 2 ∧
      (v = parity ∧ toScalar t = -toScalar m ∨ v = parity ^^^ 1 ∧ toScalar t = toScalar m) := by
  have hsub := bytesToNat_subBe_order hm.le
  have hsubScalar := toScalar_subBe_order hm.le
  have hcmp := cmpBe_eq (subBe secp256k1Order m) secp256k1OrderHalf
  rw [bytesToNat_secp256k1OrderHalf] at hcmp
  by_cases hhigh : cmpBe (subBe secp256k1Order m) secp256k1OrderHalf = .gt
  · refine ⟨_, _, if_pos hhigh, ?_, .inr ⟨rfl, ?_⟩⟩
    · rw [hcmp, compare_gt_iff_gt] at hhigh
      rw [bytesToNat_subBe_order (by omega)]
      omega
    · rw [toScalar_subBe_order (by omega), hsubScalar, neg_neg]
  · refine ⟨_, _, if_neg hhigh, ?_, .inl ⟨rfl, hsubScalar⟩⟩
    rw [hcmp, compare_gt_iff_gt] at hhigh
    omega

/-- The recovery instance for a key with a nonzero first coordinate. The parity stays with
`t = -e px` and flips with `t = e px`, whichever is in the lower half. -/
theorem evmSchnorrEcdsaInputs_eq_ok (keccak : Keccak) {pk : Bytes 33}
    (htag : leadByte pk = 0x02 ∨ leadByte pk = 0x03) (hpx : toScalar (afterLead pk) ≠ 0)
    (msgHash signature : Bytes 32) (commitment : Bytes 20) :
    let px := afterLead pk
    let parity := leadByte pk &&& 1
    let e := schnorrChallenge keccak px parity msgHash commitment
    ∃ v t z, evmSchnorrEcdsaInputs keccak pk msgHash signature commitment = .ok (v, px ++ t, z) ∧
      bytesToNat t ≤ Secp256k1.n / 2 ∧ (1 ≤ bytesToNat z ∧ bytesToNat z ≤ Secp256k1.n) ∧
      toScalar z = -(toScalar signature * toScalar px) ∧
      (v = parity ∧ toScalar t = -(e * toScalar px) ∨
        v = parity ^^^ 1 ∧ toScalar t = e * toScalar px) := by
  intro px parity e
  have hvalid : ¬(leadByte pk ≠ 0x02 ∧ leadByte pk ≠ 0x03) := fun h => htag.elim h.1 h.2
  have hred : isZero (modReduceOnce px) = false := by
    rw [← Bool.not_eq_true, isZero_iff, bytesToNat_modReduceOnce, ← toScalar_eq_zero_iff]
    exact hpx
  have hz : toScalar (subBe secp256k1Order (mulMod (modReduceOnce signature) (modReduceOnce px))) =
      -(toScalar signature * toScalar px) := by
    rw [toScalar_subBe_order (bytesToNat_mulMod_lt _ _).le, toScalar_mulMod,
      toScalar_modReduceOnce, toScalar_modReduceOnce]
  have hzlt := bytesToNat_mulMod_lt (modReduceOnce signature) (modReduceOnce px)
  have hzval := bytesToNat_subBe_order hzlt.le
  have hmul : toScalar (mulMod (modReduceOnce (hashv keccak
      [px.toList, [parity], msgHash.toList, commitment.toList])) (modReduceOnce px)) =
        e * toScalar px := by
    rw [toScalar_mulMod, toScalar_modReduceOnce, toScalar_modReduceOnce, ← schnorrChallenge]
  generalize hm : mulMod (modReduceOnce (hashv keccak
    [px.toList, [parity], msgHash.toList, commitment.toList])) (modReduceOnce px) = m at hmul
  have hmlt : bytesToNat m < Secp256k1.n := hm ▸ bytesToNat_mulMod_lt _ _
  have hnonzero := isZero_subBe_order hmlt
  obtain ⟨v, t, hnormal, hlow, hsign⟩ := exists_lower_negation hmlt parity
  rw [hmul] at hsign
  refine ⟨v, t, _, ?_, hlow, ⟨by omega, by omega⟩, hz, hsign⟩
  rw [evmSchnorrEcdsaInputs, if_neg hvalid]
  simp only []
  rw [if_neg (by rw [hred]; exact Bool.false_ne_true), hm, if_neg (by simp [hnonzero]), hnormal]

end RecoveryInputs

end MolphaVerifier
