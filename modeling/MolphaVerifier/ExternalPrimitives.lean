import MolphaVerifier.ScalarArithmetic
import MolphaVerifier.SchnorrEquations

/-!
# The curve library and the recovery call as parameters

The crates behind the field, the points, the public keys and the recovery call are not part of the
repository. They are parameters of the model, and what the code relies on is stated as properties of
them: a `FieldReading` says which residue an element of the library's field type stands for, and
`FieldExact`, `SumExact`, `GroupExact`, `KeyParsingExact` and `RecoverExact` say that the operations
compute on those residues and on the points of the curve.
-/

namespace MolphaVerifier

open FixedBytes ShortWeierstrass SchnorrEquations

/-- What the code uses of the `libsecp256k1` crate. `setB32` returns nothing when it rejects. -/
structure Libsecp256k1 where
  Field : Type
  setB32 : Bytes 32 → Option Field
  sqr : Field → Field
  mul : Field → Field → Field
  eqVar : Field → Field → Bool
  normalize : Field → Field
  normalizeVar : Field → Field
  isOdd : Field → Bool
  fillB32 : Field → Bytes 32
  setXy : Field → Field → Affine Field
  jacobianDefault : Jacobian Field
  fromGe : Affine Field → Jacobian Field
  addGeVar : Jacobian Field → Affine Field → Jacobian Field
  isInfinity : Jacobian Field → Bool
  fromGej : Jacobian Field → Affine Field
  PublicKey : Type
  parseCompressed : Bytes 33 → Option PublicKey
  serialize : PublicKey → Bytes 65
  serializeCompressed : PublicKey → Bytes 33

/-- How the crate loads an uncompressed key as a point. -/
structure KeyLoading (lib : Libsecp256k1) where
  parseFull : Bytes 65 → Option lib.PublicKey
  toAffine : lib.PublicKey → Affine lib.Field

/-- Everything outside the repository that verification calls. The recovery call takes a hash, a
recovery id and a signature. -/
structure Primitives where
  lib : Libsecp256k1
  secp256k1Recover : Bytes 32 → UInt8 → Bytes 64 → Option (Bytes 64)
  keccak : Keccak

section Encodings

/-- The residue that 32 bytes stand for. -/
def toField (x : Bytes 32) : ZMod Secp256k1.p := bytesToNat x

def fieldBytes (x : ZMod Secp256k1.p) : Bytes 32 := natToBytes 32 x.val

def encodeXy (x y : ZMod Secp256k1.p) : Bytes 64 := fieldBytes x ++ fieldBytes y

def parityOf (y : ZMod Secp256k1.p) : UInt8 := if y.val % 2 = 1 then 1 else 0

def encodeCompressed (x y : ZMod Secp256k1.p) : Bytes 33 :=
  (#v[if y.val % 2 = 1 then 0x03 else 0x02] : Bytes 1) ++ fieldBytes x

def encodeUncompressed (x y : ZMod Secp256k1.p) : Bytes 65 :=
  (#v[0x04] : Bytes 1) ++ encodeXy x y

/-- `04 ‖ x ‖ y` of two byte strings. -/
def uncompressedBytes (x y : Bytes 32) : Bytes 65 := (#v[0x04] : Bytes 1) ++ (x ++ y : Bytes 64)

variable {x y x' y' : ZMod Secp256k1.p}

theorem val_lt_two_pow (x : ZMod Secp256k1.p) : x.val < 256 ^ 32 :=
  (ZMod.val_lt x).trans Secp256k1.p_lt_two_pow

@[simp] theorem bytesToNat_fieldBytes (x : ZMod Secp256k1.p) : bytesToNat (fieldBytes x) = x.val :=
  bytesToNat_natToBytes_of_lt (val_lt_two_pow x)

theorem bytesToNat_fieldBytes_lt (x : ZMod Secp256k1.p) :
    bytesToNat (fieldBytes x) < Secp256k1.p := by
  rw [bytesToNat_fieldBytes]
  exact ZMod.val_lt x

@[simp] theorem toField_fieldBytes (x : ZMod Secp256k1.p) : toField (fieldBytes x) = x := by
  rw [toField, bytesToNat_fieldBytes, ZMod.natCast_zmod_val]

theorem fieldBytes_injective : Function.Injective fieldBytes := fun x y h => by
  rw [← toField_fieldBytes x, h, toField_fieldBytes]

theorem fieldBytes_toField {b : Bytes 32} (h : bytesToNat b < Secp256k1.p) :
    fieldBytes (toField b) = b := by
  rw [← bytesToNat_inj, bytesToNat_fieldBytes, toField, ZMod.val_natCast, Nat.mod_eq_of_lt h]

theorem val_toField {b : Bytes 32} (h : bytesToNat b < Secp256k1.p) :
    (toField b).val = bytesToNat b := by
  rw [toField, ZMod.val_natCast, Nat.mod_eq_of_lt h]

theorem encodeXy_inj : encodeXy x y = encodeXy x' y' ↔ x = x' ∧ y = y' := by
  rw [encodeXy, encodeXy, append_inj, fieldBytes_injective.eq_iff, fieldBytes_injective.eq_iff]

theorem leadByte_encodeCompressed (x y : ZMod Secp256k1.p) :
    leadByte (encodeCompressed x y) = if y.val % 2 = 1 then 0x03 else 0x02 :=
  Vector.getElem_append_left (by omega)

theorem encodeCompressed_tag (x y : ZMod Secp256k1.p) :
    leadByte (encodeCompressed x y) = 0x02 ∨ leadByte (encodeCompressed x y) = 0x03 := by
  rw [leadByte_encodeCompressed]
  split <;> simp

theorem encodeCompressed_parity (x y : ZMod Secp256k1.p) :
    leadByte (encodeCompressed x y) &&& 1 = parityOf y := by
  rw [leadByte_encodeCompressed, parityOf]
  split <;> rfl

@[simp] theorem afterLead_encodeCompressed (x y : ZMod Secp256k1.p) :
    afterLead (encodeCompressed x y) = fieldBytes x :=
  slice_append_right _ _

@[simp] theorem afterLead_encodeUncompressed (x y : ZMod Secp256k1.p) :
    afterLead (encodeUncompressed x y) = encodeXy x y :=
  slice_append_right _ _

theorem parityOf_neg (hy : y ≠ 0) : parityOf (-y) = parityOf y ^^^ 1 := by
  have hval : (-y).val = Secp256k1.p - y.val := by
    rw [ZMod.neg_val, if_neg hy]
  have hlt := ZMod.val_lt y
  have hodd := Secp256k1.p_odd
  rw [parityOf, parityOf, hval]
  rcases Nat.mod_two_eq_zero_or_one y.val with h | h
  · rw [if_pos (by omega), if_neg (by omega)]
    rfl
  · rw [if_neg (by omega), if_pos h]
    rfl

theorem parityOf_lt_two (y : ZMod Secp256k1.p) : parityOf y = 0 ∨ parityOf y = 1 := by
  rw [parityOf]
  split <;> simp

theorem lastByte_parity {b : Bytes 32} (h : bytesToNat b < Secp256k1.p) :
    lastByte b &&& 1 = parityOf (toField b) := by
  have hlast := toNat_lastByte b
  have hand : (lastByte b &&& 1).toNat = bytesToNat b % 2 := by
    rw [UInt8.toNat_and, UInt8.toNat_one, Nat.and_one_is_mod, hlast]
    omega
  rw [← UInt8.toNat_inj, hand, parityOf, val_toField h]
  rcases Nat.mod_two_eq_zero_or_one (bytesToNat b) with heven | hodd
  · rw [heven]
    rfl
  · rw [hodd]
    rfl

end Encodings

/-- Which residue a field element stands for, and when its representation is fully reduced. -/
structure FieldReading (lib : Libsecp256k1) where
  val : lib.Field → ZMod Secp256k1.p
  Normalized : lib.Field → Prop

variable {lib : Libsecp256k1}

def FieldReading.affine (R : FieldReading lib) (a : Affine lib.Field) :
    Affine (ZMod Secp256k1.p) :=
  ⟨R.val a.x, R.val a.y, a.infinity⟩

def FieldReading.jacobian (R : FieldReading lib) (a : Jacobian lib.Field) :
    Jacobian (ZMod Secp256k1.p) :=
  ⟨R.val a.x, R.val a.y, R.val a.z, lib.isInfinity a⟩

/-- Field arithmetic is exact, and `set_b32` accepts exactly the canonical encodings. -/
structure FieldExact (lib : Libsecp256k1) (R : FieldReading lib) : Prop where
  setB32_of_lt : ∀ b, bytesToNat b < Secp256k1.p →
    ∃ f, lib.setB32 b = some f ∧ R.val f = toField b
  setB32_of_ge : ∀ b, Secp256k1.p ≤ bytesToNat b → lib.setB32 b = none
  val_sqr : ∀ f, R.val (lib.sqr f) = R.val f ^ 2
  val_mul : ∀ f g, R.val (lib.mul f g) = R.val f * R.val g
  eqVar_iff : ∀ f g, lib.eqVar f g = true ↔ R.val f = R.val g
  val_normalize : ∀ f, R.val (lib.normalize f) = R.val f
  normalized_normalize : ∀ f, R.Normalized (lib.normalize f)
  val_normalizeVar : ∀ f, R.val (lib.normalizeVar f) = R.val f
  normalized_normalizeVar : ∀ f, R.Normalized (lib.normalizeVar f)
  isOdd_iff : ∀ f, R.Normalized f → (lib.isOdd f = true ↔ (R.val f).val % 2 = 1)
  fillB32_eq : ∀ f, R.Normalized f → lib.fillB32 f = fieldBytes (R.val f)

/-- A finite sum is a triple with nonzero third coordinate, on or off the curve, and `from_gej`
divides by its powers. -/
structure SumExact (lib : Libsecp256k1) (R : FieldReading lib) : Prop where
  affine_setXy : ∀ f g, R.affine (lib.setXy f g) = ⟨R.val f, R.val g, false⟩
  jacobian_fromGe : ∀ a, R.jacobian (lib.fromGe a) = Jacobian.ofAffine (R.affine a)
  proper_addGeVar : ∀ a c, (R.jacobian a).Proper → (R.affine c).infinity = false →
    (R.affine c).y ≠ 0 → (R.jacobian (lib.addGeVar a c)).Proper
  affine_fromGej : ∀ a, lib.isInfinity a = false → R.val a.z ≠ 0 →
    R.affine (lib.fromGej a) = (R.jacobian a).toAffine

/-- Mixed addition is the group operation on points of the curve. -/
structure GroupExact (lib : Libsecp256k1) (R : FieldReading lib) : Prop where
  represents_addGeVar : ∀ a c (P Q : Secp256k1.Point), (R.jacobian a).Represents P →
    (R.affine c).infinity = false → HasCoords Q (R.affine c).x (R.affine c).y →
    (R.jacobian (lib.addGeVar a c)).Represents (P + Q)

/-- Key parsing accepts exactly the compressed encodings of curve points and computes the point. -/
structure KeyParsingExact (lib : Libsecp256k1) : Prop where
  exists_parse : ∀ (P : Secp256k1.Point) x y, HasCoords P x y →
    ∃ k, lib.parseCompressed (encodeCompressed x y) = some k
  of_parse : ∀ b k, lib.parseCompressed b = some k → ∃ (P : Secp256k1.Point) (x y : _),
    HasCoords P x y ∧ b = encodeCompressed x y ∧ lib.serialize k = encodeUncompressed x y ∧
      lib.serializeCompressed k = encodeCompressed x y

/-- After the tag `04`, loading accepts exactly the canonical coordinates of curve points. -/
structure KeyLoadingExact (lib : Libsecp256k1) (R : FieldReading lib) (loading : KeyLoading lib) :
    Prop where
  exists_parse : ∀ (P : Secp256k1.Point) x y, HasCoords P x y →
    ∃ k, loading.parseFull (encodeUncompressed x y) = some k
  of_parse : ∀ x y k, loading.parseFull (uncompressedBytes x y) = some k →
      bytesToNat x < Secp256k1.p ∧ bytesToNat y < Secp256k1.p ∧
        (∃ P : Secp256k1.Point, HasCoords P (toField x) (toField y)) ∧
        R.affine (loading.toAffine k) = ⟨toField x, toField y, false⟩

/-- The recovery call fails outside `1 ≤ r < n`, `1 ≤ s ≤ n / 2`. Inside, under the recovery ids zero
and one, it returns `r⁻¹ (s R - h G)` for the point `R` with first coordinate `r` and the parity of
the recovery id, and fails when there is no such point or the result is infinity. The ids two and
three, which stand for the first coordinate `r + n`, are left open. -/
structure RecoverExact (recover : Bytes 32 → UInt8 → Bytes 64 → Option (Bytes 64)) : Prop where
  of_out_of_range : ∀ h v (r s : Bytes 32), ¬(1 ≤ bytesToNat r ∧ bytesToNat r < Secp256k1.n ∧
    1 ≤ bytesToNat s ∧ bytesToNat s ≤ Secp256k1.n / 2) → recover h v (r ++ s) = none
  of_no_point : ∀ h v (r s : Bytes 32), v = 0 ∨ v = 1 →
    (∀ (R : Secp256k1.Point) (y : _), ¬HasCoords R (toField r) y) → recover h v (r ++ s) = none
  of_finite : ∀ h (r s : Bytes 32) (R : Secp256k1.Point) y x' y', 1 ≤ bytesToNat r →
    bytesToNat r < Secp256k1.n → 1 ≤ bytesToNat s → bytesToNat s ≤ Secp256k1.n / 2 →
    HasCoords R (toField r) y →
    HasCoords (recovered Secp256k1.G R (toScalar r) (toScalar s) (toScalar h)) x' y' →
    recover h (parityOf y) (r ++ s) = some (encodeXy x' y')
  of_infinity : ∀ h (r s : Bytes 32) (R : Secp256k1.Point) y, HasCoords R (toField r) y →
    recovered Secp256k1.G R (toScalar r) (toScalar s) (toScalar h) = 0 →
    recover h (parityOf y) (r ++ s) = none

end MolphaVerifier
