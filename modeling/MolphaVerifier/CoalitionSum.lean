import MolphaVerifier.ExternalPrimitives
import MolphaVerifier.FallibleFolds
import MolphaVerifier.RegistrySnapshot

/-!
# The coalition sum

`CoalitionAccumulator` adds stored keys one by one in Jacobian coordinates. What it stands for is
`FieldReading.sum`, the affine form of its triple, or nothing while the sum is empty or infinity. The
compressed key, the keyed check and the exported key are all functions of that pair, which is what
makes the caller's key unable to select another one.
-/

namespace MolphaVerifier

open FixedBytes ShortWeierstrass

/-- Affine coalition key, an untrusted verification input. -/
structure CoalitionKey where
  x : Bytes 32
  y : Bytes 32
  deriving DecidableEq

variable (lib : Libsecp256k1)

/-- Load a point from stored coordinates; the curve equation is not checked. -/
def affineFromStoredSecpXy (x y : Bytes 32) : Except AttestationError (Affine lib.Field) :=
  if x = Vector.replicate 32 0 ∨ y = Vector.replicate 32 0 then .error .invalidAggregateSignature
  else
    match lib.setB32 x, lib.setB32 y with
    | some fx, some fy => .ok (lib.setXy fx fy)
    | _, _ => .error .invalidAggregateSignature

structure CoalitionAccumulator where
  jacobian : Jacobian lib.Field
  hasPoint : Bool

def compressAffine (elem : Affine lib.Field) : Bytes 33 :=
  let x := lib.normalizeVar elem.x
  let y := lib.normalizeVar elem.y
  (#v[if lib.isOdd y then 0x03 else 0x02] : Bytes 1) ++ lib.fillB32 x

namespace CoalitionAccumulator

def default : CoalitionAccumulator lib := ⟨lib.jacobianDefault, false⟩

variable {lib}

def addStoredXy (coalition : CoalitionAccumulator lib) (x y : Bytes 32) :
    Except AttestationError (CoalitionAccumulator lib) := do
  let ge ← affineFromStoredSecpXy lib x y
  if !coalition.hasPoint then
    pure { jacobian := lib.fromGe ge, hasPoint := true }
  else
    pure { coalition with jacobian := lib.addGeVar coalition.jacobian ge }

/-- The Jacobian sum; an empty set and infinity are rejected. -/
def finishedSum (coalition : CoalitionAccumulator lib) :
    Except AttestationError (Jacobian lib.Field) :=
  if !coalition.hasPoint || lib.isInfinity coalition.jacobian then
    .error .invalidAggregateSignature
  else .ok coalition.jacobian

def compressedPubkey (coalition : CoalitionAccumulator lib) :
    Except AttestationError (Bytes 33) := do
  let jacobian ← coalition.finishedSum
  pure (compressAffine lib (lib.fromGej jacobian))

/-- Compressed key, by checking a supplied affine key against the triple. -/
def compressedPubkeyWithKey (coalition : CoalitionAccumulator lib) (key : CoalitionKey) :
    Except AttestationError (Bytes 33) := do
  let jacobian ← coalition.finishedSum
  match lib.setB32 key.x, lib.setB32 key.y with
  | some x, some y =>
    let z2 := lib.sqr jacobian.z
    let z3 := lib.mul z2 jacobian.z
    if !lib.eqVar (lib.mul x z2) jacobian.x || !lib.eqVar (lib.mul y z3) jacobian.y then
      .error .invalidCoalitionKey
    else pure (compressAffine lib (lib.setXy x y))
  | _, _ => .error .invalidCoalitionKey

def coalitionKey (coalition : CoalitionAccumulator lib) :
    Except AttestationError CoalitionKey := do
  let jacobian ← coalition.finishedSum
  let elem := lib.fromGej jacobian
  pure { x := lib.fillB32 (lib.normalize elem.x), y := lib.fillB32 (lib.normalize elem.y) }

end CoalitionAccumulator

variable {lib} {R : FieldReading lib}

/-- The stored coordinates are canonical and neither is zero. -/
structure CanonicalXy (xy : SignerXy) : Prop where
  x_pos : 0 < bytesToNat xy.1
  x_lt : bytesToNat xy.1 < Secp256k1.p
  y_pos : 0 < bytesToNat xy.2
  y_lt : bytesToNat xy.2 < Secp256k1.p

instance (xy : SignerXy) : Decidable (CanonicalXy xy) :=
  decidable_of_iff (0 < bytesToNat xy.1 ∧ bytesToNat xy.1 < Secp256k1.p ∧ 0 < bytesToNat xy.2 ∧
    bytesToNat xy.2 < Secp256k1.p)
    ⟨fun h => ⟨h.1, h.2.1, h.2.2.1, h.2.2.2⟩, fun h => ⟨h.x_pos, h.x_lt, h.y_pos, h.y_lt⟩⟩

theorem toField_ne_zero {b : Bytes 32} (hpos : 0 < bytesToNat b) (hlt : bytesToNat b < Secp256k1.p) :
    toField b ≠ 0 := by
  intro h
  have hval := val_toField hlt
  rw [h, ZMod.val_zero] at hval
  omega

/-- The loader accepts exactly the canonical pairs, on the curve or not. -/
theorem affineFromStoredSecpXy_cases (hF : FieldExact lib R) (hS : SumExact lib R)
    (x y : Bytes 32) :
    (CanonicalXy (x, y) ∧ ∃ ge, affineFromStoredSecpXy lib x y = .ok ge ∧
        R.affine ge = ⟨toField x, toField y, false⟩) ∨
      (¬CanonicalXy (x, y) ∧
        affineFromStoredSecpXy lib x y = .error .invalidAggregateSignature) := by
  by_cases hzero : x = Vector.replicate 32 0 ∨ y = Vector.replicate 32 0
  · refine .inr ⟨fun h => ?_, by rw [affineFromStoredSecpXy, if_pos hzero]⟩
    have hx := h.x_pos
    have hy := h.y_pos
    rw [eq_replicate_zero_iff, eq_replicate_zero_iff] at hzero
    simp only at hx hy
    omega
  rw [affineFromStoredSecpXy, if_neg hzero]
  rw [eq_replicate_zero_iff, eq_replicate_zero_iff] at hzero
  by_cases hx : bytesToNat x < Secp256k1.p
  · obtain ⟨fx, hfx, hvx⟩ := hF.setB32_of_lt x hx
    by_cases hy : bytesToNat y < Secp256k1.p
    · obtain ⟨fy, hfy, hvy⟩ := hF.setB32_of_lt y hy
      refine .inl ⟨⟨?_, hx, ?_, hy⟩, lib.setXy fx fy, by rw [hfx, hfy], ?_⟩
      · simp only
        omega
      · simp only
        omega
      · rw [hS.affine_setXy, hvx, hvy]
    · exact .inr ⟨fun h => hy h.y_lt, by rw [hfx, hF.setB32_of_ge y (by omega)]⟩
  · exact .inr ⟨fun h => hx h.x_lt, by rw [hF.setB32_of_ge x (by omega)]⟩

theorem compressAffine_eq (hF : FieldExact lib R) (elem : Affine lib.Field) :
    compressAffine lib elem = encodeCompressed (R.val elem.x) (R.val elem.y) := by
  have hodd := hF.isOdd_iff _ (hF.normalized_normalizeVar elem.y)
  rw [hF.val_normalizeVar] at hodd
  rw [compressAffine, encodeCompressed, hF.fillB32_eq _ (hF.normalized_normalizeVar elem.x),
    hF.val_normalizeVar]
  simp only [hodd]

/-- The affine sum an accumulator stands for; nothing when it is empty or infinity. -/
def FieldReading.sum (R : FieldReading lib) (coalition : CoalitionAccumulator lib) :
    Option (ZMod Secp256k1.p × ZMod Secp256k1.p) :=
  if !coalition.hasPoint || lib.isInfinity coalition.jacobian then none
  else
    let a := (R.jacobian coalition.jacobian).toAffine
    some (a.x, a.y)

def CoalitionKey.ofXy (x y : ZMod Secp256k1.p) : CoalitionKey := ⟨fieldBytes x, fieldBytes y⟩

theorem CoalitionKey.ofXy_inj {x y x' y' : ZMod Secp256k1.p} :
    CoalitionKey.ofXy x y = CoalitionKey.ofXy x' y' ↔ x = x' ∧ y = y' := by
  rw [CoalitionKey.ofXy, CoalitionKey.ofXy, CoalitionKey.mk.injEq, fieldBytes_injective.eq_iff,
    fieldBytes_injective.eq_iff]

theorem CoalitionKey.setB32_cases (hF : FieldExact lib R) (key : CoalitionKey) :
    (∃ fx fy, lib.setB32 key.x = some fx ∧ lib.setB32 key.y = some fy ∧
        key = CoalitionKey.ofXy (R.val fx) (R.val fy)) ∨
      ((lib.setB32 key.x = none ∨ lib.setB32 key.y = none) ∧
        ∀ x y, key ≠ CoalitionKey.ofXy x y) := by
  by_cases hx : bytesToNat key.x < Secp256k1.p
  · by_cases hy : bytesToNat key.y < Secp256k1.p
    · obtain ⟨fx, hfx, hvx⟩ := hF.setB32_of_lt key.x hx
      obtain ⟨fy, hfy, hvy⟩ := hF.setB32_of_lt key.y hy
      refine .inl ⟨fx, fy, hfx, hfy, ?_⟩
      rw [hvx, hvy, CoalitionKey.ofXy, fieldBytes_toField hx, fieldBytes_toField hy]
    · refine .inr ⟨.inr (hF.setB32_of_ge _ (by omega)), ?_⟩
      rintro x y rfl
      exact hy (by simpa [CoalitionKey.ofXy] using ZMod.val_lt y)
  · refine .inr ⟨.inl (hF.setB32_of_ge _ (by omega)), ?_⟩
    rintro x y rfl
    exact hx (by simpa [CoalitionKey.ofXy] using ZMod.val_lt x)

/-- The compressed sum, after a comparison with the supplied key if there is one. -/
def checkedPubkey (sum : Option (ZMod Secp256k1.p × ZMod Secp256k1.p))
    (key : Option CoalitionKey) : Except AttestationError (Bytes 33) :=
  match sum with
  | none => .error .invalidAggregateSignature
  | some (x, y) =>
    if ∀ k ∈ key, k = CoalitionKey.ofXy x y then .ok (encodeCompressed x y)
    else .error .invalidCoalitionKey

namespace CoalitionAccumulator

variable {coalition coalition' : CoalitionAccumulator lib} {x y : Bytes 32} {S P : Secp256k1.Point}

/-- A finite sum has a nonzero third coordinate. -/
def Proper (R : FieldReading lib) (coalition : CoalitionAccumulator lib) : Prop :=
  coalition.hasPoint = true → (R.jacobian coalition.jacobian).Proper

/-- The accumulator stands for the point `S`. -/
def Represents (R : FieldReading lib) (coalition : CoalitionAccumulator lib)
    (S : Secp256k1.Point) : Prop :=
  coalition.hasPoint = false ∧ S = 0 ∨
    coalition.hasPoint = true ∧ (R.jacobian coalition.jacobian).Represents S

theorem proper_default : (default lib).Proper R := fun h => absurd h (by simp [default])

theorem represents_default : (default lib).Represents R 0 := .inl ⟨rfl, rfl⟩

theorem exists_addStoredXy_iff (hF : FieldExact lib R) (hS : SumExact lib R) :
    (∃ coalition', coalition.addStoredXy x y = .ok coalition') ↔ CanonicalXy (x, y) := by
  simp only [addStoredXy, FallibleFolds.bind_eq_ok_iff]
  rcases affineFromStoredSecpXy_cases hF hS x y with ⟨hxy, ge, hge, -⟩ | ⟨hxy, herr⟩
  · simp only [hge, hxy, iff_true]
    cases coalition.hasPoint
    · exact ⟨_, ge, rfl, rfl⟩
    · exact ⟨_, ge, rfl, rfl⟩
  · simp [herr, hxy]

theorem addStoredXy_eq_error (hF : FieldExact lib R) (hS : SumExact lib R) {e : AttestationError}
    (h : coalition.addStoredXy x y = .error e) : e = .invalidAggregateSignature := by
  rw [addStoredXy, FallibleFolds.bind_eq_error_iff] at h
  rcases h with h | ⟨ge, -, h⟩
  · rcases affineFromStoredSecpXy_cases hF hS x y with ⟨-, ge, hge, -⟩ | ⟨-, herr⟩
    · simp [hge] at h
    · exact (Except.error.inj (herr.symm.trans h)).symm
  · split at h <;> simp [pure, Except.pure] at h

/-- One step keeps a finite sum proper, for any stored pair that is accepted. -/
theorem proper_addStoredXy (hF : FieldExact lib R) (hS : SumExact lib R)
    (hproper : coalition.Proper R) (h : coalition.addStoredXy x y = .ok coalition') :
    coalition'.hasPoint = true ∧ coalition'.Proper R := by
  rw [addStoredXy, FallibleFolds.bind_eq_ok_iff] at h
  obtain ⟨ge, hge, h⟩ := h
  rcases affineFromStoredSecpXy_cases hF hS x y with ⟨hxy, ge', hge', haffine⟩ | ⟨-, herr⟩
  · obtain rfl : ge' = ge := Except.ok.inj (hge'.symm.trans hge)
    cases hpoint : coalition.hasPoint with
    | false =>
      rw [hpoint] at h
      obtain rfl := Except.ok.inj h
      refine ⟨rfl, fun _ => ?_⟩
      rw [hS.jacobian_fromGe]
      exact fun _ => one_ne_zero
    | true =>
      rw [hpoint] at h
      obtain rfl := Except.ok.inj h
      refine ⟨rfl, fun _ => hS.proper_addGeVar _ _ (hproper hpoint) ?_ ?_⟩
      · rw [haffine]
      · rw [haffine]
        exact toField_ne_zero hxy.y_pos hxy.y_lt
  · simp [herr] at hge

theorem sum_addStoredXy_default (hF : FieldExact lib R) (hS : SumExact lib R)
    (h : (default lib).addStoredXy x y = .ok coalition') :
    R.sum coalition' = some (toField x, toField y) := by
  rw [addStoredXy, FallibleFolds.bind_eq_ok_iff] at h
  obtain ⟨ge, hge, h⟩ := h
  rcases affineFromStoredSecpXy_cases hF hS x y with ⟨-, ge', hge', haffine⟩ | ⟨-, herr⟩
  · obtain rfl : ge' = ge := Except.ok.inj (hge'.symm.trans hge)
    obtain rfl := Except.ok.inj h
    have hjacobian := hS.jacobian_fromGe ge'
    have hinf : lib.isInfinity (lib.fromGe ge') = false := by
      rw [haffine] at hjacobian
      exact congrArg Jacobian.infinity hjacobian
    rw [FieldReading.sum]
    simp only [hinf, Bool.not_true, Bool.or_self, Bool.false_eq_true, if_false]
    rw [hjacobian, haffine]
    simp [Jacobian.ofAffine, Jacobian.toAffine]
  · simp [herr] at hge

theorem represents_addStoredXy (hF : FieldExact lib R) (hS : SumExact lib R)
    (hG : GroupExact lib R) (hrep : coalition.Represents R S)
    (hP : HasCoords P (toField x) (toField y)) (h : coalition.addStoredXy x y = .ok coalition') :
    coalition'.Represents R (S + P) := by
  rw [addStoredXy, FallibleFolds.bind_eq_ok_iff] at h
  obtain ⟨ge, hge, h⟩ := h
  rcases affineFromStoredSecpXy_cases hF hS x y with ⟨-, ge', hge', haffine⟩ | ⟨-, herr⟩
  · obtain rfl : ge' = ge := Except.ok.inj (hge'.symm.trans hge)
    rcases hrep with ⟨hpoint, rfl⟩ | ⟨hpoint, hrep⟩
    · rw [hpoint] at h
      obtain rfl := Except.ok.inj h
      refine .inr ⟨rfl, ?_⟩
      rw [zero_add, hS.jacobian_fromGe, haffine]
      exact Jacobian.represents_ofAffine rfl hP
    · rw [hpoint] at h
      obtain rfl := Except.ok.inj h
      exact .inr ⟨rfl, hG.represents_addGeVar _ _ _ _ hrep (by rw [haffine]) (by rwa [haffine])⟩
  · simp [herr] at hge

theorem Represents.sum_cases (h : coalition.Represents R S) :
    (R.sum coalition = none ∧ S = 0) ∨ ∃ x y, R.sum coalition = some (x, y) ∧ HasCoords S x y := by
  rcases h with ⟨hpoint, rfl⟩ | ⟨hpoint, hrep⟩
  · exact .inl ⟨by simp [FieldReading.sum, hpoint], rfl⟩
  · cases hinf : lib.isInfinity coalition.jacobian with
    | true => exact .inl ⟨by simp [FieldReading.sum, hinf], hrep.infinity_iff.mp hinf⟩
    | false =>
      refine .inr ⟨_, _, by simp only [FieldReading.sum, hpoint, hinf]; rfl, ?_⟩
      exact ((Jacobian.represents_of_finite hinf).mp hrep).2

section Finished

variable (hF : FieldExact lib R) (hS : SumExact lib R) (hproper : coalition.Proper R)

theorem finishedSum_cases (hproper : coalition.Proper R) :
    (R.sum coalition = none ∧ coalition.finishedSum = .error .invalidAggregateSignature) ∨
      (R.sum coalition = some ((R.jacobian coalition.jacobian).toAffine.x,
          (R.jacobian coalition.jacobian).toAffine.y) ∧
        coalition.finishedSum = .ok coalition.jacobian ∧
        lib.isInfinity coalition.jacobian = false ∧ R.val coalition.jacobian.z ≠ 0) := by
  cases hcond : (!coalition.hasPoint || lib.isInfinity coalition.jacobian) with
  | true => exact .inl ⟨by simp [FieldReading.sum, hcond], by simp [finishedSum, hcond]⟩
  | false =>
    simp only [Bool.or_eq_false_iff, Bool.not_eq_false'] at hcond
    exact .inr ⟨by simp [FieldReading.sum, hcond.1, hcond.2],
      by simp [finishedSum, hcond.1, hcond.2], hcond.2, hproper hcond.1 hcond.2⟩

include hF hS hproper

theorem compressedPubkey_eq :
    coalition.compressedPubkey = checkedPubkey (R.sum coalition) none := by
  rcases finishedSum_cases hproper with ⟨hsum, hfin⟩ | ⟨hsum, hfin, hinf, hz⟩
  · rw [compressedPubkey, hfin, hsum]
    rfl
  · have hge := hS.affine_fromGej coalition.jacobian hinf hz
    rw [compressedPubkey, hfin, hsum]
    change Except.ok (compressAffine lib (lib.fromGej coalition.jacobian)) = _
    rw [compressAffine_eq hF, ← hge]
    simp [checkedPubkey, FieldReading.affine]

theorem coalitionKey_eq :
    coalition.coalitionKey = match R.sum coalition with
      | none => .error .invalidAggregateSignature
      | some (x, y) => .ok (CoalitionKey.ofXy x y) := by
  rcases finishedSum_cases hproper with ⟨hsum, hfin⟩ | ⟨hsum, hfin, hinf, hz⟩
  · rw [coalitionKey, hfin, hsum]
    rfl
  · have hge := hS.affine_fromGej coalition.jacobian hinf hz
    rw [coalitionKey, hfin, hsum]
    change Except.ok _ = _
    rw [hF.fillB32_eq _ (hF.normalized_normalize _), hF.fillB32_eq _ (hF.normalized_normalize _),
      hF.val_normalize, hF.val_normalize, ← hge]
    rfl

omit hS hproper in
/-- The third coordinate is invertible, so the two projective equations determine both residues. -/
theorem projectiveCheck_iff (hz : R.val coalition.jacobian.z ≠ 0) (fx fy : lib.Field) :
    (lib.eqVar (lib.mul fx (lib.sqr coalition.jacobian.z)) coalition.jacobian.x = true ∧
        lib.eqVar (lib.mul fy (lib.mul (lib.sqr coalition.jacobian.z) coalition.jacobian.z))
          coalition.jacobian.y = true) ↔
      R.val fx = (R.jacobian coalition.jacobian).toAffine.x ∧
        R.val fy = (R.jacobian coalition.jacobian).toAffine.y := by
  rw [hF.eqVar_iff, hF.eqVar_iff, hF.val_mul, hF.val_mul, hF.val_mul, hF.val_sqr, ← pow_succ]
  exact and_congr (eq_div_iff (pow_ne_zero 2 hz)).symm (eq_div_iff (pow_ne_zero 3 hz)).symm

/-- The projective check accepts exactly the canonical bytes of the affine sum. -/
theorem compressedPubkeyWithKey_eq (key : CoalitionKey) :
    coalition.compressedPubkeyWithKey key = checkedPubkey (R.sum coalition) (some key) := by
  rcases finishedSum_cases hproper with ⟨hsum, hfin⟩ | ⟨hsum, hfin, hinf, hz⟩
  · rw [compressedPubkeyWithKey, hfin, hsum]
    rfl
  rw [compressedPubkeyWithKey, hfin, hsum]
  change (match lib.setB32 key.x, lib.setB32 key.y with
    | some x, some y => _
    | _, _ => _) = _
  rcases CoalitionKey.setB32_cases hF key with ⟨fx, fy, hfx, hfy, hkey⟩ | ⟨hparse, hne⟩
  · have hcheck := projectiveCheck_iff hF hz fx fy
    rw [hfx, hfy]
    simp only [checkedPubkey, Option.mem_some_iff, forall_eq']
    by_cases hgood : R.val fx = (R.jacobian coalition.jacobian).toAffine.x ∧
        R.val fy = (R.jacobian coalition.jacobian).toAffine.y
    · have hboth := hcheck.mpr hgood
      have hge := hS.affine_setXy fx fy
      have hxx : R.val (lib.setXy fx fy).x = R.val fx := congrArg Affine.x hge
      have hyy : R.val (lib.setXy fx fy).y = R.val fy := congrArg Affine.y hge
      rw [if_neg (by simp [hboth.1, hboth.2]),
        if_pos (by rw [hkey, CoalitionKey.ofXy_inj]; exact hgood), ← hgood.1, ← hgood.2]
      change Except.ok (compressAffine lib (lib.setXy fx fy)) = _
      rw [compressAffine_eq hF, hxx, hyy]
    · rw [if_pos, if_neg (by rw [hkey, CoalitionKey.ofXy_inj]; exact hgood)]
      rw [← Bool.not_and, Bool.not_eq_true', ← Bool.not_eq_true, Bool.and_eq_true, hcheck]
      exact hgood
  · simp only [checkedPubkey, Option.mem_some_iff, forall_eq', hne, if_false]
    cases hparse with
    | inl h => rw [h]
    | inr h =>
      rw [h]
      cases lib.setB32 key.x <;> rfl

end Finished

end CoalitionAccumulator

end MolphaVerifier
