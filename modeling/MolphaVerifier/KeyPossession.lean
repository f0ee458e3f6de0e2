import MolphaVerifier.LowSRecovery
import MolphaVerifier.SchnorrSoundness

/-!
# Proofs of possession

A key is registered with a Schnorr signature over a message that names the program and the subject.
The nonce is given by its first coordinate and has an even second one. `validatePossession_exact`
says that registration accepts exactly the encodings of curve points whose possession proof
satisfies the Schnorr equation, and returns the coordinates of the point.
-/

namespace MolphaVerifier

open FixedBytes FallibleFolds ShortWeierstrass SchnorrEquations

/-- `MOLPHA_NODE_POP_V1`. -/
def nodePopPrefix : List UInt8 := [
  0x4d, 0x4f, 0x4c, 0x50, 0x48, 0x41, 0x5f, 0x4e, 0x4f, 0x44, 0x45, 0x5f, 0x50, 0x4f, 0x50, 0x5f,
  0x56, 0x31]

/-- `MOLPHA_PROVIDER_POP_V1`. -/
def providerPopPrefix : List UInt8 := [
  0x4d, 0x4f, 0x4c, 0x50, 0x48, 0x41, 0x5f, 0x50, 0x52, 0x4f, 0x56, 0x49, 0x44, 0x45, 0x52, 0x5f,
  0x50, 0x4f, 0x50, 0x5f, 0x56, 0x31]

inductive NodePopError where
  | invalidPublicKey
  | invalidProof
  deriving DecidableEq, Repr

section Definitions

variable (lib : Libsecp256k1) (prims : Primitives)

/-- The affine coordinates of a compressed key. -/
def normalizePublicKey (publicKeyCompressed : Bytes 33) : Except NodePopError SignerXy :=
  match lib.parseCompressed publicKeyCompressed with
  | none => .error .invalidPublicKey
  | some publicKey =>
    let x := afterLead publicKeyCompressed
    if !secp256k1ScalarIsValidNonzero x ∨
        lib.serializeCompressed publicKey ≠ publicKeyCompressed then
      .error .invalidPublicKey
    else
      let uncompressed := lib.serialize publicKey
      let y : Bytes 32 := rightHalf (afterLead uncompressed)
      .ok (x, y)

/-- Check a possession proof `(r, s)` by recovering the nonce. -/
def verifyPop (popMessage : Bytes 32) (publicKeyCompressed : Bytes 33)
    (publicKeyX popSigR popSigS : Bytes 32) : Except NodePopError Unit :=
  if !secp256k1ScalarIsValidNonzero popSigS then .error .invalidProof
  else
    let nonceCompressed := (#v[0x02] : Bytes 1) ++ popSigR
    match prims.lib.parseCompressed nonceCompressed with
    | none => .error .invalidProof
    | some nonce =>
      let expectedNonce := prims.lib.serialize nonce
      let parityBit := leadByte publicKeyCompressed &&& 1
      let challenge := secp256k1ScalarReduceBe (hashv prims.keccak
        [publicKeyX.toList, [parityBit], popMessage.toList, popSigR.toList])
      let ecdsaHash := negateModN (mulMod popSigS publicKeyX)
      let ecdsaS := negateModN (mulMod challenge publicKeyX)
      if ecdsaS = Vector.replicate 32 0 then .error .invalidProof
      else
        match secp256k1EcdsaNormalizeLowS parityBit (publicKeyX ++ ecdsaS) with
        | .error _ => .error .invalidProof
        | .ok (recoveryId, ecdsaSignature) =>
          match prims.secp256k1Recover ecdsaHash recoveryId ecdsaSignature with
          | none => .error .invalidProof
          | some recoveredNonce =>
            if recoveredNonce ≠ afterLead expectedNonce then .error .invalidProof else .ok ()

def deriveNodePopMessage (keccak : Keccak) (programId nodeId : Bytes 32) : Bytes 32 :=
  hashv keccak [nodePopPrefix, programId.toList, nodeId.toList]

def deriveProviderPopMessage (keccak : Keccak) (programId authority : Bytes 32) : Bytes 32 :=
  hashv keccak [providerPopPrefix, programId.toList, authority.toList]

/-- Validate a key and its possession proof over a message. -/
def validatePossession (popMessage : Bytes 32) (publicKeyCompressed : Bytes 33)
    (popSigR popSigS : Bytes 32) : Except NodePopError SignerXy := do
  let coordinates ← normalizePublicKey prims.lib publicKeyCompressed
  verifyPop prims popMessage publicKeyCompressed coordinates.1 popSigR popSigS
  pure coordinates

/-- Validate a node key: the message names the program and the node. -/
def validateKeyAndVerifyPop (programId nodeId : Bytes 32) (publicKeyCompressed : Bytes 33)
    (popSigR popSigS : Bytes 32) : Except NodePopError SignerXy :=
  validatePossession prims (deriveNodePopMessage prims.keccak programId nodeId)
    publicKeyCompressed popSigR popSigS

/-- Validate a provider key: the message names the program and the authority. -/
def validateProviderKeyAndVerifyPop (programId authority : Bytes 32)
    (publicKeyCompressed : Bytes 33) (popSigR popSigS : Bytes 32) :
    Except NodePopError SignerXy :=
  validatePossession prims (deriveProviderPopMessage prims.keccak programId authority)
    publicKeyCompressed popSigR popSigS

end Definitions

/-- The bytes are the compressed encoding of a point whose first coordinate is a nonzero scalar. -/
structure EncodesKey (publicKeyCompressed : Bytes 33) (P : Secp256k1.Point)
    (x y : ZMod Secp256k1.p) : Prop where
  coords : HasCoords P x y
  x_pos : 0 < x.val
  x_lt : x.val < Secp256k1.n
  eq_encode : publicKeyCompressed = encodeCompressed x y

/-- The point with first coordinate `r` and an even second coordinate. -/
structure EvenNonce (r : Bytes 32) (R : Secp256k1.Point) (y : ZMod Secp256k1.p) : Prop where
  r_lt : bytesToNat r < Secp256k1.p
  coords : HasCoords R (toField r) y
  even : y.val % 2 = 0

def popChallenge (keccak : Keccak) (px : Bytes 32) (parity : UInt8) (popMessage r : Bytes 32) :
    ZMod Secp256k1.n :=
  toScalar (hashv keccak [px.toList, [parity], popMessage.toList, r.toList])

/-- The Schnorr equation of a possession proof `(r, s)` for the key `P = (x, y)`. -/
structure PossessionHolds (keccak : Keccak) (P : Secp256k1.Point) (x y : ZMod Secp256k1.p)
    (popMessage r s : Bytes 32) : Prop where
  s_pos : 1 ≤ bytesToNat s
  s_lt : bytesToNat s < Secp256k1.n
  challenge_ne_zero : popChallenge keccak (fieldBytes x) (parityOf y) popMessage r ≠ 0
  equation : ∃ R yR, EvenNonce r R yR ∧ toScalar s • Secp256k1.G =
    R + popChallenge keccak (fieldBytes x) (parityOf y) popMessage r • P

section Keys

variable {lib : Libsecp256k1} {P Q : Secp256k1.Point} {x y x' y' : ZMod Secp256k1.p}
  {publicKeyCompressed : Bytes 33} {r : Bytes 32}

theorem eq_of_parityOf_eq (hP : HasCoords P x y) (hQ : HasCoords Q x y')
    (hparity : parityOf y = parityOf y') : y = y' := by
  have hsquare : y ^ 2 = y' ^ 2 := hP.onCurve.trans hQ.onCurve.symm
  rcases sq_eq_sq_iff_eq_or_eq_neg.mp hsquare with hy | hy
  · exact hy
  · rw [hy, parityOf_neg (Secp256k1.y_ne_zero hQ)] at hparity
    rcases parityOf_lt_two y' with hp | hp <;> rw [hp] at hparity <;> exact absurd hparity (by decide)

theorem encodeCompressed_inj (hP : HasCoords P x y) (hQ : HasCoords Q x' y')
    (h : encodeCompressed x y = encodeCompressed x' y') : x = x' ∧ y = y' := by
  have hx := congrArg afterLead h
  rw [afterLead_encodeCompressed, afterLead_encodeCompressed, fieldBytes_injective.eq_iff] at hx
  subst hx
  have hparity := congrArg (fun b => leadByte b &&& 1) h
  simp only [encodeCompressed_parity] at hparity
  exact ⟨rfl, eq_of_parityOf_eq hP hQ hparity⟩

theorem EvenNonce.unique (h : EvenNonce r P y) (h' : EvenNonce r Q y') : P = Q ∧ y = y' := by
  have hparity : parityOf y = parityOf y' := by
    rw [parityOf, parityOf, h.even, h'.even]
  obtain rfl := eq_of_parityOf_eq h.coords h'.coords hparity
  exact ⟨h.coords.ext h'.coords, rfl⟩

theorem EncodesKey.unique (h : EncodesKey publicKeyCompressed P x y)
    (h' : EncodesKey publicKeyCompressed Q x' y') : P = Q ∧ x = x' ∧ y = y' := by
  obtain ⟨rfl, rfl⟩ := encodeCompressed_inj h.coords h'.coords (h.eq_encode.symm.trans h'.eq_encode)
  exact ⟨h.coords.ext h'.coords, rfl, rfl⟩

theorem encodesKey_of_coords (hP : HasCoords P x y) (hx : x.val < Secp256k1.n) :
    EncodesKey (encodeCompressed x y) P x y where
  coords := hP
  x_pos := by
    rw [Nat.pos_iff_ne_zero, ne_eq, ZMod.val_eq_zero]
    exact Secp256k1.x_ne_zero hP
  x_lt := hx
  eq_encode := rfl

/-- Normalization accepts exactly the encodings of points, and returns their coordinates. -/
theorem normalizePublicKey_cases (hK : KeyParsingExact lib) (publicKeyCompressed : Bytes 33) :
    (∃ P x y, EncodesKey publicKeyCompressed P x y ∧
        normalizePublicKey lib publicKeyCompressed = .ok (fieldBytes x, fieldBytes y)) ∨
      ((¬∃ P x y, EncodesKey publicKeyCompressed P x y) ∧
        normalizePublicKey lib publicKeyCompressed = .error .invalidPublicKey) := by
  cases hparse : lib.parseCompressed publicKeyCompressed with
  | none =>
    refine .inr ⟨?_, by rw [normalizePublicKey, hparse]⟩
    rintro ⟨P, x, y, hkey⟩
    obtain ⟨k, hk⟩ := hK.exists_parse P x y hkey.coords
    rw [← hkey.eq_encode, hparse] at hk
    cases hk
  | some k =>
    obtain ⟨P, x, y, hP, rfl, hserialize, hcompressed⟩ := hK.of_parse _ k hparse
    have hvalid : secp256k1ScalarIsValidNonzero (fieldBytes x) = true ↔
        0 < x.val ∧ x.val < Secp256k1.n := by
      rw [secp256k1ScalarIsValidNonzero_iff, bytesToNat_fieldBytes]
    rw [normalizePublicKey, hparse]
    simp only [afterLead_encodeCompressed, hcompressed, ne_eq, not_true_eq_false, or_false,
      hserialize, afterLead_encodeUncompressed]
    by_cases hx : 0 < x.val ∧ x.val < Secp256k1.n
    · refine .inl ⟨P, x, y, ⟨hP, hx.1, hx.2, rfl⟩, ?_⟩
      rw [hvalid.mpr hx, encodeXy, rightHalf_append]
      rfl
    · refine .inr ⟨?_, ?_⟩
      · rintro ⟨Q, x', y', hkey⟩
        obtain ⟨rfl, rfl⟩ := encodeCompressed_inj hP hkey.coords hkey.eq_encode
        exact hx ⟨hkey.x_pos, hkey.x_lt⟩
      · have hinvalid : secp256k1ScalarIsValidNonzero (fieldBytes x) = false := by
          rw [← Bool.not_eq_true, hvalid]
          exact hx
        rw [hinvalid]
        rfl

theorem parseNonce_cases (hK : KeyParsingExact lib) (r : Bytes 32) :
    (∃ k R y, lib.parseCompressed ((#v[0x02] : Bytes 1) ++ r) = some k ∧ EvenNonce r R y ∧
        afterLead (lib.serialize k) = encodeXy (toField r) y) ∨
      (lib.parseCompressed ((#v[0x02] : Bytes 1) ++ r) = none ∧ ∀ R y, ¬EvenNonce r R y) := by
  have hencode {R : Secp256k1.Point} {y : ZMod Secp256k1.p} (h : EvenNonce r R y) :
      encodeCompressed (toField r) y = (#v[0x02] : Bytes 1) ++ r := by
    rw [encodeCompressed, if_neg (by rw [h.even]; decide), fieldBytes_toField h.r_lt]
  cases hparse : lib.parseCompressed ((#v[0x02] : Bytes 1) ++ r) with
  | none =>
    refine .inr ⟨rfl, fun R y h => ?_⟩
    obtain ⟨k, hk⟩ := hK.exists_parse R _ y h.coords
    rw [hencode h, hparse] at hk
    cases hk
  | some k =>
    obtain ⟨R, x, y, hR, hbytes, hserialize, -⟩ := hK.of_parse _ k hparse
    rw [encodeCompressed, append_inj] at hbytes
    obtain ⟨htag, rfl⟩ := hbytes
    have htags : (#v[0x02] : Bytes 1) ≠ #v[0x03] := by decide
    have heven : y.val % 2 = 0 := by
      by_contra hodd
      rw [if_pos (by omega)] at htag
      exact htags htag
    refine .inl ⟨k, R, y, rfl, ⟨?_, ?_, heven⟩, ?_⟩
    · exact bytesToNat_fieldBytes_lt x
    · rwa [toField_fieldBytes]
    · rw [hserialize, afterLead_encodeUncompressed, toField_fieldBytes]

end Keys

section Proofs

variable {prims : Primitives} {P : Secp256k1.Point} {x y : ZMod Secp256k1.p}
  {popMessage r s : Bytes 32}

/-- The challenge scalar of the code, reduced. -/
def popChallengeBytes (keccak : Keccak) (px : Bytes 32) (parity : UInt8)
    (popMessage r : Bytes 32) : Bytes 32 :=
  secp256k1ScalarReduceBe
    (hashv keccak [px.toList, [parity], popMessage.toList, r.toList])

theorem toScalar_popChallengeBytes (keccak : Keccak) (px : Bytes 32) (parity : UInt8)
    (popMessage r : Bytes 32) : toScalar (popChallengeBytes keccak px parity popMessage r) =
      popChallenge keccak px parity popMessage r :=
  toScalar_modReduceOnce _

/-- The checks of a possession proof: a scalar, a nonce point, and a recovery that returns it. The
explicit zero check is the one of the normalization. -/
theorem verifyPop_eq_ok_iff_checks {publicKeyCompressed : Bytes 33} {px : Bytes 32} :
    verifyPop prims popMessage publicKeyCompressed px r s = .ok () ↔
      secp256k1ScalarIsValidNonzero s = true ∧
      ∃ k, prims.lib.parseCompressed ((#v[0x02] : Bytes 1) ++ r) = some k ∧
        recoverLowS prims.secp256k1Recover (negateModN (mulMod s px))
          (leadByte publicKeyCompressed &&& 1)
          (px ++ negateModN (mulMod (popChallengeBytes prims.keccak px
            (leadByte publicKeyCompressed &&& 1) popMessage r) px)) =
            some (afterLead (prims.lib.serialize k)) := by
  rw [verifyPop]
  cases hscalar : secp256k1ScalarIsValidNonzero s with
  | false => simp
  | true =>
    simp only [Bool.not_true, Bool.false_eq_true, if_false, true_and]
    cases hparse : prims.lib.parseCompressed ((#v[0x02] : Bytes 1) ++ r) with
    | none => simp
    | some k =>
      simp only [Option.some.injEq, exists_eq_left']
      rw [← popChallengeBytes]
      set t := negateModN (mulMod (popChallengeBytes prims.keccak px
        (leadByte publicKeyCompressed &&& 1) popMessage r) px)
      by_cases hzero : t = Vector.replicate 32 0
      · rw [if_pos hzero, recoverLowS_of_zero _ (eq_replicate_zero_iff.mp hzero)]
        simp
      · rw [if_neg hzero, recoverLowS]
        cases secp256k1EcdsaNormalizeLowS (leadByte publicKeyCompressed &&& 1) (px ++ t) with
        | error e => simp
        | ok normalized =>
          simp only []
          cases prims.secp256k1Recover (negateModN (mulMod s px)) normalized.1 normalized.2 with
          | none => simp
          | some out =>
            by_cases hout : out = afterLead (prims.lib.serialize k) <;> simp [hout]

theorem verifyPop_eq_error {publicKeyCompressed : Bytes 33} {px : Bytes 32} {e : NodePopError}
    (h : verifyPop prims popMessage publicKeyCompressed px r s = .error e) :
    e = .invalidProof := by
  rw [verifyPop] at h
  split at h
  · exact (Except.error.inj h).symm
  dsimp only at h
  split at h
  · exact (Except.error.inj h).symm
  split at h
  · exact (Except.error.inj h).symm
  split at h
  · exact (Except.error.inj h).symm
  split at h
  · exact (Except.error.inj h).symm
  split at h
  · exact (Except.error.inj h).symm
  · cases h

/-- For a key that encodes a point the checks are a recovered nonce with an even second
coordinate. -/
theorem verifyPop_eq_ok_iff_nonce (hRec : RecoverExact prims.secp256k1Recover)
    {publicKeyCompressed : Bytes 33} (hkey : EncodesKey publicKeyCompressed P x y) :
    verifyPop prims popMessage publicKeyCompressed (fieldBytes x) r s = .ok () ↔
      (0 < bytesToNat s ∧ bytesToNat s < Secp256k1.n) ∧
      ∃ k, prims.lib.parseCompressed ((#v[0x02] : Bytes 1) ++ r) = some k ∧
        popChallenge prims.keccak (fieldBytes x) (parityOf y) popMessage r ≠ 0 ∧
        ∃ x' y', HasCoords (nonce Secp256k1.G P (toScalar s)
            (popChallenge prims.keccak (fieldBytes x) (parityOf y) popMessage r)) x' y' ∧
          afterLead (prims.lib.serialize k) = encodeXy x' y' := by
  have hparity : leadByte publicKeyCompressed &&& 1 = parityOf y := by
    rw [hkey.eq_encode, encodeCompressed_parity]
  have hcoords : HasCoords P (toField (fieldBytes x)) y := by
    rw [toField_fieldBytes]
    exact hkey.coords
  have hrange : 0 < bytesToNat (fieldBytes x) ∧ bytesToNat (fieldBytes x) < Secp256k1.n := by
    rw [bytesToNat_fieldBytes]
    exact ⟨hkey.x_pos, hkey.x_lt⟩
  rw [verifyPop_eq_ok_iff_checks, secp256k1ScalarIsValidNonzero_iff, hparity]
  simp only [recoverLowS_nonce_iff hRec hcoords hrange, toScalar_popChallengeBytes]

theorem verifyPop_eq_ok_iff (hK : KeyParsingExact prims.lib)
    (hRec : RecoverExact prims.secp256k1Recover) {publicKeyCompressed : Bytes 33}
    (hkey : EncodesKey publicKeyCompressed P x y) :
    verifyPop prims popMessage publicKeyCompressed (fieldBytes x) r s = .ok () ↔
      PossessionHolds prims.keccak P x y popMessage r s := by
  rw [verifyPop_eq_ok_iff_nonce hRec hkey]
  have hequation {R : Secp256k1.Point} {e : ZMod Secp256k1.n} :
      nonce Secp256k1.G P (toScalar s) e = R ↔ toScalar s • Secp256k1.G = R + e • P :=
    sub_eq_iff_eq_add
  constructor
  · rintro ⟨⟨hpos, hlt⟩, k, hparse, hne, x', y', hnonce, hout⟩
    rcases parseNonce_cases hK r with ⟨k', R, yR, hk', heven, hbytes⟩ | ⟨hnone, -⟩
    · obtain rfl : k' = k := Option.some.inj (hk'.symm.trans hparse)
      rw [hbytes, encodeXy_inj] at hout
      obtain ⟨rfl, rfl⟩ := hout
      exact ⟨hpos, hlt, hne, R, _, heven, hequation.mp (hnonce.ext heven.coords)⟩
    · rw [hnone] at hparse
      cases hparse
  · rintro ⟨hpos, hlt, hne, R, yR, heven, hequals⟩
    rcases parseNonce_cases hK r with ⟨k, R', y', hk, heven', hbytes⟩ | ⟨-, hnone⟩
    · obtain ⟨rfl, rfl⟩ := heven'.unique heven
      refine ⟨⟨hpos, hlt⟩, k, hk, hne, _, _, ?_, hbytes⟩
      rw [hequation.mpr hequals]
      exact heven.coords
    · exact absurd heven (hnone R yR)

end Proofs

section Registration

variable {prims : Primitives}

/-- Registration decides the Schnorr equation of the point that the key bytes encode. -/
structure PossessionExact (keccak : Keccak) (popMessage : Bytes 32) (publicKeyCompressed : Bytes 33)
    (r s : Bytes 32) (outcome : Except NodePopError SignerXy) : Prop where
  invalidPublicKey_iff : outcome = .error .invalidPublicKey ↔
    ¬∃ P x y, EncodesKey publicKeyCompressed P x y
  ok_iff : ∀ P x y, EncodesKey publicKeyCompressed P x y →
    (outcome = .ok (fieldBytes x, fieldBytes y) ↔ PossessionHolds keccak P x y popMessage r s)
  invalidProof : ∀ P x y, EncodesKey publicKeyCompressed P x y →
    ¬PossessionHolds keccak P x y popMessage r s → outcome = .error .invalidProof
  recompress : ∀ key, outcome = .ok key →
    encodeCompressed (toField key.1) (toField key.2) = publicKeyCompressed

theorem validatePossession_cases (hK : KeyParsingExact prims.lib)
    (hRec : RecoverExact prims.secp256k1Recover) (popMessage : Bytes 32)
    (publicKeyCompressed : Bytes 33) (r s : Bytes 32) :
    ((¬∃ P x y, EncodesKey publicKeyCompressed P x y) ∧
        validatePossession prims popMessage publicKeyCompressed r s = .error .invalidPublicKey) ∨
      ∃ P x y, EncodesKey publicKeyCompressed P x y ∧
        ((PossessionHolds prims.keccak P x y popMessage r s ∧
            validatePossession prims popMessage publicKeyCompressed r s =
              .ok (fieldBytes x, fieldBytes y)) ∨
          (¬PossessionHolds prims.keccak P x y popMessage r s ∧
            validatePossession prims popMessage publicKeyCompressed r s =
              .error .invalidProof)) := by
  rcases normalizePublicKey_cases hK publicKeyCompressed with
    ⟨P, x, y, hkey, hnormal⟩ | ⟨hnone, herror⟩
  · have hrun : validatePossession prims popMessage publicKeyCompressed r s =
        verifyPop prims popMessage publicKeyCompressed (fieldBytes x) r s >>= fun _ =>
          .ok (fieldBytes x, fieldBytes y) := by
      rw [validatePossession, hnormal]
      rfl
    have hiff : verifyPop prims popMessage publicKeyCompressed (fieldBytes x) r s = .ok () ↔
        PossessionHolds prims.keccak P x y popMessage r s := verifyPop_eq_ok_iff hK hRec hkey
    refine .inr ⟨P, x, y, hkey, ?_⟩
    rw [hrun]
    cases hpop : verifyPop prims popMessage publicKeyCompressed (fieldBytes x) r s with
    | ok _ => exact .inl ⟨hiff.mp hpop, rfl⟩
    | error e =>
      obtain rfl := verifyPop_eq_error hpop
      refine .inr ⟨?_, rfl⟩
      rw [← hiff, hpop]
      exact fun h => nomatch h
  · refine .inl ⟨hnone, ?_⟩
    rw [validatePossession, herror]
    rfl

theorem possessionExact (hK : KeyParsingExact prims.lib)
    (hRec : RecoverExact prims.secp256k1Recover) (popMessage : Bytes 32)
    (publicKeyCompressed : Bytes 33) (r s : Bytes 32) :
    PossessionExact prims.keccak popMessage publicKeyCompressed r s
      (validatePossession prims popMessage publicKeyCompressed r s) := by
  rcases validatePossession_cases hK hRec popMessage publicKeyCompressed r s with
    ⟨hnone, hrun⟩ | ⟨P, x, y, hkey, ⟨hholds, hrun⟩ | ⟨hnot, hrun⟩⟩
  · rw [hrun]
    constructor
    · exact ⟨fun _ => hnone, fun _ => rfl⟩
    · exact fun P x y hkey => absurd ⟨P, x, y, hkey⟩ hnone
    · exact fun P x y hkey => absurd ⟨P, x, y, hkey⟩ hnone
    · exact fun key h => nomatch h
  · rw [hrun]
    constructor
    · exact ⟨fun h => (nomatch h), fun h => absurd ⟨P, x, y, hkey⟩ h⟩
    · intro Q x' y' hkey'
      obtain ⟨rfl, rfl, rfl⟩ := hkey.unique hkey'
      exact ⟨fun _ => hholds, fun _ => rfl⟩
    · intro Q x' y' hkey' hnot
      obtain ⟨rfl, rfl, rfl⟩ := hkey.unique hkey'
      exact absurd hholds hnot
    · intro key hok
      obtain rfl := Except.ok.inj hok
      rw [toField_fieldBytes, toField_fieldBytes, ← hkey.eq_encode]
  · rw [hrun]
    constructor
    · exact ⟨fun h => (nomatch h), fun h => absurd ⟨P, x, y, hkey⟩ h⟩
    · intro Q x' y' hkey'
      obtain ⟨rfl, rfl, rfl⟩ := hkey.unique hkey'
      exact ⟨fun h => (nomatch h), fun h => absurd h hnot⟩
    · exact fun _ _ _ _ _ => rfl
    · exact fun key h => nomatch h

/-- Node and provider registration decide the Schnorr equation, each over its own message. -/
theorem registration_exact (hK : KeyParsingExact prims.lib)
    (hRec : RecoverExact prims.secp256k1Recover) (programId subject : Bytes 32)
    (publicKeyCompressed : Bytes 33) (r s : Bytes 32) :
    PossessionExact prims.keccak (deriveNodePopMessage prims.keccak programId subject)
        publicKeyCompressed r s
        (validateKeyAndVerifyPop prims programId subject publicKeyCompressed r s) ∧
      PossessionExact prims.keccak (deriveProviderPopMessage prims.keccak programId subject)
        publicKeyCompressed r s
        (validateProviderKeyAndVerifyPop prims programId subject publicKeyCompressed r s) :=
  ⟨possessionExact hK hRec _ publicKeyCompressed r s,
    possessionExact hK hRec _ publicKeyCompressed r s⟩

end Registration

section Sample

def sampleCompressedKey : Bytes 33 :=
  encodeCompressed Secp256k1.generatorX Secp256k1.generatorY

theorem encodesKey_sample : EncodesKey sampleCompressedKey Secp256k1.G Secp256k1.generatorX
    Secp256k1.generatorY :=
  encodesKey_of_coords Secp256k1.hasCoords_G Secp256k1.generatorX_val_lt

theorem evenNonce_sample :
    EvenNonce (fieldBytes Secp256k1.generatorX) Secp256k1.G Secp256k1.generatorY where
  r_lt := bytesToNat_fieldBytes_lt Secp256k1.generatorX
  coords := by
    rw [toField_fieldBytes]
    exact Secp256k1.hasCoords_G
  even := Secp256k1.generatorY_val_even

/-- With the challenge `k`, `s = k m + 1` proves possession of `m G` with the generator as nonce. -/
theorem possessionHolds_nsmul {keccak : Keccak} {popMessage : Bytes 32} {x y : ZMod Secp256k1.p}
    {k : ℕ} (m : ℕ) (hk : 0 < k) (hkn : k < Secp256k1.n) (hlt : k * m + 1 < Secp256k1.n)
    (hchallenge : popChallenge keccak (fieldBytes x) (parityOf y) popMessage
      (fieldBytes Secp256k1.generatorX) = k) :
    PossessionHolds keccak (m • Secp256k1.G) x y popMessage (fieldBytes Secp256k1.generatorX)
      (natToBytes 32 (k * m + 1)) := by
  have hwidth : k * m + 1 < 256 ^ 32 := hlt.trans (by norm_num [Secp256k1.n])
  constructor
  · rw [bytesToNat_natToBytes_of_lt hwidth]
    omega
  · rwa [bytesToNat_natToBytes_of_lt hwidth]
  · rw [hchallenge, ne_eq, ZMod.natCast_eq_zero_iff]
    exact Nat.not_dvd_of_pos_of_lt hk hkn
  · refine ⟨Secp256k1.G, Secp256k1.generatorY, evenNonce_sample, ?_⟩
    rw [hchallenge, toScalar_natToBytes hwidth, ← Secp256k1.natCast_smul m]
    push_cast
    module

theorem possessionHolds_generator {keccak : Keccak} {popMessage : Bytes 32} {k : ℕ} (hk : 0 < k)
    (hlt : k + 1 < Secp256k1.n)
    (hchallenge : popChallenge keccak (fieldBytes Secp256k1.generatorX)
      (parityOf Secp256k1.generatorY) popMessage (fieldBytes Secp256k1.generatorX) = k) :
    PossessionHolds keccak Secp256k1.G Secp256k1.generatorX Secp256k1.generatorY popMessage
      (fieldBytes Secp256k1.generatorX) (natToBytes 32 (k + 1)) := by
  have hholds := possessionHolds_nsmul 1 hk (Nat.lt_of_succ_lt hlt) (by rwa [mul_one]) hchallenge
  rwa [one_nsmul, mul_one] at hholds

theorem possessionHolds_sample (popMessage : Bytes 32) :
    PossessionHolds sampleKeccak Secp256k1.G Secp256k1.generatorX Secp256k1.generatorY popMessage
      (fieldBytes Secp256k1.generatorX) (natToBytes 32 2) := by
  refine possessionHolds_generator one_pos (by norm_num [Secp256k1.n]) ?_
  change toScalar (natToBytes 32 1) = _
  exact toScalar_natToBytes (by norm_num)

theorem registration_exact_sample :
    validateKeyAndVerifyPop (referencePrimitives sampleKeccak) (natToBytes 32 5) (natToBytes 32 6)
        sampleCompressedKey (fieldBytes Secp256k1.generatorX) (natToBytes 32 2) =
      .ok (fieldBytes Secp256k1.generatorX, fieldBytes Secp256k1.generatorY) :=
  ((registration_exact keyParsingExact_reference recoverExact_reference (natToBytes 32 5)
    (natToBytes 32 6) sampleCompressedKey (fieldBytes Secp256k1.generatorX)
    (natToBytes 32 2)).1.ok_iff _ _ _ encodesKey_sample).mpr (possessionHolds_sample _)

end Sample

end MolphaVerifier