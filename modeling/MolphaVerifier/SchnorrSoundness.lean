import MolphaVerifier.AttestationVerification
import MolphaVerifier.ReferencePrimitives

/-!
# What an accepted attestation proves

`recoverAndMatch` evaluates a Schnorr equation through ECDSA recovery. `SchnorrAccepts` is that
equation on points: a nonzero challenge, a key with first coordinate below the group order, and a
finite nonce whose address is the commitment. `verify` without a coalition key accepts exactly when
the version, the scalar, the quorum and every signer's record are in order and the equation holds for
the sum of the signers' keys.
-/

namespace MolphaVerifier

open FixedBytes BitVecIteration FallibleFolds ShortWeierstrass SchnorrEquations

/-- The signature `s` with this commitment satisfies the Schnorr equation for the key `X`. -/
def SchnorrAccepts (keccak : Keccak) (X : Secp256k1.Point) (messageHash s : Bytes 32)
    (commitment : Bytes 20) : Prop :=
  ∃ x y, HasCoords X x y ∧ x.val < Secp256k1.n ∧
    schnorrChallenge keccak (fieldBytes x) (parityOf y) messageHash commitment ≠ 0 ∧
    ∃ x' y', HasCoords (nonce Secp256k1.G X (toScalar s)
        (schnorrChallenge keccak (fieldBytes x) (parityOf y) messageHash commitment)) x' y' ∧
      ethAddressFromUncompressedPubkey keccak (encodeXy x' y') = commitment

section Recovery

variable {prims : Primitives} {X : Secp256k1.Point} {x y : ZMod Secp256k1.p}

theorem schnorrAccepts_iff {keccak : Keccak} (hX : HasCoords X x y) {messageHash s : Bytes 32}
    {commitment : Bytes 20} :
    SchnorrAccepts keccak X messageHash s commitment ↔ x.val < Secp256k1.n ∧
      schnorrChallenge keccak (fieldBytes x) (parityOf y) messageHash commitment ≠ 0 ∧
      ∃ x' y', HasCoords (nonce Secp256k1.G X (toScalar s)
          (schnorrChallenge keccak (fieldBytes x) (parityOf y) messageHash commitment)) x' y' ∧
        ethAddressFromUncompressedPubkey keccak (encodeXy x' y') = commitment := by
  constructor
  · rintro ⟨x₁, y₁, hX₁, h⟩
    obtain ⟨rfl, rfl⟩ := hX.unique hX₁
    exact h
  · intro h
    exact ⟨x, y, hX, h⟩

theorem toScalar_fieldBytes_ne_zero (hX : HasCoords X x y) (hx : x.val < Secp256k1.n) :
    toScalar (fieldBytes x) ≠ 0 := by
  intro h
  rw [toScalar_eq_zero_iff, bytesToNat_fieldBytes, Nat.mod_eq_of_lt hx, ZMod.val_eq_zero] at h
  exact Secp256k1.x_ne_zero hX h

/-- A recovery instance that evaluates `s G - e X` for the key `(x, y)`: a low `t`, with the parity
of the key and `t = -e x`, or with the other parity and `t = e x`. -/
structure EvaluatesNonce (x y : ZMod Secp256k1.p) (s e : ZMod Secp256k1.n) (v : UInt8)
    (t z : Bytes 32) : Prop where
  t_le : bytesToNat t ≤ Secp256k1.n / 2
  hash_eq : toScalar z = -(s * toScalar (fieldBytes x))
  sign : v = parityOf y ∧ toScalar t = -(e * toScalar (fieldBytes x)) ∨
    v = parityOf y ^^^ 1 ∧ toScalar t = e * toScalar (fieldBytes x)

namespace EvaluatesNonce

variable {s e : ZMod Secp256k1.n} {v : UInt8} {t z : Bytes 32}

theorem t_pos_iff (h : EvaluatesNonce x y s e v t z) (hx : toScalar (fieldBytes x) ≠ 0) :
    1 ≤ bytesToNat t ↔ e ≠ 0 := by
  have hlow := h.t_le
  have hn := n_pos
  have ht : toScalar t = 0 ↔ bytesToNat t = 0 := by
    rw [toScalar_eq_zero_iff, Nat.mod_eq_of_lt (by omega)]
  have he : toScalar t = 0 ↔ e = 0 := by
    rcases h.sign with ⟨-, hneg⟩ | ⟨-, hpos⟩
    · rw [hneg, neg_eq_zero, mul_eq_zero, or_iff_left hx]
    · rw [hpos, mul_eq_zero, or_iff_left hx]
  rw [Nat.one_le_iff_ne_zero, ne_eq, ← ht, he]

/-- Either sign of `t` comes with the matching square root. -/
theorem exists_lifted (h : EvaluatesNonce x y s e v t z) (hX : HasCoords X x y)
    (hx : toScalar (fieldBytes x) ≠ 0) : ∃ (Q : Secp256k1.Point) (yQ : _),
      HasCoords Q (toField (fieldBytes x)) yQ ∧ v = parityOf yQ ∧
        recovered Secp256k1.G Q (toScalar (fieldBytes x)) (toScalar t) (toScalar z) =
          nonce Secp256k1.G X s e := by
  rw [toField_fieldBytes]
  rcases h.sign with ⟨hv, ht⟩ | ⟨hv, ht⟩
  · exact ⟨X, y, hX, hv, recovered_eq_nonce _ hx ht h.hash_eq⟩
  · refine ⟨-X, -y, hX.neg, ?_, recovered_neg_eq_nonce _ hx ht h.hash_eq⟩
    rw [hv, parityOf_neg (Secp256k1.y_ne_zero hX)]

/-- Recovery returns the finite nonce of a nonzero challenge and a key below the order. -/
theorem recover_eq_some_iff (h : EvaluatesNonce x y s e v t z)
    (hRec : RecoverExact prims.secp256k1Recover) (hX : HasCoords X x y)
    (hx : toScalar (fieldBytes x) ≠ 0) {out : Bytes 64} :
    prims.secp256k1Recover z v (fieldBytes x ++ t) = some out ↔ x.val < Secp256k1.n ∧ e ≠ 0 ∧
      ∃ x' y', HasCoords (nonce Secp256k1.G X s e) x' y' ∧ out = encodeXy x' y' := by
  by_cases hrange : x.val < Secp256k1.n ∧ e ≠ 0
  · obtain ⟨hxn, he⟩ := hrange
    have hxpos : 1 ≤ bytesToNat (fieldBytes x) := by
      rw [bytesToNat_fieldBytes, Nat.one_le_iff_ne_zero, ne_eq, ZMod.val_eq_zero]
      exact Secp256k1.x_ne_zero hX
    have hxn' : bytesToNat (fieldBytes x) < Secp256k1.n := by rwa [bytesToNat_fieldBytes]
    have htpos := (h.t_pos_iff hx).mpr he
    obtain ⟨Q, yQ, hQ, rfl, hnonce⟩ := h.exists_lifted hX hx
    by_cases hfinite : nonce Secp256k1.G X s e = 0
    · rw [hRec.of_infinity z _ _ _ _ hQ (by rw [hnonce, hfinite])]
      refine iff_of_false (fun h => nomatch h) ?_
      rintro ⟨-, -, x', y', hcoords, -⟩
      exact hcoords.ne_zero hfinite
    · obtain ⟨x', y', hcoords⟩ := ne_zero_iff_exists_hasCoords.mp hfinite
      rw [hRec.of_finite z _ _ _ _ x' y' hxpos hxn' htpos h.t_le hQ (by rwa [hnonce]),
        Option.some.injEq]
      constructor
      · rintro rfl
        exact ⟨hxn, he, x', y', hcoords, rfl⟩
      · rintro ⟨-, -, x₁, y₁, hcoords₁, rfl⟩
        obtain ⟨rfl, rfl⟩ := hcoords.unique hcoords₁
        rfl
  · have hout : ¬(1 ≤ bytesToNat (fieldBytes x) ∧ bytesToNat (fieldBytes x) < Secp256k1.n ∧
        1 ≤ bytesToNat t ∧ bytesToNat t ≤ Secp256k1.n / 2) := by
      rintro ⟨-, hxn, htpos, -⟩
      rw [bytesToNat_fieldBytes] at hxn
      exact hrange ⟨hxn, (h.t_pos_iff hx).mp htpos⟩
    rw [hRec.of_out_of_range z v (fieldBytes x) t hout]
    exact iff_of_false (fun h => nomatch h) (fun h => hrange ⟨h.1, h.2.1⟩)

end EvaluatesNonce

theorem recoverAndMatch_of_inputs {pk : Bytes 33} {messageHash s : Bytes 32} {commitment : Bytes 20}
    {v : UInt8} {signature : Bytes 64} {z : Bytes 32}
    (h : evmSchnorrEcdsaInputs prims.keccak pk messageHash s commitment = .ok (v, signature, z)) :
    recoverAndMatch prims pk messageHash s commitment = true ↔
      ∃ out, prims.secp256k1Recover z v signature = some out ∧
        ethAddressFromUncompressedPubkey prims.keccak out = commitment := by
  rw [recoverAndMatch, h]
  simp only []
  cases prims.secp256k1Recover z v signature with
  | none => simp
  | some out => simp

/-- The recovery evaluates the Schnorr equation. -/
theorem recoverAndMatch_iff (hRec : RecoverExact prims.secp256k1Recover) (hX : HasCoords X x y)
    (messageHash s : Bytes 32) (commitment : Bytes 20) :
    recoverAndMatch prims (encodeCompressed x y) messageHash s commitment = true ↔
      SchnorrAccepts prims.keccak X messageHash s commitment := by
  rw [schnorrAccepts_iff hX]
  by_cases hzero : toScalar (fieldBytes x) = 0
  · have herr := evmSchnorrEcdsaInputs_of_zero prims.keccak (encodeCompressed x y)
      (by rwa [afterLead_encodeCompressed]) messageHash s commitment
    rw [recoverAndMatch, herr]
    simp only [Bool.false_eq_true, false_iff]
    exact fun h => toScalar_fieldBytes_ne_zero hX h.1 hzero
  obtain ⟨v, t, z, hinputs, hthalf, -, hz, hvt⟩ := evmSchnorrEcdsaInputs_eq_ok prims.keccak
    (encodeCompressed_tag x y) (by rwa [afterLead_encodeCompressed]) messageHash s commitment
  rw [afterLead_encodeCompressed] at hinputs hz hvt
  rw [encodeCompressed_parity] at hvt
  have hinstance : EvaluatesNonce x y (toScalar s)
      (schnorrChallenge prims.keccak (fieldBytes x) (parityOf y) messageHash commitment) v t z :=
    ⟨hthalf, hz, hvt⟩
  rw [recoverAndMatch_of_inputs hinputs]
  simp only [hinstance.recover_eq_some_iff hRec hX hzero]
  constructor
  · rintro ⟨out, ⟨hxn, he, x', y', hcoords, rfl⟩, haddress⟩
    exact ⟨hxn, he, x', y', hcoords, haddress⟩
  · rintro ⟨hxn, he, x', y', hcoords, haddress⟩
    exact ⟨_, ⟨hxn, he, x', y', hcoords, rfl⟩, haddress⟩

end Recovery

section Verification

/-- The record holds the canonical coordinates of the point. -/
structure StoresPoint (member : NodeEntry) (P : Secp256k1.Point) : Prop where
  x_lt : bytesToNat member.x < Secp256k1.p
  y_lt : bytesToNat member.y < Secp256k1.p
  coords : HasCoords P (toField member.x) (toField member.y)

theorem bytesToNat_pos_of_toField_ne_zero {b : Bytes 32} (h : toField b ≠ 0) :
    0 < bytesToNat b := by
  rw [Nat.pos_iff_ne_zero]
  intro hzero
  rw [toField, hzero, Nat.cast_zero] at h
  exact h rfl

/-- A point has no zero coordinate, so its stored form passes the loader. -/
theorem canonicalXy_of_hasCoords {xy : SignerXy} {P : Secp256k1.Point}
    (hx : bytesToNat xy.1 < Secp256k1.p) (hy : bytesToNat xy.2 < Secp256k1.p)
    (h : HasCoords P (toField xy.1) (toField xy.2)) : CanonicalXy xy where
  x_pos := bytesToNat_pos_of_toField_ne_zero (Secp256k1.x_ne_zero h)
  x_lt := hx
  y_pos := bytesToNat_pos_of_toField_ne_zero (Secp256k1.y_ne_zero h)
  y_lt := hy

theorem StoresPoint.canonicalXy {member : NodeEntry} {P : Secp256k1.Point}
    (h : StoresPoint member P) : CanonicalXy member.xy :=
  canonicalXy_of_hasCoords h.x_lt h.y_lt h.coords

variable {lib : Libsecp256k1} {R : FieldReading lib} {registry : RegistryView}
  {signersBitmap : Bytes 32} {coalition : CoalitionAccumulator lib} {keys : ℕ → Secp256k1.Point}

/-- Over records of curve points the accumulator stands for the group sum, whatever the partial sums
were. -/
theorem represents_accumulateRegistrySigners (hF : FieldExact lib R) (hS : SumExact lib R)
    (hG : GroupExact lib R)
    (hkeys : ∀ bit ∈ setBits (Bitmap.load signersBitmap), ∀ member,
      registry.NamesLiveRecord bit member → StoresPoint member (keys bit))
    (h : accumulateRegistrySigners lib registry signersBitmap = .ok coalition) :
    coalition.Represents R ((setBits (Bitmap.load signersBitmap)).map keys).sum := by
  rw [accumulateRegistrySigners_eq] at h
  split at h
  · simp at h
  · refine foldlM_invariant []
      (fun done coalition => coalition.Represents R (done.map keys).sum) ?_
      CoalitionAccumulator.represents_default h
    intro done bit coalition coalition' hbit hrep hstep
    obtain ⟨member, hmember, hadd⟩ := bind_eq_ok_iff.mp hstep
    rw [RegistryView.signer_eq_ok_iff] at hmember
    have hsum := CoalitionAccumulator.represents_addStoredXy hF hS hG hrep
      (hkeys bit hbit member hmember).coords hadd
    simpa using hsum

theorem exists_compress_iff_schnorrAccepts {prims : Primitives} {R : FieldReading prims.lib}
    (hF : FieldExact prims.lib R) (hS : SumExact prims.lib R) (hG : GroupExact prims.lib R)
    (hRec : RecoverExact prims.secp256k1Recover) {coalition : CoalitionAccumulator prims.lib}
    (hkeys : ∀ bit ∈ setBits (Bitmap.load signersBitmap), ∀ member,
      registry.NamesLiveRecord bit member → StoresPoint member (keys bit))
    (h : accumulateRegistrySigners prims.lib registry signersBitmap = .ok coalition)
    (messageHash s : Bytes 32) (commitment : Bytes 20) :
    (∃ xCoalition, compressCoalition coalition none = .ok xCoalition ∧
        recoverAndMatch prims xCoalition messageHash s commitment = true) ↔
      SchnorrAccepts prims.keccak ((setBits (Bitmap.load signersBitmap)).map keys).sum messageHash
        s commitment := by
  rw [compressCoalition_eq hF hS (proper_accumulateRegistrySigners hF hS h)]
  rcases (represents_accumulateRegistrySigners hF hS hG hkeys h).sum_cases with
    ⟨hsum, hzero⟩ | ⟨x, y, hsum, hcoords⟩
  · rw [hsum, hzero]
    simp only [checkedPubkey, reduceCtorEq, false_and, exists_false, false_iff]
    rintro ⟨x, y, hcoords, -⟩
    exact hcoords.ne_zero rfl
  · rw [hsum, ← recoverAndMatch_iff hRec hcoords]
    simp [checkedPubkey]

theorem MeetsQuorum.ne_empty {signers : Bitmap} {signaturesRequired : UInt8}
    (h : MeetsQuorum signers signaturesRequired) : signers ≠ Bitmap.empty := by
  intro hempty
  have hcount := h.required_pos.trans h.required_le
  rw [hempty, Bitmap.popcount_eq_length, Bitmap.empty, setBits_zero, List.length_nil] at hcount
  omega

/-- Some sum compresses to a key that the signature matches exactly when every signer has a record
and the Schnorr equation holds for the sum of the keys. -/
theorem exists_matched_sum_iff {prims : Primitives} {R : FieldReading prims.lib}
    (hF : FieldExact prims.lib R) (hS : SumExact prims.lib R) (hG : GroupExact prims.lib R)
    (hRec : RecoverExact prims.secp256k1Recover)
    (hnonempty : Bitmap.load signersBitmap ≠ Bitmap.empty)
    (hkeys : ∀ bit ∈ setBits (Bitmap.load signersBitmap), ∀ member,
      registry.NamesLiveRecord bit member → StoresPoint member (keys bit))
    (messageHash s : Bytes 32) (commitment : Bytes 20) :
    (∃ coalition, accumulateRegistrySigners prims.lib registry signersBitmap = .ok coalition ∧
        ∃ xCoalition, compressCoalition coalition none = .ok xCoalition ∧
          recoverAndMatch prims xCoalition messageHash s commitment = true) ↔
      (∀ bit ∈ setBits (Bitmap.load signersBitmap),
        ∃ member, registry.NamesLiveRecord bit member) ∧
      SchnorrAccepts prims.keccak ((setBits (Bitmap.load signersBitmap)).map keys).sum messageHash
        s commitment := by
  constructor
  · rintro ⟨coalition, hcoalition, h⟩
    have hlive := ((exists_accumulateRegistrySigners_iff hF hS).mp ⟨coalition, hcoalition⟩).2
    refine ⟨fun bit hbit => ?_,
      (exists_compress_iff_schnorrAccepts hF hS hG hRec hkeys hcoalition _ _ _).mp h⟩
    obtain ⟨member, hmember, -⟩ := hlive bit hbit
    exact ⟨member, hmember⟩
  · rintro ⟨hlive, haccepts⟩
    obtain ⟨coalition, hcoalition⟩ := (exists_accumulateRegistrySigners_iff hF hS).mpr
      ⟨hnonempty, fun bit hbit => by
        obtain ⟨member, hmember⟩ := hlive bit hbit
        exact ⟨member, hmember, (hkeys bit hbit member hmember).canonicalXy⟩⟩
    exact ⟨coalition, hcoalition,
      (exists_compress_iff_schnorrAccepts hF hS hG hRec hkeys hcoalition _ _ _).mpr haccepts⟩

/-- Soundness and completeness of `verify`: the Schnorr equation holds for the sum of the keys of all
set bits, and every check before it passes. -/
theorem verify_eq_ok_iff {prims : Primitives} {R : FieldReading prims.lib}
    (hF : FieldExact prims.lib R) (hS : SumExact prims.lib R) (hG : GroupExact prims.lib R)
    (hRec : RecoverExact prims.secp256k1Recover) (attestation : Attestation)
    (registry : RegistryView) (keys : ℕ → Secp256k1.Point)
    (hkeys : ∀ bit ∈ setBits (Bitmap.load attestation.signature.signersBitmap), ∀ member,
      registry.NamesLiveRecord bit member → StoresPoint member (keys bit)) :
    verify prims attestation registry none = .ok () ↔
      attestation.payload.registryVersion = registry.version ∧
      (1 ≤ bytesToNat attestation.signature.aggSigS ∧
        bytesToNat attestation.signature.aggSigS < Secp256k1.n) ∧
      MeetsQuorum (Bitmap.load attestation.signature.signersBitmap)
        attestation.payload.signaturesRequired ∧
      (∀ bit ∈ setBits (Bitmap.load attestation.signature.signersBitmap),
        ∃ member, registry.NamesLiveRecord bit member) ∧
      SchnorrAccepts prims.keccak
        ((setBits (Bitmap.load attestation.signature.signersBitmap)).map keys).sum
        (attestation.messageHash prims.keccak) attestation.signature.aggSigS
        attestation.signature.commitment := by
  rw [verify_eq_ok_iff_checks, secp256k1ScalarIsValidNonzero_iff, checkQuorum_eq_ok_iff]
  exact and_congr_right fun _ => and_congr_right fun _ => and_congr_right fun hquorum =>
    exists_matched_sum_iff hF hS hG hRec hquorum.ne_empty hkeys _ _ _

end Verification

section Sample

/-- A hash function with the constant value one. -/
def sampleKeccak : Keccak := fun _ => natToBytes 32 1

/-- A member whose key is the generator. -/
def sampleMember : NodeEntry :=
  ⟨natToBytes 32 7, fieldBytes Secp256k1.generatorX, fieldBytes Secp256k1.generatorY⟩

/-- One node and one provider, both with the generator as key. -/
def sampleRegistry : RegistryView := ⟨1, 1, 1, 0, [sampleMember], [sampleMember]⟩

/-- A signature with `s = 2` for the key `G` and the challenge one, so that the nonce is `G`. -/
def sampleAttestation (bit : ℕ) : Attestation :=
  ⟨⟨natToBytes 32 0, natToBytes 32 0, 1, 1, 0⟩,
    ⟨natToBytes 32 2, natToBytes 20 1, Bitmap.toBytes (setBit 0 bit)⟩⟩

theorem sampleMember_storesPoint : StoresPoint sampleMember Secp256k1.G where
  x_lt := bytesToNat_fieldBytes_lt Secp256k1.generatorX
  y_lt := bytesToNat_fieldBytes_lt Secp256k1.generatorY
  coords := by
    rw [sampleMember, toField_fieldBytes, toField_fieldBytes]
    exact Secp256k1.hasCoords_G

theorem sampleMember_live : sampleMember.isVacant = false := by
  rw [NodeEntry.isVacant_eq_false_iff, sampleMember, bytesToNat_natToBytes_of_lt (by norm_num)]
  norm_num

theorem namesLiveRecord_sample_node : sampleRegistry.NamesLiveRecord 0 sampleMember where
  of_node _ := ⟨by decide, rfl⟩
  of_provider h := absurd h (by decide)
  live := sampleMember_live

theorem namesLiveRecord_sample_provider : sampleRegistry.NamesLiveRecord 64 sampleMember where
  of_node h := absurd h (by decide)
  of_provider _ := ⟨by decide, rfl⟩
  live := sampleMember_live

theorem setBits_sampleAttestation {bit : ℕ} (h : bit < 256) :
    setBits (Bitmap.load (sampleAttestation bit).signature.signersBitmap) = [bit] := by
  rw [sampleAttestation, Bitmap.load_toBytes, setBits_setBit_zero h]

theorem sampleAttestation_scalar (bit : ℕ) :
    0 < bytesToNat (sampleAttestation bit).signature.aggSigS ∧
      bytesToNat (sampleAttestation bit).signature.aggSigS < Secp256k1.n := by
  rw [sampleAttestation, bytesToNat_natToBytes_of_lt (by norm_num)]
  norm_num [Secp256k1.n]

theorem sampleAttestation_quorum {bit : ℕ} (h : bit < 256) :
    MeetsQuorum (Bitmap.load (sampleAttestation bit).signature.signersBitmap) 1 where
  required_pos := by decide
  required_le := by
    rw [Bitmap.popcount_eq_length, setBits_sampleAttestation h]
    exact le_refl 1
  provider_unique := by
    rw [setBits_sampleAttestation h]
    simp

theorem toScalar_small {k : ℕ} (hk : k < 256) : toScalar (natToBytes 32 k) = k :=
  toScalar_natToBytes (hk.trans (by norm_num))

theorem small_ne_zero {k : ℕ} (hpos : 0 < k) (hk : k < 256) : (k : ZMod Secp256k1.n) ≠ 0 := by
  have hn : 256 < Secp256k1.n := by norm_num [Secp256k1.n]
  rw [ne_eq, ZMod.natCast_eq_zero_iff]
  exact Nat.not_dvd_of_pos_of_lt hpos (hk.trans hn)

/-- Under the constant hash a small `s` signs for every key other than `s G`. -/
theorem schnorrAccepts_small {X : Secp256k1.Point} {x y : ZMod Secp256k1.p} (hX : HasCoords X x y)
    (hx : x.val < Secp256k1.n) {k : ℕ} (hk : k < 256)
    (hnonce : (k : ZMod Secp256k1.n) • Secp256k1.G - X ≠ 0) (messageHash : Bytes 32) :
    SchnorrAccepts sampleKeccak X messageHash (natToBytes 32 k) (natToBytes 20 1) := by
  have hone : toScalar (natToBytes 32 1) = 1 := by
    rw [toScalar_small (by norm_num), Nat.cast_one]
  have hchallenge : schnorrChallenge sampleKeccak (fieldBytes x) (parityOf y) messageHash
      (natToBytes 20 1) = 1 := hone
  obtain ⟨x', y', hcoords⟩ := ne_zero_iff_exists_hasCoords.mp hnonce
  refine (schnorrAccepts_iff hX).mpr ⟨hx, ?_, x', y', ?_, rfl⟩
  · rw [hchallenge]
    exact one_ne_zero
  · rw [hchallenge, toScalar_small hk, nonce, one_smul]
    exact hcoords

theorem schnorrAccepts_sample (messageHash : Bytes 32) :
    SchnorrAccepts sampleKeccak Secp256k1.G messageHash (natToBytes 32 2) (natToBytes 20 1) := by
  refine schnorrAccepts_small Secp256k1.hasCoords_G Secp256k1.generatorX_val_lt (by norm_num) ?_
    messageHash
  rw [Nat.cast_ofNat, two_smul, add_sub_cancel_right]
  exact Secp256k1.hasCoords_G.ne_zero

def sampleProvider : NodeEntry :=
  ⟨natToBytes 32 8, fieldBytes Secp256k1.doubledX, fieldBytes Secp256k1.doubledY⟩

def pairRegistry : RegistryView := ⟨1, 1, 1, 0, [sampleMember], [sampleProvider]⟩

/-- Both sign: `s = 8` for the key `3 G` and the challenge one, so that the nonce is `5 G`. -/
def pairAttestation : Attestation :=
  ⟨⟨natToBytes 32 0, natToBytes 32 0, 1, 2, 0⟩,
    ⟨natToBytes 32 8, natToBytes 20 1, Bitmap.toBytes (setBit (setBit 0 0) nodeSlots)⟩⟩

def pairSecret (bit : ℕ) : ℕ := if bit = 0 then 1 else 2

theorem setBits_pairAttestation :
    setBits (Bitmap.load pairAttestation.signature.signersBitmap) = [0, nodeSlots] := by
  rw [pairAttestation, Bitmap.load_toBytes]
  decide

theorem nodeSlots_mem_pairAttestation :
    nodeSlots ∈ setBits (Bitmap.load pairAttestation.signature.signersBitmap) := by
  simp [setBits_pairAttestation]

theorem pairAttestation_scalar :
    1 ≤ bytesToNat pairAttestation.signature.aggSigS ∧
      bytesToNat pairAttestation.signature.aggSigS < Secp256k1.n := by
  rw [pairAttestation, bytesToNat_natToBytes_of_lt (by norm_num)]
  norm_num [Secp256k1.n]

theorem pairAttestation_quorum :
    MeetsQuorum (Bitmap.load pairAttestation.signature.signersBitmap) 2 where
  required_pos := by decide
  required_le := by
    rw [Bitmap.popcount_eq_length, setBits_pairAttestation]
    exact le_refl 2
  provider_unique := by
    rw [setBits_pairAttestation]
    decide

theorem sampleProvider_storesPoint : StoresPoint sampleProvider (2 • Secp256k1.G) where
  x_lt := bytesToNat_fieldBytes_lt Secp256k1.doubledX
  y_lt := bytesToNat_fieldBytes_lt Secp256k1.doubledY
  coords := by
    rw [sampleProvider, toField_fieldBytes, toField_fieldBytes]
    exact Secp256k1.hasCoords_two_nsmul_G

theorem sampleProvider_live : sampleProvider.isVacant = false := by
  rw [NodeEntry.isVacant_eq_false_iff, sampleProvider, bytesToNat_natToBytes_of_lt (by norm_num)]
  norm_num

theorem namesLiveRecord_pair_node : pairRegistry.NamesLiveRecord 0 sampleMember where
  of_node _ := ⟨by decide, rfl⟩
  of_provider h := absurd h (by decide)
  live := sampleMember_live

theorem namesLiveRecord_pair_provider :
    pairRegistry.NamesLiveRecord nodeSlots sampleProvider where
  of_node h := absurd h (by decide)
  of_provider _ := ⟨by decide, rfl⟩
  live := sampleProvider_live

theorem pair_stored : ∀ bit ∈ setBits (Bitmap.load pairAttestation.signature.signersBitmap),
    ∃ member, pairRegistry.NamesLiveRecord bit member ∧
      StoresPoint member (pairSecret bit • Secp256k1.G) := by
  rw [setBits_pairAttestation]
  intro bit hbit
  simp only [List.mem_cons, List.not_mem_nil, or_false] at hbit
  rcases hbit with rfl | rfl
  · refine ⟨_, namesLiveRecord_pair_node, ?_⟩
    rw [pairSecret, if_pos rfl, one_nsmul]
    exact sampleMember_storesPoint
  · exact ⟨_, namesLiveRecord_pair_provider, sampleProvider_storesPoint⟩

theorem pair_storesPoint :
    ∀ bit ∈ setBits (Bitmap.load pairAttestation.signature.signersBitmap), ∀ member,
      pairRegistry.NamesLiveRecord bit member →
        StoresPoint member (pairSecret bit • Secp256k1.G) := by
  intro bit hbit member hmember
  obtain ⟨member', hmember', hkey⟩ := pair_stored bit hbit
  rw [← RegistryView.signer_eq_ok_iff] at hmember hmember'
  obtain rfl := Except.ok.inj (hmember.symm.trans hmember')
  exact hkey

theorem sum_pair : ((setBits (Bitmap.load pairAttestation.signature.signersBitmap)).map fun bit =>
    pairSecret bit • Secp256k1.G).sum = 3 • Secp256k1.G := by
  rw [setBits_pairAttestation, List.map_cons, List.map_singleton, List.sum_cons,
    List.sum_singleton, ← add_nsmul]
  rfl

theorem hasCoords_pair : HasCoords
    ((setBits (Bitmap.load pairAttestation.signature.signersBitmap)).map fun bit =>
      pairSecret bit • Secp256k1.G).sum Secp256k1.tripledX Secp256k1.tripledY := by
  rw [sum_pair]
  exact Secp256k1.hasCoords_three_nsmul_G

theorem schnorrAccepts_pair (messageHash : Bytes 32) :
    SchnorrAccepts sampleKeccak
      ((setBits (Bitmap.load pairAttestation.signature.signersBitmap)).map fun bit =>
        pairSecret bit • Secp256k1.G).sum messageHash pairAttestation.signature.aggSigS
      pairAttestation.signature.commitment := by
  refine schnorrAccepts_small hasCoords_pair Secp256k1.tripledX_val_lt (k := 8) (by norm_num) ?_
    messageHash
  have hnonce : ((8 : ℕ) : ZMod Secp256k1.n) • Secp256k1.G - 3 • Secp256k1.G =
      ((5 : ℕ) : ZMod Secp256k1.n) • Secp256k1.G := by
    rw [Secp256k1.natCast_smul, Secp256k1.natCast_smul, sub_eq_iff_eq_add, ← add_nsmul]
  rw [sum_pair, hnonce]
  exact Secp256k1.natCast_smul_G_ne_zero (by norm_num) (by norm_num [Secp256k1.n])

/-- What the two sign is accepted, whatever the hash function and the payload. -/
theorem verify_pair {keccak : Keccak} {attestation : Attestation}
    (hbitmap : attestation.signature.signersBitmap = pairAttestation.signature.signersBitmap)
    (hversion : attestation.payload.registryVersion = pairRegistry.version)
    (hrequired : attestation.payload.signaturesRequired = 2)
    (hscalar : 1 ≤ bytesToNat attestation.signature.aggSigS ∧
      bytesToNat attestation.signature.aggSigS < Secp256k1.n)
    (haccepts : SchnorrAccepts keccak (3 • Secp256k1.G) (attestation.messageHash keccak)
      attestation.signature.aggSigS attestation.signature.commitment) :
    verify (referencePrimitives keccak) attestation pairRegistry none = .ok () := by
  rw [verify_eq_ok_iff_checks, hbitmap, hrequired, checkQuorum_eq_ok_iff]
  refine ⟨hversion, (secp256k1ScalarIsValidNonzero_iff _).mpr hscalar, pairAttestation_quorum,
    (exists_matched_sum_iff fieldExact_reference sumExact_reference groupExact_reference
      recoverExact_reference pairAttestation_quorum.ne_empty pair_storesPoint _ _ _).mpr
      ⟨fun bit hbit => ?_, by rwa [sum_pair]⟩⟩
  obtain ⟨member, hmember, -⟩ := pair_stored bit hbit
  exact ⟨member, hmember⟩

theorem verify_pairAttestation :
    verify (referencePrimitives sampleKeccak) pairAttestation pairRegistry none = .ok () :=
  verify_pair rfl rfl rfl pairAttestation_scalar (sum_pair ▸ schnorrAccepts_pair _)

/-- Two signers with different keys are accepted on the sum of the keys. -/
theorem verify_sample_eq_ok :
    verify (referencePrimitives sampleKeccak) pairAttestation pairRegistry none = .ok () := by
  refine (verify_eq_ok_iff fieldExact_reference sumExact_reference groupExact_reference
    recoverExact_reference pairAttestation pairRegistry
    (fun bit => pairSecret bit • Secp256k1.G) pair_storesPoint).mpr
    ⟨rfl, pairAttestation_scalar, pairAttestation_quorum, fun bit hbit => ?_,
      schnorrAccepts_pair _⟩
  obtain ⟨member, hmember, -⟩ := pair_stored bit hbit
  exact ⟨member, hmember⟩

end Sample

end MolphaVerifier
