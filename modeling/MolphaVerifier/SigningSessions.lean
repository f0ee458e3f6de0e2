import MolphaVerifier.PartialSignatures
import MolphaVerifier.SpecialSoundness

/-!
# Signing sessions

Every signer of a session commits to two nonces and answers the session's challenge with a partial
signature; the aggregate is the sum of the partial signatures, and its commitment the address of the
sum of the nonces. The partial-signature check and `verify` are two views of one equation: when all
contributions pass the check, `verify` accepts exactly for the right commitment, so an aggregate
that is rejected points at a contribution that fails the check. Contributions computed from the
secrets pass.
-/

namespace MolphaVerifier

open FixedBytes BitVecIteration ShortWeierstrass SchnorrEquations

def addModN (a b : Bytes 32) : Bytes 32 :=
  natToBytes 32 ((bytesToNat a + bytesToNat b) % Secp256k1.n)

/-- An honest partial: `s = r1 + b r2 + c x`. -/
def transcript (r1Secret r2Secret xSecret b c : Bytes 32) : Bytes 32 :=
  addModN r1Secret (addModN (mulMod b r2Secret) (mulMod c xSecret))

section Transcripts

variable {prims : Primitives} {R : FieldReading prims.lib} {loading : KeyLoading prims.lib}
  {a b c r1 r2 x : Bytes 32} {keyXy r1Xy r2Xy : SignerXy}

theorem bytesToNat_addModN (a b : Bytes 32) :
    bytesToNat (addModN a b) = (bytesToNat a + bytesToNat b) % Secp256k1.n :=
  bytesToNat_natToBytes_of_lt ((Nat.mod_lt _ n_pos).trans (by norm_num [Secp256k1.n]))

theorem bytesToNat_addModN_lt (a b : Bytes 32) : bytesToNat (addModN a b) < Secp256k1.n := by
  rw [bytesToNat_addModN]
  exact Nat.mod_lt _ n_pos

theorem toScalar_addModN (a b : Bytes 32) : toScalar (addModN a b) = toScalar a + toScalar b := by
  rw [toScalar, bytesToNat_addModN, ZMod.natCast_mod, Nat.cast_add, toScalar, toScalar]

theorem toScalar_transcript (r1 r2 x b c : Bytes 32) : toScalar (transcript r1 r2 x b c) =
    toScalar r1 + toScalar b * toScalar r2 + toScalar c * toScalar x := by
  rw [transcript, toScalar_addModN, toScalar_addModN, toScalar_mulMod, toScalar_mulMod, add_assoc]

theorem partialEquation_transcript (r1 r2 x b c : Bytes 32) :
    PartialEquation (toScalar x • Secp256k1.G) (toScalar r1 • Secp256k1.G)
      (toScalar r2 • Secp256k1.G) b c (transcript r1 r2 x b c) := by
  rw [PartialEquation, toScalar_transcript]
  module

/-- Whatever the challenge pair, an honest partial signature passes the check, unless it is zero or
the check cannot be evaluated. -/
theorem honest_partial_iff (hF : FieldExact prims.lib R) (hS : SumExact prims.lib R)
    (hG : GroupExact prims.lib R) (hL : KeyLoadingExact prims.lib R loading)
    (hRec : RecoverExact prims.secp256k1Recover)
    (hx : StoredPoint keyXy (toScalar x • Secp256k1.G))
    (hr1 : StoredPoint r1Xy (toScalar r1 • Secp256k1.G))
    (hr2 : StoredPoint r2Xy (toScalar r2 • Secp256k1.G))
    (hb : 0 < bytesToNat b ∧ bytesToNat b < Secp256k1.n)
    (hc : 0 < bytesToNat c ∧ bytesToNat c < Secp256k1.n) :
    verifyPartialSignatureEquation prims loading keyXy r1Xy r2Xy b c (transcript r1 r2 x b c) =
        .ok true ↔
      toScalar r1 + toScalar b * toScalar r2 + toScalar c * toScalar x ≠ 0 ∧
        bytesToNat r2Xy.1 < Secp256k1.n ∧ bytesToNat keyXy.1 < Secp256k1.n ∧
        toScalar r1 + toScalar c * toScalar x ≠ 0 := by
  have hlt : bytesToNat (transcript r1 r2 x b c) < Secp256k1.n := bytesToNat_addModN_lt _ _
  have hright : toScalar r1 • Secp256k1.G + toScalar c • toScalar x • Secp256k1.G =
      (toScalar r1 + toScalar c * toScalar x) • Secp256k1.G := by module
  rw [← toScalar_transcript, ← Secp256k1.smul_G_ne_zero_iff (k := toScalar r1 + _), ← hright]
  constructor
  · intro h
    rcases verifyPartialSignatureEquation_cases hL keyXy r1Xy r2Xy b c (transcript r1 r2 x b c) with
      ⟨-, hrun⟩ | ⟨-, -, hrun⟩ | ⟨hscalars, R1, R2, r1Point, hR1, hR2, hpoint, hrun⟩
    · rw [hrun] at h
      cases h
    · rw [hrun] at h
      cases h
    · obtain rfl := hR1.unique hr1
      obtain rfl := hR2.unique hr2
      rw [hrun, Except.ok.injEq] at h
      have haccepted := (acceptedEquation_iff hF hS hG hRec hx hR1 hR2 hpoint hscalars).mp h
      have hpos := (hscalars (transcript r1 r2 x b c) (by simp)).1
      exact ⟨(bytesToNat_pos_iff hlt).mp hpos, haccepted.nonce_lt, haccepted.key_lt,
        haccepted.right_ne_zero⟩
  · rintro ⟨hs, hr2lt, hxlt, hne⟩
    refine verifyPartialSignatureEquation_of_accepted hF hS hG hL hRec hx hr1 hr2 ?_
      ⟨partialEquation_transcript r1 r2 x b c, hr2lt, hxlt, hne⟩
    intro scalar hscalar
    simp only [List.mem_cons, List.not_mem_nil, or_false] at hscalar
    rcases hscalar with rfl | rfl | rfl
    · exact hb
    · exact hc
    · exact ⟨(bytesToNat_pos_iff hlt).mpr hs, hlt⟩

end Transcripts

def sumModN (shares : List (Bytes 32)) : Bytes 32 :=
  shares.foldr addModN (Vector.replicate 32 0)

theorem toScalar_sumModN (shares : List (Bytes 32)) :
    toScalar (sumModN shares) = (shares.map toScalar).sum := by
  induction shares with
  | nil =>
    rw [sumModN, List.foldr_nil, toScalar, eq_replicate_zero_iff.mp rfl, Nat.cast_zero]
    rfl
  | cons share shares ih =>
    rw [sumModN, List.foldr_cons, toScalar_addModN, List.map_cons, List.sum_cons, ← ih]
    rfl

theorem bytesToNat_sumModN_lt (shares : List (Bytes 32)) :
    bytesToNat (sumModN shares) < Secp256k1.n := by
  cases shares with
  | nil =>
    rw [sumModN, List.foldr_nil, eq_replicate_zero_iff.mp rfl]
    exact n_pos
  | cons share shares => exact bytesToNat_addModN_lt _ _

def Attestation.signerBits (attestation : Attestation) : List ℕ :=
  setBits (Bitmap.load attestation.signature.signersBitmap)

/-- The challenge of an attestation for the coalition key `(x, y)`. -/
def Attestation.challenge (keccak : Keccak) (attestation : Attestation)
    (x y : ZMod Secp256k1.p) : ZMod Secp256k1.n :=
  schnorrChallenge keccak (fieldBytes x) (parityOf y) (attestation.messageHash keccak)
    attestation.signature.commitment

/-- The commitment is the address of a finite point. -/
def CommitsTo (keccak : Keccak) (attestation : Attestation) (P : Secp256k1.Point) : Prop :=
  ∃ x y, HasCoords P x y ∧
    ethAddressFromUncompressedPubkey keccak (encodeXy x y) = attestation.signature.commitment

/-- The attestation aggregates the shares of its signers, whose records store their keys. -/
structure IsSession (registry : RegistryView) (attestation : Attestation)
    (keys : ℕ → Secp256k1.Point) (shares : ℕ → Bytes 32) : Prop where
  key : ∀ bit ∈ attestation.signerBits, ∃ member, registry.NamesLiveRecord bit member ∧
    StoresPoint member (keys bit)
  sum : toScalar attestation.signature.aggSigS =
    (attestation.signerBits.map fun bit => toScalar (shares bit)).sum

/-- The checks of `verify` around the Schnorr equation pass. -/
structure PassesChecks (registry : RegistryView) (attestation : Attestation) : Prop where
  version_eq : attestation.payload.registryVersion = registry.version
  scalar_valid : secp256k1ScalarIsValidNonzero attestation.signature.aggSigS = true
  quorum : MeetsQuorum (Bitmap.load attestation.signature.signersBitmap)
    attestation.payload.signaturesRequired

/-- What a signer contributes to a session: two nonces, the coefficient of the second, and a share
of the signature. -/
structure Contribution where
  r1 : SignerXy
  r2 : SignerXy
  b : Bytes 32
  share : Bytes 32

section Sessions

variable {prims : Primitives} {R : FieldReading prims.lib} {loading : KeyLoading prims.lib}
  {registry : RegistryView} {attestation : Attestation} {keys nonces : ℕ → Secp256k1.Point}
  {shares : ℕ → Bytes 32} {c : Bytes 32} {x y : ZMod Secp256k1.p}

theorem StoresPoint.storedPoint {member : NodeEntry} {P : Secp256k1.Point}
    (h : StoresPoint member P) : StoredPoint member.xy P := ⟨h.x_lt, h.y_lt, h.coords⟩

/-- A bit names one record, so its key is the one the session assigns. -/
theorem IsSession.storesPoint (h : IsSession registry attestation keys shares) {bit : ℕ}
    (hbit : bit ∈ attestation.signerBits) (member : NodeEntry)
    (hmember : registry.NamesLiveRecord bit member) : StoresPoint member (keys bit) := by
  obtain ⟨member', hmember', hkey⟩ := h.key bit hbit
  rw [← RegistryView.signer_eq_ok_iff] at hmember hmember'
  rw [hmember', Except.ok.injEq] at hmember
  rwa [← hmember]

theorem PassesChecks.signerBits_ne_nil (h : PassesChecks registry attestation) :
    attestation.signerBits ≠ [] := by
  rw [Attestation.signerBits, ne_eq, setBits_eq_nil_iff]
  exact h.quorum.ne_empty

/-- Over live records of curve points `verify` checks the Schnorr equation and what is around it. -/
theorem IsSession.verify_iff (hF : FieldExact prims.lib R) (hS : SumExact prims.lib R)
    (hG : GroupExact prims.lib R) (hRec : RecoverExact prims.secp256k1Recover)
    (h : IsSession registry attestation keys shares) :
    verify prims attestation registry none = .ok () ↔ PassesChecks registry attestation ∧
      SchnorrAccepts prims.keccak (attestation.signerBits.map keys).sum
        (attestation.messageHash prims.keccak) attestation.signature.aggSigS
        attestation.signature.commitment := by
  have hlive : ∀ bit ∈ setBits (Bitmap.load attestation.signature.signersBitmap),
      ∃ member, registry.NamesLiveRecord bit member := by
    intro bit hbit
    obtain ⟨member, hmember, -⟩ := h.key bit hbit
    exact ⟨member, hmember⟩
  have hmatched (hquorum : MeetsQuorum (Bitmap.load attestation.signature.signersBitmap)
      attestation.payload.signaturesRequired) :=
    exists_matched_sum_iff hF hS hG hRec hquorum.ne_empty (fun bit hbit => h.storesPoint hbit)
      (attestation.messageHash prims.keccak) attestation.signature.aggSigS
      attestation.signature.commitment
  rw [verify_eq_ok_iff_checks, checkQuorum_eq_ok_iff]
  constructor
  · rintro ⟨hversion, hscalar, hquorum, hsum⟩
    exact ⟨⟨hversion, hscalar, hquorum⟩, ((hmatched hquorum).mp hsum).2⟩
  · rintro ⟨hchecks, hschnorr⟩
    exact ⟨hchecks.version_eq, hchecks.scalar_valid, hchecks.quorum,
      (hmatched hchecks.quorum).mpr ⟨hlive, hschnorr⟩⟩

/-- When every share answers the challenge, the nonce of the aggregate is the sum of the nonces. -/
theorem IsSession.nonce_eq (h : IsSession registry attestation keys shares)
    (hequations : ∀ bit ∈ attestation.signerBits,
      nonce Secp256k1.G (keys bit) (toScalar (shares bit)) (toScalar c) = nonces bit) :
    nonce Secp256k1.G (attestation.signerBits.map keys).sum
        (toScalar attestation.signature.aggSigS) (toScalar c) =
      (attestation.signerBits.map nonces).sum := by
  rw [h.sum, ← sum_nonce]
  exact congrArg List.sum (List.map_congr_left hequations)

theorem IsSession.verify_iff_commitsTo (hF : FieldExact prims.lib R) (hS : SumExact prims.lib R)
    (hG : GroupExact prims.lib R) (hRec : RecoverExact prims.secp256k1Recover)
    (h : IsSession registry attestation keys shares)
    (hX : HasCoords (attestation.signerBits.map keys).sum x y)
    (hc : toScalar c = attestation.challenge prims.keccak x y)
    (hequations : ∀ bit ∈ attestation.signerBits,
      nonce Secp256k1.G (keys bit) (toScalar (shares bit)) (toScalar c) = nonces bit) :
    verify prims attestation registry none = .ok () ↔ PassesChecks registry attestation ∧
      x.val < Secp256k1.n ∧ toScalar c ≠ 0 ∧
      CommitsTo prims.keccak attestation (attestation.signerBits.map nonces).sum := by
  rw [h.verify_iff hF hS hG hRec, schnorrAccepts_iff hX, ← h.nonce_eq hequations, hc]
  rfl

/-- A share that passes the partial-signature check answers a nonzero challenge with its nonces. -/
theorem IsSession.nonce_eq_of_accepted (hF : FieldExact prims.lib R) (hS : SumExact prims.lib R)
    (hG : GroupExact prims.lib R) (hL : KeyLoadingExact prims.lib R loading)
    (hRec : RecoverExact prims.secp256k1Recover) {contribution : ℕ → Contribution}
    {R1 R2 : Secp256k1.Point} {bit : ℕ}
    (h : IsSession registry attestation keys fun bit => (contribution bit).share)
    (hbit : bit ∈ attestation.signerBits) (hR1 : StoredPoint (contribution bit).r1 R1)
    (hR2 : StoredPoint (contribution bit).r2 R2)
    (hshare : ∀ member, registry.NamesLiveRecord bit member →
      verifyPartialSignatureEquation prims loading member.xy (contribution bit).r1
        (contribution bit).r2 (contribution bit).b c (contribution bit).share = .ok true) :
    toScalar c ≠ 0 ∧ nonce Secp256k1.G (keys bit) (toScalar (contribution bit).share) (toScalar c) =
      R1 + toScalar (contribution bit).b • R2 := by
  obtain ⟨member, hmember, hkey⟩ := h.key bit hbit
  obtain ⟨hscalars, Q1, Q2, hQ1, hQ2, hequation⟩ := equation_of_verifyPartialSignatureEquation
    hF hS hG hL hRec hkey.storedPoint (hshare member hmember)
  obtain rfl := hQ1.unique hR1
  obtain rfl := hQ2.unique hR2
  exact ⟨hscalars.toScalar_ne_zero.2, hequation.nonce_eq⟩

/-- If every signer of a session passes the partial-signature check, `verify` accepts the aggregate
exactly when the commitment is the address of the sum of the nonces; the checks around the equation
and the range of the coalition key aside. -/
theorem session_verifies_iff (hF : FieldExact prims.lib R) (hS : SumExact prims.lib R)
    (hG : GroupExact prims.lib R) (hL : KeyLoadingExact prims.lib R loading)
    (hRec : RecoverExact prims.secp256k1Recover) {contribution : ℕ → Contribution}
    {R1 R2 : ℕ → Secp256k1.Point}
    (h : IsSession registry attestation keys fun bit => (contribution bit).share)
    (hX : HasCoords (attestation.signerBits.map keys).sum x y)
    (hc : toScalar c = attestation.challenge prims.keccak x y)
    (hnonces : ∀ bit ∈ attestation.signerBits, StoredPoint (contribution bit).r1 (R1 bit) ∧
      StoredPoint (contribution bit).r2 (R2 bit))
    (hpartials : ∀ bit ∈ attestation.signerBits, ∀ member, registry.NamesLiveRecord bit member →
      verifyPartialSignatureEquation prims loading member.xy (contribution bit).r1
        (contribution bit).r2 (contribution bit).b c (contribution bit).share = .ok true) :
    verify prims attestation registry none = .ok () ↔ PassesChecks registry attestation ∧
      x.val < Secp256k1.n ∧
      CommitsTo prims.keccak attestation
        (attestation.signerBits.map fun bit =>
          R1 bit + toScalar (contribution bit).b • R2 bit).sum := by
  have hchecked (bit : ℕ) (hbit : bit ∈ attestation.signerBits) :
      toScalar c ≠ 0 ∧ nonce Secp256k1.G (keys bit) (toScalar (contribution bit).share)
        (toScalar c) = R1 bit + toScalar (contribution bit).b • R2 bit :=
    h.nonce_eq_of_accepted hF hS hG hL hRec hbit (hnonces bit hbit).1 (hnonces bit hbit).2
      (hpartials bit hbit)
  rw [h.verify_iff_commitsTo hF hS hG hRec hX hc fun bit hbit => (hchecked bit hbit).2]
  refine and_congr_right fun hchecks => and_congr_right fun _ => and_iff_right ?_
  obtain ⟨bit, hbit⟩ := List.exists_mem_of_ne_nil _ hchecks.signerBits_ne_nil
  exact (hchecked bit hbit).1

/-- When `verify` accepts an aggregate whose commitment is the address of the sum of the nonces and
all signers but one pass the partial-signature check, the equation of the last one holds too, unless
the nonce of the aggregate is another point with the address of that sum. -/
theorem last_signer_honest (hF : FieldExact prims.lib R) (hS : SumExact prims.lib R)
    (hG : GroupExact prims.lib R) (hL : KeyLoadingExact prims.lib R loading)
    (hRec : RecoverExact prims.secp256k1Recover) {contribution : ℕ → Contribution}
    {R1 R2 : ℕ → Secp256k1.Point} {last : ℕ}
    (h : IsSession registry attestation keys fun bit => (contribution bit).share)
    (hX : HasCoords (attestation.signerBits.map keys).sum x y)
    (hc : toScalar c = attestation.challenge prims.keccak x y)
    (hnonces : ∀ bit ∈ attestation.signerBits, StoredPoint (contribution bit).r1 (R1 bit) ∧
      StoredPoint (contribution bit).r2 (R2 bit))
    (hcommits : CommitsTo prims.keccak attestation
      (attestation.signerBits.map fun bit => R1 bit + toScalar (contribution bit).b • R2 bit).sum)
    (hverify : verify prims attestation registry none = .ok ())
    (hlast : last ∈ attestation.signerBits)
    (hpartials : ∀ bit ∈ attestation.signerBits, bit ≠ last → ∀ member,
      registry.NamesLiveRecord bit member →
      verifyPartialSignatureEquation prims loading member.xy (contribution bit).r1
        (contribution bit).r2 (contribution bit).b c (contribution bit).share = .ok true) :
    PartialEquation (keys last) (R1 last) (R2 last) (contribution last).b c
        (contribution last).share ∨
      AddressCollision prims.keccak
        (nonce Secp256k1.G (attestation.signerBits.map keys).sum
          (toScalar attestation.signature.aggSigS) (toScalar c))
        (attestation.signerBits.map fun bit =>
          R1 bit + toScalar (contribution bit).b • R2 bit).sum := by
  obtain ⟨-, hschnorr⟩ := (h.verify_iff hF hS hG hRec).mp hverify
  obtain ⟨-, -, x₁, y₁, hfinite, haddress⟩ := (schnorrAccepts_iff hX).mp hschnorr
  obtain ⟨x₂, y₂, hsum, haddress'⟩ := hcommits
  have hchallenge : toScalar c = schnorrChallenge prims.keccak (fieldBytes x) (parityOf y)
    (attestation.messageHash prims.keccak) attestation.signature.commitment := hc
  rw [← hchallenge, h.sum, ← sum_nonce] at hfinite
  by_cases heq : (attestation.signerBits.map fun bit => nonce Secp256k1.G (keys bit)
      (toScalar (contribution bit).share) (toScalar c)).sum =
    (attestation.signerBits.map fun bit => R1 bit + toScalar (contribution bit).b • R2 bit).sum
  · left
    have hothers (bit : ℕ) (hbit : bit ∈ attestation.signerBits.erase last) :
        nonce Secp256k1.G (keys bit) (toScalar (contribution bit).share) (toScalar c) =
          R1 bit + toScalar (contribution bit).b • R2 bit := by
      obtain ⟨hne, hmem⟩ := (nodup_setBits _).mem_erase_iff.mp hbit
      exact (h.nonce_eq_of_accepted hF hS hG hL hRec hmem (hnonces bit hmem).1
        (hnonces bit hmem).2 (hpartials bit hmem hne)).2
    rw [← List.sum_map_erase _ hlast, ← List.sum_map_erase _ hlast,
      List.map_congr_left hothers] at heq
    exact sub_eq_iff_eq_add.mp (add_right_cancel heq)
  · right
    rw [h.sum, ← sum_nonce]
    exact ⟨heq, x₁, y₁, x₂, y₂, hfinite, hsum, haddress.trans haddress'.symm⟩

structure SignerSecrets where
  x : Bytes 32
  r1 : Bytes 32
  r2 : Bytes 32
  b : Bytes 32

def SignerSecrets.share (secrets : SignerSecrets) (c : Bytes 32) : Bytes 32 :=
  transcript secrets.r1 secrets.r2 secrets.x secrets.b c

def SignerSecrets.nonce (secrets : SignerSecrets) : ZMod Secp256k1.n :=
  toScalar secrets.r1 + toScalar secrets.b * toScalar secrets.r2

theorem SignerSecrets.nonce_share (secrets : SignerSecrets) (c : Bytes 32) :
    SchnorrEquations.nonce Secp256k1.G (toScalar secrets.x • Secp256k1.G)
      (toScalar (secrets.share c)) (toScalar c) = secrets.nonce • Secp256k1.G := by
  rw [SchnorrEquations.nonce, SignerSecrets.share, toScalar_transcript, SignerSecrets.nonce]
  module

theorem isSession_honest {secrets : ℕ → SignerSecrets}
    (hkeys : ∀ bit ∈ attestation.signerBits, ∃ member, registry.NamesLiveRecord bit member ∧
      StoresPoint member (toScalar (secrets bit).x • Secp256k1.G))
    (hs : attestation.signature.aggSigS =
      sumModN (attestation.signerBits.map fun bit => (secrets bit).share c)) :
    IsSession registry attestation (fun bit => toScalar (secrets bit).x • Secp256k1.G)
      fun bit => (secrets bit).share c := by
  refine ⟨hkeys, ?_⟩
  rw [hs, toScalar_sumModN, List.map_map]
  rfl

/-- A session of honest signers is accepted, whatever their keys, nonces and coefficients, unless
the sum of the shares or the challenge is zero, the coalition key is out of range, or the
commitment is not the address of the sum of the nonces. -/
theorem honest_session_iff (hF : FieldExact prims.lib R) (hS : SumExact prims.lib R)
    (hG : GroupExact prims.lib R) (hRec : RecoverExact prims.secp256k1Recover)
    {secrets : ℕ → SignerSecrets}
    (hkeys : ∀ bit ∈ attestation.signerBits, ∃ member, registry.NamesLiveRecord bit member ∧
      StoresPoint member (toScalar (secrets bit).x • Secp256k1.G))
    (hX : HasCoords (attestation.signerBits.map fun bit =>
      toScalar (secrets bit).x • Secp256k1.G).sum x y)
    (hc : toScalar c = attestation.challenge prims.keccak x y)
    (hs : attestation.signature.aggSigS =
      sumModN (attestation.signerBits.map fun bit => (secrets bit).share c)) :
    verify prims attestation registry none = .ok () ↔
      attestation.payload.registryVersion = registry.version ∧
      MeetsQuorum (Bitmap.load attestation.signature.signersBitmap)
        attestation.payload.signaturesRequired ∧
      toScalar attestation.signature.aggSigS ≠ 0 ∧ x.val < Secp256k1.n ∧ toScalar c ≠ 0 ∧
      CommitsTo prims.keccak attestation
        ((attestation.signerBits.map fun bit => (secrets bit).nonce).sum • Secp256k1.G) := by
  have hsession := isSession_honest hkeys hs
  have hequations (bit : ℕ) (_ : bit ∈ attestation.signerBits) :
      nonce Secp256k1.G (toScalar (secrets bit).x • Secp256k1.G) (toScalar ((secrets bit).share c))
        (toScalar c) = (secrets bit).nonce • Secp256k1.G := (secrets bit).nonce_share c
  have hlt : bytesToNat attestation.signature.aggSigS < Secp256k1.n := by
    rw [hs]
    exact bytesToNat_sumModN_lt _
  have hscalar : secp256k1ScalarIsValidNonzero attestation.signature.aggSigS = true ↔
      toScalar attestation.signature.aggSigS ≠ 0 := by
    rw [secp256k1ScalarIsValidNonzero_iff, bytesToNat_pos_iff hlt, and_iff_left hlt]
  rw [hsession.verify_iff_commitsTo hF hS hG hRec hX hc hequations, List.sum_smul, List.map_map]
  constructor
  · rintro ⟨hchecks, hrest⟩
    exact ⟨hchecks.version_eq, hchecks.quorum, hscalar.mp hchecks.scalar_valid, hrest⟩
  · rintro ⟨hversion, hquorum, hne, hrest⟩
    exact ⟨⟨hversion, hscalar.mpr hne, hquorum⟩, hrest⟩

end Sessions

section Sample

theorem toScalar_one : toScalar (natToBytes 32 1) = 1 := by
  rw [toScalar_natToBytes (by norm_num), Nat.cast_one]

/-- A signature of one under the challenge two, with all secrets one, is four. -/
theorem honest_partial_iff_sample :
    verifyPartialSignatureEquation (referencePrimitives sampleKeccak) referenceLoading sampleXy
      sampleXy sampleXy (natToBytes 32 1) (natToBytes 32 2)
      (transcript (natToBytes 32 1) (natToBytes 32 1) (natToBytes 32 1) (natToBytes 32 1)
        (natToBytes 32 2)) = .ok true := by
  have hstored : StoredPoint sampleXy (toScalar (natToBytes 32 1) • Secp256k1.G) := by
    rw [toScalar_one, one_smul]
    exact storedPoint_sampleXy
  have hx : bytesToNat sampleXy.1 < Secp256k1.n := by
    rw [sampleXy, bytesToNat_fieldBytes]
    exact Secp256k1.generatorX_val_lt
  have htwo : toScalar (natToBytes 32 2) = 2 := by
    rw [toScalar_small (by norm_num), Nat.cast_ofNat]
  refine (honest_partial_iff fieldExact_reference sumExact_reference groupExact_reference
    keyLoadingExact_reference recoverExact_reference hstored hstored hstored
    (natToBytes_scalar one_pos (by norm_num)) (natToBytes_scalar two_pos (by norm_num))).mpr
    ⟨?_, hx, hx, ?_⟩
  · have hfour := small_ne_zero (k := 4) (by norm_num) (by norm_num)
    rw [toScalar_one, htwo]
    norm_num at hfour ⊢
    exact hfour
  · have hthree := small_ne_zero (k := 3) (by norm_num) (by norm_num)
    rw [toScalar_one, htwo]
    norm_num at hthree ⊢
    exact hthree

/-- The secrets of the node and of the provider, with different keys and coefficients. -/
def pairSecrets (bit : ℕ) : SignerSecrets :=
  ⟨natToBytes 32 (pairSecret bit), natToBytes 32 1, natToBytes 32 1, natToBytes 32 (pairSecret bit)⟩

/-- Their contributions under the challenge one. -/
def pairContribution (bit : ℕ) : Contribution :=
  ⟨sampleXy, sampleXy, natToBytes 32 (pairSecret bit), natToBytes 32 (2 * pairSecret bit + 1)⟩

section Pair

variable {bit : ℕ}

theorem pairSecret_bounds (bit : ℕ) : 0 < pairSecret bit ∧ pairSecret bit < 3 := by
  rw [pairSecret]
  split <;> norm_num

theorem toScalar_pairSecret (bit : ℕ) :
    toScalar (natToBytes 32 (pairSecret bit)) = (pairSecret bit : ZMod Secp256k1.n) :=
  toScalar_small ((pairSecret_bounds bit).2.trans (by norm_num))

theorem toScalar_pairContribution_share (bit : ℕ) : toScalar (pairContribution bit).share =
    ((2 * pairSecret bit + 1 : ℕ) : ZMod Secp256k1.n) := by
  have hlt := (pairSecret_bounds bit).2
  exact toScalar_small (by omega)

theorem smul_pairSecrets_x (bit : ℕ) :
    toScalar (pairSecrets bit).x • Secp256k1.G = pairSecret bit • Secp256k1.G := by
  rw [pairSecrets, toScalar_pairSecret, Secp256k1.natCast_smul]

theorem toScalar_pairSecrets_share (bit : ℕ) :
    toScalar ((pairSecrets bit).share (natToBytes 32 1)) =
      toScalar (pairContribution bit).share := by
  rw [toScalar_pairContribution_share, SignerSecrets.share, toScalar_transcript, pairSecrets,
    toScalar_one, toScalar_pairSecret]
  push_cast
  ring

theorem signerBits_pairAttestation : pairAttestation.signerBits = [0, nodeSlots] :=
  setBits_pairAttestation

theorem toScalar_pairAttestation : toScalar pairAttestation.signature.aggSigS = (8 : ℕ) :=
  toScalar_small (by norm_num)

theorem isSession_pair : IsSession pairRegistry pairAttestation
    (fun bit => pairSecret bit • Secp256k1.G) fun bit => (pairContribution bit).share := by
  refine ⟨pair_stored, ?_⟩
  simp only [toScalar_pairContribution_share]
  rw [toScalar_pairAttestation, signerBits_pairAttestation, List.map_cons, List.map_singleton,
    List.sum_cons, List.sum_singleton, ← Nat.cast_add]
  rfl

theorem passesChecks_pair : PassesChecks pairRegistry pairAttestation where
  version_eq := rfl
  scalar_valid := (secp256k1ScalarIsValidNonzero_iff _).mpr pairAttestation_scalar
  quorum := pairAttestation_quorum

theorem commitsTo_pair {P : Secp256k1.Point} (hP : P ≠ 0) :
    CommitsTo sampleKeccak pairAttestation P := by
  obtain ⟨x, y, hcoords⟩ := ne_zero_iff_exists_hasCoords.mp hP
  exact ⟨x, y, hcoords, rfl⟩

theorem sum_pairNonces : (pairAttestation.signerBits.map fun bit =>
    Secp256k1.G + toScalar (pairContribution bit).b • Secp256k1.G).sum =
      ((5 : ℕ) : ZMod Secp256k1.n) • Secp256k1.G := by
  simp only [pairContribution, toScalar_pairSecret, Secp256k1.natCast_smul, ← succ_nsmul']
  rw [signerBits_pairAttestation, List.map_cons, List.map_singleton, List.sum_cons,
    List.sum_singleton, ← add_nsmul]
  rfl

theorem commitsTo_pairNonces : CommitsTo sampleKeccak pairAttestation
    (pairAttestation.signerBits.map fun bit =>
      Secp256k1.G + toScalar (pairContribution bit).b • Secp256k1.G).sum := by
  rw [sum_pairNonces]
  exact commitsTo_pair
    (Secp256k1.natCast_smul_G_ne_zero (by norm_num) (by norm_num [Secp256k1.n]))

/-- With the generator as both nonces, `s = 1 + b + c x` satisfies the equation of either signer. -/
theorem acceptedEquation_pair {xy : SignerXy} (hx : bytesToNat xy.1 < Secp256k1.n) :
    AcceptedEquation xy sampleXy (pairSecret bit • Secp256k1.G) Secp256k1.G Secp256k1.G
      (pairContribution bit).b (natToBytes 32 1) (pairContribution bit).share where
  equation := by
    rw [PartialEquation, toScalar_pairContribution_share, pairContribution, toScalar_pairSecret,
      toScalar_one, ← Secp256k1.natCast_smul (pairSecret bit)]
    push_cast
    module
  nonce_lt := by
    rw [sampleXy, bytesToNat_fieldBytes]
    exact Secp256k1.generatorX_val_lt
  key_lt := hx
  right_ne_zero := by
    have hlt := (pairSecret_bounds bit).2
    have hn : 4 < Secp256k1.n := by norm_num [Secp256k1.n]
    rw [toScalar_one, one_smul, ← succ_nsmul', ← Secp256k1.natCast_smul]
    exact Secp256k1.natCast_smul_G_ne_zero (Nat.succ_pos _) (by omega)

theorem canonicalScalars_pair : CanonicalScalars (pairContribution bit).b (natToBytes 32 1)
    (pairContribution bit).share := by
  obtain ⟨hpos, hlt⟩ := pairSecret_bounds bit
  intro scalar hscalar
  simp only [List.mem_cons, List.not_mem_nil, or_false] at hscalar
  rcases hscalar with rfl | rfl | rfl
  · exact natToBytes_scalar hpos (by omega)
  · exact natToBytes_scalar one_pos (by norm_num)
  · exact natToBytes_scalar (Nat.succ_pos _) (by omega)

theorem x_lt_of_namesLiveRecord_pair {member : NodeEntry}
    (hmember : pairRegistry.NamesLiveRecord bit member) (hbit : bit ∈ pairAttestation.signerBits) :
    bytesToNat member.x < Secp256k1.n := by
  rw [signerBits_pairAttestation] at hbit
  simp only [List.mem_cons, List.not_mem_nil, or_false] at hbit
  rw [← RegistryView.signer_eq_ok_iff] at hmember
  rcases hbit with rfl | rfl
  · rw [RegistryView.signer_eq_ok_iff.mpr namesLiveRecord_pair_node] at hmember
    obtain rfl := Except.ok.inj hmember
    rw [sampleMember, bytesToNat_fieldBytes]
    exact Secp256k1.generatorX_val_lt
  · rw [RegistryView.signer_eq_ok_iff.mpr namesLiveRecord_pair_provider] at hmember
    obtain rfl := Except.ok.inj hmember
    rw [sampleProvider, bytesToNat_fieldBytes]
    exact Secp256k1.doubledX_val_lt

theorem partial_pair : ∀ bit ∈ pairAttestation.signerBits, ∀ member,
    pairRegistry.NamesLiveRecord bit member →
      verifyPartialSignatureEquation (referencePrimitives sampleKeccak) referenceLoading member.xy
        (pairContribution bit).r1 (pairContribution bit).r2 (pairContribution bit).b
        (natToBytes 32 1) (pairContribution bit).share = .ok true := by
  intro bit hbit member hmember
  exact verifyPartialSignatureEquation_of_accepted fieldExact_reference sumExact_reference
    groupExact_reference keyLoadingExact_reference recoverExact_reference
    (isSession_pair.storesPoint hbit member hmember).storedPoint storedPoint_sampleXy
    storedPoint_sampleXy canonicalScalars_pair
    (acceptedEquation_pair (x_lt_of_namesLiveRecord_pair hmember hbit))

theorem challenge_pairAttestation (x y : ZMod Secp256k1.p) : toScalar (natToBytes 32 1) =
    pairAttestation.challenge (referencePrimitives sampleKeccak).keccak x y := rfl

theorem storedPoint_pairContribution : ∀ bit ∈ pairAttestation.signerBits,
    StoredPoint (pairContribution bit).r1 Secp256k1.G ∧
      StoredPoint (pairContribution bit).r2 Secp256k1.G :=
  fun _ _ => ⟨storedPoint_sampleXy, storedPoint_sampleXy⟩

/-- Two accepted contributions make an accepted aggregate. -/
theorem session_verifies_iff_sample :
    verify (referencePrimitives sampleKeccak) pairAttestation pairRegistry none = .ok () :=
  (session_verifies_iff fieldExact_reference sumExact_reference groupExact_reference
    keyLoadingExact_reference recoverExact_reference isSession_pair hasCoords_pair
    (challenge_pairAttestation _ _) storedPoint_pairContribution partial_pair).mpr
    ⟨passesChecks_pair, Secp256k1.tripledX_val_lt, commitsTo_pairNonces⟩

/-- The node passes the check, and so the equation of the provider holds: the nonce of the aggregate
is the sum of the nonces. -/
theorem last_signer_honest_sample :
    PartialEquation (pairSecret nodeSlots • Secp256k1.G) Secp256k1.G Secp256k1.G
      (natToBytes 32 (pairSecret nodeSlots)) (natToBytes 32 1)
      (natToBytes 32 (2 * pairSecret nodeSlots + 1)) := by
  rcases last_signer_honest fieldExact_reference sumExact_reference groupExact_reference
    keyLoadingExact_reference recoverExact_reference isSession_pair hasCoords_pair
    (challenge_pairAttestation _ _) storedPoint_pairContribution commitsTo_pairNonces
    verify_pairAttestation nodeSlots_mem_pairAttestation
    fun bit hbit _ => partial_pair bit hbit with hequation | hcollision
  · exact hequation
  · have hkey : (pairAttestation.signerBits.map fun bit => pairSecret bit • Secp256k1.G).sum =
        3 • Secp256k1.G := sum_pair
    refine absurd ?_ hcollision.1
    rw [sum_pairNonces, hkey, nonce, toScalar_pairAttestation, toScalar_one, one_smul,
      Secp256k1.natCast_smul, Secp256k1.natCast_smul, sub_eq_iff_eq_add, ← add_nsmul]

theorem aggSigS_pairAttestation : pairAttestation.signature.aggSigS =
    sumModN (pairAttestation.signerBits.map fun bit =>
      (pairSecrets bit).share (natToBytes 32 1)) := by
  refine eq_of_toScalar_eq pairAttestation_scalar.2 (bytesToNat_sumModN_lt _) ?_
  have hsum := isSession_pair.sum
  rw [hsum, toScalar_sumModN, List.map_map]
  exact congrArg List.sum (List.map_congr_left fun bit _ => (toScalar_pairSecrets_share bit).symm)

theorem commitsTo_pairSecrets : CommitsTo sampleKeccak pairAttestation
    ((pairAttestation.signerBits.map fun bit => (pairSecrets bit).nonce).sum • Secp256k1.G) := by
  have hnonces := commitsTo_pairNonces
  rw [List.sum_smul, List.map_map]
  refine (congrArg (CommitsTo sampleKeccak pairAttestation) (congrArg List.sum
    (List.map_congr_left fun bit _ => ?_))).mpr hnonces
  rw [Function.comp_apply, SignerSecrets.nonce, pairSecrets, toScalar_one, pairContribution]
  module

/-- What two honest signers compute from their secrets is accepted. -/
theorem honest_session_iff_sample :
    verify (referencePrimitives sampleKeccak) pairAttestation pairRegistry none = .ok () := by
  have hkeys := pair_stored
  have hcoords := hasCoords_pair
  simp only [← smul_pairSecrets_x] at hkeys hcoords
  refine (honest_session_iff fieldExact_reference sumExact_reference groupExact_reference
    recoverExact_reference hkeys hcoords (challenge_pairAttestation _ _)
    aggSigS_pairAttestation).mpr ⟨rfl, pairAttestation_quorum, ?_, Secp256k1.tripledX_val_lt, ?_,
      commitsTo_pairSecrets⟩
  · rw [toScalar_pairAttestation]
    exact small_ne_zero (by norm_num) (by norm_num)
  · rw [toScalar_one]
    exact one_ne_zero

end Pair

end Sample

end MolphaVerifier
