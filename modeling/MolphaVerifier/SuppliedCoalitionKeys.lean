import MolphaVerifier.SchnorrSoundness

/-!
# Supplied coalition keys

A key passed next to a signature replaces a field inversion and is not trusted. It either equals the
canonical affine sum of the signers, and then nothing changes, or it is reported as
`invalidCoalitionKey`. The dispute verdict checks the scalar before the key, so a wrong key comes
with a verdict when the scalar is out of range. The stored keys themselves are checked to be
canonical and nonzero, and not to be on the curve.
-/

namespace MolphaVerifier

open FixedBytes BitVecIteration FallibleFolds ShortWeierstrass

/-- `key` is what the signers at the set bits sum to, byte for byte. -/
def IsRegistryCoalitionKey (lib : Libsecp256k1) (registry : RegistryView)
    (signersBitmap : Bytes 32) (key : CoalitionKey) : Prop :=
  ∃ keys, resolveSigners registry signersBitmap = .ok keys ∧ coalitionKey lib keys = .ok key

/-- The bitmap has a set bit, and every set bit names a live record with canonical coordinates. -/
def SignersResolve (registry : RegistryView) (signersBitmap : Bytes 32) : Prop :=
  Bitmap.load signersBitmap ≠ Bitmap.empty ∧ ∀ bit ∈ setBits (Bitmap.load signersBitmap),
    ∃ member, registry.NamesLiveRecord bit member ∧ CanonicalXy member.xy

/-- A set bit names a live record that is not a canonical point of the curve. -/
def NamesOffCurve (registry : RegistryView) (signersBitmap : Bytes 32) : Prop :=
  ∃ bit ∈ setBits (Bitmap.load signersBitmap), ∃ member, registry.NamesLiveRecord bit member ∧
    ¬(CanonicalXy member.xy ∧ toField member.y ^ 2 = Secp256k1.cubic (toField member.x))

section CheckedKeys

variable (sum : Option (ZMod Secp256k1.p × ZMod Secp256k1.p))

theorem checkedPubkey_none_ne : checkedPubkey sum none ≠ .error .invalidCoalitionKey := by
  cases sum with
  | none => simp [checkedPubkey]
  | some xy => simp [checkedPubkey]

/-- A supplied key changes nothing or is refused. -/
theorem checkedPubkey_cases (key : Option CoalitionKey) :
    checkedPubkey sum key = checkedPubkey sum none ∨
      checkedPubkey sum key = .error .invalidCoalitionKey := by
  cases sum with
  | none => exact .inl rfl
  | some xy =>
    by_cases hkey : ∀ k ∈ key, k = CoalitionKey.ofXy xy.1 xy.2
    · left
      rw [checkedPubkey, if_pos hkey]
      simp [checkedPubkey]
    · right
      rw [checkedPubkey, if_neg hkey]

theorem exists_checkedPubkey_iff {sum : Option (ZMod Secp256k1.p × ZMod Secp256k1.p)}
    {key : Option CoalitionKey} : (∃ xCoalition, checkedPubkey sum key = .ok xCoalition) ↔
      ∃ k, (∃ x y, sum = some (x, y) ∧ k = CoalitionKey.ofXy x y) ∧
        ∀ supplied ∈ key, supplied = k := by
  cases sum with
  | none => simp [checkedPubkey]
  | some xy =>
    by_cases hkey : ∀ supplied ∈ key, supplied = CoalitionKey.ofXy xy.1 xy.2
    · rw [checkedPubkey, if_pos hkey]
      exact iff_of_true ⟨_, rfl⟩ ⟨_, ⟨_, _, rfl, rfl⟩, hkey⟩
    · rw [checkedPubkey, if_neg hkey]
      refine iff_of_false (by simp) ?_
      rintro ⟨-, ⟨x, y, hsum, rfl⟩, hsupplied⟩
      obtain rfl := Option.some.inj hsum
      exact hkey hsupplied

theorem exists_checkedPubkey_some_iff {sum : Option (ZMod Secp256k1.p × ZMod Secp256k1.p)}
    {key : CoalitionKey} :
    (∃ xCoalition, checkedPubkey sum (some key) = .ok xCoalition) ↔
      ∃ x y, sum = some (x, y) ∧ key = CoalitionKey.ofXy x y := by
  rw [exists_checkedPubkey_iff]
  constructor
  · rintro ⟨k, hsum, hsupplied⟩
    rwa [hsupplied key rfl]
  · intro hsum
    exact ⟨key, hsum, fun supplied hsupplied => (Option.some.inj hsupplied).symm⟩

end CheckedKeys

variable {prims : Primitives} {R : FieldReading prims.lib} {registry : RegistryView}
  {signersBitmap : Bytes 32} {key : CoalitionKey}

section Sums

variable {coalition : CoalitionAccumulator prims.lib} {keys : List SignerXy}

theorem coalitionKey_eq_ok_iff (hF : FieldExact prims.lib R) (hS : SumExact prims.lib R) :
    coalitionKey prims.lib keys = .ok key ↔
      ∃ coalition, accumulateCoalition prims.lib keys = .ok coalition ∧
        ∃ x y, R.sum coalition = some (x, y) ∧ key = CoalitionKey.ofXy x y := by
  rw [coalitionKey, bind_eq_ok_iff]
  refine exists_congr fun coalition => and_congr_right fun hcoalition => ?_
  rw [CoalitionAccumulator.coalitionKey_eq hF hS (proper_accumulateCoalition hF hS hcoalition)]
  cases R.sum coalition with
  | none => simp
  | some xy =>
    obtain ⟨x, y⟩ := xy
    simp [eq_comm]

/-- Keys that resolve are summed in place to the same accumulator, so the key of a registry's
signers is the reading of that accumulator. -/
theorem isRegistryCoalitionKey_iff (hF : FieldExact prims.lib R) (hS : SumExact prims.lib R)
    (h : accumulateRegistrySigners prims.lib registry signersBitmap = .ok coalition) :
    IsRegistryCoalitionKey prims.lib registry signersBitmap key ↔
      ∃ x y, R.sum coalition = some (x, y) ∧ key = CoalitionKey.ofXy x y := by
  constructor
  · rintro ⟨keys, hkeys, hkey⟩
    obtain ⟨coalition', hcoalition, hsum⟩ := (coalitionKey_eq_ok_iff hF hS).mp hkey
    rw [← accumulateRegistrySigners_of_resolveSigners hkeys, h] at hcoalition
    obtain rfl := Except.ok.inj hcoalition
    exact hsum
  · intro hsum
    have hlive := ((exists_accumulateRegistrySigners_iff hF hS).mp ⟨coalition, h⟩).2
    obtain ⟨keys, hkeys⟩ := exists_resolveSigners_iff.mpr fun bit hbit => by
      obtain ⟨member, hmember, -⟩ := hlive bit hbit
      exact ⟨member, hmember⟩
    rw [accumulateRegistrySigners_of_resolveSigners hkeys] at h
    exact ⟨keys, hkeys, (coalitionKey_eq_ok_iff hF hS).mpr ⟨coalition, h, hsum⟩⟩

end Sums

theorem checkQuorum_ne_invalidCoalitionKey (signers : Bitmap) (signaturesRequired : UInt8) :
    checkQuorum signers signaturesRequired ≠ .error .invalidCoalitionKey := by
  rw [checkQuorum]
  split_ifs <;> simp

theorem verdict_eq_error_iff {checked : Except AttestationError (Bytes 33)} {valid : Bool}
    {verdict : Bytes 33 → Bool} :
    (∃ e, (if valid then checked >>= fun xCoalition => .ok (verdict xCoalition)
      else .ok false : Except AttestationError Bool) = .error e) ↔
      valid = true ∧ ¬∃ xCoalition, checked = .ok xCoalition := by
  cases valid with
  | false => simp
  | true =>
    cases checked with
    | error e => simp [bind, Except.bind]
    | ok xCoalition => simp [bind, Except.bind]

section Verification

variable (hF : FieldExact prims.lib R) (hS : SumExact prims.lib R)

include hF hS

/-- Only the compression of the sum looks at the supplied key: `verify` stops before it with an
error of its own, or it is a comparison with the sum followed by the recovery. -/
theorem verify_cases (attestation : Attestation) (registry : RegistryView) :
    (∃ e, e ≠ .invalidCoalitionKey ∧ ∀ key, verify prims attestation registry key = .error e) ∨
      ∃ coalition, accumulateRegistrySigners prims.lib registry
          attestation.signature.signersBitmap = .ok coalition ∧
        ∀ key, verify prims attestation registry key =
          (checkedPubkey (R.sum coalition) key >>= fun xCoalition =>
            if recoverAndMatch prims xCoalition (attestation.messageHash prims.keccak)
              attestation.signature.aggSigS attestation.signature.commitment then .ok ()
            else .error .invalidAggregateSignature) := by
  simp only [verify]
  by_cases hversion : attestation.payload.registryVersion = registry.version
  swap
  · exact .inl ⟨.invalidRegistryVersion, by simp, fun key => by simp [hversion]⟩
  cases hscalar : secp256k1ScalarIsValidNonzero attestation.signature.aggSigS with
  | false => exact .inl ⟨.invalidAggregateSignature, by simp, fun key => by simp [hversion]⟩
  | true =>
    simp only [hversion, ne_eq, not_true_eq_false, if_false, Bool.not_true, Bool.false_eq_true]
    cases hquorum : checkQuorum (Bitmap.load attestation.signature.signersBitmap)
        attestation.payload.signaturesRequired with
    | error e =>
      refine .inl ⟨e, ?_, fun _ => rfl⟩
      rintro rfl
      exact checkQuorum_ne_invalidCoalitionKey _ _ hquorum
    | ok _ =>
      cases hsum : accumulateRegistrySigners prims.lib registry
          attestation.signature.signersBitmap with
      | error e =>
        refine .inl ⟨e, ?_, fun _ => rfl⟩
        rcases accumulateRegistrySigners_error hF hS hsum with rfl | rfl <;> simp
      | ok coalition =>
        refine .inr ⟨coalition, rfl, fun key => ?_⟩
        rw [← compressCoalition_eq hF hS (proper_accumulateRegistrySigners hF hS hsum) key]
        rfl

/-- A supplied key changes the cost of verification and not its outcome. -/
theorem verify_supplied_key (attestation : Attestation) (registry : RegistryView) :
    verify prims attestation registry none ≠ .error .invalidCoalitionKey ∧
      (∀ key, verify prims attestation registry (some key) =
          verify prims attestation registry none ∨
        verify prims attestation registry (some key) = .error .invalidCoalitionKey) ∧
      ∀ keys key, resolveSigners registry attestation.signature.signersBitmap = .ok keys →
        coalitionKey prims.lib keys = .ok key →
          verify prims attestation registry (some key) = verify prims attestation registry none ∧
          ∀ other, other ≠ key → verify prims attestation registry (some other) ≠ .ok () := by
  rcases verify_cases hF hS attestation registry with ⟨e, hne, hverify⟩ |
    ⟨coalition, hcoalition, hverify⟩
  · simp [hverify, hne]
  refine ⟨?_, fun key => ?_, fun keys key hkeys hkey => ⟨?_, fun other hother => ?_⟩⟩
  · rw [hverify]
    intro h
    rw [bind_eq_error_iff] at h
    rcases h with h | ⟨xCoalition, -, h⟩
    · exact checkedPubkey_none_ne _ h
    · split at h <;> simp at h
  · rw [hverify, hverify]
    rcases checkedPubkey_cases (R.sum coalition) (some key) with h | h
    · exact .inl (by rw [h])
    · exact .inr (by rw [h]; rfl)
  · obtain ⟨x, y, hsum, rfl⟩ := (isRegistryCoalitionKey_iff hF hS hcoalition).mp ⟨keys, hkeys, hkey⟩
    rw [hverify, hverify, hsum]
    simp [checkedPubkey]
  · obtain ⟨x, y, hsum, rfl⟩ := (isRegistryCoalitionKey_iff hF hS hcoalition).mp ⟨keys, hkeys, hkey⟩
    rw [hverify, hsum]
    simp [checkedPubkey, hother, bind, Except.bind]

theorem verifyAggregateOverHashResolved_eq {signature : SchnorrSignature}
    {coalition : CoalitionAccumulator prims.lib}
    (h : accumulateRegistrySigners prims.lib registry signature.signersBitmap = .ok coalition)
    (messageHash : Bytes 32) (key : Option CoalitionKey) :
    verifyAggregateOverHashResolved prims registry signature messageHash key =
      if secp256k1ScalarIsValidNonzero signature.aggSigS then
        checkedPubkey (R.sum coalition) key >>= fun xCoalition =>
          .ok (recoverAndMatch prims xCoalition messageHash signature.aggSigS signature.commitment)
      else .ok false := by
  rw [verifyAggregateOverHashResolved, h,
    ← compressCoalition_eq hF hS (proper_accumulateRegistrySigners hF hS h) key]
  cases secp256k1ScalarIsValidNonzero signature.aggSigS <;> rfl

omit hF hS in
/-- The dispute verdict is `true` after the same checks as acceptance, version and quorum apart. -/
theorem verifyAggregateOverHashResolved_eq_true_iff {signature : SchnorrSignature}
    {messageHash : Bytes 32} {key : Option CoalitionKey} :
    verifyAggregateOverHashResolved prims registry signature messageHash key = .ok true ↔
      secp256k1ScalarIsValidNonzero signature.aggSigS = true ∧
      ∃ coalition, accumulateRegistrySigners prims.lib registry signature.signersBitmap =
          .ok coalition ∧
        ∃ xCoalition, compressCoalition coalition key = .ok xCoalition ∧
          recoverAndMatch prims xCoalition messageHash signature.aggSigS signature.commitment =
            true := by
  rw [verifyAggregateOverHashResolved, bind_eq_ok_iff]
  cases secp256k1ScalarIsValidNonzero signature.aggSigS with
  | false => simp
  | true =>
    simp only [Bool.not_true, Bool.false_eq_true, if_false, true_and]
    refine exists_congr fun coalition => and_congr_right fun _ => ?_
    rw [bind_eq_ok_iff]
    refine exists_congr fun xCoalition => and_congr_right fun _ => ?_
    change (Except.ok _ : Except AttestationError Bool) = .ok true ↔ _
    rw [Except.ok.injEq]

theorem verifyAggregateOverHashInner_eq {s messageHash : Bytes 32} {commitment : Bytes 20}
    {signers : List SignerXy} {coalition : CoalitionAccumulator prims.lib}
    (h : accumulateCoalition prims.lib signers = .ok coalition) (key : Option CoalitionKey) :
    verifyAggregateOverHashInner prims s commitment messageHash signers key =
      if secp256k1ScalarIsValidNonzero s then
        checkedPubkey (R.sum coalition) key >>= fun xCoalition =>
          .ok (recoverAndMatch prims xCoalition messageHash s commitment)
      else .ok false := by
  rw [verifyAggregateOverHashInner, h,
    ← compressCoalition_eq hF hS (proper_accumulateCoalition hF hS h) key]
  cases secp256k1ScalarIsValidNonzero s <;> rfl

omit hF hS in
theorem verify_eq_ok_iff_resolved {attestation : Attestation} {registry : RegistryView}
    {key : Option CoalitionKey} : verify prims attestation registry key = .ok () ↔
      attestation.payload.registryVersion = registry.version ∧
        checkQuorum (Bitmap.load attestation.signature.signersBitmap)
          attestation.payload.signaturesRequired = .ok () ∧
        verifyAggregateOverHashResolved prims registry attestation.signature
          (attestation.messageHash prims.keccak) key = .ok true := by
  rw [verify_eq_ok_iff_checks, verifyAggregateOverHashResolved_eq_true_iff]
  exact and_congr_right fun _ => and_left_comm

/-- Acceptance is the version and the quorum on top of the dispute verdict, and what is accepted
with one key is not slashable with another. -/
theorem verify_agrees_with_dispute (attestation : Attestation) (registry : RegistryView) :
    (∀ key, verify prims attestation registry key = .ok () ↔
      attestation.payload.registryVersion = registry.version ∧
        checkQuorum (Bitmap.load attestation.signature.signersBitmap)
          attestation.payload.signaturesRequired = .ok () ∧
        verifyAggregateOverHashResolved prims registry attestation.signature
          (attestation.messageHash prims.keccak) key = .ok true) ∧
      ∀ key, verify prims attestation registry key = .ok () → ∀ key',
        verifyAggregateOverHashResolved prims registry attestation.signature
            (attestation.messageHash prims.keccak) key' = .ok true ∨
          verifyAggregateOverHashResolved prims registry attestation.signature
            (attestation.messageHash prims.keccak) key' = .error .invalidCoalitionKey := by
  refine ⟨fun _ => verify_eq_ok_iff_resolved, fun key hok key' => ?_⟩
  obtain ⟨-, -, htrue⟩ := verify_eq_ok_iff_resolved.mp hok
  obtain ⟨hscalar, coalition, hcoalition, -⟩ :=
    verifyAggregateOverHashResolved_eq_true_iff.mp htrue
  -- both runs compare their key with one sum
  have hresolved := verifyAggregateOverHashResolved_eq hF hS hcoalition
    (attestation.messageHash prims.keccak)
  simp only [hscalar, if_true] at hresolved
  rw [hresolved] at htrue ⊢
  rcases checkedPubkey_cases (R.sum coalition) key with h | h
  · rw [h] at htrue
    rcases checkedPubkey_cases (R.sum coalition) key' with h' | h'
    · exact .inl (by rw [h', htrue])
    · exact .inr (by rw [h']; rfl)
  · simp [h, bind, Except.bind] at htrue

theorem resolved_keyed_error_iff (registry : RegistryView) (signature : SchnorrSignature)
    (messageHash : Bytes 32) (key : CoalitionKey) :
    (¬IsRegistryCoalitionKey prims.lib registry signature.signersBitmap key →
        ∃ e, verifyAggregateOverHashResolved prims registry signature messageHash (some key) =
          .error e) ↔
      IsRegistryCoalitionKey prims.lib registry signature.signersBitmap key ∨
        secp256k1ScalarIsValidNonzero signature.aggSigS = true ∨
        ¬SignersResolve registry signature.signersBitmap := by
  rw [SignersResolve, ← exists_accumulateRegistrySigners_iff hF hS]
  cases hsum : accumulateRegistrySigners prims.lib registry signature.signersBitmap with
  | error e =>
    have herror : verifyAggregateOverHashResolved prims registry signature messageHash
        (some key) = .error e := by
      rw [verifyAggregateOverHashResolved, hsum]
      rfl
    simp [herror]
  | ok coalition =>
    rw [isRegistryCoalitionKey_iff hF hS hsum, ← exists_checkedPubkey_some_iff,
      verifyAggregateOverHashResolved_eq hF hS hsum, verdict_eq_error_iff]
    by_cases hkey : ∃ xCoalition, checkedPubkey (R.sum coalition) (some key) = .ok xCoalition
    · simp [hkey]
    · simp [hkey]

theorem sliced_keyed_error_iff (s : Bytes 32) (commitment : Bytes 20) (messageHash : Bytes 32)
    (signers : List SignerXy) (key : CoalitionKey) :
    (coalitionKey prims.lib signers ≠ .ok key →
        ∃ e, verifyAggregateOverHashWithCoalitionKey prims s commitment messageHash signers key =
          .error e) ↔
      coalitionKey prims.lib signers = .ok key ∨ secp256k1ScalarIsValidNonzero s = true := by
  cases hsum : accumulateCoalition prims.lib signers with
  | error e =>
    have hkey : coalitionKey prims.lib signers ≠ .ok key := by
      rw [coalitionKey, hsum]
      simp [bind, Except.bind]
    have herror : verifyAggregateOverHashWithCoalitionKey prims s commitment messageHash signers key =
        if secp256k1ScalarIsValidNonzero s then .error e else .ok false := by
      rw [verifyAggregateOverHashWithCoalitionKey, verifyAggregateOverHashInner, hsum]
      cases secp256k1ScalarIsValidNonzero s <;> rfl
    rw [herror]
    cases secp256k1ScalarIsValidNonzero s <;> simp [hkey]
  | ok coalition =>
    have hkey : coalitionKey prims.lib signers = .ok key ↔
        ∃ xCoalition, checkedPubkey (R.sum coalition) (some key) = .ok xCoalition := by
      rw [coalitionKey_eq_ok_iff hF hS, exists_checkedPubkey_some_iff, hsum]
      simp
    rw [verifyAggregateOverHashWithCoalitionKey,
      verifyAggregateOverHashInner_eq hF hS hsum, verdict_eq_error_iff, ne_eq, hkey]
    by_cases hgood : ∃ xCoalition, checkedPubkey (R.sum coalition) (some key) = .ok xCoalition
    · simp [hgood]
    · simp [hgood]

/-- A key that is not the sum's is an error, except where the scalar check has already given a
verdict. -/
theorem keyed_verdict_error_iff :
    (∀ registry signature messageHash key,
      (¬IsRegistryCoalitionKey prims.lib registry signature.signersBitmap key →
          ∃ e, verifyAggregateOverHashResolved prims registry signature messageHash (some key) =
            .error e) ↔
        IsRegistryCoalitionKey prims.lib registry signature.signersBitmap key ∨
          (0 < bytesToNat signature.aggSigS ∧ bytesToNat signature.aggSigS < Secp256k1.n) ∨
          ¬SignersResolve registry signature.signersBitmap) ∧
      ∀ s commitment messageHash signers key,
        (coalitionKey prims.lib signers ≠ .ok key →
            ∃ e, verifyAggregateOverHashWithCoalitionKey prims s commitment messageHash signers key =
              .error e) ↔
          coalitionKey prims.lib signers = .ok key ∨
            (0 < bytesToNat s ∧ bytesToNat s < Secp256k1.n) := by
  refine ⟨fun registry signature messageHash key => ?_,
    fun s commitment messageHash signers key => ?_⟩
  · rw [← secp256k1ScalarIsValidNonzero_iff]
    exact resolved_keyed_error_iff hF hS registry signature messageHash key
  · rw [← secp256k1ScalarIsValidNonzero_iff]
    exact sliced_keyed_error_iff hF hS s commitment messageHash signers key

/-- The dispute function has no verdict where the signers do not resolve, or where a scalar in range
is followed by a sum that is infinity or by a key other than the sum's. -/
theorem resolved_error_iff (registry : RegistryView) (signature : SchnorrSignature)
    (messageHash : Bytes 32) (key : Option CoalitionKey) :
    (∃ e, verifyAggregateOverHashResolved prims registry signature messageHash key = .error e) ↔
      ¬SignersResolve registry signature.signersBitmap ∨
        (secp256k1ScalarIsValidNonzero signature.aggSigS = true ∧
          ¬∃ k, IsRegistryCoalitionKey prims.lib registry signature.signersBitmap k ∧
            ∀ supplied ∈ key, supplied = k) := by
  rw [SignersResolve, ← exists_accumulateRegistrySigners_iff hF hS]
  cases hsum : accumulateRegistrySigners prims.lib registry signature.signersBitmap with
  | error e =>
    have herror : verifyAggregateOverHashResolved prims registry signature messageHash key =
        .error e := by
      rw [verifyAggregateOverHashResolved, hsum]
      rfl
    simp [herror]
  | ok coalition =>
    simp only [isRegistryCoalitionKey_iff hF hS hsum]
    rw [verifyAggregateOverHashResolved_eq hF hS hsum, verdict_eq_error_iff,
      exists_checkedPubkey_iff]
    simp

omit hF hS in
theorem verify_ne_ok_of_resolved_error {attestation : Attestation} {registry : RegistryView}
    {key : Option CoalitionKey}
    (h : ∃ e, verifyAggregateOverHashResolved prims registry attestation.signature
      (attestation.messageHash prims.keccak) key = .error e) :
    verify prims attestation registry key ≠ .ok () := by
  obtain ⟨e, herror⟩ := h
  intro hok
  have htrue := (verify_eq_ok_iff_resolved.mp hok).2.2
  rw [herror] at htrue
  cases htrue

/-- A record off the curve is refused exactly where the signers do not resolve: summing checks that
stored keys are canonical and not zero, and never that they are on the curve. For the attestation's
own signature the refusal can also come from the sum: it is infinity, or not the supplied key. -/
theorem off_curve_refused_iff (registry : RegistryView) (attestation : Attestation)
    (key : Option CoalitionKey) :
    ((NamesOffCurve registry attestation.signature.signersBitmap →
        verify prims attestation registry key ≠ .ok () ∧
        ∀ signature : SchnorrSignature,
          signature.signersBitmap = attestation.signature.signersBitmap → ∀ messageHash,
            ∃ e, verifyAggregateOverHashResolved prims registry signature messageHash key =
              .error e) ↔
      ¬NamesOffCurve registry attestation.signature.signersBitmap ∨
        ¬SignersResolve registry attestation.signature.signersBitmap) ∧
    ((NamesOffCurve registry attestation.signature.signersBitmap →
        verify prims attestation registry key ≠ .ok () ∧
        ∀ messageHash, ∃ e, verifyAggregateOverHashResolved prims registry attestation.signature
          messageHash key = .error e) ↔
      ¬NamesOffCurve registry attestation.signature.signersBitmap ∨
        ¬SignersResolve registry attestation.signature.signersBitmap ∨
        ((0 < bytesToNat attestation.signature.aggSigS ∧
            bytesToNat attestation.signature.aggSigS < Secp256k1.n) ∧
          ¬∃ k, IsRegistryCoalitionKey prims.lib registry attestation.signature.signersBitmap k ∧
            ∀ supplied ∈ key, supplied = k)) := by
  rw [← secp256k1ScalarIsValidNonzero_iff, ← imp_iff_not_or, ← imp_iff_not_or]
  refine ⟨imp_congr_right fun _ => ⟨fun ⟨_, herrors⟩ hresolve => ?_, fun hresolve => ?_⟩,
    imp_congr_right fun _ => ⟨fun ⟨_, herrors⟩ => ?_, fun h => ?_⟩⟩
  · -- the same bitmap under the scalar zero
    have herror := herrors { attestation.signature with aggSigS := Vector.replicate 32 0 } rfl
      (attestation.messageHash prims.keccak)
    rcases (resolved_error_iff hF hS _ _ _ _).mp herror with h | ⟨hscalar, -⟩
    · exact h hresolve
    · have hpos := ((secp256k1ScalarIsValidNonzero_iff _).mp hscalar).1
      rw [eq_replicate_zero_iff.mp rfl] at hpos
      exact absurd hpos (lt_irrefl 0)
  · have herrors (signature : SchnorrSignature)
        (hbitmap : signature.signersBitmap = attestation.signature.signersBitmap)
        (messageHash : Bytes 32) :=
      (resolved_error_iff hF hS registry signature messageHash key).mpr
        (.inl (by rwa [hbitmap]))
    exact ⟨verify_ne_ok_of_resolved_error (herrors _ rfl _), herrors⟩
  · exact (resolved_error_iff hF hS _ _ _ _).mp (herrors (attestation.messageHash prims.keccak))
  · have herrors (messageHash : Bytes 32) :=
      (resolved_error_iff hF hS registry attestation.signature messageHash key).mpr h
    exact ⟨verify_ne_ok_of_resolved_error (herrors _), herrors⟩

end Verification

section Singleton

variable (hF : FieldExact prims.lib R) (hS : SumExact prims.lib R) {attestation : Attestation}
  {bit : ℕ} {member : NodeEntry}

include hF hS

theorem exists_sum_singleton (hbits : setBits (Bitmap.load signersBitmap) = [bit])
    (hmember : registry.NamesLiveRecord bit member) (hxy : CanonicalXy member.xy) :
    ∃ coalition, accumulateRegistrySigners prims.lib registry signersBitmap = .ok coalition ∧
      R.sum coalition = some (toField member.x, toField member.y) := by
  obtain ⟨coalition, hcoalition⟩ := (CoalitionAccumulator.exists_addStoredXy_iff hF hS).mpr hxy
  refine ⟨coalition, ?_, CoalitionAccumulator.sum_addStoredXy_default hF hS hcoalition⟩
  rw [accumulateRegistrySigners_singleton hbits hmember]
  exact hcoalition

/-- A single signer is accepted on its stored pair alone, whether or not that is a point. -/
theorem verify_singleton (hversion : attestation.payload.registryVersion = registry.version)
    (hscalar : secp256k1ScalarIsValidNonzero attestation.signature.aggSigS = true)
    (hquorum : MeetsQuorum (Bitmap.load attestation.signature.signersBitmap)
      attestation.payload.signaturesRequired)
    (hbits : setBits (Bitmap.load attestation.signature.signersBitmap) = [bit])
    (hmember : registry.NamesLiveRecord bit member) (hxy : CanonicalXy member.xy)
    (hmatch : recoverAndMatch prims (encodeCompressed (toField member.x) (toField member.y))
      (attestation.messageHash prims.keccak) attestation.signature.aggSigS
      attestation.signature.commitment = true) :
    verify prims attestation registry none = .ok () := by
  obtain ⟨coalition, hcoalition, hsum⟩ := exists_sum_singleton hF hS hbits hmember hxy
  refine verify_eq_ok_iff_checks.mpr ⟨hversion, hscalar, checkQuorum_eq_ok_iff.mpr hquorum,
    coalition, hcoalition, _, ?_, hmatch⟩
  rw [compressCoalition_eq hF hS (proper_accumulateRegistrySigners hF hS hcoalition), hsum]
  simp [checkedPubkey]

end Singleton

section Sample

theorem recoverAndMatch_sample (messageHash : Bytes 32) :
    recoverAndMatch (referencePrimitives sampleKeccak)
      (encodeCompressed Secp256k1.generatorX Secp256k1.generatorY) messageHash (natToBytes 32 2)
      (natToBytes 20 1) = true :=
  (recoverAndMatch_iff recoverExact_reference Secp256k1.hasCoords_G messageHash _ _).mpr
    (schnorrAccepts_sample messageHash)

theorem verify_sample {bit : ℕ} (h : bit < 256)
    (hmember : sampleRegistry.NamesLiveRecord bit sampleMember) :
    verify (referencePrimitives sampleKeccak) (sampleAttestation bit) sampleRegistry none =
      .ok () := by
  have hscalar := (secp256k1ScalarIsValidNonzero_iff _).mpr (sampleAttestation_scalar bit)
  refine verify_singleton fieldExact_reference sumExact_reference rfl hscalar
    (sampleAttestation_quorum h) (setBits_sampleAttestation h) hmember
    sampleMember_storesPoint.canonicalXy ?_
  rw [sampleMember, toField_fieldBytes, toField_fieldBytes]
  exact recoverAndMatch_sample _

def sampleKey : CoalitionKey := CoalitionKey.ofXy Secp256k1.generatorX Secp256k1.generatorY

theorem isRegistryCoalitionKey_sample :
    IsRegistryCoalitionKey (referencePrimitives sampleKeccak).lib sampleRegistry
      (sampleAttestation 0).signature.signersBitmap sampleKey := by
  obtain ⟨coalition, hcoalition, hsum⟩ := @exists_sum_singleton
    (referencePrimitives sampleKeccak) _ _ _ fieldExact_reference sumExact_reference _ _
    (setBits_sampleAttestation (by norm_num)) namesLiveRecord_sample_node
    sampleMember_storesPoint.canonicalXy
  refine (isRegistryCoalitionKey_iff fieldExact_reference sumExact_reference hcoalition).mpr
    ⟨_, _, hsum, ?_⟩
  rw [sampleMember, toField_fieldBytes, toField_fieldBytes]
  rfl

/-- A second encoding of zero, which no sum is read as. -/
def sampleWrongKey : CoalitionKey := ⟨natToBytes 32 Secp256k1.p, natToBytes 32 Secp256k1.p⟩

theorem sampleWrongKey_ne_ofXy (x y : ZMod Secp256k1.p) : sampleWrongKey ≠ CoalitionKey.ofXy x y := by
  intro h
  have hx : bytesToNat (natToBytes 32 Secp256k1.p) = bytesToNat (fieldBytes x) :=
    congrArg (fun key => bytesToNat key.x) h
  rw [bytesToNat_natToBytes_of_lt Secp256k1.p_lt_two_pow, bytesToNat_fieldBytes] at hx
  exact (ZMod.val_lt x).ne hx.symm

theorem coalitionKey_ne_sampleWrongKey (keys : List SignerXy) :
    coalitionKey (referencePrimitives sampleKeccak).lib keys ≠ .ok sampleWrongKey := by
  rw [ne_eq, coalitionKey_eq_ok_iff fieldExact_reference sumExact_reference]
  rintro ⟨-, -, x, y, -, h⟩
  exact sampleWrongKey_ne_ofXy x y h

/-- The sample's key leaves its acceptance as it is, and another key does not. -/
theorem verify_supplied_key_sample :
    verify (referencePrimitives sampleKeccak) (sampleAttestation 0) sampleRegistry
        (some sampleKey) = .ok () ∧
      verify (referencePrimitives sampleKeccak) (sampleAttestation 0) sampleRegistry
        (some sampleWrongKey) ≠ .ok () := by
  obtain ⟨keys, hkeys, hkey⟩ := isRegistryCoalitionKey_sample
  obtain ⟨hsame, hother⟩ := (verify_supplied_key fieldExact_reference sumExact_reference
    (sampleAttestation 0) sampleRegistry).2.2 keys sampleKey hkeys hkey
  refine ⟨hsame.trans (verify_sample (by norm_num) namesLiveRecord_sample_node),
    hother _ ?_⟩
  exact sampleWrongKey_ne_ofXy _ _

def sampleZeroScalar : SchnorrSignature :=
  { (sampleAttestation 0).signature with aggSigS := natToBytes 32 0 }

/-- With `s = 0` a wrong key comes with a verdict, over a registry and over a list of signers. -/
theorem wrong_key_gets_verdict :
    (¬IsRegistryCoalitionKey (referencePrimitives sampleKeccak).lib sampleRegistry
        sampleZeroScalar.signersBitmap sampleWrongKey ∧
      verifyAggregateOverHashResolved (referencePrimitives sampleKeccak) sampleRegistry
        sampleZeroScalar (natToBytes 32 1) (some sampleWrongKey) = .ok false) ∧
    coalitionKey (referencePrimitives sampleKeccak).lib [sampleMember.xy] ≠ .ok sampleWrongKey ∧
      verifyAggregateOverHashWithCoalitionKey (referencePrimitives sampleKeccak)
        sampleZeroScalar.aggSigS sampleZeroScalar.commitment (natToBytes 32 1) [sampleMember.xy]
        sampleWrongKey = .ok false := by
  have hscalar : secp256k1ScalarIsValidNonzero sampleZeroScalar.aggSigS = false := by
    rw [← Bool.not_eq_true, secp256k1ScalarIsValidNonzero_iff, sampleZeroScalar,
      bytesToNat_natToBytes_of_lt (by norm_num)]
    simp
  obtain ⟨coalition, hcoalition, -⟩ := @exists_sum_singleton
    (referencePrimitives sampleKeccak) _ _ _ fieldExact_reference sumExact_reference _ _
    (setBits_sampleAttestation (by norm_num)) namesLiveRecord_sample_node
    sampleMember_storesPoint.canonicalXy
  refine ⟨⟨?_, ?_⟩, coalitionKey_ne_sampleWrongKey _, ?_⟩
  · rintro ⟨keys, -, hkey⟩
    exact coalitionKey_ne_sampleWrongKey keys hkey
  · have hsum : accumulateRegistrySigners (referencePrimitives sampleKeccak).lib sampleRegistry
        sampleZeroScalar.signersBitmap = .ok coalition := hcoalition
    rw [verifyAggregateOverHashResolved_eq fieldExact_reference sumExact_reference hsum, hscalar]
    rfl
  · rw [verifyAggregateOverHashWithCoalitionKey, verifyAggregateOverHashInner, hscalar]
    rfl

/-- With a scalar in range the wrong key is an error on both paths. -/
theorem keyed_verdict_error_sample :
    (∃ e, verifyAggregateOverHashResolved (referencePrimitives sampleKeccak) sampleRegistry
        (sampleAttestation 0).signature (natToBytes 32 1) (some sampleWrongKey) = .error e) ∧
      ∃ e, verifyAggregateOverHashWithCoalitionKey (referencePrimitives sampleKeccak)
        (sampleAttestation 0).signature.aggSigS (natToBytes 20 1) (natToBytes 32 1)
        [sampleMember.xy] sampleWrongKey = .error e := by
  obtain ⟨hresolved, hsliced⟩ := @keyed_verdict_error_iff (referencePrimitives sampleKeccak) _
    fieldExact_reference sumExact_reference
  have hscalar := sampleAttestation_scalar 0
  refine ⟨(hresolved sampleRegistry _ _ _).mpr (.inr (.inl hscalar)) ?_,
    (hsliced _ _ _ _ _).mpr (.inr hscalar) (coalitionKey_ne_sampleWrongKey _)⟩
  rintro ⟨keys, -, hkey⟩
  exact coalitionKey_ne_sampleWrongKey keys hkey

def singleNodeRegistry (xy : SignerXy) : RegistryView :=
  ⟨1, 1, 0, 0, [⟨natToBytes 32 7, xy.1, xy.2⟩], []⟩

theorem namesLiveRecord_singleNodeRegistry (xy : SignerXy) :
    (singleNodeRegistry xy).NamesLiveRecord 0 ⟨natToBytes 32 7, xy.1, xy.2⟩ where
  of_node _ := ⟨show 0 < (1 : UInt16).toNat by decide, rfl⟩
  of_provider h := absurd h (by decide)
  live := by
    rw [NodeEntry.isVacant_eq_false_iff, bytesToNat_natToBytes_of_lt (by norm_num)]
    norm_num

/-- The generator with another second coordinate of the same parity. -/
def sampleOffCurveXy : SignerXy :=
  (fieldBytes Secp256k1.generatorX, fieldBytes (Secp256k1.generatorY + 1 + 1))

theorem sampleOffCurveXy_facts : CanonicalXy sampleOffCurveXy ∧
    (Secp256k1.generatorY + 1 + 1) ^ 2 ≠ Secp256k1.generatorX ^ 3 + 7 ∧
      encodeCompressed Secp256k1.generatorX (Secp256k1.generatorY + 1 + 1) =
        encodeCompressed Secp256k1.generatorX Secp256k1.generatorY := by
  decide +kernel

/-- A registry key off the curve verifies: compression keeps the parity of its second coordinate and
recovery lifts the first to the curve. -/
theorem off_curve_key_verifies :
    (singleNodeRegistry sampleOffCurveXy).NamesLiveRecord 0
        ⟨natToBytes 32 7, sampleOffCurveXy.1, sampleOffCurveXy.2⟩ ∧
      toField sampleOffCurveXy.2 ^ 2 ≠ toField sampleOffCurveXy.1 ^ 3 + 7 ∧
      verify (referencePrimitives sampleKeccak) (sampleAttestation 0)
        (singleNodeRegistry sampleOffCurveXy) none = .ok () ∧
      verifyAggregateOverHashResolved (referencePrimitives sampleKeccak)
        (singleNodeRegistry sampleOffCurveXy) (sampleAttestation 0).signature
        ((sampleAttestation 0).messageHash sampleKeccak) none = .ok true := by
  obtain ⟨hxy, hcurve, hcompressed⟩ := sampleOffCurveXy_facts
  have hx : toField sampleOffCurveXy.1 = Secp256k1.generatorX := toField_fieldBytes _
  have hy : toField sampleOffCurveXy.2 = Secp256k1.generatorY + 1 + 1 := toField_fieldBytes _
  have hmember := namesLiveRecord_singleNodeRegistry sampleOffCurveXy
  have hscalar := (secp256k1ScalarIsValidNonzero_iff _).mpr (sampleAttestation_scalar 0)
  have hverify : verify (referencePrimitives sampleKeccak) (sampleAttestation 0)
      (singleNodeRegistry sampleOffCurveXy) none = .ok () := by
    refine verify_singleton fieldExact_reference sumExact_reference rfl hscalar
      (sampleAttestation_quorum (by norm_num)) (setBits_sampleAttestation (by norm_num)) hmember hxy
      ?_
    rw [hx, hy, hcompressed]
    exact recoverAndMatch_sample _
  refine ⟨hmember, ?_, hverify, (verify_eq_ok_iff_resolved.mp hverify).2.2⟩
  rwa [hx, hy]

/-- The record off the curve is refused with a key that is not its own, and nowhere else: over the
same bitmap some signature has a verdict. -/
theorem off_curve_refused_iff_sample :
    verify (referencePrimitives sampleKeccak) (sampleAttestation 0)
        (singleNodeRegistry sampleOffCurveXy) (some sampleWrongKey) ≠ .ok () ∧
      ¬∀ signature : SchnorrSignature,
        signature.signersBitmap = (sampleAttestation 0).signature.signersBitmap → ∀ messageHash,
          ∃ e, verifyAggregateOverHashResolved (referencePrimitives sampleKeccak)
            (singleNodeRegistry sampleOffCurveXy) signature messageHash (some sampleWrongKey) =
              .error e := by
  have hmember := namesLiveRecord_singleNodeRegistry sampleOffCurveXy
  have hbits := setBits_sampleAttestation (show 0 < 256 by norm_num)
  have hoff : NamesOffCurve (singleNodeRegistry sampleOffCurveXy)
      (sampleAttestation 0).signature.signersBitmap := by
    refine ⟨0, by simp [hbits], _, hmember, fun h => ?_⟩
    refine sampleOffCurveXy_facts.2.1 ?_
    have hcurve := h.2
    simp only [sampleOffCurveXy, toField_fieldBytes] at hcurve
    exact hcurve
  have hresolve : SignersResolve (singleNodeRegistry sampleOffCurveXy)
      (sampleAttestation 0).signature.signersBitmap := by
    refine ⟨fun hempty => ?_, fun bit hbit => ?_⟩
    · rw [hempty] at hbits
      exact absurd (hbits.symm.trans setBits_zero) (by simp)
    · obtain rfl : bit = 0 := by simpa [hbits] using hbit
      exact ⟨_, hmember, sampleOffCurveXy_facts.1⟩
  obtain ⟨hany, hown⟩ := @off_curve_refused_iff (referencePrimitives sampleKeccak) _
    fieldExact_reference sumExact_reference (singleNodeRegistry sampleOffCurveXy)
    (sampleAttestation 0) (some sampleWrongKey)
  have hrefused := (hown.mpr (.inr (.inr ⟨sampleAttestation_scalar 0, ?_⟩)) hoff).1
  · refine ⟨hrefused, fun hall => ?_⟩
    rcases hany.mp fun _ => ⟨hrefused, hall⟩ with h | h
    · exact h hoff
    · exact h hresolve
  · rintro ⟨k, ⟨keys, -, hkey⟩, hsupplied⟩
    rw [← hsupplied sampleWrongKey rfl] at hkey
    exact coalitionKey_ne_sampleWrongKey keys hkey

/-- The accepted sample is judged valid, and never invalid with another key. -/
theorem verify_agrees_with_dispute_sample :
    verifyAggregateOverHashResolved (referencePrimitives sampleKeccak) sampleRegistry
        (sampleAttestation 0).signature ((sampleAttestation 0).messageHash sampleKeccak) none =
          .ok true ∧
      verifyAggregateOverHashResolved (referencePrimitives sampleKeccak) sampleRegistry
        (sampleAttestation 0).signature ((sampleAttestation 0).messageHash sampleKeccak)
          (some sampleWrongKey) ≠ .ok false := by
  have haccepted := verify_sample (show 0 < 256 by norm_num) namesLiveRecord_sample_node
  obtain ⟨hagrees, hjudged⟩ := @verify_agrees_with_dispute
    (referencePrimitives sampleKeccak) _ fieldExact_reference sumExact_reference
    (sampleAttestation 0) sampleRegistry
  refine ⟨((hagrees none).mp haccepted).2.2, fun hfalse => ?_⟩
  rcases hjudged none haccepted (some sampleWrongKey) with h | h
  · exact absurd (hfalse.symm.trans h) (by simp)
  · exact absurd (hfalse.symm.trans h) (by simp)

end Sample

end MolphaVerifier
