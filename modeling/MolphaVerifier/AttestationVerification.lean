import MolphaVerifier.CoalitionSum

/-!
# Attestation verification

The entry points: `verify` and `verifyProvenance` over a registry snapshot, the dispute verdict over
an arbitrary message hash, and the same verdict over a list of signer keys. All of them accumulate
the signers' keys, compress the sum, and match a recovered nonce address against the commitment. The
second half of the module relates the two ways of accumulating and says when they succeed.
-/

namespace MolphaVerifier

open FixedBytes BitVecIteration FallibleFolds ShortWeierstrass

section Definitions

variable (lib : Libsecp256k1) (prims : Primitives)

def accumulateCoalition (orderedSigners : List SignerXy) :
    Except AttestationError (CoalitionAccumulator lib) :=
  if orderedSigners.isEmpty then .error .invalidSignersBitmap
  else
    orderedSigners.foldlM (fun coalition xy => coalition.addStoredXy xy.1 xy.2)
      (CoalitionAccumulator.default lib)

/-- The compressed sum of the signers' keys. -/
def reconstructCoalitionKey (orderedSigners : List SignerXy) :
    Except AttestationError (Bytes 33) := do
  let coalition ← accumulateCoalition lib orderedSigners
  coalition.compressedPubkey

/-- The affine key accepted next to an attestation of these signers. -/
def coalitionKey (signers : List SignerXy) : Except AttestationError CoalitionKey := do
  let coalition ← accumulateCoalition lib signers
  coalition.coalitionKey

/-- The sum of the registry keys at the set bits, without collecting them. -/
def accumulateRegistrySigners (registry : RegistryView) (signersBitmap : Bytes 32) :
    Except AttestationError (CoalitionAccumulator lib) :=
  let signers := Bitmap.load signersBitmap
  if signers = Bitmap.empty then .error .invalidSignersBitmap
  else do
    let visited ← (forEachSetBit signers fun bit => modifyM fun coalition => do
      let node ← registry.signer bit
      coalition.addStoredXy node.x node.y).run (CoalitionAccumulator.default lib)
    pure visited.2

/-- The registry keys at the set bits, in ascending bit order. -/
def resolveSigners (registry : RegistryView) (signersBitmap : Bytes 32) :
    Except AttestationError (List SignerXy) := do
  let signers := Bitmap.load signersBitmap
  let visited ← (forEachSetBit signers fun bit => modifyM fun ordered => do
    let xy ← NodeEntry.xy <$> registry.signer bit
    pure (ordered ++ [xy])).run []
  pure visited.2

variable {lib}

def compressCoalition (coalition : CoalitionAccumulator lib) (coalitionKey : Option CoalitionKey) :
    Except AttestationError (Bytes 33) :=
  match coalitionKey with
  | some key => coalition.compressedPubkeyWithKey key
  | none => coalition.compressedPubkey

/-- Recover the nonce of the Schnorr equation and compare its address with the commitment. -/
def recoverAndMatch (xCoalition : Bytes 33) (messageHash aggSigS : Bytes 32)
    (commitment : Bytes 20) : Bool :=
  match evmSchnorrEcdsaInputs prims.keccak xCoalition messageHash aggSigS commitment with
  | .error _ => false
  | .ok (recoveryId, ecdsaSignature, ecdsaHash) =>
    match prims.secp256k1Recover ecdsaHash recoveryId ecdsaSignature with
    | none => false
    | some recovered => ethAddressFromUncompressedPubkey prims.keccak recovered == commitment

/-- Verify an attestation against the registry snapshot it names. -/
def verify (attestation : Attestation) (registry : RegistryView)
    (coalitionKey : Option CoalitionKey) : Except AttestationError Unit :=
  let signature := attestation.signature
  if attestation.payload.registryVersion ≠ registry.version then .error .invalidRegistryVersion
  else if !secp256k1ScalarIsValidNonzero signature.aggSigS then .error .invalidAggregateSignature
  else do
    checkQuorum (Bitmap.load signature.signersBitmap) attestation.payload.signaturesRequired
    let coalition ← accumulateRegistrySigners prims.lib registry signature.signersBitmap
    let xCoalition ← compressCoalition coalition coalitionKey
    let messageHash := computeMessageHash prims.keccak attestation.payload signature.signersBitmap
    if recoverAndMatch prims xCoalition messageHash signature.aggSigS signature.commitment then
      .ok ()
    else .error .invalidAggregateSignature

/-- `verify`, then require that a set provider bit names the given account. -/
def verifyProvenance (attestation : Attestation) (registry : RegistryView)
    (coalitionKey : Option CoalitionKey) (providerAccount : Bytes 32) :
    Except AttestationError Unit := do
  verify prims attestation registry coalitionKey
  let providers :=
    Bitmap.subtract (Bitmap.load attestation.signature.signersBitmap) Bitmap.nodeMask
  let visited ← (forEachSetBit providers fun bit => modifyM fun present => do
    let node ← registry.signer bit
    pure (if node.account = providerAccount then true else present)).run false
  if visited.2 then .ok () else .error .providerAbsent

def verifyAggregateOverHashInner (aggSigS : Bytes 32) (commitment : Bytes 20)
    (messageHash : Bytes 32) (orderedSigners : List SignerXy)
    (coalitionKey : Option CoalitionKey) : Except AttestationError Bool :=
  if !secp256k1ScalarIsValidNonzero aggSigS then .ok false
  else do
    let coalition ← accumulateCoalition prims.lib orderedSigners
    let xCoalition ← compressCoalition coalition coalitionKey
    pure (recoverAndMatch prims xCoalition messageHash aggSigS commitment)

/-- Verify an aggregate Schnorr signature over a message hash for a list of signers. -/
def verifyAggregateOverHash (aggSigS : Bytes 32) (commitment : Bytes 20) (messageHash : Bytes 32)
    (orderedSigners : List SignerXy) : Except AttestationError Bool :=
  verifyAggregateOverHashInner prims aggSigS commitment messageHash orderedSigners none

/-- The same verdict with the coalition key supplied. -/
def verifyAggregateOverHashWithCoalitionKey (aggSigS : Bytes 32) (commitment : Bytes 20)
    (messageHash : Bytes 32) (orderedSigners : List SignerXy) (coalitionKey : CoalitionKey) :
    Except AttestationError Bool :=
  verifyAggregateOverHashInner prims aggSigS commitment messageHash orderedSigners
    (some coalitionKey)

/-- The dispute verdict: `ok true` is valid, `ok false` is slashable, an error is malformed input.
Signers are resolved before the scalar is checked. -/
def verifyAggregateOverHashResolved (registry : RegistryView) (signature : SchnorrSignature)
    (messageHash : Bytes 32) (coalitionKey : Option CoalitionKey) :
    Except AttestationError Bool := do
  let coalition ← accumulateRegistrySigners prims.lib registry signature.signersBitmap
  if !secp256k1ScalarIsValidNonzero signature.aggSigS then .ok false
  else do
    let xCoalition ← compressCoalition coalition coalitionKey
    pure (recoverAndMatch prims xCoalition messageHash signature.aggSigS signature.commitment)

end Definitions

variable {lib : Libsecp256k1} {R : FieldReading lib} {registry : RegistryView}
  {signersBitmap : Bytes 32} {coalition : CoalitionAccumulator lib}

theorem run_forEachSetBit_modifyM {σ : Type} (bm : Bitmap)
    (f : ℕ → σ → Except AttestationError σ) (s : σ) :
    (forEachSetBit bm fun bit => modifyM (f bit)).run s =
      ((setBits bm).foldlM (fun s bit => f bit s) s >>= fun s' => .ok (Bitmap.empty, s')) := by
  rw [forEachSetBit_eq, StateT.run_bind, run_forM_modifyM, bind_assoc]
  rfl

theorem accumulateRegistrySigners_eq :
    accumulateRegistrySigners lib registry signersBitmap =
      if Bitmap.load signersBitmap = Bitmap.empty then .error .invalidSignersBitmap
      else (setBits (Bitmap.load signersBitmap)).foldlM
        (fun coalition bit => registry.signer bit >>= fun node =>
          coalition.addStoredXy node.x node.y) (CoalitionAccumulator.default lib) := by
  rw [accumulateRegistrySigners]
  split
  · rfl
  · rw [run_forEachSetBit_modifyM, bind_assoc]
    exact bind_pure _

theorem resolveSigners_eq :
    resolveSigners registry signersBitmap =
      (setBits (Bitmap.load signersBitmap)).mapM fun bit => NodeEntry.xy <$> registry.signer bit := by
  rw [resolveSigners, run_forEachSetBit_modifyM, foldlM_append_singleton, bind_assoc, bind_assoc]
  exact bind_pure _

/-- Resolution succeeds exactly when every set bit names a live record, with one key for each. -/
theorem exists_resolveSigners_iff :
    (∃ keys, resolveSigners registry signersBitmap = .ok keys) ↔
      ∀ bit ∈ setBits (Bitmap.load signersBitmap),
        ∃ member, registry.NamesLiveRecord bit member := by
  rw [resolveSigners_eq, exists_mapM_eq_ok_iff]
  refine forall₂_congr fun bit _ => ?_
  simp only [← RegistryView.signer_eq_ok_iff]
  cases registry.signer bit <;> simp

theorem length_of_resolveSigners {keys : List SignerXy}
    (h : resolveSigners registry signersBitmap = .ok keys) :
    keys.length = (Bitmap.load signersBitmap).popcount := by
  rw [resolveSigners_eq] at h
  rw [Bitmap.popcount_eq_length]
  exact (mapM_eq_ok_iff.mp h).length_eq.symm

/-- Summing the registry keys in place is resolving them and summing the list. -/
theorem accumulateRegistrySigners_of_resolveSigners {keys : List SignerXy}
    (h : resolveSigners registry signersBitmap = .ok keys) :
    accumulateRegistrySigners lib registry signersBitmap = accumulateCoalition lib keys := by
  rw [resolveSigners_eq] at h
  have hlength := (mapM_eq_ok_iff.mp h).length_eq
  have hempty : Bitmap.load signersBitmap = Bitmap.empty ↔ keys.isEmpty = true := by
    rw [Bitmap.empty, ← setBits_eq_nil_iff, List.isEmpty_iff, ← List.length_eq_zero_iff, hlength,
      List.length_eq_zero_iff]
  have hfold := foldlM_bind_of_mapM
    (fun (coalition : CoalitionAccumulator lib) xy => coalition.addStoredXy xy.1 xy.2)
    (CoalitionAccumulator.default lib) h
  rw [accumulateRegistrySigners_eq, accumulateCoalition, ← hfold]
  simp only [hempty]
  congr 2
  funext coalition bit
  rw [map_eq_pure_bind, bind_assoc]
  rfl

theorem accumulateRegistrySigners_singleton {bit : ℕ} {member : NodeEntry}
    (hbits : setBits (Bitmap.load signersBitmap) = [bit])
    (hmember : registry.NamesLiveRecord bit member) :
    accumulateRegistrySigners lib registry signersBitmap =
      (CoalitionAccumulator.default lib).addStoredXy member.x member.y := by
  have hnonempty : Bitmap.load signersBitmap ≠ Bitmap.empty := by
    rw [Bitmap.empty, ne_eq, ← setBits_eq_nil_iff, hbits]
    simp
  rw [accumulateRegistrySigners_eq, if_neg hnonempty, hbits, List.foldlM_cons,
    RegistryView.signer_eq_ok_iff.mpr hmember]
  exact bind_pure _

theorem namesLiveRecord_of_accumulateRegistrySigners
    (h : accumulateRegistrySigners lib registry signersBitmap = .ok coalition) :
    ∀ bit ∈ setBits (Bitmap.load signersBitmap), ∃ member, registry.NamesLiveRecord bit member := by
  rw [accumulateRegistrySigners_eq] at h
  split at h
  · simp at h
  · refine foldlM_invariant []
      (fun done _ => ∀ bit ∈ done, ∃ member, registry.NamesLiveRecord bit member) ?_ (by simp) h
    intro done bit coalition coalition' _ hdone hstep bit' hbit'
    obtain ⟨member, hmember, -⟩ := bind_eq_ok_iff.mp hstep
    rcases List.mem_append.mp hbit' with hold | hnew
    · exact hdone bit' hold
    · rw [List.mem_singleton.mp hnew]
      exact ⟨member, RegistryView.signer_eq_ok_iff.mp hmember⟩

section Success

variable (hF : FieldExact lib R) (hS : SumExact lib R)

include hF hS

theorem compressCoalition_eq (hproper : coalition.Proper R) (key : Option CoalitionKey) :
    compressCoalition coalition key = checkedPubkey (R.sum coalition) key := by
  cases key with
  | none => exact CoalitionAccumulator.compressedPubkey_eq hF hS hproper
  | some key => exact CoalitionAccumulator.compressedPubkeyWithKey_eq hF hS hproper key

/-- Accumulation over a registry succeeds exactly on a non-empty bitmap whose bits all name live
records with canonical nonzero coordinates, on the curve or not. -/
theorem exists_accumulateRegistrySigners_iff :
    (∃ coalition, accumulateRegistrySigners lib registry signersBitmap = .ok coalition) ↔
      Bitmap.load signersBitmap ≠ Bitmap.empty ∧ ∀ bit ∈ setBits (Bitmap.load signersBitmap),
        ∃ member, registry.NamesLiveRecord bit member ∧ CanonicalXy member.xy := by
  rw [accumulateRegistrySigners_eq]
  by_cases hempty : Bitmap.load signersBitmap = Bitmap.empty
  · simp [hempty]
  · simp only [ne_eq, hempty, not_false_eq_true, true_and]
    refine exists_foldlM_eq_ok_iff fun bit coalition => ?_
    simp only [bind_eq_ok_iff, RegistryView.signer_eq_ok_iff]
    constructor
    · rintro ⟨coalition', member, hmember, hadd⟩
      exact ⟨member, hmember,
        (CoalitionAccumulator.exists_addStoredXy_iff hF hS).mp ⟨coalition', hadd⟩⟩
    · rintro ⟨member, hmember, hxy⟩
      obtain ⟨coalition', hadd⟩ := (CoalitionAccumulator.exists_addStoredXy_iff hF hS).mpr hxy
      exact ⟨coalition', member, hmember, hadd⟩

theorem exists_accumulateCoalition_iff {keys : List SignerXy} :
    (∃ coalition, accumulateCoalition lib keys = .ok coalition) ↔
      keys ≠ [] ∧ ∀ xy ∈ keys, CanonicalXy xy := by
  rw [accumulateCoalition]
  cases keys with
  | nil => simp
  | cons xy keys =>
    simp only [List.isEmpty_cons, Bool.false_eq_true, if_false, ne_eq, reduceCtorEq,
      not_false_eq_true, true_and]
    exact exists_foldlM_eq_ok_iff fun xy _ => CoalitionAccumulator.exists_addStoredXy_iff hF hS

theorem accumulateRegistrySigners_error {e : AttestationError}
    (h : accumulateRegistrySigners lib registry signersBitmap = .error e) :
    e = .invalidSignersBitmap ∨ e = .invalidAggregateSignature := by
  rw [accumulateRegistrySigners_eq] at h
  split at h
  · exact .inl (Except.error.inj h).symm
  · obtain ⟨bit, -, coalition, hstep⟩ := exists_step_eq_error h
    rw [bind_eq_error_iff] at hstep
    rcases hstep with hsigner | ⟨member, -, hadd⟩
    · rcases registry.signer_cases bit with ⟨member, hok⟩ | herr
      · simp [hok] at hsigner
      · exact .inl (Except.error.inj (herr.symm.trans hsigner)).symm
    · exact .inr (CoalitionAccumulator.addStoredXy_eq_error hF hS hadd)

theorem proper_accumulateRegistrySigners
    (h : accumulateRegistrySigners lib registry signersBitmap = .ok coalition) :
    coalition.Proper R := by
  rw [accumulateRegistrySigners_eq] at h
  split at h
  · simp at h
  · refine foldlM_invariant [] (fun _ coalition => coalition.Proper R) ?_
      CoalitionAccumulator.proper_default h
    intro done bit coalition coalition' _ hproper hstep
    obtain ⟨member, -, hadd⟩ := bind_eq_ok_iff.mp hstep
    exact (CoalitionAccumulator.proper_addStoredXy hF hS hproper hadd).2

theorem proper_accumulateCoalition {keys : List SignerXy}
    (h : accumulateCoalition lib keys = .ok coalition) : coalition.Proper R := by
  rw [accumulateCoalition] at h
  split at h
  · simp at h
  · refine foldlM_invariant [] (fun _ coalition => coalition.Proper R) ?_
      CoalitionAccumulator.proper_default h
    intro done xy coalition coalition' _ hproper hadd
    exact (CoalitionAccumulator.proper_addStoredXy hF hS hproper hadd).2

end Success

theorem verify_eq_ok_iff_checks {prims : Primitives} {attestation : Attestation}
    {registry : RegistryView} {key : Option CoalitionKey} :
    verify prims attestation registry key = .ok () ↔
      attestation.payload.registryVersion = registry.version ∧
      secp256k1ScalarIsValidNonzero attestation.signature.aggSigS = true ∧
      checkQuorum (Bitmap.load attestation.signature.signersBitmap)
        attestation.payload.signaturesRequired = .ok () ∧
      ∃ coalition, accumulateRegistrySigners prims.lib registry
          attestation.signature.signersBitmap = .ok coalition ∧
        ∃ xCoalition, compressCoalition coalition key = .ok xCoalition ∧
          recoverAndMatch prims xCoalition (attestation.messageHash prims.keccak)
            attestation.signature.aggSigS attestation.signature.commitment = true := by
  have hmatch (b : Bool) : (if b then .ok () else .error .invalidAggregateSignature :
      Except AttestationError Unit) = .ok () ↔ b = true := by
    cases b <;> simp
  rw [verify]
  by_cases hversion : attestation.payload.registryVersion = registry.version
  · cases hscalar : secp256k1ScalarIsValidNonzero attestation.signature.aggSigS
    · simp [hversion]
    · simp only [hversion, ne_eq, not_true_eq_false, if_false, Bool.not_true, Bool.false_eq_true,
        bind_eq_ok_iff, hmatch, true_and]
      exact ⟨fun ⟨_, h⟩ => h, fun h => ⟨(), h⟩⟩
  · simp [hversion]

end MolphaVerifier
