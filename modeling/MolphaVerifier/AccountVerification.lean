import MolphaVerifier.RegistryAccountLayout
import MolphaVerifier.SignerAgreement

/-!
# Verification from a registry account

The entry points that load the registry account first. The two attestation paths refuse a version
that was retired by the round; the dispute path does not look at the liveness fields. An accessor
that would index out of range makes the outer `Option` of a result `none`.
-/

namespace MolphaVerifier

open FixedBytes BitVecIteration FallibleFolds PackedRecords

/-- `molpha_provider`. -/
def providerSeedPrefix : List UInt8 := [
  0x6d, 0x6f, 0x6c, 0x70, 0x68, 0x61, 0x5f, 0x70, 0x72, 0x6f, 0x76, 0x69, 0x64, 0x65, 0x72]

/-- The runtime's derivation of a program address and its bump from seeds. -/
abbrev FindProgramAddress : Type := List (List UInt8) → Pubkey → Pubkey × UInt8

def providerAccount (findProgramAddress : FindProgramAddress) (id : UInt32) : Pubkey :=
  (findProgramAddress [providerSeedPrefix, toLeBytes 4 id.toNat] programId).1

def i64TryFrom (x : UInt64) : Option Int64 :=
  if x.toNat < 2 ^ 63 then some (Int64.ofNat x.toNat) else none

def roundSecs (payload : AttestationPayload) : Int64 :=
  (i64TryFrom payload.timestampSecs).getD Int64.maxValue

/-- `?` on a verification result. -/
def fromAttestation {α : Type} (result : Except AttestationError α) : Except AccountError α :=
  result.mapError AccountError.attestation

/-- The registry account an attestation names, not retired by the round. -/
def loadLiveRegistry (attestation : Attestation) (registryAccount : AccountInfo) :
    ExceptT AccountError Option RegistryAccount := do
  let registry ← RegistryAccount.load registryAccount
  let version ← registry.version
  if attestation.payload.registryVersion ≠ version then
    throw (.attestation .invalidRegistryVersion)
  else
    let retired ← registry.retiredBy (roundSecs attestation.payload)
    if retired then throw (.attestation .registryRetired) else pure registry

section EntryPoints

variable (prims : Primitives) (findProgramAddress : FindProgramAddress)

namespace Solana

/-- Verify an attestation from its registry account. -/
def verifyAttestation (attestation : Attestation) (registryAccount : AccountInfo)
    (coalitionKey : Option CoalitionKey) : ExceptT AccountError Option Unit := do
  let registry ← loadLiveRegistry attestation registryAccount
  let view ← registry.view
  fromAttestation (verify prims attestation view coalitionKey)

/-- `verifyAttestation`, then require that the provider signed. -/
def verifyProvenance (attestation : Attestation) (registryAccount : AccountInfo)
    (coalitionKey : Option CoalitionKey) (providerId : UInt32) :
    ExceptT AccountError Option Unit := do
  let registry ← loadLiveRegistry attestation registryAccount
  let view ← registry.view
  fromAttestation (MolphaVerifier.verifyProvenance prims attestation view coalitionKey
    (providerAccount findProgramAddress providerId))

end Solana

/-- The dispute verdict from the registry account. -/
def verifyAggregateOverHashAccounts (registryAccount : AccountInfo) (signature : SchnorrSignature)
    (messageHash : Bytes 32) (registryVersion : UInt32) (coalitionKey : Option CoalitionKey) :
    ExceptT AccountError Option Bool := do
  let registry ← RegistryAccount.load registryAccount
  let view ← registry.view
  if view.version ≠ registryVersion then throw .invalidRegistryAccount
  else
    fromAttestation
      (verifyAggregateOverHashResolved prims view signature messageHash coalitionKey)

end EntryPoints

/-- The version was not retired when the round was stamped, in exact integers. -/
def LiveAt (graceActiveUntil : Int64) (timestamp : UInt64) : Prop :=
  graceActiveUntil = 0 ∨ (timestamp.toNat : ℤ) < 1000 * graceActiveUntil.toInt

instance (graceActiveUntil : Int64) (timestamp : UInt64) :
    Decidable (LiveAt graceActiveUntil timestamp) :=
  inferInstanceAs (Decidable (_ ∨ _))

structure ReadsAs (registry : RegistryAccount) (version : UInt32) (graceActiveUntil : Int64)
    (view : RegistryView) : Prop where
  version_eq : registry.version = some version
  grace_eq : registry.graceActiveUntil = some graceActiveUntil
  view_eq : registry.view = some view

/-- Two accounts with the same bytes outside the two liveness fields. -/
structure SameButLiveness (account account' : AccountInfo) : Prop where
  key_eq : account'.key = account.key
  owner_eq : account'.owner = account.owner
  borrowed_eq : account'.mutablyBorrowed = account.mutablyBorrowed
  length_eq : account'.data.length = account.data.length
  data_eq : ∀ i, i < registryGraceActiveUntilOffset ∨ registryVersionOffset ≤ i →
    account'.data[i]? = account.data[i]?

section Time

variable {graceActiveUntil : Int64} {payload : AttestationPayload}

theorem toNat_timestampSecs (payload : AttestationPayload) :
    payload.timestampSecs.toNat = payload.timestamp.toNat / 1000 := rfl

/-- Milliseconds of a word are seconds of a signed word, so the conversion does not saturate. -/
theorem i64TryFrom_timestampSecs (payload : AttestationPayload) :
    i64TryFrom payload.timestampSecs = some (roundSecs payload) := by
  have hlt : payload.timestampSecs.toNat < 2 ^ 63 := by
    have hword := payload.timestamp.toNat_lt
    rw [toNat_timestampSecs]
    omega
  rw [roundSecs, i64TryFrom, if_pos hlt]
  rfl

theorem toInt_roundSecs (payload : AttestationPayload) :
    (roundSecs payload).toInt = (payload.timestamp.toNat / 1000 : ℕ) := by
  have hlt : payload.timestamp.toNat / 1000 < 2 ^ 63 := by
    have hword := payload.timestamp.toNat_lt
    omega
  have h := i64TryFrom_timestampSecs payload
  rw [i64TryFrom, toNat_timestampSecs, if_pos hlt] at h
  rw [← Option.some.inj h, Int64.toInt_ofNat_of_lt hlt]

/-- Comparing floored seconds is comparing milliseconds with a whole number of seconds. -/
theorem retired_iff :
    (graceActiveUntil != 0 && decide (graceActiveUntil ≤ roundSecs payload)) = true ↔
      ¬LiveAt graceActiveUntil payload.timestamp := by
  have hle : graceActiveUntil ≤ roundSecs payload ↔
      ¬(payload.timestamp.toNat : ℤ) < 1000 * graceActiveUntil.toInt := by
    rw [Int64.le_iff_toInt_le, toInt_roundSecs]
    omega
  rw [LiveAt, not_or, ← hle, Bool.and_eq_true, bne_iff_ne, decide_eq_true_iff]

theorem LiveAt.of_le {timestamp timestamp' : UInt64} (hle : timestamp.toNat ≤ timestamp'.toNat)
    (h : LiveAt graceActiveUntil timestamp') : LiveAt graceActiveUntil timestamp := by
  cases h with
  | inl hzero => exact .inl hzero
  | inr hlt => exact .inr (by omega)

end Time

section Errors

variable {lib : Libsecp256k1} {prims : Primitives}

/-- Verification over a snapshot knows nothing of retirement. -/
abbrev NotRetired (e : AttestationError) : Prop := e ≠ .registryRetired

theorem errorsIn_checkQuorum (signers : Bitmap) (signaturesRequired : UInt8) :
    ErrorsIn NotRetired (checkQuorum signers signaturesRequired) := by
  rw [checkQuorum]
  split
  · exact errorsIn_error (by decide)
  split
  · exact errorsIn_error (by decide)
  split
  · exact errorsIn_error (by decide)
  split
  · exact errorsIn_error (by decide)
  · exact errorsIn_ok _ _

theorem errorsIn_signer (registry : RegistryView) (bit : ℕ) :
    ErrorsIn NotRetired (registry.signer bit) := by
  rcases registry.signer_cases bit with ⟨member, hok⟩ | herror
  · rw [hok]
    exact errorsIn_ok _ _
  · rw [herror]
    exact errorsIn_error (by decide)

theorem errorsIn_addStoredXy (coalition : CoalitionAccumulator lib) (x y : Bytes 32) :
    ErrorsIn NotRetired (coalition.addStoredXy x y) := by
  rw [CoalitionAccumulator.addStoredXy]
  apply ErrorsIn.bind
  · rw [affineFromStoredSecpXy]
    split
    · exact errorsIn_error (by decide)
    split
    · exact errorsIn_ok _ _
    · exact errorsIn_error (by decide)
  · intro ge
    split
    · exact errorsIn_ok _ _
    · exact errorsIn_ok _ _

theorem errorsIn_accumulateRegistrySigners (registry : RegistryView) (signersBitmap : Bytes 32) :
    ErrorsIn NotRetired (accumulateRegistrySigners lib registry signersBitmap) := by
  rw [accumulateRegistrySigners_eq]
  split
  · exact errorsIn_error (by decide)
  · apply ErrorsIn.foldlM
    intro bit _ coalition
    exact (errorsIn_signer registry bit).bind fun node => errorsIn_addStoredXy coalition _ _

theorem errorsIn_finishedSum (coalition : CoalitionAccumulator lib) :
    ErrorsIn NotRetired coalition.finishedSum := by
  rw [CoalitionAccumulator.finishedSum]
  split
  · exact errorsIn_error (by decide)
  · exact errorsIn_ok _ _

theorem errorsIn_compressCoalition (coalition : CoalitionAccumulator lib)
    (coalitionKey : Option CoalitionKey) :
    ErrorsIn NotRetired (compressCoalition coalition coalitionKey) := by
  cases coalitionKey with
  | none => exact (errorsIn_finishedSum coalition).bind fun _ => errorsIn_ok _ _
  | some key =>
    refine (errorsIn_finishedSum coalition).bind fun jacobian => ?_
    split
    · dsimp only
      split
      · exact errorsIn_error (by decide)
      · exact errorsIn_ok _ _
    · exact errorsIn_error (by decide)

theorem errorsIn_verify (attestation : Attestation) (registry : RegistryView)
    (coalitionKey : Option CoalitionKey) :
    ErrorsIn NotRetired (verify prims attestation registry coalitionKey) := by
  rw [verify]
  split
  · exact errorsIn_error (by decide)
  split
  · exact errorsIn_error (by decide)
  refine (errorsIn_checkQuorum _ _).bind fun _ => ?_
  refine (errorsIn_accumulateRegistrySigners _ _).bind fun coalition => ?_
  refine (errorsIn_compressCoalition _ _).bind fun xCoalition => ?_
  dsimp only
  split
  · exact errorsIn_ok _ _
  · exact errorsIn_error (by decide)

theorem errorsIn_verifyProvenance (attestation : Attestation) (registry : RegistryView)
    (coalitionKey : Option CoalitionKey) (providerAccount : Bytes 32) :
    ErrorsIn NotRetired
      (verifyProvenance prims attestation registry coalitionKey providerAccount) := by
  rw [verifyProvenance]
  refine (errorsIn_verify _ _ _).bind fun _ => ?_
  dsimp only
  rw [run_forEachSetBit_modifyM]
  refine ErrorsIn.bind ?_ fun visited => ?_
  · refine ErrorsIn.bind (ErrorsIn.foldlM fun bit _ present => ?_) fun present => errorsIn_ok _ _
    exact (errorsIn_signer registry bit).bind fun node => errorsIn_ok _ _
  · split
    · exact errorsIn_ok _ _
    · exact errorsIn_error (by decide)

end Errors

section Loaded

variable {prims : Primitives} {findProgramAddress : FindProgramAddress} {account : AccountInfo}
  {registry : RegistryAccount} {version : UInt32} {graceActiveUntil : Int64} {view : RegistryView}
  {attestation attestation' : Attestation} {key key' : Option CoalitionKey} {α β : Type}

theorem liftExcept_ok_bind (a : α) (f : α → ExceptT AccountError Option β) :
    (liftM (Except.ok a : Except AccountError α) >>= f) = f a := rfl

theorem liftOption_some_bind (a : α) (f : α → ExceptT AccountError Option β) :
    (liftM (some a) >>= f) = f a := rfl

theorem exists_readsAs (hload : RegistryAccount.load account = .ok registry) :
    ∃ version graceActiveUntil view, ReadsAs registry version graceActiveUntil view := by
  obtain ⟨-, -, ⟨capacity, hshape⟩, rfl⟩ := RegistryAccount.load_eq_ok_iff.mp hload
  have hdefined : (RegistryAccount.mk account.key account.data).AccessorsDefined :=
    RegistryAccount.accessorsDefined hshape
  obtain ⟨version, hversion⟩ := hdefined.version
  obtain ⟨graceActiveUntil, hgrace⟩ := hdefined.graceActiveUntil
  obtain ⟨view, hview⟩ := hdefined.view
  exact ⟨version, graceActiveUntil, view, hversion, hgrace, hview⟩

/-- The outcome of the attestation paths: version, cutoff, then the verdict over the view. -/
def attestationOutcome {α : Type} (version : UInt32) (graceActiveUntil : Int64)
    (payload : AttestationPayload) (verdict : Except AttestationError α) :
    Except AccountError α :=
  if payload.registryVersion ≠ version then .error (.attestation .invalidRegistryVersion)
  else if LiveAt graceActiveUntil payload.timestamp then fromAttestation verdict
  else .error (.attestation .registryRetired)

theorem loadLiveRegistry_bind (hload : RegistryAccount.load account = .ok registry)
    (hread : ReadsAs registry version graceActiveUntil view) (attestation : Attestation)
    (verdict : RegistryView → Except AttestationError α) :
    (loadLiveRegistry attestation account >>= fun registry =>
      liftM registry.view >>= fun view => liftM (fromAttestation (verdict view))) =
        ExceptT.mk (some (attestationOutcome version graceActiveUntil attestation.payload
          (verdict view))) := by
  have hretired : registry.retiredBy (roundSecs attestation.payload) =
      some (graceActiveUntil != 0 && decide (graceActiveUntil ≤ roundSecs attestation.payload)) := by
    rw [RegistryAccount.retiredBy, hread.grace_eq]
    rfl
  rw [loadLiveRegistry, hload, liftExcept_ok_bind, hread.version_eq, liftOption_some_bind,
    hretired, liftOption_some_bind, attestationOutcome]
  by_cases hversion : attestation.payload.registryVersion ≠ version
  · rw [if_pos hversion, if_pos hversion]
    rfl
  rw [if_neg hversion, if_neg hversion]
  by_cases hlive : LiveAt graceActiveUntil attestation.payload.timestamp
  · have hkept : ¬(graceActiveUntil != 0 &&
        decide (graceActiveUntil ≤ roundSecs attestation.payload)) = true :=
      fun h => retired_iff.mp h hlive
    rw [if_pos hlive, if_neg hkept, pure_bind, hread.view_eq, liftOption_some_bind]
    rfl
  · rw [if_neg hlive, if_pos (retired_iff.mpr hlive)]
    rfl

theorem verifyAttestation_eq (hload : RegistryAccount.load account = .ok registry)
    (hread : ReadsAs registry version graceActiveUntil view) (attestation : Attestation)
    (key : Option CoalitionKey) : Solana.verifyAttestation prims attestation account key =
      ExceptT.mk (some (attestationOutcome version graceActiveUntil attestation.payload
        (verify prims attestation view key))) :=
  loadLiveRegistry_bind hload hread attestation fun view => verify prims attestation view key

theorem verifyProvenance_eq (hload : RegistryAccount.load account = .ok registry)
    (hread : ReadsAs registry version graceActiveUntil view) (attestation : Attestation)
    (key : Option CoalitionKey) (providerId : UInt32) :
    Solana.verifyProvenance prims findProgramAddress attestation account key providerId =
      ExceptT.mk (some (attestationOutcome version graceActiveUntil attestation.payload
        (verifyProvenance prims attestation view key
          (providerAccount findProgramAddress providerId)))) :=
  loadLiveRegistry_bind hload hread attestation fun view =>
    verifyProvenance prims attestation view key (providerAccount findProgramAddress providerId)

section Outcome

variable {payload payload' : AttestationPayload} {verdict verdict' : Except AttestationError α}

theorem attestationOutcome_eq_ok_iff {a : α} :
    attestationOutcome version graceActiveUntil payload verdict = .ok a ↔
      payload.registryVersion = version ∧ LiveAt graceActiveUntil payload.timestamp ∧
        verdict = .ok a := by
  rw [attestationOutcome]
  by_cases hversion : payload.registryVersion = version
  · by_cases hlive : LiveAt graceActiveUntil payload.timestamp
    · cases verdict with
      | error e => simp [hversion, hlive, fromAttestation, Except.mapError]
      | ok b => simp [hversion, hlive, fromAttestation, Except.mapError]
    · simp [hversion, hlive]
  · simp [hversion]

/-- The retirement error means what it says, when the verdict cannot be that error. -/
theorem attestationOutcome_eq_retired_iff (hverdict : ErrorsIn NotRetired verdict) :
    attestationOutcome version graceActiveUntil payload verdict =
        .error (.attestation .registryRetired) ↔
      payload.registryVersion = version ∧ ¬LiveAt graceActiveUntil payload.timestamp := by
  rw [attestationOutcome]
  by_cases hversion : payload.registryVersion = version
  · by_cases hlive : LiveAt graceActiveUntil payload.timestamp
    · cases verdict with
      | error e =>
        have hne : e ≠ .registryRetired := hverdict e rfl
        simp [hversion, hlive, fromAttestation, Except.mapError, hne]
      | ok b => simp [hversion, hlive, fromAttestation, Except.mapError]
    · simp [hversion, hlive]
  · simp [hversion]

end Outcome

end Loaded

section Records

variable {registry registry' : RegistryAccount} {view view' : RegistryView} {capacity capacity' : ℕ}

/-- The end of the two tables; spare capacity follows. -/
def recordsEnd (data : List UInt8) : ℕ :=
  registryNodesOffset + 96 * ((data.getD registryNodeCountOffset 0).toNat +
    (data.getD registryProviderCountOffset 0).toNat)

/-- The same version, counts and tables. The liveness fields, the redundancy buffer, the bump and
the spare capacity may differ. -/
structure SameRecordBytes (data data' : List UInt8) : Prop where
  header : ∀ i, registryVersionOffset ≤ i → i < registryRedundancyBufferOffset →
    data'[i]? = data[i]?
  tables : ∀ i, registryNodesOffset ≤ i → i < recordsEnd data → data'[i]? = data[i]?

theorem take_drop_congr {data data' : List UInt8} {start len : ℕ}
    (h : ∀ i, start ≤ i → i < start + len → data'[i]? = data[i]?) :
    (data'.drop start).take len = (data.drop start).take len := by
  apply List.ext_getElem?
  intro i
  by_cases hi : i < len
  · rw [List.getElem?_take_of_lt hi, List.getElem?_take_of_lt hi, List.getElem?_drop,
      List.getElem?_drop, h _ (by omega) (by omega)]
  · rw [List.getElem?_eq_none (by rw [List.length_take]; omega),
      List.getElem?_eq_none (by rw [List.length_take]; omega)]

theorem version_of_view (hview : registry.view = some view) :
    registry.version = some view.version := by
  simp only [RegistryAccount.view, Option.bind_eq_bind, Option.bind_eq_some_iff] at hview
  obtain ⟨version, hversion, nodeCount, -, providerCount, -, redundancyBuffer, -, nodes, -,
    providers, -, h⟩ := hview
  rw [hversion, ← Option.some.inj h]

theorem version_congr (hv : registry.HoldsView view) (hv' : registry'.HoldsView view')
    (hshape : RegistryShape registry.data capacity)
    (hshape' : RegistryShape registry'.data capacity')
    (h : SameRecordBytes registry.data registry'.data) : view'.version = view.version := by
  have hlength := hshape.length_data
  have hlength' := hshape'.length_data
  have hend : registryVersionOffset + 4 = 28 := rfl
  have hbytes : (registry'.data.drop registryVersionOffset).take 4 =
      (registry.data.drop registryVersionOffset).take 4 :=
    take_drop_congr fun i hi hlt => h.header i hi (by
      have : registryVersionOffset + 4 ≤ registryRedundancyBufferOffset := by decide
      omega)
  have hread : registry'.version = registry.version := by
    rw [RegistryAccount.version, RegistryAccount.version, readRange_of_le (by omega),
      readRange_of_le (by omega), hbytes]
  rw [version_of_view hv.view_eq, version_of_view hv'.view_eq] at hread
  exact Option.some.inj hread

theorem nodeCount_congr (hv : registry.HoldsView view) (hv' : registry'.HoldsView view')
    (h : SameRecordBytes registry.data registry'.data) : view'.nodeCount = view.nodeCount := by
  rw [← UInt16.toNat_inj, hv'.nodeCount_eq, hv.nodeCount_eq, List.getD_eq_getElem?_getD,
    List.getD_eq_getElem?_getD, h.header _ (by decide) (by decide)]

theorem providerCount_congr (hv : registry.HoldsView view) (hv' : registry'.HoldsView view')
    (h : SameRecordBytes registry.data registry'.data) :
    view'.providerCount = view.providerCount := by
  rw [← UInt16.toNat_inj, hv'.providerCount_eq, hv.providerCount_eq,
    List.getD_eq_getElem?_getD, List.getD_eq_getElem?_getD, h.header _ (by decide) (by decide)]

theorem recordBytes_congr (hv : registry.HoldsView view)
    (h : SameRecordBytes registry.data registry'.data) {i : ℕ}
    (hi : i < view.nodeCount.toNat + view.providerCount.toNat) :
    (registry'.data.drop (registryNodesOffset + 96 * i)).take 96 =
      (registry.data.drop (registryNodesOffset + 96 * i)).take 96 := by
  refine take_drop_congr fun j hj hlt => h.tables j (by omega) ?_
  rw [recordsEnd, ← hv.nodeCount_eq, ← hv.providerCount_eq]
  omega

theorem nodes_congr (hv : registry.HoldsView view) (hv' : registry'.HoldsView view')
    (h : SameRecordBytes registry.data registry'.data) : view'.nodes = view.nodes := by
  apply List.ext_getElem?
  intro i
  rw [hv'.getElem?_nodes, hv.getElem?_nodes, nodeCount_congr hv hv' h]
  by_cases hi : i < view.nodeCount.toNat
  · rw [if_pos hi, if_pos hi, recordBytes_congr hv h (by omega)]
  · rw [if_neg hi, if_neg hi]

theorem providers_congr (hv : registry.HoldsView view) (hv' : registry'.HoldsView view')
    (h : SameRecordBytes registry.data registry'.data) : view'.providers = view.providers := by
  apply List.ext_getElem?
  intro i
  rw [hv'.getElem?_providers, hv.getElem?_providers, nodeCount_congr hv hv' h,
    providerCount_congr hv hv' h]
  by_cases hi : i < view.providerCount.toNat
  · rw [if_pos hi, if_pos hi, recordBytes_congr hv h (by omega)]
  · rw [if_neg hi, if_neg hi]

/-- Two accounts with the same record bytes hold views that agree on any signers. -/
theorem agreeOnSigners_of_sameRecordBytes (hv : registry.HoldsView view)
    (hv' : registry'.HoldsView view') (hshape : RegistryShape registry.data capacity)
    (hshape' : RegistryShape registry'.data capacity')
    (h : SameRecordBytes registry.data registry'.data) (signersBitmap : Bytes 32) :
    AgreeOnSigners view view' signersBitmap := by
  have hsegment (bit : ℕ) : view'.segment bit = view.segment bit := by
    rw [RegistryView.segment, RegistryView.segment, nodes_congr hv hv' h,
      providers_congr hv hv' h, nodeCount_congr hv hv' h, providerCount_congr hv hv' h]
  apply SameSlotsAtSigners.agreeOnSigners
  exact ⟨version_congr hv hv' hshape hshape' h, fun bit _ => by rw [hsegment],
    fun bit _ => by rw [hsegment]⟩

end Records

section Dispute

variable {prims : Primitives} {account account' : AccountInfo} {registry registry' : RegistryAccount}
  {view view' : RegistryView}

theorem verifyAggregateOverHashAccounts_eq (hload : RegistryAccount.load account = .ok registry)
    (hview : registry.view = some view) (signature : SchnorrSignature) (messageHash : Bytes 32)
    (registryVersion : UInt32) (key : Option CoalitionKey) :
    verifyAggregateOverHashAccounts prims account signature messageHash registryVersion key =
      if view.version ≠ registryVersion then throw .invalidRegistryAccount
      else liftM (fromAttestation
        (verifyAggregateOverHashResolved prims view signature messageHash key)) := by
  rw [verifyAggregateOverHashAccounts, hload, liftExcept_ok_bind, hview, liftOption_some_bind]

theorem verifyAggregateOverHashAccounts_congr
    (hload : RegistryAccount.load account = .ok registry)
    (hload' : RegistryAccount.load account' = .ok registry')
    (h : SameRecordBytes registry.data registry'.data) (signature : SchnorrSignature)
    (messageHash : Bytes 32) (registryVersion : UInt32) (key : Option CoalitionKey) :
    verifyAggregateOverHashAccounts prims account' signature messageHash registryVersion key =
      verifyAggregateOverHashAccounts prims account signature messageHash registryVersion key := by
  obtain ⟨-, -, ⟨capacity, hshape⟩, rfl⟩ := RegistryAccount.load_eq_ok_iff.mp hload
  obtain ⟨-, -, ⟨capacity', hshape'⟩, rfl⟩ := RegistryAccount.load_eq_ok_iff.mp hload'
  obtain ⟨view, hv⟩ := @RegistryAccount.exists_holdsView ⟨account.key, account.data⟩ _ hshape
  obtain ⟨view', hv'⟩ := @RegistryAccount.exists_holdsView ⟨account'.key, account'.data⟩ _ hshape'
  have hagree := agreeOnSigners_of_sameRecordBytes hv hv' hshape hshape' h signature.signersBitmap
  rw [verifyAggregateOverHashAccounts_eq hload hv.view_eq,
    verifyAggregateOverHashAccounts_eq hload' hv'.view_eq, hagree.version_eq,
    verifyAggregateOverHashResolved_congr hagree]

theorem SameButLiveness.load_eq (h : SameButLiveness account account') :
    RegistryAccount.load account' =
      (RegistryAccount.load account).map fun _ => ⟨account'.key, account'.data⟩ := by
  have hdiscriminator : account'.data.take discriminatorLen =
      account.data.take discriminatorLen := by
    have htake : (account'.data.drop 0).take discriminatorLen =
        (account.data.drop 0).take discriminatorLen :=
      take_drop_congr fun i _ hi => h.data_eq i (.inl (by rw [Nat.zero_add] at hi; exact hi))
    exact htake
  have hbyte {i : ℕ} (hi : registryVersionOffset ≤ i) :
      account'.data.getD i 0 = account.data.getD i 0 := by
    rw [List.getD_eq_getElem?_getD, List.getD_eq_getElem?_getD, h.data_eq i (.inr hi)]
  rw [RegistryAccount.load, RegistryAccount.load, h.owner_eq, h.borrowed_eq]
  simp only [h.length_eq, hdiscriminator, hbyte (i := registryNodeCountOffset) (by decide),
    hbyte (i := registryProviderCountOffset) (by decide)]
  split
  · rfl
  split
  · rfl
  split
  · rfl
  split
  · rfl
  · rfl

/-- The dispute path does not see the liveness fields, on accounts that load or not. -/
theorem SameButLiveness.dispute_eq (h : SameButLiveness account account')
    (signature : SchnorrSignature) (messageHash : Bytes 32) (registryVersion : UInt32)
    (key : Option CoalitionKey) :
    verifyAggregateOverHashAccounts prims account' signature messageHash registryVersion key =
      verifyAggregateOverHashAccounts prims account signature messageHash registryVersion key := by
  have hload' := h.load_eq
  cases hload : RegistryAccount.load account with
  | error e =>
    rw [hload] at hload'
    rw [verifyAggregateOverHashAccounts, verifyAggregateOverHashAccounts, hload, hload']
    rfl
  | ok registry =>
    rw [hload] at hload'
    refine verifyAggregateOverHashAccounts_congr hload hload' ⟨?_, ?_⟩ _ _ _ _
    · obtain ⟨-, -, -, rfl⟩ := RegistryAccount.load_eq_ok_iff.mp hload
      exact fun i hi _ => h.data_eq i (.inr hi)
    · obtain ⟨-, -, -, rfl⟩ := RegistryAccount.load_eq_ok_iff.mp hload
      exact fun i hi _ => h.data_eq i (.inr (le_trans (by decide) hi))

end Dispute

section Retirement

variable {prims : Primitives} {findProgramAddress : FindProgramAddress} {account : AccountInfo}
  {registry : RegistryAccount}

/-- The attestation paths accept up to the cutoff, and refuse a version for good after it. -/
structure RetirementExact (prims : Primitives) (findProgramAddress : FindProgramAddress)
    (account : AccountInfo) (version : UInt32) (graceActiveUntil : Int64) (view : RegistryView) :
    Prop where
  attestation_ok_iff : ∀ attestation key,
    (Solana.verifyAttestation prims attestation account key).run = some (.ok ()) ↔
      attestation.payload.registryVersion = version ∧
        (graceActiveUntil = 0 ∨
          (attestation.payload.timestamp.toNat : ℤ) < 1000 * graceActiveUntil.toInt) ∧
        verify prims attestation view key = .ok ()
  provenance_ok_iff : ∀ attestation key providerId,
    (Solana.verifyProvenance prims findProgramAddress attestation account key providerId).run =
        some (.ok ()) ↔
      attestation.payload.registryVersion = version ∧
        (graceActiveUntil = 0 ∨
          (attestation.payload.timestamp.toNat : ℤ) < 1000 * graceActiveUntil.toInt) ∧
        verifyProvenance prims attestation view key
          (providerAccount findProgramAddress providerId) = .ok ()
  attestation_retired : ∀ attestation attestation' key key',
    (Solana.verifyAttestation prims attestation account key).run =
        some (.error (.attestation .registryRetired)) →
      attestation'.payload.registryVersion = attestation.payload.registryVersion →
      attestation.payload.timestamp.toNat ≤ attestation'.payload.timestamp.toNat →
      (Solana.verifyAttestation prims attestation' account key').run =
        some (.error (.attestation .registryRetired))
  provenance_retired_iff : ∀ attestation key key' providerId,
    (Solana.verifyProvenance prims findProgramAddress attestation account key providerId).run =
        some (.error (.attestation .registryRetired)) ↔
      (Solana.verifyAttestation prims attestation account key').run =
        some (.error (.attestation .registryRetired))

theorem retirementExact {version : UInt32} {graceActiveUntil : Int64} {view : RegistryView}
    (hload : RegistryAccount.load account = .ok registry)
    (hread : ReadsAs registry version graceActiveUntil view) :
    RetirementExact prims findProgramAddress account version graceActiveUntil view := by
  have hretired (attestation : Attestation) (key : Option CoalitionKey) :
      (Solana.verifyAttestation prims attestation account key).run =
          some (.error (.attestation .registryRetired)) ↔
        attestation.payload.registryVersion = version ∧
          ¬LiveAt graceActiveUntil attestation.payload.timestamp := by
    rw [verifyAttestation_eq hload hread, ExceptT.run_mk, Option.some.injEq,
      attestationOutcome_eq_retired_iff (errorsIn_verify _ _ _)]
  constructor
  · intro attestation key
    rw [verifyAttestation_eq hload hread, ExceptT.run_mk, Option.some.injEq,
      attestationOutcome_eq_ok_iff, LiveAt]
  · intro attestation key providerId
    rw [verifyProvenance_eq hload hread, ExceptT.run_mk, Option.some.injEq,
      attestationOutcome_eq_ok_iff, LiveAt]
  · intro attestation attestation' key key' h hversion hle
    rw [hretired] at h ⊢
    exact ⟨hversion.trans h.1, fun hlive => h.2 (hlive.of_le hle)⟩
  · intro attestation key key' providerId
    rw [hretired, verifyProvenance_eq hload hread, ExceptT.run_mk, Option.some.injEq,
      attestationOutcome_eq_retired_iff (errorsIn_verifyProvenance _ _ _ _)]

/-- Retirement through the account is exact and one-way, its clock conversion never saturates, and
the dispute path does not depend on it. -/
theorem retirement_exact (prims : Primitives) (findProgramAddress : FindProgramAddress) :
    (∀ account registry, RegistryAccount.load account = .ok registry →
      ∃ version graceActiveUntil view, ReadsAs registry version graceActiveUntil view ∧
        RetirementExact prims findProgramAddress account version graceActiveUntil view) ∧
    (∀ payload : AttestationPayload, i64TryFrom payload.timestampSecs = some (roundSecs payload)) ∧
    ∀ account account', SameButLiveness account account' →
      ∀ signature messageHash registryVersion key,
        verifyAggregateOverHashAccounts prims account' signature messageHash registryVersion key =
          verifyAggregateOverHashAccounts prims account signature messageHash registryVersion
            key := by
  refine ⟨?_, i64TryFrom_timestampSecs, ?_⟩
  · intro account registry hload
    obtain ⟨version, graceActiveUntil, view, hread⟩ := exists_readsAs hload
    exact ⟨version, graceActiveUntil, view, hread, retirementExact hload hread⟩
  · intro account account' h signature messageHash registryVersion key
    exact h.dispute_eq signature messageHash registryVersion key

/-- A node, a hole, a provider and some spare records, in force until second 10. -/
def sampleAccount (activeFrom : Int64) (spare : List NodeEntry) : AccountInfo where
  key := Vector.replicate 32 3
  owner := programId
  data := serializeRegistry ⟨10, activeFrom, 7, 2, 1, 1, 255⟩
    ([RegistryAccount.sampleRecord 1, RegistryAccount.sampleRecord 0] ++
      ([RegistryAccount.sampleRecord 2] ++ spare))
  mutablyBorrowed := false

theorem load_sampleAccount (activeFrom : Int64) {spare : List NodeEntry}
    (h : spare.length ≤ 200) : RegistryAccount.load (sampleAccount activeFrom spare) =
      .ok ⟨Vector.replicate 32 3, (sampleAccount activeFrom spare).data⟩ := by
  refine RegistryAccount.load_eq_ok_iff.mpr ⟨rfl, rfl, ⟨_,
    RegistryAccount.registryShape_serializeRegistry _ _ ?_ (show 2 ≤ nodeSlots by decide)
      (show 1 ≤ maxProviderSlots by decide) ?_⟩, rfl⟩
  · simp [maxRegistryNodes]
    omega
  · change 2 + 1 ≤ _
    simp

theorem retirement_exact_sample :
    ∃ version graceActiveUntil view,
      ReadsAs ⟨Vector.replicate 32 3, (sampleAccount 5 []).data⟩ version graceActiveUntil view ∧
        RetirementExact (referencePrimitives sampleKeccak) (fun _ program => (program, 255))
          (sampleAccount 5 []) version graceActiveUntil view :=
  (retirement_exact (referencePrimitives sampleKeccak) (fun _ program => (program, 255))).1 _ _
    (load_sampleAccount 5 (by decide))

end Retirement

end MolphaVerifier
