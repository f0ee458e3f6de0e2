import MolphaVerifier.AccountVerification
import MolphaVerifier.HonestRounds
import MolphaVerifier.OrderedChecks

/-!
# The outcome of every verification

Each entry point reports the first condition that fails, in a fixed order: the frame of the account,
the version, the cutoff, the scalar, the quorum, the signers' records in ascending bit order, the sum,
the supplied key, the signature, and the provider. The conditions are stated on the account, the
stored points and the signature, for registries whose canonical records hold curve points.
-/

namespace MolphaVerifier

open FixedBytes BitVecIteration FallibleFolds ShortWeierstrass OrderedChecks

/-- The canonical keys at the set bits are coordinates of points. -/
def StoredKeys (registry : RegistryView) (signersBitmap : Bytes 32) (keys : ℕ → Secp256k1.Point) :
    Prop :=
  ∀ bit ∈ setBits (Bitmap.load signersBitmap), ∀ member, registry.NamesLiveRecord bit member →
    CanonicalXy member.xy → HasCoords (keys bit) (toField member.x) (toField member.y)

def coalitionPoint (signersBitmap : Bytes 32) (keys : ℕ → Secp256k1.Point) : Secp256k1.Point :=
  ((setBits (Bitmap.load signersBitmap)).map keys).sum

def IsKeyOf (S : Secp256k1.Point) (key : CoalitionKey) : Prop :=
  ∃ x y, HasCoords S x y ∧ key = CoalitionKey.ofXy x y

def ValidScalar (s : Bytes 32) : Prop := 0 < bytesToNat s ∧ bytesToNat s < Secp256k1.n

section Checks

def quorumChecks (signers : Bitmap) (signaturesRequired : UInt8) : List (Check AttestationError) :=
  [⟨signers ≠ Bitmap.empty, .invalidSignersBitmap⟩,
    ⟨signaturesRequired ≠ 0, .insufficientSigners⟩,
    ⟨∀ b ∈ setBits signers, ∀ b' ∈ setBits signers, nodeSlots ≤ b → nodeSlots ≤ b' → b = b',
      .invalidSignersBitmap⟩,
    ⟨signaturesRequired.toNat ≤ (setBits signers).length, .insufficientSigners⟩]

/-- A set bit names a live record, and the record holds canonical coordinates. -/
def recordChecks (registry : RegistryView) (bit : ℕ) : List (Check AttestationError) :=
  [⟨∃ member, registry.NamesLiveRecord bit member, .invalidSignersBitmap⟩,
    ⟨∀ member, registry.NamesLiveRecord bit member → CanonicalXy member.xy,
      .invalidAggregateSignature⟩]

def signersChecks (registry : RegistryView) (signersBitmap : Bytes 32) :
    List (Check AttestationError) :=
  (setBits (Bitmap.load signersBitmap)).flatMap (recordChecks registry)

def verificationChecks (keccak : Keccak) (attestation : Attestation) (registry : RegistryView)
    (key : Option CoalitionKey) (S : Secp256k1.Point) : List (Check AttestationError) :=
  ⟨attestation.payload.registryVersion = registry.version, .invalidRegistryVersion⟩ ::
  ⟨ValidScalar attestation.signature.aggSigS, .invalidAggregateSignature⟩ ::
  (quorumChecks (Bitmap.load attestation.signature.signersBitmap)
      attestation.payload.signaturesRequired ++
    (signersChecks registry attestation.signature.signersBitmap ++
      [⟨S ≠ 0, .invalidAggregateSignature⟩,
        ⟨∀ k ∈ key, IsKeyOf S k, .invalidCoalitionKey⟩,
        ⟨SchnorrAccepts keccak S (attestation.messageHash keccak) attestation.signature.aggSigS
          attestation.signature.commitment, .invalidAggregateSignature⟩]))

def provenanceChecks (keccak : Keccak) (attestation : Attestation) (registry : RegistryView)
    (key : Option CoalitionKey) (S : Secp256k1.Point) (account : Bytes 32) :
    List (Check AttestationError) :=
  verificationChecks keccak attestation registry key S ++
    [⟨∃ bit member, NamesProvider registry attestation.signature.signersBitmap account bit member,
      .providerAbsent⟩]

/-- A signature whose scalar is out of range is judged without its key. -/
def disputeChecks (registry : RegistryView) (signature : SchnorrSignature)
    (key : Option CoalitionKey) (S : Secp256k1.Point) : List (Check AttestationError) :=
  ⟨Bitmap.load signature.signersBitmap ≠ Bitmap.empty, .invalidSignersBitmap⟩ ::
  (signersChecks registry signature.signersBitmap ++
    [⟨ValidScalar signature.aggSigS → S ≠ 0, .invalidAggregateSignature⟩,
      ⟨ValidScalar signature.aggSigS → ∀ k ∈ key, IsKeyOf S k, .invalidCoalitionKey⟩])

/-- The frame of a registry account. -/
def loadChecks (account : AccountInfo) : List (Check AccountError) :=
  [⟨account.owner = programId, .invalidAccountOwner⟩,
    ⟨account.mutablyBorrowed = false, .accountBorrowFailed⟩,
    ⟨∃ capacity, RegistryShape account.data capacity, .invalidRegistryAccount⟩]

/-- The checks of an attestation against a loaded account, before those over its view. -/
def roundChecks (version : UInt32) (graceActiveUntil : Int64) (payload : AttestationPayload)
    (checks : List (Check AttestationError)) : List (Check AccountError) :=
  ⟨payload.registryVersion = version, .attestation .invalidRegistryVersion⟩ ::
  ⟨LiveAt graceActiveUntil payload.timestamp, .attestation .registryRetired⟩ ::
  checks.map (Check.mapError AccountError.attestation)

end Checks

section View

variable {prims : Primitives} {R : FieldReading prims.lib} {registry : RegistryView}
  {signersBitmap : Bytes 32} {keys : ℕ → Secp256k1.Point}

theorem decided_checkQuorum (signers : Bitmap) (signaturesRequired : UInt8) :
    Decided (quorumChecks signers signaturesRequired) (fun _ => signers ≠ Bitmap.empty)
      (checkQuorum signers signaturesRequired) := by
  have hproviders : Bitmap.popcount (Bitmap.providerBits signers) > 1 ↔
      ¬∀ b ∈ setBits signers, ∀ b' ∈ setBits signers, nodeSlots ≤ b → nodeSlots ≤ b' → b = b' := by
    rw [Bitmap.popcount_eq_length, gt_iff_lt, ← not_le, length_le_one_iff (nodup_setBits _)]
    simp only [Bitmap.mem_setBits_providerBits, and_imp]
    exact not_congr ⟨fun h b hb b' hb' hp hp' => h b hb hp b' hb' hp',
      fun h b hb hp b' hb' hp' => h b hb b' hb' hp hp'⟩
  rw [checkQuorum]
  refine .refuse not_not.symm fun hnonempty => ?_
  refine .refuse not_not.symm fun _ => ?_
  refine .refuse hproviders fun _ => ?_
  refine .refuse ?_ fun _ => .passed hnonempty
  rw [Bitmap.popcount_eq_length, not_le]

section Sum

variable (hF : FieldExact prims.lib R) (hS : SumExact prims.lib R)

include hF hS

theorem decided_addRecord (coalition : CoalitionAccumulator prims.lib) (bit : ℕ) :
    Decided (recordChecks registry bit) (fun _ => True)
      (registry.signer bit >>= fun node => coalition.addStoredXy node.x node.y) := by
  rcases registry.signer_cases bit with ⟨member, hsigner⟩ | hsigner
  · have hmember := RegistryView.signer_eq_ok_iff.mp hsigner
    have hunique (member' : NodeEntry) (h : registry.NamesLiveRecord bit member') :
        member' = member :=
      (Except.ok.inj (hsigner.symm.trans (RegistryView.signer_eq_ok_iff.mpr h))).symm
    rw [hsigner]
    refine .held ⟨member, hmember⟩ ?_
    change Decided _ _ (coalition.addStoredXy member.x member.y)
    cases hadd : coalition.addStoredXy member.x member.y with
    | ok coalition' =>
      refine .held (fun member' h => ?_) (.passed trivial)
      rw [hunique member' h]
      exact (CoalitionAccumulator.exists_addStoredXy_iff hF hS).mp ⟨coalition', hadd⟩
    | error e =>
      obtain rfl := CoalitionAccumulator.addStoredXy_eq_error hF hS hadd
      refine .failed fun h => ?_
      obtain ⟨coalition', hok⟩ :=
        (CoalitionAccumulator.exists_addStoredXy_iff hF hS).mpr (h member hmember)
      rw [hadd] at hok
      cases hok
  · rw [hsigner]
    refine .failed ?_
    rintro ⟨member, hmember⟩
    rw [RegistryView.signer_eq_ok_iff.mpr hmember] at hsigner
    cases hsigner

theorem decided_accumulateRegistrySigners (registry : RegistryView) (signersBitmap : Bytes 32) :
    Decided (⟨Bitmap.load signersBitmap ≠ Bitmap.empty, .invalidSignersBitmap⟩ ::
        signersChecks registry signersBitmap)
      (fun coalition => accumulateRegistrySigners prims.lib registry signersBitmap = .ok coalition)
      (accumulateRegistrySigners prims.lib registry signersBitmap) := by
  have h : Decided (⟨Bitmap.load signersBitmap ≠ Bitmap.empty, .invalidSignersBitmap⟩ ::
      signersChecks registry signersBitmap) (fun _ => True)
      (accumulateRegistrySigners prims.lib registry signersBitmap) := by
    rw [accumulateRegistrySigners_eq]
    refine .refuse not_not.symm fun _ => ?_
    exact .foldlM [] (fun _ _ => True) (recordChecks registry)
      (fun _ bit coalition _ _ => decided_addRecord hF hS coalition bit) trivial
  exact h.self

theorem decided_compressCoalition (hG : GroupExact prims.lib R)
    (hkeys : StoredKeys registry signersBitmap keys) {coalition : CoalitionAccumulator prims.lib}
    (h : accumulateRegistrySigners prims.lib registry signersBitmap = .ok coalition)
    (key : Option CoalitionKey) :
    Decided [⟨coalitionPoint signersBitmap keys ≠ 0, .invalidAggregateSignature⟩,
        ⟨∀ k ∈ key, IsKeyOf (coalitionPoint signersBitmap keys) k, .invalidCoalitionKey⟩]
      (fun xCoalition => ∃ x y, HasCoords (coalitionPoint signersBitmap keys) x y ∧
        xCoalition = encodeCompressed x y)
      (compressCoalition coalition key) := by
  have hcanonical := ((exists_accumulateRegistrySigners_iff hF hS).mp ⟨coalition, h⟩).2
  have hstored : ∀ bit ∈ setBits (Bitmap.load signersBitmap), ∀ member,
      registry.NamesLiveRecord bit member → StoresPoint member (keys bit) := by
    intro bit hbit member hmember
    obtain ⟨member', hmember', hxy⟩ := hcanonical bit hbit
    rw [← RegistryView.signer_eq_ok_iff] at hmember'
    obtain rfl := Except.ok.inj
      (hmember'.symm.trans (RegistryView.signer_eq_ok_iff.mpr hmember))
    exact ⟨hxy.x_lt, hxy.y_lt, hkeys bit hbit member' hmember hxy⟩
  rw [compressCoalition_eq hF hS (proper_accumulateRegistrySigners hF hS h)]
  rcases (represents_accumulateRegistrySigners hF hS hG hstored h).sum_cases with
    ⟨hsum, hzero⟩ | ⟨x, y, hsum, hcoords⟩
  · rw [hsum]
    exact .failed fun h => h hzero
  · rw [hsum]
    refine .held hcoords.ne_zero ?_
    have hkey : (∀ k ∈ key, k = CoalitionKey.ofXy x y) ↔
        ∀ k ∈ key, IsKeyOf (coalitionPoint signersBitmap keys) k := by
      refine forall₂_congr fun k _ => ⟨fun h => ⟨x, y, hcoords, h⟩, ?_⟩
      rintro ⟨x', y', hcoords', rfl⟩
      obtain ⟨rfl, rfl⟩ := hcoords.unique hcoords'
      rfl
    exact .require hkey fun _ => .passed ⟨x, y, hcoords, rfl⟩

end Sum

/-- `verify` reports the first condition that fails. -/
theorem verify_decided (hF : FieldExact prims.lib R) (hS : SumExact prims.lib R)
    (hG : GroupExact prims.lib R) (hRec : RecoverExact prims.secp256k1Recover)
    {attestation : Attestation} (hkeys : StoredKeys registry attestation.signature.signersBitmap keys)
    (key : Option CoalitionKey) :
    Decided (verificationChecks prims.keccak attestation registry key
        (coalitionPoint attestation.signature.signersBitmap keys)) (fun _ => True)
      (verify prims attestation registry key) := by
  rw [verify]
  refine .refuse Iff.rfl fun _ => ?_
  refine .refuse ?_ fun _ => ?_
  · rw [ValidScalar, ← secp256k1ScalarIsValidNonzero_iff, Bool.not_eq_true', Bool.not_eq_true]
  refine (decided_checkQuorum _ _).bind fun _ hnonempty => ?_
  refine ((decided_accumulateRegistrySigners hF hS registry _).of_holds hnonempty).bind
    fun coalition hcoalition => ?_
  refine (decided_compressCoalition hF hS hG hkeys hcoalition key).bind fun xCoalition hx => ?_
  obtain ⟨x, y, hcoords, rfl⟩ := hx
  exact .require (recoverAndMatch_iff hRec hcoords (attestation.messageHash prims.keccak)
    attestation.signature.aggSigS attestation.signature.commitment) fun _ => .passed trivial

theorem verifyProvenance_decided (hF : FieldExact prims.lib R) (hS : SumExact prims.lib R)
    (hG : GroupExact prims.lib R) (hRec : RecoverExact prims.secp256k1Recover)
    {attestation : Attestation} (hkeys : StoredKeys registry attestation.signature.signersBitmap keys)
    (key : Option CoalitionKey) (account : Bytes 32) :
    Decided (provenanceChecks prims.keccak attestation registry key
        (coalitionPoint attestation.signature.signersBitmap keys) account) (fun _ => True)
      (verifyProvenance prims attestation registry key account) := by
  rw [verifyProvenance]
  refine (verify_decided hF hS hG hRec hkeys key).self.bind fun _ hverify => ?_
  obtain ⟨present, hrun, hpresent⟩ := verifyProvenance_of_verify account hverify
  rw [verifyProvenance, hverify] at hrun
  refine (congrArg (Decided _ _) hrun).mpr ?_
  exact .require hpresent fun _ => .passed trivial

/-- The dispute path reports malformed input the same way, and otherwise judges the signature. -/
theorem verifyAggregateOverHashResolved_decided (hF : FieldExact prims.lib R)
    (hS : SumExact prims.lib R) (hG : GroupExact prims.lib R)
    (hRec : RecoverExact prims.secp256k1Recover) {signature : SchnorrSignature}
    (hkeys : StoredKeys registry signature.signersBitmap keys) (messageHash : Bytes 32)
    (key : Option CoalitionKey) :
    Decided (disputeChecks registry signature key (coalitionPoint signature.signersBitmap keys))
      (fun verdict => verdict = true ↔ ValidScalar signature.aggSigS ∧
        SchnorrAccepts prims.keccak (coalitionPoint signature.signersBitmap keys) messageHash
          signature.aggSigS signature.commitment)
      (verifyAggregateOverHashResolved prims registry signature messageHash key) := by
  rw [verifyAggregateOverHashResolved]
  refine (decided_accumulateRegistrySigners hF hS registry _).bind fun coalition hcoalition => ?_
  have hvalid := secp256k1ScalarIsValidNonzero_iff signature.aggSigS
  by_cases hscalar : ValidScalar signature.aggSigS
  · rw [hvalid.mpr hscalar]
    simp only [hscalar, true_imp_iff, true_and]
    refine (decided_compressCoalition hF hS hG hkeys hcoalition key).bind fun xCoalition hx => ?_
    obtain ⟨x, y, hcoords, rfl⟩ := hx
    exact .passed (recoverAndMatch_iff hRec hcoords messageHash signature.aggSigS
      signature.commitment)
  · have hinvalid : secp256k1ScalarIsValidNonzero signature.aggSigS = false :=
      Bool.eq_false_iff.mpr fun h => hscalar (hvalid.mp h)
    rw [hinvalid]
    refine .held (fun h => absurd h hscalar) (.held (fun h => absurd h hscalar) (.passed ?_))
    exact iff_of_false Bool.false_ne_true fun h => hscalar h.1

/-- Verification over a snapshot, with and without a named provider, and the dispute verdict report
the first condition that fails. -/
theorem verification_decided (hF : FieldExact prims.lib R) (hS : SumExact prims.lib R)
    (hG : GroupExact prims.lib R) (hRec : RecoverExact prims.secp256k1Recover)
    (attestation : Attestation) (hkeys : StoredKeys registry attestation.signature.signersBitmap keys)
    (key : Option CoalitionKey) :
    Decided (verificationChecks prims.keccak attestation registry key
        (coalitionPoint attestation.signature.signersBitmap keys)) (fun _ => True)
      (verify prims attestation registry key) ∧
    (∀ account, Decided (provenanceChecks prims.keccak attestation registry key
        (coalitionPoint attestation.signature.signersBitmap keys) account) (fun _ => True)
      (verifyProvenance prims attestation registry key account)) ∧
    ∀ messageHash, Decided (disputeChecks registry attestation.signature key
        (coalitionPoint attestation.signature.signersBitmap keys))
      (fun verdict => verdict = true ↔ ValidScalar attestation.signature.aggSigS ∧
        SchnorrAccepts prims.keccak (coalitionPoint attestation.signature.signersBitmap keys)
          messageHash attestation.signature.aggSigS attestation.signature.commitment)
      (verifyAggregateOverHashResolved prims registry attestation.signature messageHash key) :=
  ⟨verify_decided hF hS hG hRec hkeys key, verifyProvenance_decided hF hS hG hRec hkeys key,
    fun messageHash => verifyAggregateOverHashResolved_decided hF hS hG hRec hkeys messageHash key⟩

end View

section Accounts

variable {prims : Primitives} {R : FieldReading prims.lib} {account : AccountInfo} {α : Type}

/-- `MO`. -/
def errorCodeBase : UInt32 := 0x4D4F0000

/-- Stable numeric code; wrapped attestation errors share the first. -/
def AccountError.code : AccountError → UInt32
  | .attestation _ => errorCodeBase
  | .accountBorrowFailed => errorCodeBase + 1
  | .invalidAccountOwner => errorCodeBase + 2
  | .invalidRegistryAccount => errorCodeBase + 3
  | .invalidRegistryPda => errorCodeBase + 4

/-- What the account's accessors read, if it loads. -/
def ReadsView (account : AccountInfo) (graceActiveUntil : Int64) (view : RegistryView) : Prop :=
  ∀ registry, RegistryAccount.load account = .ok registry →
    ReadsAs registry view.version graceActiveUntil view

theorem decided_load (account : AccountInfo) :
    Decided (loadChecks account) (fun _ => True) (RegistryAccount.load account) := by
  rw [RegistryAccount.load]
  refine .refuse Iff.rfl fun howner => ?_
  refine .refuse (iff_of_eq (Bool.not_eq_false _).symm) fun _ => ?_
  have hshape := exists_registryShape_iff account.data
  dsimp only
  split
  next hframe => exact .failed fun h => (hshape.mp h).1 hframe
  next hframe =>
    split
    next htable => exact .failed fun h => (hshape.mp h).2 htable
    next htable => exact .held (hshape.mpr ⟨hframe, htable⟩) (.passed trivial)

theorem exists_decided_account {checks : List (Check AccountError)} {Q : α → Prop}
    {run : ExceptT AccountError Option α}
    (herror : ∀ e, RegistryAccount.load account = .error e → run = ExceptT.mk (some (.error e)))
    (hok : ∀ registry, RegistryAccount.load account = .ok registry →
      ∃ outcome, run = ExceptT.mk (some outcome) ∧ Decided checks Q outcome) :
    ∃ outcome, run = ExceptT.mk (some outcome) ∧
      Decided (loadChecks account ++ checks) Q outcome := by
  have hload := decided_load account
  cases hcase : RegistryAccount.load account with
  | error e =>
    rw [hcase] at hload
    exact ⟨.error e, herror e hcase, hload.self.bind (f := fun _ => .error e) fun _ h => nomatch h⟩
  | ok registry =>
    obtain ⟨outcome, hrun, hdecided⟩ := hok registry hcase
    rw [hcase] at hload
    exact ⟨outcome, hrun, hload.bind (f := fun _ => outcome) fun _ _ => hdecided⟩

theorem decided_attestationOutcome {version : UInt32} {graceActiveUntil : Int64}
    {payload : AttestationPayload} {checks : List (Check AttestationError)} {Q : α → Prop}
    {verdict : Except AttestationError α} (h : Decided checks Q verdict) :
    Decided (roundChecks version graceActiveUntil payload checks) Q
      (attestationOutcome version graceActiveUntil payload verdict) := by
  rw [attestationOutcome]
  refine .refuse Iff.rfl fun _ => ?_
  exact .require Iff.rfl fun _ => h.mapError AccountError.attestation

theorem code_of_loadChecks : ∀ check ∈ loadChecks account, ¬check.error.code = errorCodeBase := by
  simp only [loadChecks, List.forall_mem_cons, AccountError.code]
  decide

theorem code_of_roundChecks {version : UInt32} {graceActiveUntil : Int64}
    {payload : AttestationPayload} {checks : List (Check AttestationError)} :
    ∀ check ∈ roundChecks version graceActiveUntil payload checks,
      check.error.code = errorCodeBase := by
  simp only [roundChecks, List.forall_mem_cons, List.forall_mem_map]
  exact ⟨rfl, rfl, fun _ _ => rfl⟩

theorem roundChecks_append (version : UInt32) (graceActiveUntil : Int64)
    (payload : AttestationPayload) (before : List (Check AttestationError))
    (check : Check AttestationError) (after : List (Check AttestationError)) :
    roundChecks version graceActiveUntil payload (before ++ check :: after) =
      roundChecks version graceActiveUntil payload before ++
        check.mapError AccountError.attestation ::
          after.map (Check.mapError AccountError.attestation) := by
  simp only [roundChecks, List.map_append, List.map_cons, List.cons_append]

/-- An entry point answers for every account, reports the first check that fails, and its error code
tells a refused attestation from a bad account. -/
def AnswersInOrder (account : AccountInfo) (checks : List (Check AccountError))
    (run : ExceptT AccountError Option Unit) : Prop :=
  ∃ outcome, run = ExceptT.mk (some outcome) ∧
    Decided (loadChecks account ++ checks) (fun _ => True) outcome ∧
    ((∃ e, outcome = .error e ∧ e.code = errorCodeBase) ↔
      (∀ check ∈ loadChecks account, check.holds) ∧ ∃ check ∈ checks, ¬check.holds)

section EntryPoints

variable {graceActiveUntil : Int64} {view : RegistryView} {attestation : Attestation}
  {keys : ℕ → Secp256k1.Point}

theorem answersInOrder {checks : List (Check AttestationError)}
    {verdict : RegistryView → Except AttestationError Unit}
    (hread : ReadsView account graceActiveUntil view)
    (h : Decided checks (fun _ => True) (verdict view)) :
    AnswersInOrder account (roundChecks view.version graceActiveUntil attestation.payload checks)
      (loadLiveRegistry attestation account >>= fun registry =>
        liftM registry.view >>= fun view => liftM (fromAttestation (verdict view))) := by
  have hdecided : ∃ outcome, (loadLiveRegistry attestation account >>= fun registry =>
      liftM registry.view >>= fun view => liftM (fromAttestation (verdict view))) =
        ExceptT.mk (some outcome) ∧
      Decided (loadChecks account ++
        roundChecks view.version graceActiveUntil attestation.payload checks) (fun _ => True)
        outcome := by
    refine exists_decided_account (fun e hload => ?_) fun registry hload => ?_
    · rw [loadLiveRegistry, hload]
      rfl
    · exact ⟨_, loadLiveRegistry_bind hload (hread registry hload) attestation verdict,
        decided_attestationOutcome h⟩
  obtain ⟨outcome, hrun, houtcome⟩ := hdecided
  exact ⟨outcome, hrun, houtcome,
    houtcome.exists_later_error_iff code_of_loadChecks code_of_roundChecks⟩

theorem exists_readsView (account : AccountInfo) :
    ∃ graceActiveUntil view, ReadsView account graceActiveUntil view := by
  cases hload : RegistryAccount.load account with
  | error e =>
    refine ⟨0, ⟨0, 0, 0, 0, [], []⟩, fun registry h => ?_⟩
    rw [hload] at h
    cases h
  | ok registry =>
    obtain ⟨version, graceActiveUntil, view, hread⟩ := exists_readsAs hload
    refine ⟨graceActiveUntil, view, fun registry' h => ?_⟩
    obtain rfl := Except.ok.inj (hload.symm.trans h)
    rwa [hread.version_view]

/-- Over a registry account every entry point has an outcome, and it is decided by the first check
that fails: the owner, the borrow and the shape of the account, the version, the cutoff on the
attestation paths only, then the checks over the view that the accessors read. -/
theorem account_verification_decided (hF : FieldExact prims.lib R) (hS : SumExact prims.lib R)
    (hG : GroupExact prims.lib R) (hRec : RecoverExact prims.secp256k1Recover)
    (findProgramAddress : FindProgramAddress) (account : AccountInfo) :
    (∃ graceActiveUntil view, ReadsView account graceActiveUntil view) ∧
    ∀ graceActiveUntil view, ReadsView account graceActiveUntil view →
    ∀ (attestation : Attestation) (keys : ℕ → Secp256k1.Point),
      StoredKeys view attestation.signature.signersBitmap keys →
    ∀ key,
      AnswersInOrder account
        (roundChecks view.version graceActiveUntil attestation.payload
          (verificationChecks prims.keccak attestation view key
            (coalitionPoint attestation.signature.signersBitmap keys)))
        (Solana.verifyAttestation prims attestation account key) ∧
      (∀ providerId, AnswersInOrder account
        (roundChecks view.version graceActiveUntil attestation.payload
          (provenanceChecks prims.keccak attestation view key
            (coalitionPoint attestation.signature.signersBitmap keys)
            (providerAccount findProgramAddress providerId)))
        (Solana.verifyProvenance prims findProgramAddress attestation account key providerId)) ∧
      ∀ messageHash registryVersion, ∃ outcome,
        verifyAggregateOverHashAccounts prims account attestation.signature messageHash
            registryVersion key = ExceptT.mk (some outcome) ∧
          Decided (loadChecks account ++
              ⟨view.version = registryVersion, .invalidRegistryAccount⟩ ::
                (disputeChecks view attestation.signature key
                  (coalitionPoint attestation.signature.signersBitmap keys)).map
                    (Check.mapError AccountError.attestation))
            (fun verdict => verdict = true ↔ ValidScalar attestation.signature.aggSigS ∧
              SchnorrAccepts prims.keccak
                (coalitionPoint attestation.signature.signersBitmap keys)
                messageHash attestation.signature.aggSigS attestation.signature.commitment)
            outcome := by
  refine ⟨exists_readsView account, fun graceActiveUntil view hread attestation keys hkeys key =>
    ⟨answersInOrder hread (verify_decided hF hS hG hRec hkeys key), fun providerId =>
      answersInOrder hread (verifyProvenance_decided hF hS hG hRec hkeys key _), ?_⟩⟩
  intro messageHash registryVersion
  refine exists_decided_account (fun e hload => ?_) fun registry hload => ?_
  · rw [verifyAggregateOverHashAccounts, hload]
    rfl
  · refine ⟨if view.version ≠ registryVersion then .error .invalidRegistryAccount
      else fromAttestation (verifyAggregateOverHashResolved prims view attestation.signature
        messageHash key), ?_, ?_⟩
    · rw [verifyAggregateOverHashAccounts_eq hload (hread registry hload).view_eq]
      split_ifs
      · rfl
      · rfl
    · exact .refuse Iff.rfl fun _ =>
        (verifyAggregateOverHashResolved_decided hF hS hG hRec hkeys messageHash key).mapError
          AccountError.attestation

end EntryPoints

end Accounts

section Sample

/-- The two signers' attestation with the bit of a second node in place of the provider's. -/
def strangerAttestation : Attestation :=
  { pairAttestation with
    signature :=
      { pairAttestation.signature with
        signersBitmap := Bitmap.toBytes (setBit (setBit 0 0) 1) } }

theorem setBits_strangerAttestation :
    setBits (Bitmap.load strangerAttestation.signature.signersBitmap) = [0, 1] := by
  rw [strangerAttestation, Bitmap.load_toBytes]
  decide

theorem not_namesLiveRecord_one (member : NodeEntry) :
    ¬pairRegistry.NamesLiveRecord 1 member := by
  intro h
  exact absurd (h.of_node (by decide)).1 (by decide)

theorem eq_sampleMember {member : NodeEntry} (hmember : pairRegistry.NamesLiveRecord 0 member) :
    member = sampleMember := by
  simpa [pairRegistry, eq_comm] using (hmember.of_node (by decide)).2

theorem storedKeys_stranger : StoredKeys pairRegistry strangerAttestation.signature.signersBitmap
    (fun _ => Secp256k1.G) := by
  rw [StoredKeys, setBits_strangerAttestation]
  intro bit hbit member hmember _
  simp only [List.mem_cons, List.not_mem_nil, or_false] at hbit
  rcases hbit with rfl | rfl
  · rw [eq_sampleMember hmember]
    exact sampleMember_storesPoint.coords
  · exact absurd hmember (not_namesLiveRecord_one member)

/-- The checks that the attestation passes before the one on the second node's record. -/
def strangerPassed : List (Check AttestationError) :=
  ⟨strangerAttestation.payload.registryVersion = pairRegistry.version, .invalidRegistryVersion⟩ ::
  ⟨ValidScalar strangerAttestation.signature.aggSigS, .invalidAggregateSignature⟩ ::
  (quorumChecks (Bitmap.load strangerAttestation.signature.signersBitmap) 2 ++
    recordChecks pairRegistry 0)

theorem strangerPassed_hold : ∀ check ∈ strangerPassed, check.holds := by
  have hbits := setBits_strangerAttestation
  simp only [strangerPassed, List.forall_mem_cons, List.forall_mem_append, quorumChecks,
    recordChecks, hbits, List.not_mem_nil, false_imp_iff, implies_true, and_true]
  refine ⟨rfl, pairAttestation_scalar, ⟨?_, by decide, by decide, le_refl 2⟩,
    ⟨_, namesLiveRecord_pair_node⟩, fun member hmember => ?_⟩
  · intro hempty
    rw [hempty] at hbits
    exact absurd (hbits.symm.trans setBits_zero) (by simp)
  · rw [eq_sampleMember hmember]
    exact sampleMember_storesPoint.canonicalXy

theorem verificationChecks_stranger (keccak : Keccak) (S : Secp256k1.Point) :
    ∃ after, verificationChecks keccak strangerAttestation pairRegistry none S =
      strangerPassed ++
        ⟨∃ member, pairRegistry.NamesLiveRecord 1 member, .invalidSignersBitmap⟩ :: after := by
  have hrecords : signersChecks pairRegistry strangerAttestation.signature.signersBitmap =
      recordChecks pairRegistry 0 ++ (recordChecks pairRegistry 1 ++ []) := by
    rw [signersChecks, setBits_strangerAttestation]
    rfl
  rw [verificationChecks, hrecords]
  exact ⟨_, by
    simp only [strangerPassed, recordChecks, List.cons_append, List.append_assoc, List.nil_append]
    rfl⟩

theorem not_exists_recordOne : ¬∃ member, pairRegistry.NamesLiveRecord 1 member := by
  rintro ⟨member, hmember⟩
  exact not_namesLiveRecord_one member hmember

/-- A signer without a record is refused as such. -/
theorem verification_decided_sample :
    verify (referencePrimitives sampleKeccak) strangerAttestation pairRegistry none =
      .error .invalidSignersBitmap := by
  obtain ⟨after, hchecks⟩ := verificationChecks_stranger sampleKeccak
    (coalitionPoint strangerAttestation.signature.signersBitmap fun _ => Secp256k1.G)
  exact (verification_decided fieldExact_reference sumExact_reference groupExact_reference
    recoverExact_reference strangerAttestation storedKeys_stranger none).1.eq_error_iff.mpr
    ⟨strangerPassed, _, after, hchecks, strangerPassed_hold, not_exists_recordOne, rfl⟩

theorem readsView_sessionAccount : ReadsView sessionAccount 0 pairRegistry := by
  intro registry hload
  obtain rfl := Except.ok.inj (load_sessionAccount.symm.trans hload)
  exact readsAs_sessionAccount

/-- The account is in order and the attestation is refused for the signer without a record. -/
theorem account_verification_decided_sample :
    Solana.verifyAttestation (referencePrimitives sampleKeccak) strangerAttestation sessionAccount
      none = ExceptT.mk (some (.error (.attestation .invalidSignersBitmap))) := by
  obtain ⟨outcome, hrun, hdecided, -⟩ := ((@account_verification_decided
    (referencePrimitives sampleKeccak) _
    fieldExact_reference sumExact_reference
    groupExact_reference recoverExact_reference (fun _ program => (program, 255))
    sessionAccount).2 0 pairRegistry readsView_sessionAccount strangerAttestation _
    storedKeys_stranger none).1
  obtain ⟨after, hchecks⟩ := verificationChecks_stranger sampleKeccak
    (coalitionPoint strangerAttestation.signature.signersBitmap fun _ => Secp256k1.G)
  have hload := (decided_load sessionAccount).exists_ok_iff.mp ⟨_, load_sessionAccount⟩
  have hround := roundChecks_append 1 0 strangerAttestation.payload strangerPassed
    ⟨∃ member, pairRegistry.NamesLiveRecord 1 member, .invalidSignersBitmap⟩ after
  rw [← hchecks] at hround
  have hpassed : ∀ check ∈ roundChecks 1 0 strangerAttestation.payload strangerPassed,
      check.holds := by
    simp only [roundChecks, List.forall_mem_cons, List.forall_mem_map]
    exact ⟨rfl, .inl rfl, strangerPassed_hold⟩
  rw [hrun, hdecided.eq_error_iff.mpr ⟨_, _, _, (congrArg _ hround).trans
    (List.append_assoc ..).symm, List.forall_mem_append.mpr ⟨hload, hpassed⟩,
    not_exists_recordOne, rfl⟩]
  rfl

end Sample

end MolphaVerifier
