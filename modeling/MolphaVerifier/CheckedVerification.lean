import MolphaVerifier.AccountVerification
import MolphaVerifier.CheckedSelection
import MolphaVerifier.ModularMultiplication

/-!
# Verification with its checks

The entry points with every place where the compiled code can stop: the accessors of the registry
account, the slot of a provider bit, the shifts of the bitmap loop and the arithmetic of the modular
products. No account and no instruction makes them stop, and what they return is what the unchecked
model returns.
-/

namespace MolphaVerifier

open FixedBytes BitVecIteration FallibleFolds PackedRecords CheckedRuns

namespace Checked

section Definitions

def signer (registry : RegistryView) (bit : ℕ) : ExceptT AttestationError Option NodeEntry := do
  let (table, slot, count) ←
    if bit < nodeSlots then pure (registry.nodes, bit, registry.nodeCount)
    else do
      let slot ← subtract bit providerBitBase
      pure (registry.providers, slot, registry.providerCount)
  if slot ≥ count.toNat then throw .invalidSignersBitmap
  else
    match table[slot]? with
    | some member => if !member.isVacant then pure member else throw .invalidSignersBitmap
    | none => throw .invalidSignersBitmap

def accumulateRegistrySigners (lib : Libsecp256k1) (registry : RegistryView)
    (signersBitmap : Bytes 32) : ExceptT AttestationError Option (CoalitionAccumulator lib) :=
  let signers := Bitmap.load signersBitmap
  if signers = Bitmap.empty then throw .invalidSignersBitmap
  else do
    let visited ← (forEachSetBit signers fun bit => replaceM fun coalition => do
      let node ← signer registry bit
      completed (coalition.addStoredXy node.x node.y)).run (CoalitionAccumulator.default lib)
    pure visited.2

def evmSchnorrEcdsaInputs (keccak : Keccak) (pubkeyCompressed : Bytes 33)
    (msgHash signature : Bytes 32) (commitment : Bytes 20) :
    ExceptT AttestationError Option (UInt8 × Bytes 64 × Bytes 32) :=
  let parityPrefix := leadByte pubkeyCompressed
  if parityPrefix ≠ 0x02 ∧ parityPrefix ≠ 0x03 then throw .invalidSignature
  else
    let recoveryId := parityPrefix &&& 1
    let px := afterLead pubkeyCompressed
    let pxModN := modReduceOnce px
    if isZero pxModN then throw .invalidSignature
    else do
      let challengeHash :=
        hashv keccak [px.toList, [recoveryId], msgHash.toList, commitment.toList]
      let challenge := modReduceOnce challengeHash
      let sigRed := modReduceOnce signature
      let msgMul ← checkedMulModNBarrett sigRed pxModN
      let eEcdsa := subBe secp256k1Order msgMul
      let ecdsaSMul ← checkedMulModNBarrett challenge pxModN
      let sEcdsa := subBe secp256k1Order ecdsaSMul
      if isZero sEcdsa then throw .invalidSignature
      else
        let normalized :=
          if cmpBe sEcdsa secp256k1OrderHalf = .gt then
            (recoveryId ^^^ 1, subBe secp256k1Order sEcdsa)
          else (recoveryId, sEcdsa)
        pure (normalized.1, px ++ normalized.2, eEcdsa)

variable (prims : Primitives)

def recoverAndMatch (xCoalition : Bytes 33) (messageHash aggSigS : Bytes 32)
    (commitment : Bytes 20) : Option Bool := do
  match ← (evmSchnorrEcdsaInputs prims.keccak xCoalition messageHash aggSigS commitment).run with
  | .error _ => some false
  | .ok (recoveryId, ecdsaSignature, ecdsaHash) =>
    match prims.secp256k1Recover ecdsaHash recoveryId ecdsaSignature with
    | none => some false
    | some recovered => some (ethAddressFromUncompressedPubkey prims.keccak recovered == commitment)

def verify (attestation : Attestation) (registry : RegistryView)
    (coalitionKey : Option CoalitionKey) : ExceptT AttestationError Option Unit :=
  let signature := attestation.signature
  if attestation.payload.registryVersion ≠ registry.version then throw .invalidRegistryVersion
  else if !secp256k1ScalarIsValidNonzero signature.aggSigS then throw .invalidAggregateSignature
  else do
    completed (checkQuorum (Bitmap.load signature.signersBitmap)
      attestation.payload.signaturesRequired)
    let coalition ← accumulateRegistrySigners prims.lib registry signature.signersBitmap
    let xCoalition ← completed (compressCoalition coalition coalitionKey)
    let messageHash := computeMessageHash prims.keccak attestation.payload signature.signersBitmap
    if ← recoverAndMatch prims xCoalition messageHash signature.aggSigS signature.commitment then
      pure ()
    else throw .invalidAggregateSignature

def verifyProvenance (attestation : Attestation) (registry : RegistryView)
    (coalitionKey : Option CoalitionKey) (providerAccount : Bytes 32) :
    ExceptT AttestationError Option Unit := do
  verify prims attestation registry coalitionKey
  let providers :=
    Bitmap.subtract (Bitmap.load attestation.signature.signersBitmap) Bitmap.nodeMask
  let visited ← (forEachSetBit providers fun bit => replaceM fun present => do
    let node ← signer registry bit
    pure (if node.account = providerAccount then true else present)).run false
  if visited.2 then pure () else throw .providerAbsent

def verifyAggregateOverHashResolved (registry : RegistryView) (signature : SchnorrSignature)
    (messageHash : Bytes 32) (coalitionKey : Option CoalitionKey) :
    ExceptT AttestationError Option Bool := do
  let coalition ← accumulateRegistrySigners prims.lib registry signature.signersBitmap
  if !secp256k1ScalarIsValidNonzero signature.aggSigS then pure false
  else do
    let xCoalition ← completed (compressCoalition coalition coalitionKey)
    recoverAndMatch prims xCoalition messageHash signature.aggSigS signature.commitment

def load (account : AccountInfo) : ExceptT AccountError Option RegistryAccount :=
  if account.owner ≠ programId then throw .invalidAccountOwner
  else if account.mutablyBorrowed then throw .accountBorrowFailed
  -- the discriminator is read only of data with a whole header
  else if account.data.length < registryHeaderLen then throw .invalidRegistryAccount
  else do
    let discriminator ← readRange account.data 0 discriminatorLen
    if discriminator ≠ registryDiscriminator then throw .invalidRegistryAccount
    else do
      let tableLen ← subtract account.data.length registryNodesOffset
      let capacity ← divide tableLen NodeEntry.format.width
      let nodeCount ← (account.data[registryNodeCountOffset]? : Option UInt8)
      let providerCount ← (account.data[registryProviderCountOffset]? : Option UInt8)
      let rest ← remainder tableLen NodeEntry.format.width
      if rest ≠ 0 ∨ capacity > maxRegistryNodes ∨ nodeCount.toNat > nodeSlots ∨
          providerCount.toNat > maxProviderSlots ∨
          nodeCount.toNat + providerCount.toNat > capacity then
        throw .invalidRegistryAccount
      else pure { key := account.key, data := account.data }

def loadLiveRegistry (attestation : Attestation) (registryAccount : AccountInfo) :
    ExceptT AccountError Option RegistryAccount := do
  let registry ← load registryAccount
  let version ← registry.version
  if attestation.payload.registryVersion ≠ version then
    throw (.attestation .invalidRegistryVersion)
  else
    let retired ← registry.retiredBy (roundSecs attestation.payload)
    if retired then throw (.attestation .registryRetired) else pure registry

namespace Solana

def verifyAttestation (attestation : Attestation) (registryAccount : AccountInfo)
    (coalitionKey : Option CoalitionKey) : ExceptT AccountError Option Unit := do
  let registry ← loadLiveRegistry attestation registryAccount
  let view ← registry.view
  (verify prims attestation view coalitionKey).adapt AccountError.attestation

def verifyProvenance (findProgramAddress : FindProgramAddress) (attestation : Attestation)
    (registryAccount : AccountInfo) (coalitionKey : Option CoalitionKey) (providerId : UInt32) :
    ExceptT AccountError Option Unit := do
  let registry ← loadLiveRegistry attestation registryAccount
  let view ← registry.view
  (Checked.verifyProvenance prims attestation view coalitionKey
    (providerAccount findProgramAddress providerId)).adapt AccountError.attestation

end Solana

def verifyAggregateOverHashAccounts (registryAccount : AccountInfo) (signature : SchnorrSignature)
    (messageHash : Bytes 32) (registryVersion : UInt32) (coalitionKey : Option CoalitionKey) :
    ExceptT AccountError Option Bool := do
  let registry ← load registryAccount
  let view ← registry.view
  if view.version ≠ registryVersion then throw .invalidRegistryAccount
  else
    (verifyAggregateOverHashResolved prims view signature messageHash coalitionKey).adapt
      AccountError.attestation

/-- A run with its checks is the run without, and it does not stop. -/
structure NeverStops {α : Type} (checked plain : ExceptT AccountError Option α) : Prop where
  eq_plain : checked = plain
  exists_outcome : ∃ outcome, plain = completed outcome

end Definitions

section Views

variable {prims : Primitives} {registry : RegistryView} {attestation : Attestation}
  {key : Option CoalitionKey}

theorem signer_eq (registry : RegistryView) (bit : ℕ) :
    signer registry bit = completed (registry.signer bit) := by
  have hread (table : List NodeEntry) (slot : ℕ) (count : UInt16) :
      (if slot ≥ count.toNat then throw .invalidSignersBitmap
        else
          match table[slot]? with
          | some member => if !member.isVacant then pure member else throw .invalidSignersBitmap
          | none => throw .invalidSignersBitmap : ExceptT AttestationError Option NodeEntry) =
        completed (if slot ≥ count.toNat then .error .invalidSignersBitmap
          else
            match table[slot]? with
            | some member => if !member.isVacant then .ok member else .error .invalidSignersBitmap
            | none => .error .invalidSignersBitmap) := by
    split
    · rfl
    · cases table[slot]? with
      | none => rfl
      | some member => cases hvacant : member.isVacant <;> simp [hvacant] <;> rfl
  rw [signer, RegistryView.signer]
  by_cases hbit : bit < nodeSlots
  · rw [if_pos hbit, if_pos hbit, pure_bind]
    exact hread _ _ _
  · have hbase : providerBitBase ≤ bit := Nat.not_lt.mp hbit
    rw [if_neg hbit, if_neg hbit, subtract_eq hbase, some_bind, pure_bind]
    exact hread _ _ _

theorem accumulateRegistrySigners_eq (lib : Libsecp256k1) (registry : RegistryView)
    (signersBitmap : Bytes 32) : accumulateRegistrySigners lib registry signersBitmap =
      completed (MolphaVerifier.accumulateRegistrySigners lib registry signersBitmap) := by
  rw [accumulateRegistrySigners, MolphaVerifier.accumulateRegistrySigners]
  split
  · rfl
  · rw [run_forEachSetBit (fun bit coalition => by rw [signer_eq, completed_bind]),
      ← completed_bind]
    rfl

theorem evmSchnorrEcdsaInputs_eq (keccak : Keccak) (pubkeyCompressed : Bytes 33)
    (msgHash signature : Bytes 32) (commitment : Bytes 20) :
    evmSchnorrEcdsaInputs keccak pubkeyCompressed msgHash signature commitment =
      completed (MolphaVerifier.evmSchnorrEcdsaInputs keccak pubkeyCompressed msgHash signature
        commitment) := by
  rw [evmSchnorrEcdsaInputs, MolphaVerifier.evmSchnorrEcdsaInputs]
  dsimp only
  split
  · rfl
  split
  · rfl
  rw [checkedMulModNBarrett_eq, some_bind, checkedMulModNBarrett_eq, some_bind]
  split
  · rfl
  · rfl

theorem recoverAndMatch_eq (prims : Primitives) (xCoalition : Bytes 33)
    (messageHash aggSigS : Bytes 32) (commitment : Bytes 20) :
    recoverAndMatch prims xCoalition messageHash aggSigS commitment =
      some (MolphaVerifier.recoverAndMatch prims xCoalition messageHash aggSigS commitment) := by
  rw [recoverAndMatch, evmSchnorrEcdsaInputs_eq, MolphaVerifier.recoverAndMatch]
  cases MolphaVerifier.evmSchnorrEcdsaInputs prims.keccak xCoalition messageHash aggSigS
      commitment with
  | error e => rfl
  | ok inputs =>
    obtain ⟨recoveryId, ecdsaSignature, ecdsaHash⟩ := inputs
    cases hrecover : prims.secp256k1Recover ecdsaHash recoveryId ecdsaSignature with
    | none => simp [completed, hrecover]
    | some recovered => simp [completed, hrecover]

theorem verify_eq (prims : Primitives) (attestation : Attestation) (registry : RegistryView)
    (key : Option CoalitionKey) : verify prims attestation registry key =
      completed (MolphaVerifier.verify prims attestation registry key) := by
  rw [verify, MolphaVerifier.verify]
  dsimp only
  split
  · rfl
  split
  · rfl
  rw [← completed_bind]
  refine bind_congr fun _ => ?_
  rw [accumulateRegistrySigners_eq, ← completed_bind]
  refine bind_congr fun coalition => ?_
  rw [← completed_bind]
  refine bind_congr fun xCoalition => ?_
  rw [recoverAndMatch_eq, some_bind]
  split <;> rfl

theorem verifyProvenance_eq (prims : Primitives) (attestation : Attestation)
    (registry : RegistryView) (key : Option CoalitionKey) (account : Bytes 32) :
    verifyProvenance prims attestation registry key account =
      completed (MolphaVerifier.verifyProvenance prims attestation registry key account) := by
  rw [verifyProvenance, MolphaVerifier.verifyProvenance, verify_eq, ← completed_bind]
  refine bind_congr fun _ => ?_
  dsimp only
  rw [run_forEachSetBit (fun bit present => by rw [signer_eq, ← completed_bind]; rfl),
    ← completed_bind]
  refine bind_congr fun visited => ?_
  split <;> rfl

theorem verifyAggregateOverHashResolved_eq (prims : Primitives) (registry : RegistryView)
    (signature : SchnorrSignature) (messageHash : Bytes 32) (key : Option CoalitionKey) :
    verifyAggregateOverHashResolved prims registry signature messageHash key =
      completed (MolphaVerifier.verifyAggregateOverHashResolved prims registry signature messageHash
        key) := by
  rw [verifyAggregateOverHashResolved, MolphaVerifier.verifyAggregateOverHashResolved,
    accumulateRegistrySigners_eq, ← completed_bind]
  refine bind_congr fun coalition => ?_
  split
  · rfl
  rw [← completed_bind]
  refine bind_congr fun xCoalition => ?_
  rw [recoverAndMatch_eq]
  rfl

end Views

section Accounts

theorem load_eq (account : AccountInfo) : load account = completed (RegistryAccount.load account) := by
  rw [load, RegistryAccount.load]
  split
  · rfl
  split
  · rfl
  dsimp only
  by_cases hheader : account.data.length < registryHeaderLen
  · rw [if_pos hheader, if_pos (.inl hheader)]
    rfl
  have hlen : 32 ≤ account.data.length := Nat.not_lt.mp hheader
  have hdiscriminator : readRange account.data 0 discriminatorLen =
      some (account.data.take discriminatorLen) := by
    rw [readRange_of_le, List.drop_zero]
    exact (by decide : 0 + discriminatorLen ≤ 32).trans hlen
  have hcell (offset : ℕ) (hoffset : offset < 32) :
      account.data[offset]? = some (account.data.getD offset 0) := by
    rw [List.getD_eq_getElem?_getD, List.getElem?_eq_getElem (hoffset.trans_le hlen)]
    rfl
  have htable : registryNodesOffset ≤ account.data.length := hlen
  rw [if_neg hheader, hdiscriminator, some_bind]
  by_cases hwrong : account.data.take discriminatorLen ≠ registryDiscriminator
  · rw [if_pos hwrong, if_pos (.inr hwrong)]
    rfl
  rw [if_neg hwrong, if_neg (not_or.mpr ⟨hheader, hwrong⟩)]
  rw [subtract_eq htable, some_bind, divide_eq _ NodeEntry.format.width_pos, some_bind,
    hcell _ (by decide), some_bind, hcell _ (by decide), some_bind,
    remainder_eq _ NodeEntry.format.width_pos, some_bind]
  split <;> rfl

theorem loadLiveRegistry_eq (attestation : Attestation) (account : AccountInfo) :
    loadLiveRegistry attestation account =
      MolphaVerifier.loadLiveRegistry attestation account := by
  rw [loadLiveRegistry, MolphaVerifier.loadLiveRegistry, load_eq]
  rfl

theorem neverStops_live {α : Type} {verdict : RegistryView → Except AttestationError α}
    {checkedVerdict : RegistryView → ExceptT AttestationError Option α}
    (h : ∀ view, checkedVerdict view = completed (verdict view)) (attestation : Attestation)
    (account : AccountInfo) :
    NeverStops
      (loadLiveRegistry attestation account >>= fun registry => liftM registry.view >>= fun view =>
        (checkedVerdict view).adapt AccountError.attestation)
      (MolphaVerifier.loadLiveRegistry attestation account >>= fun registry =>
        liftM registry.view >>= fun view => liftM (fromAttestation (verdict view))) := by
  constructor
  · rw [loadLiveRegistry_eq]
    refine bind_congr fun registry => bind_congr fun view => ?_
    rw [h, adapt_completed]
    rfl
  · cases hload : RegistryAccount.load account with
    | error e =>
      refine ⟨.error e, ?_⟩
      rw [MolphaVerifier.loadLiveRegistry, hload]
      rfl
    | ok registry =>
      obtain ⟨version, graceActiveUntil, view, hread⟩ := exists_readsAs hload
      exact ⟨_, loadLiveRegistry_bind hload hread attestation verdict⟩

theorem neverStops_dispute (prims : Primitives) (account : AccountInfo)
    (signature : SchnorrSignature) (messageHash : Bytes 32) (registryVersion : UInt32)
    (key : Option CoalitionKey) :
    NeverStops
      (verifyAggregateOverHashAccounts prims account signature messageHash registryVersion key)
      (MolphaVerifier.verifyAggregateOverHashAccounts prims account signature messageHash
        registryVersion key) := by
  constructor
  · rw [verifyAggregateOverHashAccounts, MolphaVerifier.verifyAggregateOverHashAccounts, load_eq]
    refine bind_congr fun registry => bind_congr fun view => ?_
    rw [verifyAggregateOverHashResolved_eq, adapt_completed]
    rfl
  · cases hload : RegistryAccount.load account with
    | error e =>
      refine ⟨.error e, ?_⟩
      rw [MolphaVerifier.verifyAggregateOverHashAccounts, hload]
      rfl
    | ok registry =>
      obtain ⟨version, graceActiveUntil, view, hread⟩ := exists_readsAs hload
      rw [MolphaVerifier.verifyAggregateOverHashAccounts_eq hload hread.view_eq]
      split
      · exact ⟨.error .invalidRegistryAccount, rfl⟩
      · exact ⟨_, rfl⟩

/-- No entry point over a registry account ever stops. -/
theorem verification_never_stops (prims : Primitives) (findProgramAddress : FindProgramAddress)
    (account : AccountInfo) (attestation : Attestation) (key : Option CoalitionKey) :
    NeverStops (Solana.verifyAttestation prims attestation account key)
        (MolphaVerifier.Solana.verifyAttestation prims attestation account key) ∧
      (∀ providerId, NeverStops
        (Solana.verifyProvenance prims findProgramAddress attestation account key providerId)
        (MolphaVerifier.Solana.verifyProvenance prims findProgramAddress attestation account key
          providerId)) ∧
      ∀ signature messageHash registryVersion, NeverStops
        (verifyAggregateOverHashAccounts prims account signature messageHash registryVersion key)
        (MolphaVerifier.verifyAggregateOverHashAccounts prims account signature messageHash
          registryVersion key) :=
  ⟨neverStops_live (fun view => verify_eq prims attestation view key) attestation account,
    fun providerId => neverStops_live (fun view => verifyProvenance_eq prims attestation view key
      (providerAccount findProgramAddress providerId)) attestation account,
    fun signature messageHash registryVersion =>
      neverStops_dispute prims account signature messageHash registryVersion key⟩

end Accounts

end Checked

end MolphaVerifier
