import MolphaVerifier.AccountVerification

/-!
# Verdicts depend on the signers only

The same agreement as in `SignerAgreement`, carried through the account: records outside the signer
bitmap, the redundancy buffer, the bump, the creation time and the spare capacity have no influence
on a verdict or an error.
-/

namespace MolphaVerifier

open FixedBytes BitVecIteration FallibleFolds PackedRecords

/-- Every verdict and every error from the two accounts is the same. -/
structure SameAccountVerdicts (prims : Primitives) (findProgramAddress : FindProgramAddress)
    (attestation : Attestation) (account account' : AccountInfo) : Prop where
  attestation_eq : ∀ key, Solana.verifyAttestation prims attestation account' key =
    Solana.verifyAttestation prims attestation account key
  provenance_eq : ∀ key providerId,
    Solana.verifyProvenance prims findProgramAddress attestation account' key providerId =
      Solana.verifyProvenance prims findProgramAddress attestation account key providerId
  dispute_eq : ∀ messageHash registryVersion key,
    verifyAggregateOverHashAccounts prims account' attestation.signature messageHash
        registryVersion key =
      verifyAggregateOverHashAccounts prims account attestation.signature messageHash
        registryVersion key

/-- The same cutoff, version, counts and tables. -/
structure SameCheckedBytes (data data' : List UInt8) : Prop extends SameRecordBytes data data' where
  cutoff : ∀ i, registryGraceActiveUntilOffset ≤ i → i < registryActiveFromOffset →
    data'[i]? = data[i]?

section Accounts

variable {prims : Primitives} {findProgramAddress : FindProgramAddress}
  {attestation : Attestation} {account account' : AccountInfo}
  {registry registry' : RegistryAccount}

theorem graceActiveUntil_congr {capacity capacity' : ℕ}
    (hshape : RegistryShape registry.data capacity)
    (hshape' : RegistryShape registry'.data capacity')
    (h : SameCheckedBytes registry.data registry'.data) :
    registry'.graceActiveUntil = registry.graceActiveUntil := by
  have hlength := hshape.length_data
  have hlength' := hshape'.length_data
  have hend : registryGraceActiveUntilOffset + 8 = registryActiveFromOffset := rfl
  have hbytes : (registry'.data.drop registryGraceActiveUntilOffset).take 8 =
      (registry.data.drop registryGraceActiveUntilOffset).take 8 :=
    take_drop_congr fun i hi hlt => h.cutoff i hi (hend ▸ hlt)
  have hheader : registryGraceActiveUntilOffset + 8 ≤ 32 := by decide
  rw [RegistryAccount.graceActiveUntil, RegistryAccount.graceActiveUntil,
    readRange_of_le (by omega), readRange_of_le (by omega), hbytes]

theorem sameAccountVerdicts (hload : RegistryAccount.load account = .ok registry)
    (hload' : RegistryAccount.load account' = .ok registry')
    (h : SameCheckedBytes registry.data registry'.data) :
    SameAccountVerdicts prims findProgramAddress attestation account account' := by
  have hagree : ∃ version graceActiveUntil view view',
      ReadsAs registry version graceActiveUntil view ∧
        ReadsAs registry' version graceActiveUntil view' ∧
        AgreeOnSigners view view' attestation.signature.signersBitmap := by
    obtain ⟨-, -, ⟨capacity, hshape⟩, rfl⟩ := RegistryAccount.load_eq_ok_iff.mp hload
    obtain ⟨-, -, ⟨capacity', hshape'⟩, rfl⟩ := RegistryAccount.load_eq_ok_iff.mp hload'
    obtain ⟨view, hv⟩ := @RegistryAccount.exists_holdsView ⟨account.key, account.data⟩ _ hshape
    obtain ⟨view', hv'⟩ :=
      @RegistryAccount.exists_holdsView ⟨account'.key, account'.data⟩ _ hshape'
    obtain ⟨graceActiveUntil, hgrace⟩ :=
      @RegistryAccount.exists_graceActiveUntil ⟨account.key, account.data⟩ _ hshape
    have hsame := agreeOnSigners_of_sameRecordBytes hv hv' hshape hshape' h.toSameRecordBytes
      attestation.signature.signersBitmap
    have hgrace' := graceActiveUntil_congr hshape hshape' h
    refine ⟨view.version, graceActiveUntil, view, view',
      ⟨version_of_view hv.view_eq, hgrace, hv.view_eq⟩,
      ⟨?_, hgrace'.trans hgrace, hv'.view_eq⟩, hsame⟩
    rw [version_of_view hv'.view_eq, hsame.version_eq]
  obtain ⟨version, graceActiveUntil, view, view', hread, hread', hsigners⟩ := hagree
  constructor
  · intro key
    rw [verifyAttestation_eq hload hread, verifyAttestation_eq hload' hread', verify_congr hsigners]
  · intro key providerId
    rw [verifyProvenance_eq hload hread, verifyProvenance_eq hload' hread',
      verifyProvenance_congr hsigners]
  · exact fun messageHash registryVersion key =>
      verifyAggregateOverHashAccounts_congr hload hload' h.toSameRecordBytes _ _ _ _

end Accounts

/-- A verdict and an error depend on the records of the set bits only: over snapshots that agree
there, over tables that agree in the slots of the set bits, after any other slot is replaced, and
over accounts that agree in the cutoff, the version, the counts and the tables. -/
theorem signers_decide (prims : Primitives) (findProgramAddress : FindProgramAddress)
    (attestation : Attestation) :
    (∀ registry registry',
      AgreeOnSigners registry registry' attestation.signature.signersBitmap →
        SameVerdicts prims attestation registry registry') ∧
    (∀ registry registry',
      SameSlotsAtSigners registry registry' attestation.signature.signersBitmap →
        SameVerdicts prims attestation registry registry') ∧
    (∀ registry bit entry,
      bit ∉ setBits (Bitmap.load attestation.signature.signersBitmap) →
        SameVerdicts prims attestation registry (RegistryView.replaceSlot registry bit entry)) ∧
    ∀ account account' registry registry', RegistryAccount.load account = .ok registry →
      RegistryAccount.load account' = .ok registry' →
      SameCheckedBytes registry.data registry'.data →
        SameAccountVerdicts prims findProgramAddress attestation account account' := by
  refine ⟨?_, ?_, ?_, ?_⟩
  · intro registry registry' h
    exact h.sameVerdicts
  · intro registry registry' h
    exact h.agreeOnSigners.sameVerdicts
  · intro registry bit entry h
    exact (sameSlots_replaceSlot entry h).agreeOnSigners.sameVerdicts
  · intro account account' registry registry' hload hload' h
    exact sameAccountVerdicts hload hload' h

theorem sameCheckedBytes_sample (spare : List NodeEntry) :
    SameCheckedBytes (sampleAccount 5 []).data (sampleAccount 5 spare).data := by
  have hdata : (sampleAccount 5 spare).data =
      (sampleAccount 5 []).data ++ NodeEntry.format.pack spare := by
    simp only [sampleAccount, serializeRegistry, RecordFormat.pack_append, List.append_assoc]
    rfl
  have hsame {i : ℕ} (hi : i < 320) :
      (sampleAccount 5 spare).data[i]? = (sampleAccount 5 []).data[i]? := by
    have hlength : (sampleAccount 5 []).data.length = 320 :=
      RegistryAccount.length_serializeRegistry _ _
    rw [hdata, List.getElem?_append_left (hlength ▸ hi)]
  have hrecords : recordsEnd (sampleAccount 5 []).data = 320 := by decide
  refine ⟨⟨fun i _ hi => hsame (lt_trans hi (by decide)), fun i _ hi => hsame (hrecords ▸ hi)⟩,
    fun i _ hi => hsame (lt_trans hi (by decide))⟩

theorem signers_decide_sample :
    SameVerdicts (referencePrimitives sampleKeccak) (sampleAttestation 0) sampleRegistry
        (sampleRegistry.replaceSlot 64 (RegistryAccount.sampleRecord 0)) ∧
      SameAccountVerdicts (referencePrimitives sampleKeccak) (fun _ program => (program, 255))
        (sampleAttestation 0) (sampleAccount 5 [])
        (sampleAccount 5 [RegistryAccount.sampleRecord 9]) := by
  obtain ⟨-, -, hreplace, haccounts⟩ := signers_decide (referencePrimitives sampleKeccak)
    (fun _ program => (program, 255)) (sampleAttestation 0)
  constructor
  · apply hreplace
    rw [setBits_sampleAttestation (by decide)]
    decide
  · exact haccounts _ _ _ _ (load_sampleAccount 5 (by decide)) (load_sampleAccount 5 (by decide))
      (sameCheckedBytes_sample _)

end MolphaVerifier
