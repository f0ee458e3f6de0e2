import MolphaVerifier.SuppliedCoalitionKeys

/-!
# Provenance

`verifyProvenance` looks for a provider account among the set provider bits of a verified
attestation. The quorum rule leaves at most one such bit, and verification has resolved it to a live
record, so the loop cannot fail and names at most one account. The provider's key is one of the keys
whose sum was verified.
-/

namespace MolphaVerifier

open FixedBytes BitVecIteration FallibleFolds

/-- `bit` is the one set provider bit, and it names a live record with this account. -/
structure NamesProvider (registry : RegistryView) (signersBitmap account : Bytes 32) (bit : ℕ)
    (member : NodeEntry) : Prop where
  mem : bit ∈ setBits (Bitmap.load signersBitmap)
  provider : nodeSlots ≤ bit
  unique : ∀ other ∈ setBits (Bitmap.load signersBitmap), nodeSlots ≤ other → other = bit
  lt_count : bit - nodeSlots < registry.providerCount.toNat
  record : registry.providers[bit - nodeSlots]? = some member
  live : member.isVacant = false
  account_eq : member.account = account

/-- The record's key is among the keys that resolve, and their sum is what was verified. -/
def KeyVerifiedInSum (prims : Primitives) (attestation : Attestation) (registry : RegistryView)
    (key : Option CoalitionKey) (member : NodeEntry) : Prop :=
  ∃ keys coalition xCoalition,
    resolveSigners registry attestation.signature.signersBitmap = .ok keys ∧
    member.xy ∈ keys ∧ accumulateCoalition prims.lib keys = .ok coalition ∧
    compressCoalition coalition key = .ok xCoalition ∧
    recoverAndMatch prims xCoalition (attestation.messageHash prims.keccak)
      attestation.signature.aggSigS attestation.signature.commitment = true

variable {prims : Primitives} {attestation : Attestation} {registry : RegistryView}
  {key : Option CoalitionKey} {signersBitmap account : Bytes 32} {bit : ℕ} {member : NodeEntry}

theorem NamesProvider.namesLiveRecord (h : NamesProvider registry signersBitmap account bit member) :
    registry.NamesLiveRecord bit member where
  of_node hnode := absurd h.provider (Nat.not_le.mpr hnode)
  of_provider _ := ⟨h.lt_count, h.record⟩
  live := h.live

theorem mem_of_resolveSigners {keys : List SignerXy}
    (h : resolveSigners registry signersBitmap = .ok keys)
    (hbit : bit ∈ setBits (Bitmap.load signersBitmap))
    (hmember : registry.NamesLiveRecord bit member) : member.xy ∈ keys := by
  rw [resolveSigners_eq] at h
  obtain ⟨xy, hxy, hread⟩ := exists_mem_of_mapM h hbit
  rw [RegistryView.signer_eq_ok_iff.mpr hmember] at hread
  obtain rfl : member.xy = xy := Except.ok.inj hread
  exact hxy

/-- Where every visited bit names a live record, the search succeeds and finds the account exactly
if one of the records carries it. -/
theorem exists_providerSearch_eq_ok (bits : List ℕ) (account : Bytes 32)
    (hlive : ∀ bit ∈ bits, ∃ member, registry.NamesLiveRecord bit member) :
    ∃ present, bits.foldlM (fun present bit => do
        let node ← registry.signer bit
        pure (if node.account = account then true else present)) false = .ok present ∧
      (present = true ↔
        ∃ bit ∈ bits, ∃ member, registry.NamesLiveRecord bit member ∧ member.account = account) := by
  refine foldlM_total [] (fun done present => present = true ↔
    ∃ bit ∈ done, ∃ member, registry.NamesLiveRecord bit member ∧ member.account = account) ?_
    (by simp)
  intro done bit present hbit hpresent
  obtain ⟨member, hmember⟩ := hlive bit hbit
  have hread := RegistryView.signer_eq_ok_iff.mpr hmember
  have hunique (member' : NodeEntry) (h : registry.NamesLiveRecord bit member') :
      member' = member := by
    rw [← RegistryView.signer_eq_ok_iff, hread] at h
    exact (Except.ok.inj h).symm
  refine ⟨if member.account = account then true else present, by rw [hread]; rfl, ?_⟩
  simp only [List.mem_append, List.mem_singleton, or_and_right, exists_or, exists_eq_left]
  rw [← hpresent]
  by_cases haccount : member.account = account
  · simp only [haccount, if_true, true_iff]
    exact .inr ⟨member, hmember, haccount⟩
  · simp only [haccount, if_false]
    constructor
    · exact .inl
    · rintro (h | ⟨member', hmember', h⟩)
      · exact h
      · exact absurd (hunique member' hmember' ▸ h) haccount

/-- The quorum rule turns a matching provider bit into the only one. -/
theorem exists_namesProvider_iff {signaturesRequired : UInt8}
    (hquorum : MeetsQuorum (Bitmap.load signersBitmap) signaturesRequired) :
    (∃ bit member, NamesProvider registry signersBitmap account bit member) ↔
      ∃ bit ∈ setBits (Bitmap.providerBits (Bitmap.load signersBitmap)),
        ∃ member, registry.NamesLiveRecord bit member ∧ member.account = account := by
  constructor
  · rintro ⟨bit, member, h⟩
    exact ⟨bit, Bitmap.mem_setBits_providerBits.mpr ⟨h.mem, h.provider⟩, member, h.namesLiveRecord,
      h.account_eq⟩
  · rintro ⟨bit, hbit, member, hmember, haccount⟩
    obtain ⟨hmem, hprovider⟩ := Bitmap.mem_setBits_providerBits.mp hbit
    exact ⟨bit, member, {
      mem := hmem
      provider := hprovider
      unique := fun other hother hge => hquorum.provider_unique other hother bit hmem hge hprovider
      lt_count := (hmember.of_provider hprovider).1
      record := (hmember.of_provider hprovider).2
      live := hmember.live
      account_eq := haccount }⟩

theorem verifyProvenance_of_error {e : AttestationError} (account : Bytes 32)
    (h : verify prims attestation registry key = .error e) :
    verifyProvenance prims attestation registry key account = .error e := by
  rw [verifyProvenance, h]
  rfl

theorem verifyProvenance_of_verify (account : Bytes 32)
    (h : verify prims attestation registry key = .ok ()) :
    ∃ present, verifyProvenance prims attestation registry key account =
        (if present then .ok () else .error .providerAbsent) ∧
      (present = true ↔ ∃ bit member,
        NamesProvider registry attestation.signature.signersBitmap account bit member) := by
  obtain ⟨-, -, hquorum, coalition, hcoalition, -⟩ := verify_eq_ok_iff_checks.mp h
  have hlive := namesLiveRecord_of_accumulateRegistrySigners hcoalition
  obtain ⟨present, hsearch, hpresent⟩ := exists_providerSearch_eq_ok
    (setBits (Bitmap.providerBits (Bitmap.load attestation.signature.signersBitmap))) account
    fun bit hbit => hlive bit (Bitmap.mem_setBits_providerBits.mp hbit).1
  refine ⟨present, ?_, ?_⟩
  · have hcontinue (f : Unit → Except AttestationError Unit) : (Except.ok () >>= f) = f () := rfl
    rw [verifyProvenance, h, hcontinue]
    simp only [Bitmap.subtract_nodeMask, run_forEachSetBit_modifyM]
    rw [hsearch]
    rfl
  · rw [hpresent, exists_namesProvider_iff (checkQuorum_eq_ok_iff.mp hquorum)]

theorem verifyProvenance_eq_ok_iff :
    verifyProvenance prims attestation registry key account = .ok () ↔
      verify prims attestation registry key = .ok () ∧ ∃ bit member,
        NamesProvider registry attestation.signature.signersBitmap account bit member := by
  cases hverify : verify prims attestation registry key with
  | error e => simp [verifyProvenance_of_error account hverify]
  | ok _ =>
    obtain ⟨present, hrun, hpresent⟩ := verifyProvenance_of_verify account hverify
    rw [hrun, ← hpresent]
    cases present <;> simp

theorem NamesProvider.keyVerifiedInSum
    (h : NamesProvider registry attestation.signature.signersBitmap account bit member)
    (hverify : verify prims attestation registry key = .ok ()) :
    KeyVerifiedInSum prims attestation registry key member := by
  obtain ⟨-, -, -, coalition, hcoalition, xCoalition, hcompress, hmatch⟩ :=
    verify_eq_ok_iff_checks.mp hverify
  obtain ⟨keys, hkeys⟩ :=
    exists_resolveSigners_iff.mpr (namesLiveRecord_of_accumulateRegistrySigners hcoalition)
  rw [accumulateRegistrySigners_of_resolveSigners hkeys] at hcoalition
  exact ⟨keys, coalition, xCoalition, hkeys, mem_of_resolveSigners hkeys h.mem h.namesLiveRecord,
    hcoalition, hcompress, hmatch⟩

theorem NamesProvider.account_unique {account' : Bytes 32} {bit' : ℕ} {member' : NodeEntry}
    (h : NamesProvider registry signersBitmap account bit member)
    (h' : NamesProvider registry signersBitmap account' bit' member') : account = account' := by
  obtain rfl := h'.unique bit h.mem h.provider
  have hrecord := h.record.symm.trans h'.record
  rw [← h.account_eq, ← h'.account_eq, Option.some.inj hrecord]

theorem NamesProvider.account_ne_zero
    (h : NamesProvider registry signersBitmap account bit member) :
    account ≠ Vector.replicate 32 0 := by
  have hpos := member.isVacant_eq_false_iff.mp h.live
  rw [h.account_eq] at hpos
  exact fun hzero => hpos.ne' (eq_replicate_zero_iff.mp hzero)

/-- Provenance is exact, names at most one account and never a hole or a node. -/
theorem verifyProvenance_exact (prims : Primitives) (attestation : Attestation)
    (registry : RegistryView) :
    (∀ key account, verifyProvenance prims attestation registry key account = .ok () ↔
      verify prims attestation registry key = .ok () ∧ ∃ bit member,
        NamesProvider registry attestation.signature.signersBitmap account bit member) ∧
    (∀ key account bit member,
      verifyProvenance prims attestation registry key account = .ok () →
      NamesProvider registry attestation.signature.signersBitmap account bit member →
        KeyVerifiedInSum prims attestation registry key member) ∧
    (∀ key account e, verify prims attestation registry key = .error e →
      verifyProvenance prims attestation registry key account = .error e) ∧
    (∀ key account, verify prims attestation registry key = .ok () →
      (¬∃ bit member,
        NamesProvider registry attestation.signature.signersBitmap account bit member) →
      verifyProvenance prims attestation registry key account = .error .providerAbsent) ∧
    (∀ key key' account account',
      verifyProvenance prims attestation registry key account = .ok () →
      verifyProvenance prims attestation registry key' account' = .ok () → account = account') ∧
    (∀ key, verifyProvenance prims attestation registry key (Vector.replicate 32 0) ≠ .ok ()) ∧
    ∀ key account, (∀ bit ∈ setBits (Bitmap.load attestation.signature.signersBitmap),
        ∀ member, registry.NamesLiveRecord bit member → member.account = account →
          bit < nodeSlots) →
      verifyProvenance prims attestation registry key account ≠ .ok () := by
  refine ⟨fun _ _ => verifyProvenance_eq_ok_iff, ?_, fun _ account _ =>
    verifyProvenance_of_error account, ?_, ?_, ?_, ?_⟩
  · intro key account bit member hok hprovider
    exact hprovider.keyVerifiedInSum (verifyProvenance_eq_ok_iff.mp hok).1
  · intro key account hverify habsent
    obtain ⟨present, hrun, hpresent⟩ := verifyProvenance_of_verify account hverify
    rw [hrun, if_neg (mt hpresent.mp habsent)]
  · intro key key' account account' hok hok'
    obtain ⟨-, bit, member, h⟩ := verifyProvenance_eq_ok_iff.mp hok
    obtain ⟨-, bit', member', h'⟩ := verifyProvenance_eq_ok_iff.mp hok'
    exact h.account_unique h'
  · intro key hok
    obtain ⟨-, bit, member, h⟩ := verifyProvenance_eq_ok_iff.mp hok
    exact h.account_ne_zero rfl
  · intro key account hnodes hok
    obtain ⟨-, bit, member, h⟩ := verifyProvenance_eq_ok_iff.mp hok
    exact absurd (hnodes bit h.mem member h.namesLiveRecord h.account_eq)
      (Nat.not_lt.mpr h.provider)

theorem namesProvider_sample :
    NamesProvider sampleRegistry (sampleAttestation 64).signature.signersBitmap
      (natToBytes 32 7) 64 sampleMember where
  mem := by
    rw [setBits_sampleAttestation (by norm_num)]
    exact List.mem_singleton_self 64
  provider := le_refl 64
  unique other hother _ := by
    rw [setBits_sampleAttestation (by norm_num)] at hother
    exact List.mem_singleton.mp hother
  lt_count := by decide
  record := rfl
  live := sampleMember_live
  account_eq := rfl

/-- The provider's bit has provenance for its account, and the node's bit has not, although its
record carries the same account. -/
theorem verifyProvenance_exact_sample :
    verifyProvenance (referencePrimitives sampleKeccak) (sampleAttestation 64) sampleRegistry none
        (natToBytes 32 7) = .ok () ∧
      verifyProvenance (referencePrimitives sampleKeccak) (sampleAttestation 0) sampleRegistry none
        (natToBytes 32 7) ≠ .ok () := by
  have hexact := (verifyProvenance_exact (referencePrimitives sampleKeccak) (sampleAttestation 64)
    sampleRegistry).1
  obtain ⟨-, -, -, -, -, -, hnodes⟩ := verifyProvenance_exact (referencePrimitives sampleKeccak)
    (sampleAttestation 0) sampleRegistry
  refine ⟨(hexact none _).mpr ⟨?_, 64, sampleMember, namesProvider_sample⟩,
    hnodes none _ fun bit hbit _ _ _ => ?_⟩
  · exact verify_sample (by norm_num) namesLiveRecord_sample_provider
  · rw [setBits_sampleAttestation (by norm_num)] at hbit
    rw [List.mem_singleton.mp hbit]
    decide

end MolphaVerifier
