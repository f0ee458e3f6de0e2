import MolphaVerifier.ProviderProvenance

/-!
# Snapshots that agree on the signers

Verification reads a snapshot through `signer` at the set bits, and through nothing else but its
version. Two snapshots that agree there get the same verdict and the same error, whatever their
counts, tables and holes are elsewhere.
-/

namespace MolphaVerifier

open FixedBytes BitVecIteration FallibleFolds

/-- Both snapshots refuse a set bit, or both bind it to the same record. -/
structure AgreeOnSigners (registry registry' : RegistryView) (signersBitmap : Bytes 32) :
    Prop where
  version_eq : registry'.version = registry.version
  signer_agree : ∀ bit ∈ setBits (Bitmap.load signersBitmap),
    (∃ e e', registry.signer bit = .error e ∧ registry'.signer bit = .error e') ∨
      ∃ member, registry.signer bit = .ok member ∧ registry'.signer bit = .ok member

/-- The table of a bit's segment, the bit's slot in it and the segment's count. -/
def RegistryView.segment (registry : RegistryView) (bit : ℕ) : List NodeEntry × ℕ × UInt16 :=
  if bit < nodeSlots then (registry.nodes, bit, registry.nodeCount)
  else (registry.providers, bit - providerBitBase, registry.providerCount)

/-- At the slots of the set bits the tables hold the same entries and the counts fall on the same
side. Tables may differ, grow or shrink everywhere else. -/
structure SameSlotsAtSigners (registry registry' : RegistryView) (signersBitmap : Bytes 32) :
    Prop where
  version_eq : registry'.version = registry.version
  count_iff : ∀ bit ∈ setBits (Bitmap.load signersBitmap),
    ((registry'.segment bit).2.1 < (registry'.segment bit).2.2.toNat ↔
      (registry.segment bit).2.1 < (registry.segment bit).2.2.toNat)
  entry_eq : ∀ bit ∈ setBits (Bitmap.load signersBitmap),
    (registry'.segment bit).1[(registry'.segment bit).2.1]? =
      (registry.segment bit).1[(registry.segment bit).2.1]?

/-- Put a record, or a hole, into the slot of a bit. -/
def RegistryView.replaceSlot (registry : RegistryView) (bit : ℕ) (entry : NodeEntry) :
    RegistryView :=
  if bit < nodeSlots then { registry with nodes := registry.nodes.set bit entry }
  else { registry with providers := registry.providers.set (bit - providerBitBase) entry }

/-- Every verdict and every error over the two snapshots is the same. -/
structure SameVerdicts (prims : Primitives) (attestation : Attestation)
    (registry registry' : RegistryView) : Prop where
  verify_eq : ∀ key, verify prims attestation registry' key = verify prims attestation registry key
  provenance_eq : ∀ key providerAccount,
    verifyProvenance prims attestation registry' key providerAccount =
      verifyProvenance prims attestation registry key providerAccount
  resolved_eq : ∀ messageHash key,
    verifyAggregateOverHashResolved prims registry' attestation.signature messageHash key =
      verifyAggregateOverHashResolved prims registry attestation.signature messageHash key

section Agreement

variable {lib : Libsecp256k1} {prims : Primitives} {registry registry' : RegistryView}
  {signersBitmap : Bytes 32} {attestation : Attestation} {bit : ℕ}

theorem AgreeOnSigners.signer_eq (h : AgreeOnSigners registry registry' signersBitmap)
    (hbit : bit ∈ setBits (Bitmap.load signersBitmap)) :
    registry'.signer bit = registry.signer bit := by
  rcases h.signer_agree bit hbit with ⟨e, e', he, he'⟩ | ⟨member, hok, hok'⟩
  · rcases registry.signer_cases bit with ⟨member, hok⟩ | herror
    · rw [hok] at he
      cases he
    rcases registry'.signer_cases bit with ⟨member, hok⟩ | herror'
    · rw [hok] at he'
      cases he'
    rw [herror, herror']
  · rw [hok, hok']

theorem accumulateRegistrySigners_congr (h : AgreeOnSigners registry registry' signersBitmap) :
    accumulateRegistrySigners lib registry' signersBitmap =
      accumulateRegistrySigners lib registry signersBitmap := by
  rw [accumulateRegistrySigners_eq, accumulateRegistrySigners_eq]
  split
  · rfl
  · apply foldlM_congr
    intro bit hbit coalition
    rw [h.signer_eq hbit]

theorem verify_congr (h : AgreeOnSigners registry registry' attestation.signature.signersBitmap)
    (key : Option CoalitionKey) :
    verify prims attestation registry' key = verify prims attestation registry key := by
  rw [verify, verify, h.version_eq]
  simp only [accumulateRegistrySigners_congr h]

theorem verifyProvenance_congr
    (h : AgreeOnSigners registry registry' attestation.signature.signersBitmap)
    (key : Option CoalitionKey) (providerAccount : Bytes 32) :
    verifyProvenance prims attestation registry' key providerAccount =
      verifyProvenance prims attestation registry key providerAccount := by
  have hsearch (present : Bool) :
      (setBits ((Bitmap.load attestation.signature.signersBitmap).subtract
          Bitmap.nodeMask)).foldlM (fun present bit => do
        let node ← registry'.signer bit
        pure (if node.account = providerAccount then true else present)) present =
      (setBits ((Bitmap.load attestation.signature.signersBitmap).subtract
          Bitmap.nodeMask)).foldlM (fun present bit => do
        let node ← registry.signer bit
        pure (if node.account = providerAccount then true else present)) present := by
    apply foldlM_congr
    intro bit hbit present
    rw [Bitmap.subtract_nodeMask, Bitmap.mem_setBits_providerBits] at hbit
    rw [h.signer_eq hbit.1]
  rw [verifyProvenance, verifyProvenance, verify_congr h]
  simp only [run_forEachSetBit_modifyM, hsearch]

theorem verifyAggregateOverHashResolved_congr {signature : SchnorrSignature}
    (h : AgreeOnSigners registry registry' signature.signersBitmap) (messageHash : Bytes 32)
    (key : Option CoalitionKey) :
    verifyAggregateOverHashResolved prims registry' signature messageHash key =
      verifyAggregateOverHashResolved prims registry signature messageHash key := by
  rw [verifyAggregateOverHashResolved, verifyAggregateOverHashResolved,
    accumulateRegistrySigners_congr h]

theorem AgreeOnSigners.sameVerdicts
    (h : AgreeOnSigners registry registry' attestation.signature.signersBitmap) :
    SameVerdicts prims attestation registry registry' where
  verify_eq := verify_congr h
  provenance_eq := verifyProvenance_congr h
  resolved_eq := verifyAggregateOverHashResolved_congr h

theorem signer_eq_segment (registry : RegistryView) (bit : ℕ) :
    registry.signer bit =
      if (registry.segment bit).2.1 ≥ (registry.segment bit).2.2.toNat then
        .error .invalidSignersBitmap
      else
        match (registry.segment bit).1[(registry.segment bit).2.1]? with
        | some member => if !member.isVacant then .ok member else .error .invalidSignersBitmap
        | none => .error .invalidSignersBitmap := rfl

theorem SameSlotsAtSigners.agreeOnSigners
    (h : SameSlotsAtSigners registry registry' signersBitmap) :
    AgreeOnSigners registry registry' signersBitmap where
  version_eq := h.version_eq
  signer_agree := by
    intro bit hbit
    have hsame : registry'.signer bit = registry.signer bit := by
      rw [signer_eq_segment, signer_eq_segment, h.entry_eq bit hbit]
      simp only [ge_iff_le, ← Nat.not_lt, h.count_iff bit hbit]
    rw [hsame]
    cases registry.signer bit with
    | error e => exact .inl ⟨e, e, rfl, rfl⟩
    | ok member => exact .inr ⟨member, rfl, rfl⟩

theorem sameSlots_replaceSlot (entry : NodeEntry)
    (hbit : bit ∉ setBits (Bitmap.load signersBitmap)) :
    SameSlotsAtSigners registry (registry.replaceSlot bit entry) signersBitmap := by
  have hother {other : ℕ} (hset : other ∈ setBits (Bitmap.load signersBitmap)) : bit ≠ other :=
    fun h => hbit (h ▸ hset)
  by_cases hnode : bit < nodeSlots
  · rw [RegistryView.replaceSlot, if_pos hnode]
    refine ⟨rfl, fun other _ => ?_, fun other hset => ?_⟩
    · by_cases h : other < nodeSlots <;> simp only [RegistryView.segment, h, if_true, if_false]
    · by_cases h : other < nodeSlots
      · simp only [RegistryView.segment, h, if_true]
        exact List.getElem?_set_ne (hother hset)
      · simp only [RegistryView.segment, h, if_false]
  · rw [RegistryView.replaceSlot, if_neg hnode]
    refine ⟨rfl, fun other _ => ?_, fun other hset => ?_⟩
    · by_cases h : other < nodeSlots <;> simp only [RegistryView.segment, h, if_true, if_false]
    · by_cases h : other < nodeSlots
      · simp only [RegistryView.segment, h, if_true]
      · simp only [RegistryView.segment, h, if_false]
        apply List.getElem?_set_ne
        have hne := hother hset
        rw [providerBitBase]
        omega

end Agreement

end MolphaVerifier
