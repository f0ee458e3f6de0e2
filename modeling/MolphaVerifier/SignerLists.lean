import MolphaVerifier.PartialSignatures

/-!
# Lists of signer keys

The functions over a list of stored keys depend on the group sum of the list alone: the order of the
keys, repetitions and partial sums at infinity leave no trace in what they return. A registry and a
bitmap stand for the list of the keys at the set bits, and the two dispute functions agree on it.
-/

namespace MolphaVerifier

open FixedBytes BitVecIteration FallibleFolds ShortWeierstrass

section Sums

variable {lib : Libsecp256k1} {R : FieldReading lib} {keys keys' : List SignerXy}
  {points : List Secp256k1.Point}

/-- Adding stored points one after the other adds their sum, whatever the accumulator stands for. -/
theorem exists_foldlM_addStoredXy (hF : FieldExact lib R) (hS : SumExact lib R)
    (hG : GroupExact lib R) (hkeys : List.Forall₂ StoredPoint keys points)
    {coalition : CoalitionAccumulator lib} {S : Secp256k1.Point}
    (hrep : coalition.Represents R S) : ∃ coalition',
      keys.foldlM (fun coalition xy => coalition.addStoredXy xy.1 xy.2) coalition =
          .ok coalition' ∧
        coalition'.Represents R (S + points.sum) := by
  induction hkeys generalizing coalition S with
  | nil =>
    refine ⟨coalition, rfl, ?_⟩
    rwa [List.sum_nil, add_zero]
  | @cons xy P keys points hpoint hrest ih =>
    have hexists : ∃ next, coalition.addStoredXy xy.1 xy.2 = .ok next :=
      (CoalitionAccumulator.exists_addStoredXy_iff hF hS).mpr hpoint.canonicalXy
    obtain ⟨next, hadd⟩ := hexists
    have hnext := CoalitionAccumulator.represents_addStoredXy hF hS hG hrep hpoint.coords hadd
    obtain ⟨coalition', hfold, hrep'⟩ := ih hnext
    refine ⟨coalition', ?_, ?_⟩
    · rw [List.foldlM_cons, hadd]
      exact hfold
    · rwa [List.sum_cons, ← add_assoc]

theorem CoalitionAccumulator.Represents.sum_eq {coalition coalition' : CoalitionAccumulator lib}
    {S : Secp256k1.Point} (h : coalition.Represents R S) (h' : coalition'.Represents R S) :
    R.sum coalition = R.sum coalition' := by
  rcases h.sum_cases with ⟨hsum, hzero⟩ | ⟨x, y, hsum, hcoords⟩
  · rcases h'.sum_cases with ⟨hsum', -⟩ | ⟨x', y', -, hcoords'⟩
    · rw [hsum, hsum']
    · exact absurd hzero hcoords'.ne_zero
  · rcases h'.sum_cases with ⟨-, hzero⟩ | ⟨x', y', hsum', hcoords'⟩
    · exact absurd hzero hcoords.ne_zero
    · obtain ⟨rfl, rfl⟩ := hcoords.unique hcoords'
      rw [hsum, hsum']

theorem accumulateCoalition_cases (hF : FieldExact lib R) (hS : SumExact lib R)
    (hG : GroupExact lib R) (hkeys : List.Forall₂ StoredPoint keys points) :
    (keys = [] ∧ accumulateCoalition lib keys = .error .invalidSignersBitmap) ∨
      (keys ≠ [] ∧ ∃ coalition, accumulateCoalition lib keys = .ok coalition ∧
        coalition.Represents R points.sum) := by
  obtain ⟨coalition, hfold, hrep⟩ :=
    exists_foldlM_addStoredXy hF hS hG hkeys CoalitionAccumulator.represents_default
  rw [zero_add] at hrep
  cases keys with
  | nil => exact .inl ⟨rfl, rfl⟩
  | cons xy keys => exact .inr ⟨List.cons_ne_nil xy keys, coalition, hfold, hrep⟩

theorem exists_points_of_perm (hperm : keys.Perm keys')
    (hkeys : List.Forall₂ StoredPoint keys points) : ∃ points',
      List.Forall₂ StoredPoint keys' points' ∧ points'.sum = points.sum := by
  obtain ⟨points', hkeys', hpoints⟩ := List.perm_comp_forall₂ hperm.symm hkeys
  exact ⟨points', hkeys', hpoints.sum_eq⟩

end Sums

section Order

variable {prims : Primitives} {R : FieldReading prims.lib} {keys keys' : List SignerXy}
  {points : List Secp256k1.Point}

/-- Summing the keys gives the group sum of the points, and the two key functions encode it or name
what is wrong. -/
structure SumsPoints (lib : Libsecp256k1) (R : FieldReading lib) (keys : List SignerXy)
    (points : List Secp256k1.Point) : Prop where
  fold : ∃ coalition, keys.foldlM (fun coalition xy => coalition.addStoredXy xy.1 xy.2)
    (CoalitionAccumulator.default lib) = .ok coalition ∧ coalition.Represents R points.sum
  ok_of_finite : ∀ x y, HasCoords points.sum x y →
    reconstructCoalitionKey lib keys = .ok (encodeCompressed x y) ∧
      coalitionKey lib keys = .ok (CoalitionKey.ofXy x y)
  empty_iff : (reconstructCoalitionKey lib keys = .error .invalidSignersBitmap ↔ keys = []) ∧
    (coalitionKey lib keys = .error .invalidSignersBitmap ↔ keys = [])
  infinity_iff : (reconstructCoalitionKey lib keys = .error .invalidAggregateSignature ↔
      keys ≠ [] ∧ points.sum = 0) ∧
    (coalitionKey lib keys = .error .invalidAggregateSignature ↔ keys ≠ [] ∧ points.sum = 0)

/-- No function over a list of keys tells the two lists apart. -/
structure SameOutcomes (prims : Primitives) (keys keys' : List SignerXy) : Prop where
  reconstruct : reconstructCoalitionKey prims.lib keys' = reconstructCoalitionKey prims.lib keys
  coalitionKey : coalitionKey prims.lib keys' = coalitionKey prims.lib keys
  verdict : ∀ s commitment messageHash,
    verifyAggregateOverHash prims s commitment messageHash keys' =
      verifyAggregateOverHash prims s commitment messageHash keys
  keyedVerdict : ∀ s commitment messageHash key,
    verifyAggregateOverHashWithCoalitionKey prims s commitment messageHash keys' key =
      verifyAggregateOverHashWithCoalitionKey prims s commitment messageHash keys key

theorem keyFunctions_eq {coalition : CoalitionAccumulator prims.lib}
    (h : accumulateCoalition prims.lib keys = .ok coalition) :
    reconstructCoalitionKey prims.lib keys = coalition.compressedPubkey ∧
      coalitionKey prims.lib keys = coalition.coalitionKey := by
  rw [reconstructCoalitionKey, coalitionKey, h]
  exact ⟨rfl, rfl⟩

theorem sumsPoints (hF : FieldExact prims.lib R) (hS : SumExact prims.lib R)
    (hG : GroupExact prims.lib R) (hkeys : List.Forall₂ StoredPoint keys points) :
    SumsPoints prims.lib R keys points := by
  have hfold :=
    exists_foldlM_addStoredXy hF hS hG hkeys CoalitionAccumulator.represents_default
  rw [zero_add] at hfold
  rcases accumulateCoalition_cases hF hS hG hkeys with ⟨rfl, herror⟩ | ⟨hne, coalition, hok, hrep⟩
  · cases hkeys
    refine ⟨hfold, fun x y h => absurd rfl h.ne_zero, ?_, ?_⟩
    · exact ⟨iff_of_true rfl rfl, iff_of_true rfl rfl⟩
    · exact ⟨iff_of_false (fun h => nomatch h) (fun h => h.1 rfl),
        iff_of_false (fun h => nomatch h) (fun h => h.1 rfl)⟩
  have hproper := proper_accumulateCoalition hF hS hok
  obtain ⟨hreconstruct, hkey⟩ := keyFunctions_eq hok
  rw [CoalitionAccumulator.compressedPubkey_eq hF hS hproper] at hreconstruct
  rw [CoalitionAccumulator.coalitionKey_eq hF hS hproper] at hkey
  rcases hrep.sum_cases with ⟨hsum, hzero⟩ | ⟨x, y, hsum, hcoords⟩
  · rw [hsum] at hreconstruct hkey
    refine ⟨hfold, fun x y h => absurd hzero h.ne_zero, ?_, ?_⟩
    · rw [hreconstruct, hkey]
      simp [checkedPubkey, hne]
    · rw [hreconstruct, hkey]
      simp [checkedPubkey, hne, hzero]
  · rw [hsum] at hreconstruct hkey
    refine ⟨hfold, fun x' y' h => ?_, ?_, ?_⟩
    · obtain ⟨rfl, rfl⟩ := hcoords.unique h
      rw [hreconstruct, hkey]
      simp [checkedPubkey]
    · rw [hreconstruct, hkey]
      simp [checkedPubkey, hne]
    · rw [hreconstruct, hkey]
      simp [checkedPubkey, hcoords.ne_zero]

/-- A permutation of stored points has the same sum and so the same outcomes. -/
theorem sameOutcomes_of_perm (hF : FieldExact prims.lib R) (hS : SumExact prims.lib R)
    (hG : GroupExact prims.lib R) (hkeys : List.Forall₂ StoredPoint keys points)
    (hperm : keys.Perm keys') : SameOutcomes prims keys keys' := by
  obtain ⟨points', hkeys', hsum⟩ := exists_points_of_perm hperm hkeys
  rcases accumulateCoalition_cases hF hS hG hkeys with ⟨rfl, -⟩ | ⟨hne, coalition, hok, hrep⟩
  · obtain rfl := hperm.nil_eq
    exact ⟨rfl, rfl, fun _ _ _ => rfl, fun _ _ _ _ => rfl⟩
  rcases accumulateCoalition_cases hF hS hG hkeys' with ⟨rfl, -⟩ | ⟨-, coalition', hok', hrep'⟩
  · exact absurd hperm.eq_nil hne
  rw [hsum] at hrep'
  have hread := hrep'.sum_eq hrep
  have hproper := proper_accumulateCoalition hF hS hok
  have hproper' := proper_accumulateCoalition hF hS hok'
  obtain ⟨hreconstruct, hkey⟩ := keyFunctions_eq hok
  obtain ⟨hreconstruct', hkey'⟩ := keyFunctions_eq hok'
  refine ⟨?_, ?_, fun s commitment messageHash => ?_, fun s commitment messageHash key => ?_⟩
  · rw [hreconstruct', hreconstruct, CoalitionAccumulator.compressedPubkey_eq hF hS hproper',
      CoalitionAccumulator.compressedPubkey_eq hF hS hproper, hread]
  · rw [hkey', hkey, CoalitionAccumulator.coalitionKey_eq hF hS hproper',
      CoalitionAccumulator.coalitionKey_eq hF hS hproper, hread]
  · rw [verifyAggregateOverHash, verifyAggregateOverHash,
      verifyAggregateOverHashInner_eq hF hS hok', verifyAggregateOverHashInner_eq hF hS hok, hread]
  · rw [verifyAggregateOverHashWithCoalitionKey, verifyAggregateOverHashWithCoalitionKey,
      verifyAggregateOverHashInner_eq hF hS hok', verifyAggregateOverHashInner_eq hF hS hok, hread]

theorem keyFunctions_of_bad (hF : FieldExact prims.lib R) (hS : SumExact prims.lib R)
    (hbad : ∃ xy ∈ keys, ¬CanonicalXy xy) :
    reconstructCoalitionKey prims.lib keys = .error .invalidAggregateSignature ∧
      coalitionKey prims.lib keys = .error .invalidAggregateSignature := by
  obtain ⟨xy, hmem, hxy⟩ := hbad
  have herror : accumulateCoalition prims.lib keys = .error .invalidAggregateSignature := by
    cases h : accumulateCoalition prims.lib keys with
    | ok coalition =>
      exact absurd (((exists_accumulateCoalition_iff hF hS).mp ⟨coalition, h⟩).2 xy hmem) hxy
    | error e =>
      rw [accumulateCoalition, if_neg (by simp [List.ne_nil_of_mem hmem])] at h
      obtain ⟨xy', -, coalition, hstep⟩ := exists_step_eq_error h
      rw [CoalitionAccumulator.addStoredXy_eq_error hF hS hstep]
  rw [reconstructCoalitionKey, coalitionKey, herror]
  exact ⟨rfl, rfl⟩

/-- The coalition key is the group sum of the signers' keys in every order. -/
theorem coalition_order_free (hF : FieldExact prims.lib R) (hS : SumExact prims.lib R)
    (hG : GroupExact prims.lib R) :
    (∀ keys points, List.Forall₂ StoredPoint keys points →
      SumsPoints prims.lib R keys points ∧
        ∀ keys', keys.Perm keys' → SameOutcomes prims keys keys') ∧
    ∀ keys : List SignerXy, (∃ xy ∈ keys, ¬CanonicalXy xy) →
      reconstructCoalitionKey prims.lib keys = .error .invalidAggregateSignature ∧
        coalitionKey prims.lib keys = .error .invalidAggregateSignature := by
  refine ⟨fun keys points hkeys => ⟨sumsPoints hF hS hG hkeys, fun keys' hperm => ?_⟩,
    fun keys hbad => keyFunctions_of_bad hF hS hbad⟩
  exact sameOutcomes_of_perm hF hS hG hkeys hperm

end Order

section Sample

/-- The stored negation of the generator. -/
def sampleNegXy : SignerXy := (fieldBytes Secp256k1.generatorX, fieldBytes (-Secp256k1.generatorY))

/-- A key, its negation and the key again sum to the key, and in another order too. -/
theorem coalition_order_free_sample :
    reconstructCoalitionKey (referencePrimitives sampleKeccak).lib [sampleXy, sampleNegXy, sampleXy] =
        .ok (encodeCompressed Secp256k1.generatorX Secp256k1.generatorY) ∧
      reconstructCoalitionKey (referencePrimitives sampleKeccak).lib
        [sampleXy, sampleXy, sampleNegXy] =
        reconstructCoalitionKey (referencePrimitives sampleKeccak).lib
          [sampleXy, sampleNegXy, sampleXy] ∧
      coalitionKey (referencePrimitives sampleKeccak).lib [sampleXy, (sampleXy.1, natToBytes 32 0)] =
        .error .invalidAggregateSignature := by
  have hkeys : List.Forall₂ StoredPoint [sampleXy, sampleNegXy, sampleXy]
      [Secp256k1.G, -Secp256k1.G, Secp256k1.G] :=
    .cons storedPoint_sampleXy (.cons (storedPoint_fieldBytes Secp256k1.hasCoords_G.neg)
      (.cons storedPoint_sampleXy .nil))
  obtain ⟨hpoints, hbad⟩ := @coalition_order_free (referencePrimitives sampleKeccak) _
    fieldExact_reference sumExact_reference groupExact_reference
  obtain ⟨hsums, hperm⟩ := hpoints _ _ hkeys
  refine ⟨(hsums.ok_of_finite _ _ ?_).1, (hperm _ ?_).reconstruct, (hbad _ ?_).2⟩
  · simp [Secp256k1.hasCoords_G]
  · exact .cons _ (.swap _ _ _)
  · refine ⟨_, List.mem_cons_of_mem _ List.mem_cons_self, fun h => ?_⟩
    have hpos := h.y_pos
    rw [bytesToNat_natToBytes_of_lt (by norm_num)] at hpos
    exact absurd hpos (Nat.lt_irrefl 0)

end Sample

section Disputes

variable (prims : Primitives) (registry : RegistryView) (signature : SchnorrSignature)
  (messageHash : Bytes 32)

/-- The keys are those of the live records at the set bits, ascending, one for each. -/
def ListsSigners (registry : RegistryView) (signersBitmap : Bytes 32) (keys : List SignerXy) :
    Prop :=
  ∃ bits : List ℕ, bits.SortedLT ∧
    (∀ bit, bit ∈ bits ↔ (Bitmap.load signersBitmap).getLsbD bit = true) ∧
    List.Forall₂ (fun bit xy => ∃ member, registry.NamesLiveRecord bit member ∧ xy = member.xy)
      bits keys

variable {prims registry signature messageHash} {keys : List SignerXy}

theorem listsSigners_of_resolveSigners {signersBitmap : Bytes 32}
    (h : resolveSigners registry signersBitmap = .ok keys) :
    ListsSigners registry signersBitmap keys := by
  rw [resolveSigners_eq, mapM_eq_ok_iff] at h
  refine ⟨setBits (Bitmap.load signersBitmap), sortedLT_setBits _, fun _ => mem_setBits,
    h.imp fun bit xy hxy => ?_⟩
  rw [map_eq_pure_bind, bind_eq_ok_iff] at hxy
  obtain ⟨member, hmember, hpure⟩ := hxy
  exact ⟨member, RegistryView.signer_eq_ok_iff.mp hmember, (Except.ok.inj hpure).symm⟩

/-- Both paths sum the same keys. They differ in when they check the scalar. -/
theorem resolved_eq_inner (h : resolveSigners registry signature.signersBitmap = .ok keys)
    (hscalar : secp256k1ScalarIsValidNonzero signature.aggSigS = true)
    (key : Option CoalitionKey) :
    verifyAggregateOverHashResolved prims registry signature messageHash key =
      verifyAggregateOverHashInner prims signature.aggSigS signature.commitment messageHash keys
        key := by
  rw [verifyAggregateOverHashResolved, verifyAggregateOverHashInner,
    accumulateRegistrySigners_of_resolveSigners h, hscalar]
  rfl

theorem resolved_error_of_unresolved {e : AttestationError}
    (h : resolveSigners registry signature.signersBitmap = .error e) (key : Option CoalitionKey) :
    ∃ e', verifyAggregateOverHashResolved prims registry signature messageHash key =
      .error e' := by
  cases hsum : accumulateRegistrySigners prims.lib registry signature.signersBitmap with
  | error e' =>
    refine ⟨e', ?_⟩
    rw [verifyAggregateOverHashResolved, hsum]
    rfl
  | ok coalition =>
    obtain ⟨keys, hkeys⟩ :=
      exists_resolveSigners_iff.mpr (namesLiveRecord_of_accumulateRegistrySigners hsum)
    rw [h] at hkeys
    cases hkeys

/-- The registry path is the key-list path over the resolved keys. -/
theorem dispute_paths_agree (prims : Primitives) (registry : RegistryView)
    (signature : SchnorrSignature) (messageHash : Bytes 32) :
    (∀ keys, resolveSigners registry signature.signersBitmap = .ok keys →
      ListsSigners registry signature.signersBitmap keys ∧
      (1 ≤ bytesToNat signature.aggSigS → bytesToNat signature.aggSigS < Secp256k1.n →
        verifyAggregateOverHashResolved prims registry signature messageHash none =
            verifyAggregateOverHash prims signature.aggSigS signature.commitment messageHash keys ∧
          ∀ key, verifyAggregateOverHashResolved prims registry signature messageHash (some key) =
            verifyAggregateOverHashWithCoalitionKey prims signature.aggSigS signature.commitment
              messageHash keys key)) ∧
    ∀ e, resolveSigners registry signature.signersBitmap = .error e → ∀ key, ∃ e',
      verifyAggregateOverHashResolved prims registry signature messageHash key = .error e' := by
  refine ⟨fun keys hkeys => ⟨listsSigners_of_resolveSigners hkeys, fun hpos hlt => ?_⟩,
    fun e he key => resolved_error_of_unresolved he key⟩
  have hscalar := (secp256k1ScalarIsValidNonzero_iff signature.aggSigS).mpr ⟨hpos, hlt⟩
  exact ⟨resolved_eq_inner hkeys hscalar none,
    fun key => resolved_eq_inner hkeys hscalar (some key)⟩

theorem resolveSigners_sample :
    resolveSigners sampleRegistry (sampleAttestation 0).signature.signersBitmap =
      .ok [sampleMember.xy] := by
  rw [resolveSigners_eq, setBits_sampleAttestation (by norm_num), mapM_eq_ok_iff]
  refine .cons ?_ .nil
  rw [RegistryView.signer_eq_ok_iff.mpr namesLiveRecord_sample_node]
  rfl

theorem dispute_paths_agree_sample :
    ListsSigners sampleRegistry (sampleAttestation 0).signature.signersBitmap [sampleMember.xy] ∧
      verifyAggregateOverHashResolved (referencePrimitives sampleKeccak) sampleRegistry
          (sampleAttestation 0).signature (natToBytes 32 1) none =
        verifyAggregateOverHash (referencePrimitives sampleKeccak)
          (sampleAttestation 0).signature.aggSigS (sampleAttestation 0).signature.commitment
          (natToBytes 32 1) [sampleMember.xy] := by
  obtain ⟨hlists, hagree⟩ := (dispute_paths_agree (referencePrimitives sampleKeccak)
    sampleRegistry (sampleAttestation 0).signature (natToBytes 32 1)).1 _ resolveSigners_sample
  obtain ⟨hpos, hlt⟩ := sampleAttestation_scalar 0
  exact ⟨hlists, (hagree hpos hlt).1⟩

end Disputes

end MolphaVerifier
