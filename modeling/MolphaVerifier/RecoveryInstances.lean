import MolphaVerifier.LowSRecovery
import MolphaVerifier.SchnorrSoundness

/-!
# Recovery instances of the Schnorr equation

The instance `(v, (r, t), z)` that `evmSchnorrEcdsaInputs` hands to recovery is low-s and evaluates
the Schnorr equation, except for a challenge that is zero modulo the order. That case is tested on
`n - 0 = n`, which is not zero, and so it is emitted with `t = 0`.
-/

namespace MolphaVerifier

open FixedBytes

section Definitions

variable (keccak : Keccak) (pk : Bytes 33) (msgHash signature : Bytes 32) (commitment : Bytes 20)

def instanceChallenge : ZMod Secp256k1.n :=
  schnorrChallenge keccak (afterLead pk) (leadByte pk &&& 1) msgHash commitment

/-- The inputs have no instance: a bad prefix, a first coordinate that is zero modulo the order, or a
zero product of it with the challenge. -/
def NoInstance : Prop :=
  (leadByte pk ≠ 0x02 ∧ leadByte pk ≠ 0x03) ∨ toScalar (afterLead pk) = 0 ∨
    instanceChallenge keccak pk msgHash commitment * toScalar (afterLead pk) = 0

/-- A low-s instance for the key, the challenge and the scalar. -/
structure LowSInstance (v : UInt8) (t z : Bytes 32) : Prop where
  t_pos : 1 ≤ bytesToNat t
  t_le : bytesToNat t ≤ Secp256k1.n / 2
  v_bit : v = 0 ∨ v = 1
  sign : bytesToNat t =
        (-(instanceChallenge keccak pk msgHash commitment * toScalar (afterLead pk))).val ∧
      v = leadByte pk &&& 1 ∨
    bytesToNat t = (instanceChallenge keccak pk msgHash commitment * toScalar (afterLead pk)).val ∧
      v = 1 - (leadByte pk &&& 1)
  z_pos : 1 ≤ bytesToNat z
  z_le : bytesToNat z ≤ Secp256k1.n
  z_eq : toScalar z = -(toScalar signature * toScalar (afterLead pk))

/-- The outcome is an error exactly when there is no instance, and a low-s instance with the
unreduced first coordinate otherwise. -/
structure EmitsInstance (outcome : Except AttestationError (UInt8 × Bytes 64 × Bytes 32)) :
    Prop where
  error_iff : (∃ e, outcome = .error e) ↔ NoInstance keccak pk msgHash commitment
  instance_of : ¬NoInstance keccak pk msgHash commitment → ∃ v t z,
    outcome = .ok (v, afterLead pk ++ t, z) ∧
      LowSInstance keccak pk msgHash signature commitment v t z

end Definitions

variable {keccak : Keccak} {pk : Bytes 33} {msgHash signature : Bytes 32} {commitment : Bytes 20}

theorem bytesToNat_eq_val {t : Bytes 32} (ht : bytesToNat t < Secp256k1.n) {k : ZMod Secp256k1.n}
    (h : toScalar t = k) : bytesToNat t = k.val := by
  rw [← h, toScalar, ZMod.val_natCast, Nat.mod_eq_of_lt ht]

theorem prefix_parity (h : leadByte pk = 0x02 ∨ leadByte pk = 0x03) :
    (leadByte pk &&& 1 = 0 ∨ leadByte pk &&& 1 = 1) ∧
      (leadByte pk &&& 1) ^^^ 1 = 1 - (leadByte pk &&& 1) := by
  have hbit : leadByte pk &&& 1 = 0 ∨ leadByte pk &&& 1 = 1 := by
    rcases h with h | h <;> rw [h] <;> decide
  exact ⟨hbit, xor_one_eq_sub hbit⟩

theorem evmSchnorrEcdsaInputs_of_bad_prefix (h : leadByte pk ≠ 0x02 ∧ leadByte pk ≠ 0x03) :
    evmSchnorrEcdsaInputs keccak pk msgHash signature commitment = .error .invalidSignature := by
  rw [evmSchnorrEcdsaInputs, if_pos h]

theorem exists_lowSInstance (htag : leadByte pk = 0x02 ∨ leadByte pk = 0x03)
    (hpx : toScalar (afterLead pk) ≠ 0)
    (hchallenge : instanceChallenge keccak pk msgHash commitment ≠ 0) : ∃ v t z,
    evmSchnorrEcdsaInputs keccak pk msgHash signature commitment =
        .ok (v, afterLead pk ++ t, z) ∧
      LowSInstance keccak pk msgHash signature commitment v t z := by
  obtain ⟨v, t, z, hinputs, htle, ⟨hzpos, hzle⟩, hz, hsign⟩ :=
    evmSchnorrEcdsaInputs_eq_ok keccak htag hpx msgHash signature commitment
  rw [← instanceChallenge] at hsign
  have hn := n_pos
  have htlt : bytesToNat t < Secp256k1.n := by omega
  have hproduct : instanceChallenge keccak pk msgHash commitment * toScalar (afterLead pk) ≠ 0 :=
    mul_ne_zero hchallenge hpx
  obtain ⟨hbit, hflip⟩ := prefix_parity htag
  have htpos : 1 ≤ bytesToNat t := by
    rw [Nat.one_le_iff_ne_zero, ← Nat.pos_iff_ne_zero, bytesToNat_pos_iff htlt]
    rcases hsign with ⟨-, ht⟩ | ⟨-, ht⟩
    · rwa [ht, neg_ne_zero]
    · rwa [ht]
  refine ⟨v, t, z, hinputs, htpos, htle, ?_, ?_, hzpos, hzle, hz⟩
  · rcases hsign with ⟨rfl, -⟩ | ⟨rfl, -⟩
    · exact hbit
    · rcases hbit with h | h <;> rw [h] <;> decide
  · rcases hsign with ⟨hv, ht⟩ | ⟨hv, ht⟩
    · exact .inl ⟨bytesToNat_eq_val htlt ht, hv⟩
    · exact .inr ⟨bytesToNat_eq_val htlt ht, hv.trans hflip⟩

/-- A zero challenge passes the zero check of the code and is emitted with a zero `t`. -/
theorem exists_zero_instance (htag : leadByte pk = 0x02 ∨ leadByte pk = 0x03)
    (hpx : toScalar (afterLead pk) ≠ 0)
    (hzero : instanceChallenge keccak pk msgHash commitment = 0) (signature : Bytes 32) :
    ∃ (v : UInt8) (t z : Bytes 32), evmSchnorrEcdsaInputs keccak pk msgHash signature commitment =
        .ok (v, afterLead pk ++ t, z) ∧ bytesToNat t = 0 := by
  obtain ⟨v, t, z, hinputs, htle, -, -, hsign⟩ :=
    evmSchnorrEcdsaInputs_eq_ok keccak htag hpx msgHash signature commitment
  rw [← instanceChallenge, hzero, zero_mul, neg_zero] at hsign
  have hn := n_pos
  have ht : toScalar t = 0 := hsign.elim And.right And.right
  rw [toScalar_eq_zero_iff, Nat.mod_eq_of_lt (by omega)] at ht
  exact ⟨v, t, z, hinputs, ht⟩

theorem not_emits_of_zero_challenge (htag : leadByte pk = 0x02 ∨ leadByte pk = 0x03)
    (hpx : toScalar (afterLead pk) ≠ 0)
    (hzero : instanceChallenge keccak pk msgHash commitment = 0) :
    ¬EmitsInstance keccak pk msgHash signature commitment
      (evmSchnorrEcdsaInputs keccak pk msgHash signature commitment) := by
  intro h
  obtain ⟨v, t, z, hout, -⟩ := exists_zero_instance htag hpx hzero signature
  obtain ⟨e, he⟩ := h.error_iff.mpr (.inr (.inr (by rw [hzero, zero_mul])))
  rw [hout] at he
  cases he

/-- The code emits what it should unless the prefix and the key are in order and the challenge is
zero modulo the order. -/
theorem evmSchnorrEcdsaInputs_emits_iff :
    EmitsInstance keccak pk msgHash signature commitment
        (evmSchnorrEcdsaInputs keccak pk msgHash signature commitment) ↔
      (leadByte pk ≠ 0x02 ∧ leadByte pk ≠ 0x03) ∨ toScalar (afterLead pk) = 0 ∨
        instanceChallenge keccak pk msgHash commitment ≠ 0 := by
  by_cases hprefix : leadByte pk ≠ 0x02 ∧ leadByte pk ≠ 0x03
  · have hnone : NoInstance keccak pk msgHash commitment := .inl hprefix
    refine iff_of_true ⟨iff_of_true ?_ hnone, fun h => absurd hnone h⟩ (.inl hprefix)
    exact ⟨_, evmSchnorrEcdsaInputs_of_bad_prefix hprefix⟩
  by_cases hpx : toScalar (afterLead pk) = 0
  · have hnone : NoInstance keccak pk msgHash commitment := .inr (.inl hpx)
    refine iff_of_true ⟨iff_of_true ?_ hnone, fun h => absurd hnone h⟩ (.inr (.inl hpx))
    exact ⟨_, evmSchnorrEcdsaInputs_of_zero keccak pk hpx msgHash signature commitment⟩
  have htag : leadByte pk = 0x02 ∨ leadByte pk = 0x03 := by
    by_contra h
    exact hprefix (not_or.mp h)
  rw [or_iff_right hprefix, or_iff_right hpx]
  constructor
  · intro h hzero
    exact not_emits_of_zero_challenge htag hpx hzero h
  · intro hchallenge
    obtain ⟨v, t, z, hinputs, hinstance⟩ := exists_lowSInstance htag hpx hchallenge
    have hsome : ¬NoInstance keccak pk msgHash commitment := by
      rintro (h | h | h)
      · exact hprefix h
      · exact hpx h
      · exact mul_ne_zero hchallenge hpx h
    refine ⟨iff_of_false ?_ hsome, fun _ => ⟨v, t, z, hinputs, hinstance⟩⟩
    rintro ⟨e, he⟩
    rw [hinputs] at he
    cases he

section Sample

def zeroKeccak : Keccak := fun _ => natToBytes 32 0

/-- The instance of the compressed generator with the challenge zero is not an error. -/
theorem zero_challenge_emitted :
    ¬EmitsInstance zeroKeccak (encodeCompressed Secp256k1.generatorX Secp256k1.generatorY)
      (natToBytes 32 1) (natToBytes 32 2) (natToBytes 20 1)
      (evmSchnorrEcdsaInputs zeroKeccak
        (encodeCompressed Secp256k1.generatorX Secp256k1.generatorY) (natToBytes 32 1)
        (natToBytes 32 2) (natToBytes 20 1)) := by
  refine not_emits_of_zero_challenge (encodeCompressed_tag _ _) ?_ ?_
  · rw [afterLead_encodeCompressed]
    exact toScalar_fieldBytes_ne_zero Secp256k1.hasCoords_G Secp256k1.generatorX_val_lt
  · change toScalar (natToBytes 32 0) = 0
    rw [toScalar_natToBytes (by norm_num), Nat.cast_zero]

end Sample

end MolphaVerifier
