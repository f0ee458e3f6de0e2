import MolphaVerifier.AttestationMessage
import MolphaVerifier.BitVecIteration
import MolphaVerifier.LimbBits

/-!
# Signer bitmaps

A bitmap is a 256-bit number whose low 64 bits name operator nodes and whose other bits name
providers. `forEachSetBit` runs a fallible visitor over the set bits; it is written for any monad, so
that a visitor may carry the state it accumulates, and it is a run over `setBits` in order.
-/

namespace MolphaVerifier

open FixedBytes LimbArithmetic BitVecIteration

abbrev Bitmap : Type := BitVec 256

/-- Bits below this one belong to operator nodes, the others to providers. -/
def nodeSlots : ℕ := 64

def providerBitBase : ℕ := nodeSlots

namespace Bitmap

def empty : Bitmap := 0

/-- The node segment of a bitmap. -/
def nodeMask : Bitmap := BitVec.ofNat 256 (2 ^ 64 - 1)

def nodeBits (bitmap : Bitmap) : Bitmap := bitmap &&& nodeMask

def providerBits (bitmap : Bitmap) : Bitmap := bitmap &&& ~~~nodeMask

def subtract (bitmap other : Bitmap) : Bitmap := bitmap &&& ~~~other

def load (bytes : Bytes 32) : Bitmap := BitVec.ofNat 256 (bytesToNat bytes)

def toBytes (bitmap : Bitmap) : Bytes 32 := natToBytes 32 bitmap.toNat

/-- The lowest limb becomes the last eight bytes. -/
def fromLimbs (limbs : Limbs 4) : Bitmap :=
  BitVec.ofNat 256
    (beNat (limbs.toList.reverse.flatMap fun limb => (natToBytes 8 limb.toNat).toList))

def popcount (bitmap : Bitmap) : ℕ := bitmap.cpop.toNat

def trailingZeros (bitmap : Bitmap) : ℕ := bitmap.ctz.toNat

variable {bitmap other : Bitmap} {bit : ℕ}

theorem toNat_fromLimbs (limbs : Limbs 4) : (fromLimbs limbs).toNat = limbsToNat limbs := by
  have hlt := limbsToNat_lt limbs
  rw [fromLimbs, LimbBits.beNat_flatMap, ← limbsToNat, BitVec.toNat_ofNat,
    Nat.mod_eq_of_lt (hlt.trans_eq (by norm_num))]

theorem getLsbD_fromLimbs (limbs : Limbs 4) :
    (fromLimbs limbs).getLsbD bit = (limbsToNat limbs).testBit bit := by
  rw [BitVec.getLsbD, toNat_fromLimbs]

theorem popcount_eq_length (bitmap : Bitmap) : popcount bitmap = (setBits bitmap).length :=
  (length_setBits bitmap).symm

theorem getLsbD_nodeMask : nodeMask.getLsbD bit = decide (bit < nodeSlots) := by
  rw [nodeMask, BitVec.getLsbD_ofNat, Nat.testBit_two_pow_sub_one, nodeSlots]
  by_cases h : bit < 64
  · simp [h, show bit < 256 by omega]
  · simp [h]

@[simp] theorem mem_setBits_providerBits :
    bit ∈ setBits (providerBits bitmap) ↔ bit ∈ setBits bitmap ∧ nodeSlots ≤ bit := by
  simp only [mem_setBits, providerBits, BitVec.getLsbD_and, BitVec.getLsbD_not, getLsbD_nodeMask,
    Bool.and_eq_true, Bool.not_eq_true', decide_eq_true_eq, decide_eq_false_iff_not, not_lt]
  exact ⟨fun h => ⟨h.1, h.2.2⟩, fun h => ⟨h.1, BitVec.lt_of_getLsbD h.1, h.2⟩⟩

@[simp] theorem mem_setBits_nodeBits :
    bit ∈ setBits (nodeBits bitmap) ↔ bit ∈ setBits bitmap ∧ bit < nodeSlots := by
  simp [nodeBits, getLsbD_nodeMask]

theorem subtract_nodeMask (bitmap : Bitmap) : subtract bitmap nodeMask = providerBits bitmap := rfl

@[simp] theorem load_toBytes (bitmap : Bitmap) : load (toBytes bitmap) = bitmap := by
  rw [load, toBytes, bytesToNat_natToBytes_of_lt (bitmap.isLt.trans_eq (by norm_num))]
  exact BitVec.ofNat_toNat ..

end Bitmap

section Iteration

variable {m : Type → Type*} [Monad m]

/-- Visit the set bits in ascending order; returns the peeled bitmap. -/
def forEachSetBit (bm : Bitmap) (f : ℕ → m PUnit) : m Bitmap :=
  if _h : bm = Bitmap.empty then pure bm
  else do
    let bitPos := Bitmap.trailingZeros bm
    -- the visitor does not see the bitmap, which the source clears before the call
    f bitPos
    forEachSetBit (clearBit bm bitPos) f
termination_by bm.toNat
decreasing_by exact toNat_clearBit_ctz_lt _h

/-- The loop runs the visitor over the set bits and leaves nothing. -/
theorem forEachSetBit_eq [LawfulMonad m] (bm : Bitmap) (f : ℕ → m PUnit) :
    forEachSetBit bm f = forM (setBits bm) f >>= fun _ => pure Bitmap.empty := by
  induction h : bm.toNat using Nat.strong_induction_on generalizing bm with
  | _ size ih =>
    rw [forEachSetBit]
    split
    next hempty =>
      rw [hempty, Bitmap.empty, setBits_zero, List.forM_nil, pure_bind]
    next hne =>
      rw [setBits_eq_cons hne, List.forM_cons, bind_assoc]
      refine bind_congr fun _ => ?_
      exact ih _ (h ▸ toNat_clearBit_ctz_lt hne) _ rfl

end Iteration

section Quorum

/-- A non-empty bitmap with at most one provider bit and enough signers. -/
def checkQuorum (signers : Bitmap) (signaturesRequired : UInt8) : Except AttestationError Unit :=
  if signers = Bitmap.empty then .error .invalidSignersBitmap
  else if signaturesRequired = 0 then .error .insufficientSigners
  else if Bitmap.popcount (Bitmap.providerBits signers) > 1 then .error .invalidSignersBitmap
  else if Bitmap.popcount signers < signaturesRequired.toNat then .error .insufficientSigners
  else .ok ()

structure MeetsQuorum (signers : Bitmap) (signaturesRequired : UInt8) : Prop where
  required_pos : 1 ≤ signaturesRequired.toNat
  required_le : signaturesRequired.toNat ≤ Bitmap.popcount signers
  provider_unique : ∀ b ∈ setBits signers, ∀ b' ∈ setBits signers, nodeSlots ≤ b →
    nodeSlots ≤ b' → b = b'

theorem length_le_one_iff {α : Type*} {l : List α} (hl : l.Nodup) :
    l.length ≤ 1 ↔ ∀ a ∈ l, ∀ b ∈ l, a = b := by
  cases l with
  | nil => simp
  | cons a l =>
    cases l with
    | nil => simp
    | cons b l =>
      have hab : a ≠ b := fun h => by simp [h] at hl
      constructor
      · intro h
        simp at h
      · intro h
        exact absurd (h a (by simp) b (by simp)) hab

theorem checkQuorum_eq_ok_iff {signers : Bitmap} {signaturesRequired : UInt8} :
    checkQuorum signers signaturesRequired = .ok () ↔ MeetsQuorum signers signaturesRequired := by
  have hrequired : signaturesRequired = 0 ↔ signaturesRequired.toNat = 0 := by
    rw [← UInt8.toNat_inj]
    rfl
  have hempty : signers = Bitmap.empty ↔ Bitmap.popcount signers = 0 := by
    rw [Bitmap.popcount_eq_length, List.length_eq_zero_iff, setBits_eq_nil_iff, Bitmap.empty]
  have hprovider : Bitmap.popcount (Bitmap.providerBits signers) ≤ 1 ↔
      ∀ b ∈ setBits signers, ∀ b' ∈ setBits signers, nodeSlots ≤ b → nodeSlots ≤ b' → b = b' := by
    rw [Bitmap.popcount_eq_length, length_le_one_iff (nodup_setBits _)]
    simp only [Bitmap.mem_setBits_providerBits, and_imp]
    exact ⟨fun h b hb b' hb' hp hp' => h b hb hp b' hb' hp',
      fun h b hb hp b' hb' hp' => h b hb b' hb' hp hp'⟩
  rw [checkQuorum]
  constructor
  · intro h
    split_ifs at h with h₁ h₂ h₃ h₄
    rw [hrequired] at h₂
    exact ⟨by omega, by omega, hprovider.mp (by omega)⟩
  · rintro ⟨hpos, hle, hunique⟩
    have hone := hprovider.mpr hunique
    rw [if_neg (by rw [hempty]; omega), if_neg (by rw [hrequired]; omega), if_neg (by omega),
      if_neg (by omega)]

end Quorum

end MolphaVerifier
