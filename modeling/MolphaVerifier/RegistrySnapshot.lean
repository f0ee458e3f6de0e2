import MolphaVerifier.RankedFilters
import MolphaVerifier.SignerBitmap

/-!
# Registry snapshots

A snapshot holds two tables of member records, nodes and providers, each with its own slot count and
with holes where members were removed. `signer` maps a bit of a signer bitmap to its record; it
succeeds exactly when the bit names a live record, which is what `NamesLiveRecord` says. `liveSlots`
lists the live node slots.
-/

namespace MolphaVerifier

open FixedBytes BitVecIteration RankedFilters

/-- Affine coordinates `(x, y)`, big-endian. -/
abbrev SignerXy : Type := Bytes 32 × Bytes 32

/-- One registry member: account address and affine coordinates of its key. -/
structure NodeEntry where
  account : Bytes 32
  x : Bytes 32
  y : Bytes 32
  deriving DecidableEq

namespace NodeEntry

def xy (entry : NodeEntry) : SignerXy := (entry.x, entry.y)

/-- Eight bytes of the account as a little-endian word. -/
def accountWord (entry : NodeEntry) (i : ℕ) (h : i + 8 ≤ 32 := by omega) : UInt64 :=
  UInt64.ofNat (bytesToNat (slice entry.account i 8).reverse)

/-- A hole has an all-zero account; it is tested by four words. -/
def isVacant (entry : NodeEntry) : Bool :=
  (entry.accountWord 0 ||| entry.accountWord 8 ||| entry.accountWord 16 |||
    entry.accountWord 24) == 0

theorem accountWord_eq_zero_iff (entry : NodeEntry) (i : ℕ) (h : i + 8 ≤ 32) :
    entry.accountWord i h = 0 ↔ ∀ j (hj : j < 8), entry.account[i + j] = 0 := by
  have hlt := bytesToNat_lt (slice entry.account i 8).reverse
  rw [accountWord, ← UInt64.toNat_inj, UInt64.toNat_ofNat_of_lt' hlt, UInt64.toNat_zero,
    bytesToNat_eq_zero_iff]
  constructor
  · intro hzero j hj
    have := hzero (7 - j) (by omega)
    rw [Vector.getElem_reverse, slice_getElem _ _ _ _ _ (by omega)] at this
    simpa [show 8 - 1 - (7 - j) = j by omega] using this
  · intro hzero j hj
    rw [Vector.getElem_reverse, slice_getElem _ _ _ _ _ (by omega)]
    exact hzero _ (by omega)

theorem isVacant_iff (entry : NodeEntry) :
    entry.isVacant = true ↔ ∀ i (h : i < 32), entry.account[i] = 0 := by
  simp only [isVacant, beq_iff_eq, UInt64.or_eq_zero_iff, accountWord_eq_zero_iff]
  constructor
  · rintro ⟨⟨⟨h₀, h₁⟩, h₂⟩, h₃⟩ i hi
    rcases Nat.lt_or_ge i 8 with h | h
    · simpa using h₀ i h
    rcases Nat.lt_or_ge i 16 with h' | h'
    · simpa [show 8 + (i - 8) = i by omega] using h₁ (i - 8) (by omega)
    rcases Nat.lt_or_ge i 24 with h'' | h''
    · simpa [show 16 + (i - 16) = i by omega] using h₂ (i - 16) (by omega)
    · simpa [show 24 + (i - 24) = i by omega] using h₃ (i - 24) (by omega)
  · intro h
    exact ⟨⟨⟨fun j hj => h _ (by omega), fun j hj => h _ (by omega)⟩, fun j hj => h _ (by omega)⟩,
      fun j hj => h _ (by omega)⟩

theorem isVacant_eq_false_iff (entry : NodeEntry) :
    entry.isVacant = false ↔ 0 < bytesToNat entry.account := by
  rw [← Bool.not_eq_true, isVacant_iff, ← bytesToNat_eq_zero_iff, Nat.pos_iff_ne_zero]

end NodeEntry

/-- Immutable, version-addressed registry snapshot. The counts include the holes. -/
structure RegistryView where
  version : UInt32
  nodeCount : UInt16
  providerCount : UInt16
  redundancyBuffer : UInt8
  nodes : List NodeEntry
  providers : List NodeEntry
  deriving DecidableEq

namespace RegistryView

/-- The member bound to a signer bit. -/
def signer (registry : RegistryView) (bit : ℕ) : Except AttestationError NodeEntry :=
  let (table, slot, count) :=
    if bit < nodeSlots then (registry.nodes, bit, registry.nodeCount)
    else (registry.providers, bit - providerBitBase, registry.providerCount)
  if slot ≥ count.toNat then .error .invalidSignersBitmap
  else
    match table[slot]? with
    | some member => if !member.isVacant then .ok member else .error .invalidSignersBitmap
    | none => .error .invalidSignersBitmap

/-- The live node slots in ascending order. Without a table that covers the slots examined, every
slot counts as live. -/
def liveSlots (registry : RegistryView) : List ℕ :=
  let slots := min registry.nodeCount.toNat nodeSlots
  let table := if slots ≤ registry.nodes.length then some (registry.nodes.take slots) else none
  (List.range slots).foldl (fun out slot =>
    if table.all fun nodes => nodes[slot]?.any fun node => !node.isVacant then out ++ [slot]
    else out) []

def liveCount (registry : RegistryView) : ℕ := registry.liveSlots.length

/-- The bit names the record in its segment's table, below the segment's count, and the record is
not a hole. -/
structure NamesLiveRecord (registry : RegistryView) (bit : ℕ) (member : NodeEntry) : Prop where
  of_node : bit < nodeSlots → bit < registry.nodeCount.toNat ∧ registry.nodes[bit]? = some member
  of_provider : nodeSlots ≤ bit → bit - nodeSlots < registry.providerCount.toNat ∧
    registry.providers[bit - nodeSlots]? = some member
  live : member.isVacant = false

variable {registry : RegistryView} {bit : ℕ} {member : NodeEntry}

theorem namesLiveRecord_of_node (hbit : bit < nodeSlots) :
    registry.NamesLiveRecord bit member ↔ (bit < registry.nodeCount.toNat ∧
      registry.nodes[bit]? = some member) ∧ member.isVacant = false :=
  ⟨fun h => ⟨h.of_node hbit, h.live⟩,
    fun h => ⟨fun _ => h.1, fun hge => absurd hbit (Nat.not_lt.mpr hge), h.2⟩⟩

theorem namesLiveRecord_of_provider (hbit : nodeSlots ≤ bit) :
    registry.NamesLiveRecord bit member ↔ (bit - nodeSlots < registry.providerCount.toNat ∧
      registry.providers[bit - nodeSlots]? = some member) ∧ member.isVacant = false :=
  ⟨fun h => ⟨h.of_provider hbit, h.live⟩,
    fun h => ⟨fun hlt => absurd hlt (Nat.not_lt.mpr hbit), fun _ => h.1, h.2⟩⟩

theorem signer_eq_ok_iff :
    registry.signer bit = .ok member ↔ registry.NamesLiveRecord bit member := by
  have hread (table : List NodeEntry) (slot : ℕ) (count : UInt16) :
      (if slot ≥ count.toNat then .error .invalidSignersBitmap
        else
          match table[slot]? with
          | some member => if !member.isVacant then .ok member else .error .invalidSignersBitmap
          | none => .error .invalidSignersBitmap : Except AttestationError NodeEntry) = .ok member ↔
        (slot < count.toNat ∧ table[slot]? = some member) ∧ member.isVacant = false := by
    by_cases hslot : slot ≥ count.toNat
    · simp [hslot, Nat.not_lt.mpr hslot]
    · rw [if_neg hslot]
      cases hrecord : table[slot]? with
      | none => simp
      | some found =>
        cases hvacant : found.isVacant <;> simp [Nat.lt_of_not_ge hslot] <;> grind
  by_cases hbit : bit < nodeSlots
  · simp only [signer, if_pos hbit, hread]
    exact (namesLiveRecord_of_node hbit).symm
  · simp only [signer, if_neg hbit, hread, providerBitBase]
    exact (namesLiveRecord_of_provider (Nat.not_lt.mp hbit)).symm

theorem signer_eq_error (h : ∀ member, registry.signer bit ≠ .ok member) :
    registry.signer bit = .error .invalidSignersBitmap := by
  unfold signer at h ⊢
  grind

theorem signer_cases (registry : RegistryView) (bit : ℕ) :
    (∃ member, registry.signer bit = .ok member) ∨
      registry.signer bit = .error .invalidSignersBitmap := by
  by_cases h : ∃ member, registry.signer bit = .ok member
  · exact .inl h
  · exact .inr (signer_eq_error (by simpa using h))

section LiveNodes

def examinedSlots (registry : RegistryView) : ℕ := min registry.nodeCount.toNat nodeSlots

/-- The slot is examined and its record is not a hole. -/
def isLiveNode (registry : RegistryView) (slot : ℕ) : Bool :=
  decide (slot < registry.examinedSlots) && registry.nodes[slot]?.any fun node => !node.isVacant

variable {slot : ℕ}

theorem isLiveNode_iff : registry.isLiveNode slot = true ↔
    slot < nodeSlots ∧ ∃ member, registry.NamesLiveRecord slot member := by
  rw [isLiveNode, Bool.and_eq_true, decide_eq_true_eq, examinedSlots, Nat.lt_min]
  constructor
  · rintro ⟨⟨hcount, hslot⟩, hany⟩
    cases hrecord : registry.nodes[slot]? with
    | none => simp [hrecord] at hany
    | some member =>
      have hlive : member.isVacant = false := by simpa [hrecord] using hany
      exact ⟨hslot, member, (namesLiveRecord_of_node hslot).mpr ⟨⟨hcount, hrecord⟩, hlive⟩⟩
  · rintro ⟨hslot, member, hmember⟩
    obtain ⟨⟨hcount, hrecord⟩, hlive⟩ := (namesLiveRecord_of_node hslot).mp hmember
    exact ⟨⟨hcount, hslot⟩, by simp [hrecord, hlive]⟩

/-- With a table that covers the examined slots, the live slots are those with a live record. -/
theorem liveSlots_eq (hcover : registry.examinedSlots ≤ registry.nodes.length) :
    registry.liveSlots = membersBelow registry.isLiveNode registry.examinedSlots := by
  rw [examinedSlots] at hcover
  simp only [liveSlots, if_pos hcover, Option.all_some]
  rw [foldl_append_if, List.nil_append, membersBelow, examinedSlots]
  refine List.filter_congr fun slot hslot => ?_
  rw [List.mem_range] at hslot
  rw [isLiveNode, examinedSlots, decide_eq_true hslot, Bool.true_and,
    List.getElem?_take_of_lt hslot]

/-- Whatever the tables are, the live slots are some of the examined ones, ascending. -/
theorem exists_liveSlots_eq (registry : RegistryView) :
    ∃ test, registry.liveSlots = membersBelow test registry.examinedSlots := by
  refine ⟨fun slot => (if registry.examinedSlots ≤ registry.nodes.length then
    some (registry.nodes.take registry.examinedSlots) else none).all fun nodes =>
      nodes[slot]?.any fun node => !node.isVacant, ?_⟩
  exact foldl_append_if _ _ _

theorem mem_liveSlots (hslot : slot < nodeSlots) (h : registry.NamesLiveRecord slot member) :
    slot ∈ registry.liveSlots := by
  have hcount := ((namesLiveRecord_of_node hslot).mp h).1.1
  by_cases hcover : registry.examinedSlots ≤ registry.nodes.length
  · rw [liveSlots_eq hcover, membersBelow, List.mem_filter, List.mem_range]
    exact ⟨Nat.lt_min.mpr ⟨hcount, hslot⟩, isLiveNode_iff.mpr ⟨hslot, member, h⟩⟩
  · rw [examinedSlots] at hcover
    simp only [liveSlots, if_neg hcover]
    rw [foldl_append_if, List.nil_append, List.mem_filter, List.mem_range]
    exact ⟨Nat.lt_min.mpr ⟨hcount, hslot⟩, rfl⟩

theorem examinedSlots_le (registry : RegistryView) : registry.examinedSlots ≤ nodeSlots :=
  Nat.min_le_right _ _

theorem liveCount_le (registry : RegistryView) : registry.liveCount ≤ nodeSlots := by
  obtain ⟨test, htest⟩ := registry.exists_liveSlots_eq
  rw [liveCount, htest]
  exact (length_membersBelow_le _ _).trans registry.examinedSlots_le

end LiveNodes

end RegistryView

end MolphaVerifier
