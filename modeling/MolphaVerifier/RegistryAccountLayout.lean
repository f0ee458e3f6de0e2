import MolphaVerifier.PackedRecords
import MolphaVerifier.RegistrySnapshot

/-!
# The registry account

A registry account is a discriminator, a 24-byte header and a tail of 96-byte member records: the
node table, the provider table and spare capacity. `RegistryAccount.load` checks the owner and the
shape once; the accessors then read at fixed offsets. An accessor that would index out of range
returns `none`, so `load_exact` also says that no accessor panics on a loaded account.
-/

namespace MolphaVerifier

open FixedBytes BitVecIteration PackedRecords

abbrev Pubkey : Type := Bytes 32

def maxRegistryNodes : ℕ := 256

def maxProviderSlots : ℕ := maxRegistryNodes - nodeSlots

def registryDiscriminator : List UInt8 := [47, 174, 110, 246, 184, 182, 252, 218]

def discriminatorLen : ℕ := 8

def registryHeaderLen : ℕ := 32

def registryGraceActiveUntilOffset : ℕ := discriminatorLen

def registryActiveFromOffset : ℕ := registryGraceActiveUntilOffset + 8

def registryVersionOffset : ℕ := registryActiveFromOffset + 8

def registryNodeCountOffset : ℕ := registryVersionOffset + 4

def registryProviderCountOffset : ℕ := registryNodeCountOffset + 1

def registryRedundancyBufferOffset : ℕ := registryProviderCountOffset + 1

def registryBumpOffset : ℕ := registryRedundancyBufferOffset + 1

/-- Offset of the first node record. The provider table follows the node records. -/
def registryNodesOffset : ℕ := registryBumpOffset + 1

/-- The address `dzemhcTeUnUEhDcyUssWP8GfcMCYwKezVg4U1hvdEJe`. -/
def programId : Pubkey := #v[
  9, 122, 24, 119, 31, 103, 166, 199, 25, 106, 207, 76, 62, 195, 145, 217,
  10, 39, 217, 20, 86, 218, 174, 205, 37, 61, 68, 174, 164, 66, 238, 67]

inductive AccountError where
  | attestation (error : AttestationError)
  | accountBorrowFailed
  | invalidAccountOwner
  | invalidRegistryAccount
  | invalidRegistryPda
  deriving DecidableEq, Repr

namespace NodeEntry

/-- The record layout: account, `x`, `y`. -/
def toBytes (entry : NodeEntry) : List UInt8 :=
  entry.account.toList ++ entry.x.toList ++ entry.y.toList

def ofBytes (bytes : List UInt8) : NodeEntry :=
  ⟨ofList 32 (bytes.take 32), ofList 32 ((bytes.drop 32).take 32),
    ofList 32 ((bytes.drop 64).take 32)⟩

/-- Records are 96 bytes without padding, and every byte string of that length is one. -/
def format : RecordFormat UInt8 NodeEntry where
  width := 96
  width_pos := by decide
  encode := toBytes
  decode := ofBytes
  length_encode r := by simp [toBytes]
  decode_encode r := by
    have hx : (r.toBytes.drop 32).take 32 = r.x.toList := by simp [toBytes]
    have hy : (r.toBytes.drop 64).take 32 = r.y.toList := by
      rw [toBytes, List.drop_left' (by simp)]
      exact List.take_of_length_le (by simp)
    have haccount : r.toBytes.take 32 = r.account.toList := by simp [toBytes]
    simp [ofBytes, hx, hy, haccount]
  encode_decode l hl := by
    rw [toBytes, ofBytes]
    simp only []
    rw [toList_ofList (by simp [hl]), toList_ofList (by simp [hl]), toList_ofList (by simp [hl])]
    have hlast : (l.drop 64).take 32 = (l.drop 32).drop 32 := by
      rw [List.take_of_length_le (by simp [hl]), List.drop_drop]
    rw [hlast, List.append_assoc, List.take_append_drop, List.take_append_drop]

/-- A hole is a record whose first 32 bytes are zero. -/
theorem isVacant_eq_false_iff_toBytes (entry : NodeEntry) :
    entry.isVacant = false ↔ entry.toBytes.take 32 ≠ List.replicate 32 0 := by
  have haccount : entry.toBytes.take 32 = entry.account.toList := by simp [toBytes]
  have hzero : (Vector.replicate 32 0 : Bytes 32).toList = List.replicate 32 0 :=
    Vector.toList_replicate
  rw [isVacant_eq_false_iff, haccount, ← hzero, ne_eq, Vector.toList_inj, eq_replicate_zero_iff,
    Nat.pos_iff_ne_zero]

theorem ofBytes_live_iff {bytes : List UInt8} {entry : NodeEntry} (hbytes : bytes.length = 96) :
    ofBytes bytes = entry ∧ entry.isVacant = false ↔
      bytes.take 32 ≠ List.replicate 32 0 ∧ entry.toBytes = bytes := by
  constructor
  · rintro ⟨rfl, hlive⟩
    have hencode : (ofBytes bytes).toBytes = bytes := format.encode_decode bytes hbytes
    rw [isVacant_eq_false_iff_toBytes, hencode] at hlive
    exact ⟨hlive, hencode⟩
  · rintro ⟨hlive, rfl⟩
    exact ⟨format.decode_encode entry, (isVacant_eq_false_iff_toBytes entry).mpr hlive⟩

/-- View packed records without copying; `none` unless their number is whole. -/
def sliceFromBytes (bytes : List UInt8) : Option (List NodeEntry) :=
  if bytes.length % format.width ≠ 0 then none else some (format.unpack bytes)

end NodeEntry

structure AccountInfo where
  key : Pubkey
  owner : Pubkey
  data : List UInt8
  mutablyBorrowed : Bool

structure RegistryAccount where
  key : Pubkey
  data : List UInt8
  deriving DecidableEq

namespace RegistryAccount

/-- Borrow and validate a registry account: owner, discriminator, shape. -/
def load (account : AccountInfo) : Except AccountError RegistryAccount :=
  if account.owner ≠ programId then .error .invalidAccountOwner
  else if account.mutablyBorrowed then .error .accountBorrowFailed
  else
    let data := account.data
    if data.length < registryHeaderLen ∨ data.take discriminatorLen ≠ registryDiscriminator then
      .error .invalidRegistryAccount
    else
      let tableLen := data.length - registryNodesOffset
      let capacity := tableLen / NodeEntry.format.width
      let nodeCount := (data.getD registryNodeCountOffset 0).toNat
      let providerCount := (data.getD registryProviderCountOffset 0).toNat
      if tableLen % NodeEntry.format.width ≠ 0 ∨ capacity > maxRegistryNodes ∨
          nodeCount > nodeSlots ∨ providerCount > maxProviderSlots ∨
          nodeCount + providerCount > capacity then
        .error .invalidRegistryAccount
      else .ok { key := account.key, data := data }

variable (account : RegistryAccount)

def version : Option UInt32 :=
  (readRange account.data registryVersionOffset 4).map fun bytes =>
    UInt32.ofNat (fromLeBytes bytes)

def nodeCount : Option UInt16 :=
  account.data[registryNodeCountOffset]?.map UInt8.toUInt16

def providerCount : Option UInt16 :=
  account.data[registryProviderCountOffset]?.map UInt8.toUInt16

def redundancyBuffer : Option UInt8 := account.data[registryRedundancyBufferOffset]?

def bump : Option UInt8 := account.data[registryBumpOffset]?

/-- Unix seconds this version stops being active at; zero while it is the current one. -/
def graceActiveUntil : Option Int64 :=
  (readRange account.data registryGraceActiveUntilOffset 8).map fun bytes =>
    (UInt64.ofNat (fromLeBytes bytes)).toInt64

/-- Unix seconds this version was created at. -/
def activeFrom : Option Int64 :=
  (readRange account.data registryActiveFromOffset 8).map fun bytes =>
    (UInt64.ofNat (fromLeBytes bytes)).toInt64

/-- Whether the grace window had ended by `unixSecs`. The current version is never retired. -/
def retiredBy (unixSecs : Int64) : Option Bool := do
  let graceActiveUntil ← account.graceActiveUntil
  pure (graceActiveUntil != 0 && decide (graceActiveUntil ≤ unixSecs))

def isActiveAt (unixSecs : Int64) : Option Bool := do
  let activeFrom ← account.activeFrom
  if activeFrom ≤ unixSecs then
    let retired ← account.retiredBy unixSecs
    pure !retired
  else pure false

/-- The node slots, `nodeCount` records. -/
def nodes : Option (List NodeEntry) := do
  let nodeCount ← account.nodeCount
  let bytes ← readRange account.data registryNodesOffset
    (nodeCount.toNat * NodeEntry.format.width)
  NodeEntry.sliceFromBytes bytes

/-- The provider slots, `providerCount` records after the node table. -/
def providers : Option (List NodeEntry) := do
  let nodeCount ← account.nodeCount
  let start := registryNodesOffset + nodeCount.toNat * NodeEntry.format.width
  let providerCount ← account.providerCount
  let bytes ← readRange account.data start (providerCount.toNat * NodeEntry.format.width)
  NodeEntry.sliceFromBytes bytes

/-- Account address of the live node in a slot; a hole is an invalid index. -/
def nodeKey (index : ℕ) : Option (Except AccountError Pubkey) := do
  let nodes ← account.nodes
  match nodes[index]? with
  | some node =>
    pure (if !node.isVacant then .ok node.account else .error (.attestation .invalidNodeIndex))
  | none => pure (.error (.attestation .invalidNodeIndex))

/-- The snapshot the account holds. -/
def view : Option RegistryView := do
  let version ← account.version
  let nodeCount ← account.nodeCount
  let providerCount ← account.providerCount
  let redundancyBuffer ← account.redundancyBuffer
  let nodes ← account.nodes
  let providers ← account.providers
  pure { version, nodeCount, providerCount, redundancyBuffer, nodes, providers }

end RegistryAccount

/-- The header fields in their order. -/
structure RegistryHeader where
  graceActiveUntil : Int64
  activeFrom : Int64
  version : UInt32
  nodeCount : UInt8
  providerCount : UInt8
  redundancyBuffer : UInt8
  bump : UInt8
  deriving DecidableEq

def RegistryHeader.toBytes (header : RegistryHeader) : List UInt8 :=
  toLeBytes 8 header.graceActiveUntil.toUInt64.toNat ++
    (toLeBytes 8 header.activeFrom.toUInt64.toNat ++ (toLeBytes 4 header.version.toNat ++
      [header.nodeCount, header.providerCount, header.redundancyBuffer, header.bump]))

/-- The account data of a header and a list of records. -/
def serializeRegistry (header : RegistryHeader) (records : List NodeEntry) : List UInt8 :=
  registryDiscriminator ++ (header.toBytes ++ NodeEntry.format.pack records)

/-- The format: discriminator, header, `capacity` records, and counts within the three bounds. -/
structure RegistryShape (data : List UInt8) (capacity : ℕ) : Prop where
  discriminator : data.take discriminatorLen = registryDiscriminator
  length_eq : data.length = discriminatorLen + 24 + 96 * capacity
  capacity_le : capacity ≤ maxRegistryNodes
  nodeCount_le : (data.getD registryNodeCountOffset 0).toNat ≤ nodeSlots
  providerCount_le : (data.getD registryProviderCountOffset 0).toNat ≤ maxProviderSlots
  counts_le : (data.getD registryNodeCountOffset 0).toNat +
    (data.getD registryProviderCountOffset 0).toNat ≤ capacity

/-- Where the record of a signer bit begins. -/
def signerOffset (nodeCount bit : ℕ) : ℕ :=
  if bit < nodeSlots then registryNodesOffset + 96 * bit
  else registryNodesOffset + 96 * (nodeCount + (bit - nodeSlots))

theorem registryHeaderLen_eq : registryHeaderLen = 32 := rfl

theorem registryNodesOffset_eq : registryNodesOffset = 32 := rfl

theorem registryNodeCountOffset_eq : registryNodeCountOffset = 28 := rfl

theorem width_format : NodeEntry.format.width = 96 := rfl

namespace RegistryShape

variable {data : List UInt8} {capacity : ℕ}

theorem length_data (h : RegistryShape data capacity) : data.length = 32 + 96 * capacity :=
  h.length_eq

theorem getElem?_header (h : RegistryShape data capacity) {i : ℕ} (hi : i < 32) :
    data[i]? = some (data.getD i 0) := by
  have hlength := h.length_data
  rw [List.getD_eq_getElem?_getD, List.getElem?_eq_getElem (by omega)]
  rfl

end RegistryShape

/-- The checks of the loader, in its order, describe the shape. -/
theorem exists_registryShape_iff (data : List UInt8) :
    (∃ capacity, RegistryShape data capacity) ↔
      ¬(data.length < registryHeaderLen ∨ data.take discriminatorLen ≠ registryDiscriminator) ∧
      ¬((data.length - registryNodesOffset) % NodeEntry.format.width ≠ 0 ∨
        (data.length - registryNodesOffset) / NodeEntry.format.width > maxRegistryNodes ∨
        (data.getD registryNodeCountOffset 0).toNat > nodeSlots ∨
        (data.getD registryProviderCountOffset 0).toNat > maxProviderSlots ∨
        (data.getD registryNodeCountOffset 0).toNat +
            (data.getD registryProviderCountOffset 0).toNat >
          (data.length - registryNodesOffset) / NodeEntry.format.width) := by
  rw [registryHeaderLen_eq, registryNodesOffset_eq, width_format]
  constructor
  · rintro ⟨capacity, h⟩
    have hlength := h.length_data
    have hquot : (data.length - 32) / 96 = capacity := by omega
    have hcapacity := h.capacity_le
    have hnodes := h.nodeCount_le
    have hproviders := h.providerCount_le
    have hcounts := h.counts_le
    rw [hquot]
    refine ⟨?_, by omega⟩
    rintro (hshort | htag)
    · omega
    · exact htag h.discriminator
  · simp only [not_or, not_lt, ne_eq, not_not, gt_iff_lt]
    rintro ⟨⟨hlong, htag⟩, hwhole, hcapacity, hnodes, hproviders, hcounts⟩
    refine ⟨(data.length - 32) / 96, htag, ?_, hcapacity, hnodes, hproviders, hcounts⟩
    rw [discriminatorLen]
    omega

namespace RegistryAccount

variable {account : AccountInfo} {registry : RegistryAccount} {capacity : ℕ}

/-- Loading accepts exactly the accounts of the program whose data has the shape. -/
theorem load_eq_ok_iff :
    load account = .ok registry ↔ account.owner = programId ∧ account.mutablyBorrowed = false ∧
      (∃ capacity, RegistryShape account.data capacity) ∧
      registry = ⟨account.key, account.data⟩ := by
  rw [load, exists_registryShape_iff]
  by_cases howner : account.owner = programId
  swap
  · simp [howner]
  cases hborrowed : account.mutablyBorrowed with
  | true => simp [howner]
  | false =>
    simp only [howner, ne_eq, not_true_eq_false, if_false, Bool.false_eq_true, true_and]
    split
    next hframe =>
      simp only [reduceCtorEq, false_iff]
      exact fun h => h.1.1 hframe
    next hframe =>
      split
      next hshape =>
        simp only [reduceCtorEq, false_iff]
        exact fun h => h.1.2 hshape
      next hshape =>
        rw [and_iff_right ⟨hframe, hshape⟩, Except.ok.injEq]
        exact eq_comm

/-- What the account stores, as the accessors see it: the tables are the records from the node offset
on, nodes first. -/
structure HoldsView (registry : RegistryAccount) (view : RegistryView) : Prop where
  view_eq : registry.view = some view
  nodes_eq : registry.nodes = some view.nodes
  providers_eq : registry.providers = some view.providers
  nodeCount_eq : view.nodeCount.toNat = (registry.data.getD registryNodeCountOffset 0).toNat
  providerCount_eq :
    view.providerCount.toNat = (registry.data.getD registryProviderCountOffset 0).toNat
  getElem?_nodes : ∀ i, view.nodes[i]? =
    if i < view.nodeCount.toNat then
      some (NodeEntry.ofBytes ((registry.data.drop (registryNodesOffset + 96 * i)).take 96))
    else none
  getElem?_providers : ∀ i, view.providers[i]? =
    if i < view.providerCount.toNat then
      some (NodeEntry.ofBytes ((registry.data.drop
        (registryNodesOffset + 96 * (view.nodeCount.toNat + i))).take 96))
    else none

section Accessors

variable (h : RegistryShape registry.data capacity)

include h

theorem nodeCount_eq :
    registry.nodeCount = some (registry.data.getD registryNodeCountOffset 0).toUInt16 := by
  rw [nodeCount, h.getElem?_header (by decide)]
  rfl

theorem providerCount_eq :
    registry.providerCount = some (registry.data.getD registryProviderCountOffset 0).toUInt16 := by
  rw [providerCount, h.getElem?_header (by decide)]
  rfl

theorem exists_readRange_header (offset len : ℕ) (hle : offset + len ≤ 32) :
    ∃ bytes, readRange registry.data offset len = some bytes :=
  ⟨_, readRange_of_le (by have := h.length_data; omega)⟩

theorem exists_version : ∃ version, registry.version = some version := by
  obtain ⟨bytes, hbytes⟩ := exists_readRange_header h registryVersionOffset 4 (by decide)
  exact ⟨_, by rw [version, hbytes]; rfl⟩

theorem exists_graceActiveUntil :
    ∃ graceActiveUntil, registry.graceActiveUntil = some graceActiveUntil := by
  obtain ⟨bytes, hbytes⟩ := exists_readRange_header h registryGraceActiveUntilOffset 8 (by decide)
  exact ⟨_, by rw [graceActiveUntil, hbytes]; rfl⟩

theorem exists_activeFrom : ∃ activeFrom, registry.activeFrom = some activeFrom := by
  obtain ⟨bytes, hbytes⟩ := exists_readRange_header h registryActiveFromOffset 8 (by decide)
  exact ⟨_, by rw [activeFrom, hbytes]; rfl⟩

theorem exists_retiredBy (unixSecs : Int64) :
    ∃ retired, registry.retiredBy unixSecs = some retired := by
  obtain ⟨graceActiveUntil, hgrace⟩ := exists_graceActiveUntil h
  exact ⟨_, by rw [retiredBy, hgrace]; rfl⟩

theorem exists_isActiveAt (unixSecs : Int64) :
    ∃ active, registry.isActiveAt unixSecs = some active := by
  obtain ⟨activeFrom, hactive⟩ := exists_activeFrom h
  obtain ⟨retired, hretired⟩ := exists_retiredBy h unixSecs
  rw [isActiveAt, hactive]
  change ∃ active, (if activeFrom ≤ unixSecs then
    registry.retiredBy unixSecs >>= fun retired => pure !retired else pure false) = some active
  rw [hretired]
  split
  · exact ⟨_, rfl⟩
  · exact ⟨_, rfl⟩

omit h in
theorem exists_table (registry : RegistryAccount) (start count : ℕ)
    (hfit : start + 96 * count ≤ registry.data.length) :
    ∃ table, (readRange registry.data start (count * NodeEntry.format.width) >>=
        NodeEntry.sliceFromBytes) = some table ∧
      ∀ i, table[i]? =
        if i < count then some (NodeEntry.ofBytes ((registry.data.drop (start + 96 * i)).take 96))
        else none := by
  have hlength : ((registry.data.drop start).take (96 * count)).length = 96 * count := by
    rw [List.length_take, List.length_drop]
    omega
  refine ⟨NodeEntry.format.unpack ((registry.data.drop start).take (96 * count)), ?_, fun i =>
    RecordFormat.getElem?_unpack_range (F := NodeEntry.format) hfit⟩
  rw [width_format, Nat.mul_comm, readRange_of_le hfit]
  change NodeEntry.sliceFromBytes _ = _
  rw [NodeEntry.sliceFromBytes, hlength, width_format, if_neg (by simp)]

/-- The view exists, and its tables are the records from the node offset on, nodes first. -/
theorem exists_holdsView : ∃ view, registry.HoldsView view := by
  obtain ⟨version, hversion⟩ := exists_version h
  have hbuffer : registry.redundancyBuffer =
      some (registry.data.getD registryRedundancyBufferOffset 0) := h.getElem?_header (by decide)
  have hlength := h.length_data
  have hcounts := h.counts_le
  have hnodeCount := nodeCount_eq h
  have hproviderCount := providerCount_eq h
  set nodeByte := registry.data.getD registryNodeCountOffset 0
  set providerByte := registry.data.getD registryProviderCountOffset 0
  obtain ⟨nodes, hnodes, hnode⟩ := exists_table registry registryNodesOffset
    nodeByte.toNat (by rw [registryNodesOffset_eq]; omega)
  obtain ⟨providers, hproviders, hprovider⟩ := exists_table registry
    (registryNodesOffset + nodeByte.toNat * NodeEntry.format.width) providerByte.toNat
    (by rw [registryNodesOffset_eq, width_format]; omega)
  have hnodesEq : registry.nodes = some nodes := by
    rw [RegistryAccount.nodes, hnodeCount]
    exact hnodes
  have hprovidersEq : registry.providers = some providers := by
    rw [RegistryAccount.providers, hnodeCount, hproviderCount]
    exact hproviders
  refine ⟨⟨version, nodeByte.toUInt16, providerByte.toUInt16,
    registry.data.getD registryRedundancyBufferOffset 0, nodes, providers⟩, ?_, hnodesEq,
    hprovidersEq, UInt8.toNat_toUInt16 _, UInt8.toNat_toUInt16 _, ?_, ?_⟩
  · rw [RegistryAccount.view, hversion, hnodeCount, hproviderCount, hbuffer, hnodesEq, hprovidersEq]
    rfl
  · exact hnode
  · intro i
    rw [hprovider, UInt8.toNat_toUInt16, UInt8.toNat_toUInt16, width_format]
    rw [show registryNodesOffset + nodeByte.toNat * 96 + 96 * i =
      registryNodesOffset + 96 * (nodeByte.toNat + i) by ring]

end Accessors

namespace HoldsView

variable {view : RegistryView} {bit bit' : ℕ} {member : NodeEntry}

/-- The bit's slot is below the count of its segment. -/
def BelowCount (view : RegistryView) (bit : ℕ) : Prop :=
  (bit < nodeSlots ∧ bit < view.nodeCount.toNat) ∨
    (nodeSlots ≤ bit ∧ bit - nodeSlots < view.providerCount.toNat)

theorem signerOffset_bounds (hbit : BelowCount view bit) :
    registryNodesOffset ≤ signerOffset view.nodeCount.toNat bit ∧
      signerOffset view.nodeCount.toNat bit + 96 ≤
        registryNodesOffset + 96 * (view.nodeCount.toNat + view.providerCount.toNat) := by
  rw [signerOffset]
  rcases hbit with ⟨hnode, hlt⟩ | ⟨hprovider, hlt⟩
  · rw [if_pos hnode]
    omega
  · rw [if_neg (Nat.not_lt.mpr hprovider)]
    omega

theorem signerOffset_disjoint (hbit : BelowCount view bit) (hbit' : BelowCount view bit')
    (hne : bit ≠ bit') :
    signerOffset view.nodeCount.toNat bit + 96 ≤ signerOffset view.nodeCount.toNat bit' ∨
      signerOffset view.nodeCount.toNat bit' + 96 ≤ signerOffset view.nodeCount.toNat bit := by
  simp only [signerOffset]
  rcases hbit with ⟨h, hlt⟩ | ⟨h, hlt⟩ <;> rcases hbit' with ⟨h', hlt'⟩ | ⟨h', hlt'⟩
  · rw [if_pos h, if_pos h']
    omega
  · rw [if_pos h, if_neg (Nat.not_lt.mpr h')]
    omega
  · rw [if_neg (Nat.not_lt.mpr h), if_pos h']
    omega
  · rw [if_neg (Nat.not_lt.mpr h), if_neg (Nat.not_lt.mpr h')]
    omega

theorem tables_fit (hv : registry.HoldsView view) (h : RegistryShape registry.data capacity) :
    registryNodesOffset + 96 * (view.nodeCount.toNat + view.providerCount.toNat) ≤
      registry.data.length := by
  have hlength := h.length_data
  have hcounts := h.counts_le
  rw [hv.nodeCount_eq, hv.providerCount_eq, registryNodesOffset_eq]
  omega

theorem signer_eq_ok_iff (hv : registry.HoldsView view) (h : RegistryShape registry.data capacity) :
    view.signer bit = .ok member ↔ BelowCount view bit ∧
      (registry.data.drop (signerOffset view.nodeCount.toNat bit)).take 32 ≠ List.replicate 32 0 ∧
      member.toBytes = (registry.data.drop (signerOffset view.nodeCount.toNat bit)).take 96 := by
  have hread (hbelow : BelowCount view bit) :
      NodeEntry.ofBytes ((registry.data.drop (signerOffset view.nodeCount.toNat bit)).take 96) =
          member ∧ member.isVacant = false ↔
        (registry.data.drop (signerOffset view.nodeCount.toNat bit)).take 32 ≠
            List.replicate 32 0 ∧
          member.toBytes =
            (registry.data.drop (signerOffset view.nodeCount.toNat bit)).take 96 := by
    have hfit := hv.tables_fit h
    have hbounds := signerOffset_bounds hbelow
    rw [NodeEntry.ofBytes_live_iff (by rw [List.length_take, List.length_drop]; omega),
      List.take_take, show min 32 96 = 32 from rfl]
  rw [RegistryView.signer_eq_ok_iff]
  by_cases hnode : bit < nodeSlots
  · have hbelow : BelowCount view bit ↔ bit < view.nodeCount.toNat := by
      simp [BelowCount, hnode, Nat.not_le.mpr hnode]
    rw [RegistryView.namesLiveRecord_of_node hnode, hv.getElem?_nodes, hbelow, and_assoc]
    refine and_congr_right fun hlt => ?_
    rw [if_pos hlt, ← hread (hbelow.mpr hlt), signerOffset, if_pos hnode, Option.some.injEq]
  · have hbelow : BelowCount view bit ↔ bit - nodeSlots < view.providerCount.toNat := by
      simp [BelowCount, hnode, Nat.not_lt.mp hnode]
    rw [RegistryView.namesLiveRecord_of_provider (Nat.not_lt.mp hnode), hv.getElem?_providers,
      hbelow, and_assoc]
    refine and_congr_right fun hlt => ?_
    rw [if_pos hlt, ← hread (hbelow.mpr hlt), signerOffset, if_neg hnode, Option.some.injEq]

end HoldsView

/-- The accessors return this header and these tables. -/
structure Holds (registry : RegistryAccount) (header : RegistryHeader)
    (nodes providers : List NodeEntry) : Prop where
  graceActiveUntil_eq : registry.graceActiveUntil = some header.graceActiveUntil
  activeFrom_eq : registry.activeFrom = some header.activeFrom
  version_eq : registry.version = some header.version
  nodeCount_eq : registry.nodeCount = some header.nodeCount.toUInt16
  providerCount_eq : registry.providerCount = some header.providerCount.toUInt16
  redundancyBuffer_eq : registry.redundancyBuffer = some header.redundancyBuffer
  bump_eq : registry.bump = some header.bump
  nodes_eq : registry.nodes = some nodes
  providers_eq : registry.providers = some providers

section RoundTrip

variable (header : RegistryHeader) (records : List NodeEntry)

theorem serializeRegistry_eq :
    ∃ front : List UInt8, front.length = registryNodeCountOffset ∧
      serializeRegistry header records = front ++ (header.nodeCount :: header.providerCount ::
        header.redundancyBuffer :: header.bump :: NodeEntry.format.pack records) := by
  refine ⟨registryDiscriminator ++ (toLeBytes 8 header.graceActiveUntil.toUInt64.toNat ++
    (toLeBytes 8 header.activeFrom.toUInt64.toNat ++ toLeBytes 4 header.version.toNat)), ?_, ?_⟩
  · simp only [List.length_append, length_toLeBytes]
    rfl
  · simp [serializeRegistry, RegistryHeader.toBytes]

theorem getElem?_serializeRegistry :
    (serializeRegistry header records)[registryNodeCountOffset]? = some header.nodeCount ∧
      (serializeRegistry header records)[registryProviderCountOffset]? =
        some header.providerCount ∧
      (serializeRegistry header records)[registryRedundancyBufferOffset]? =
        some header.redundancyBuffer ∧
      (serializeRegistry header records)[registryBumpOffset]? = some header.bump := by
  obtain ⟨front, hfront, heq⟩ := serializeRegistry_eq header records
  rw [heq]
  exact ⟨getElem?_append_add hfront 0, getElem?_append_add hfront 1, getElem?_append_add hfront 2,
    getElem?_append_add hfront 3⟩

theorem readRange_serializeRegistry :
    readRange (serializeRegistry header records) registryGraceActiveUntilOffset 8 =
        some (toLeBytes 8 header.graceActiveUntil.toUInt64.toNat) ∧
      readRange (serializeRegistry header records) registryActiveFromOffset 8 =
        some (toLeBytes 8 header.activeFrom.toUInt64.toNat) ∧
      readRange (serializeRegistry header records) registryVersionOffset 4 =
        some (toLeBytes 4 header.version.toNat) := by
  obtain ⟨tail, heq⟩ : ∃ tail, serializeRegistry header records = registryDiscriminator ++
      (toLeBytes 8 header.graceActiveUntil.toUInt64.toNat ++
        (toLeBytes 8 header.activeFrom.toUInt64.toNat ++
          (toLeBytes 4 header.version.toNat ++ tail))) :=
    ⟨_, by simp only [serializeRegistry, RegistryHeader.toBytes, List.append_assoc]; rfl⟩
  rw [heq]
  refine ⟨readRange_append rfl (length_toLeBytes _ _), ?_, ?_⟩
  · rw [← List.append_assoc]
    refine readRange_append ?_ (length_toLeBytes _ _)
    rw [List.length_append, length_toLeBytes]
    rfl
  · rw [← List.append_assoc, ← List.append_assoc]
    refine readRange_append ?_ (length_toLeBytes _ _)
    rw [List.length_append, List.length_append, length_toLeBytes, length_toLeBytes]
    rfl

theorem length_serializeRegistry :
    (serializeRegistry header records).length = 32 + 96 * records.length := by
  obtain ⟨front, hfront, heq⟩ := serializeRegistry_eq header records
  rw [heq, List.length_append, hfront]
  simp only [List.length_cons, RecordFormat.length_pack, width_format, registryNodeCountOffset_eq]
  omega

theorem registryShape_serializeRegistry (hcapacity : records.length ≤ maxRegistryNodes)
    (hnodes : header.nodeCount.toNat ≤ nodeSlots)
    (hproviders : header.providerCount.toNat ≤ maxProviderSlots)
    (hcounts : header.nodeCount.toNat + header.providerCount.toNat ≤ records.length) :
    RegistryShape (serializeRegistry header records) records.length := by
  obtain ⟨hnode, hprovider, -, -⟩ := getElem?_serializeRegistry header records
  have hnodeByte : (serializeRegistry header records).getD registryNodeCountOffset 0 =
      header.nodeCount := by rw [List.getD_eq_getElem?_getD, hnode]; rfl
  have hproviderByte : (serializeRegistry header records).getD registryProviderCountOffset 0 =
      header.providerCount := by rw [List.getD_eq_getElem?_getD, hprovider]; rfl
  refine ⟨?_, length_serializeRegistry header records, hcapacity, ?_, ?_, ?_⟩
  · exact List.take_left' rfl
  · rwa [hnodeByte]
  · rwa [hproviderByte]
  · rwa [hnodeByte, hproviderByte]

variable {header} {nodes providers spare : List NodeEntry}

theorem readTable {front tail : List UInt8} {table : List NodeEntry} {start count : ℕ}
    (hfront : front.length = start) (hcount : table.length = count) :
    (readRange (front ++ (NodeEntry.format.pack table ++ tail)) start
      (count * NodeEntry.format.width) >>= NodeEntry.sliceFromBytes) = some table := by
  have hlength : (NodeEntry.format.pack table).length = count * NodeEntry.format.width := by
    rw [RecordFormat.length_pack, hcount, Nat.mul_comm]
  rw [readRange_append hfront hlength]
  change NodeEntry.sliceFromBytes _ = _
  rw [NodeEntry.sliceFromBytes, hlength, if_neg (by simp), RecordFormat.unpack_pack]

/-- What was serialized is what the accessors return. -/
theorem holds_serializeRegistry (key : Pubkey) (hnodes : nodes.length = header.nodeCount.toNat)
    (hproviders : providers.length = header.providerCount.toNat) :
    Holds ⟨key, serializeRegistry header (nodes ++ (providers ++ spare))⟩ header nodes providers := by
  obtain ⟨hnodeByte, hproviderByte, hbuffer, hbump⟩ :=
    getElem?_serializeRegistry header (nodes ++ (providers ++ spare))
  obtain ⟨hgrace, hactive, hversion⟩ :=
    readRange_serializeRegistry header (nodes ++ (providers ++ spare))
  have hnodeCount : RegistryAccount.nodeCount
      ⟨key, serializeRegistry header (nodes ++ (providers ++ spare))⟩ =
        some header.nodeCount.toUInt16 := by
    rw [RegistryAccount.nodeCount, hnodeByte]
    rfl
  have hproviderCount : RegistryAccount.providerCount
      ⟨key, serializeRegistry header (nodes ++ (providers ++ spare))⟩ =
        some header.providerCount.toUInt16 := by
    rw [RegistryAccount.providerCount, hproviderByte]
    rfl
  have hheader : (registryDiscriminator ++ header.toBytes).length = registryNodesOffset := by
    rw [RegistryHeader.toBytes]
    simp only [List.length_append, length_toLeBytes]
    rfl
  have hdata : serializeRegistry header (nodes ++ (providers ++ spare)) =
      (registryDiscriminator ++ header.toBytes) ++ (NodeEntry.format.pack nodes ++
        (NodeEntry.format.pack providers ++ NodeEntry.format.pack spare)) := by
    rw [serializeRegistry, RecordFormat.pack_append, RecordFormat.pack_append, List.append_assoc]
  refine ⟨?_, ?_, ?_, hnodeCount, hproviderCount, hbuffer, hbump, ?_, ?_⟩
  · rw [RegistryAccount.graceActiveUntil, hgrace, Option.map_some, uint64_fromLeBytes,
      Int64.toInt64_toUInt64]
  · rw [RegistryAccount.activeFrom, hactive, Option.map_some, uint64_fromLeBytes,
      Int64.toInt64_toUInt64]
  · rw [RegistryAccount.version, hversion, Option.map_some, uint32_fromLeBytes]
  · rw [RegistryAccount.nodes, hnodeCount, hdata]
    exact readTable hheader (by rw [hnodes, UInt8.toNat_toUInt16])
  · rw [RegistryAccount.providers, hnodeCount, hproviderCount, hdata, ← List.append_assoc]
    refine readTable ?_ (by rw [hproviders, UInt8.toNat_toUInt16])
    rw [List.length_append, hheader, RecordFormat.length_pack, hnodes, UInt8.toNat_toUInt16,
      Nat.mul_comm]

end RoundTrip

/-- No accessor indexes out of range. -/
structure AccessorsDefined (registry : RegistryAccount) : Prop where
  version : ∃ version, registry.version = some version
  nodeCount : ∃ nodeCount, registry.nodeCount = some nodeCount
  providerCount : ∃ providerCount, registry.providerCount = some providerCount
  redundancyBuffer : ∃ redundancyBuffer, registry.redundancyBuffer = some redundancyBuffer
  bump : ∃ bump, registry.bump = some bump
  graceActiveUntil : ∃ seconds, registry.graceActiveUntil = some seconds
  activeFrom : ∃ seconds, registry.activeFrom = some seconds
  retiredBy : ∀ unixSecs, ∃ retired, registry.retiredBy unixSecs = some retired
  isActiveAt : ∀ unixSecs, ∃ active, registry.isActiveAt unixSecs = some active
  nodes : ∃ nodes, registry.nodes = some nodes
  providers : ∃ providers, registry.providers = some providers
  nodeKey : ∀ index, ∃ key, registry.nodeKey index = some key
  view : ∃ view, registry.view = some view

theorem accessorsDefined (h : RegistryShape registry.data capacity) :
    registry.AccessorsDefined := by
  obtain ⟨view, hv⟩ := exists_holdsView h
  refine ⟨exists_version h, ⟨_, nodeCount_eq h⟩, ⟨_, providerCount_eq h⟩,
    ⟨_, h.getElem?_header (by decide)⟩, ⟨_, h.getElem?_header (by decide)⟩,
    exists_graceActiveUntil h, exists_activeFrom h, exists_retiredBy h, exists_isActiveAt h,
    ⟨_, hv.nodes_eq⟩, ⟨_, hv.providers_eq⟩, fun index => ?_, ⟨_, hv.view_eq⟩⟩
  rw [nodeKey, hv.nodes_eq]
  change ∃ key, (match view.nodes[index]? with
    | some node => pure (if !node.isVacant then .ok node.account
        else .error (.attestation .invalidNodeIndex))
    | none => pure (.error (.attestation .invalidNodeIndex)) :
      Option (Except AccountError Pubkey)) = some key
  cases view.nodes[index]? with
  | none => exact ⟨_, rfl⟩
  | some node => exact ⟨_, rfl⟩

/-- The loader accepts exactly the format, every accessor of a loaded account is in range, every
signer bit is bound to its own record of the two tables, and serialized accounts read back. -/
theorem load_exact (account : AccountInfo) :
    ((∃ registry, load account = .ok registry) ↔ account.owner = programId ∧
      account.mutablyBorrowed = false ∧ ∃ capacity, RegistryShape account.data capacity) ∧
    (∀ registry, load account = .ok registry → registry.data = account.data ∧
      registry.AccessorsDefined ∧ ∃ view, registry.view = some view ∧
        registry.nodes = some view.nodes ∧ registry.providers = some view.providers ∧
        view.nodeCount.toNat = (account.data.getD registryNodeCountOffset 0).toNat ∧
        view.providerCount.toNat = (account.data.getD registryProviderCountOffset 0).toNat ∧
        (∀ bit member, view.signer bit = .ok member ↔ HoldsView.BelowCount view bit ∧
          (account.data.drop (signerOffset view.nodeCount.toNat bit)).take 32 ≠
              List.replicate 32 0 ∧
          member.toBytes =
            (account.data.drop (signerOffset view.nodeCount.toNat bit)).take 96) ∧
        (∀ bit, HoldsView.BelowCount view bit →
          registryNodesOffset ≤ signerOffset view.nodeCount.toNat bit ∧
          signerOffset view.nodeCount.toNat bit + 96 ≤ registryNodesOffset +
            96 * (view.nodeCount.toNat + view.providerCount.toNat) ∧
          registryNodesOffset + 96 * (view.nodeCount.toNat + view.providerCount.toNat) ≤
            account.data.length) ∧
        ∀ bit bit', HoldsView.BelowCount view bit → HoldsView.BelowCount view bit' → bit ≠ bit' →
          signerOffset view.nodeCount.toNat bit + 96 ≤ signerOffset view.nodeCount.toNat bit' ∨
            signerOffset view.nodeCount.toNat bit' + 96 ≤
              signerOffset view.nodeCount.toNat bit) ∧
    ∀ key header nodes providers spare, nodes.length = header.nodeCount.toNat →
      providers.length = header.providerCount.toNat → nodes.length ≤ nodeSlots →
      providers.length ≤ maxProviderSlots →
      nodes.length + providers.length + spare.length ≤ maxRegistryNodes →
      ∃ registry, load ⟨key, programId,
          serializeRegistry header (nodes ++ (providers ++ spare)), false⟩ = .ok registry ∧
        registry.Holds header nodes providers := by
  refine ⟨?_, ?_, ?_⟩
  · simp only [load_eq_ok_iff, exists_and_left, exists_eq, and_true]
  · intro registry hload
    obtain ⟨-, -, ⟨capacity, hshape⟩, rfl⟩ := load_eq_ok_iff.mp hload
    obtain ⟨view, hv⟩ := @exists_holdsView ⟨account.key, account.data⟩ _ hshape
    exact ⟨rfl, accessorsDefined hshape, view, hv.view_eq, hv.nodes_eq, hv.providers_eq,
      hv.nodeCount_eq, hv.providerCount_eq, fun _ _ => hv.signer_eq_ok_iff hshape,
      fun _ hbit => ⟨(HoldsView.signerOffset_bounds hbit).1, (HoldsView.signerOffset_bounds hbit).2,
        hv.tables_fit hshape⟩,
      fun _ _ => HoldsView.signerOffset_disjoint⟩
  · intro key header nodes providers spare hnodes hproviders hnodesLe hprovidersLe htotal
    have hlength : (nodes ++ (providers ++ spare)).length =
        nodes.length + (providers.length + spare.length) := by
      rw [List.length_append, List.length_append]
    refine ⟨_, load_eq_ok_iff.mpr ⟨rfl, rfl, ⟨_, registryShape_serializeRegistry header
      (nodes ++ (providers ++ spare)) ?_ ?_ ?_ ?_⟩, rfl⟩,
      holds_serializeRegistry key hnodes hproviders⟩
    · omega
    · omega
    · omega
    · omega

def sampleHeader : RegistryHeader := ⟨0, 5, 7, 2, 1, 1, 255⟩

def sampleRecord (byte : UInt8) : NodeEntry :=
  ⟨Vector.replicate 32 byte, Vector.replicate 32 byte, Vector.replicate 32 byte⟩

/-- A node, a hole, a provider and one spare record are read back as the two tables. -/
theorem load_exact_sample :
    ∃ registry, load ⟨Vector.replicate 32 3, programId, serializeRegistry sampleHeader
        ([sampleRecord 1, sampleRecord 0] ++ ([sampleRecord 2] ++ [sampleRecord 9])),
        false⟩ = .ok registry ∧
      registry.Holds sampleHeader [sampleRecord 1, sampleRecord 0] [sampleRecord 2] :=
  (load_exact ⟨Vector.replicate 32 3, programId, serializeRegistry sampleHeader
    ([sampleRecord 1, sampleRecord 0] ++ ([sampleRecord 2] ++ [sampleRecord 9])), false⟩).2.2
    (Vector.replicate 32 3) sampleHeader [sampleRecord 1, sampleRecord 0] [sampleRecord 2]
    [sampleRecord 9] rfl rfl (by decide) (by decide) (by decide)

end RegistryAccount

end MolphaVerifier
