import Mathlib.Algebra.GroupWithZero.Nat
import Mathlib.Data.Finset.Basic
import StateSpectre.Lib.Table

/-!
# The data model of the daemon

The enumerations of the ABI and the records of the daemon's tables: slots,
sessions, leases, locations and cold entries (v1), jobs, canonical objects and
manifests (v2). A record does not repeat the key it is stored under. Identifiers, sizes and
counters are numbers; where the source
computes with them in 32 or 64 bits and the wrapping can be seen, the functions
using them say so (`StateSpectre.Slots`, `StateSpectre.Canonical`).

A slot is the unit of the pinned arenas, and the content of a slot is a string
of bytes (`Bytes`). A copy in a cold tier (`ColdEntry`) keeps the contents of
the slots it was made from, in order.
-/

namespace StateSpectre

/-- The content of a slot. -/
abbrev Bytes := List UInt8

/-- `0xFFFFFFFF`: no slot, no ring, no rank. -/
def noIndex : ℕ := 0xFFFFFFFF

/-! ## Enumerations -/

/-- The states of a slot (`ofld_slot_state_t`). -/
inductive SlotState
  | free
  | reservedD2H
  | d2hInFlight
  | pinnedValid
  | drainInFlight
  | coldValid
  | reservedH2D
  | readbackInFlight
  | h2dInFlight
  | gpuValid
  | error
  deriving DecidableEq, Repr

/-- The kinds of location of a tensor (`ofld_location_kind_t`). -/
inductive LocationKind
  | none
  | gpu
  | pinned
  | pageable
  | nvme
  | deleted
  | error
  deriving DecidableEq, Repr

/-- The kinds are numbered, for the wire. -/
def LocationKind.toNat : LocationKind → ℕ
  | none => 0
  | gpu => 1
  | pinned => 2
  | pageable => 3
  | nvme => 4
  | deleted => 5
  | error => 255

/-- The flag bits of an offload that a modelled function reads or sets. -/
def flagAllowOverflow : ℕ := 1
def flagAllowRemoteNuma : ℕ := 2
def flagDestructive : ℕ := 8

/-- The types of a completion event. Any other number is an unknown event. -/
inductive EventType
  | d2hComplete
  | h2dComplete
  | other
  deriving DecidableEq, Repr

/-- Where the drains copy to (`DrainTarget`). -/
inductive DrainTarget
  | pageableOnly
  | nvmeOnly
  | pageableThenNvme
  deriving DecidableEq, Repr

inductive ObjectState
  | missing
  | creating
  | validPinned
  | validPageable
  | validNvme
  | validMultiTier
  | sealed
  | exportInFlight
  | deleted
  | error
  deriving DecidableEq, Repr

inductive ManifestState
  | open
  | sealing
  | sealed
  | revoked
  | error
  deriving DecidableEq, Repr

inductive DedupMode
  | disabled
  | semanticTrusted
  | hashVerified
  | sampledHash
  deriving DecidableEq, Repr

/-- What the daemon answers to a canonical evict. -/
inductive AttachAction
  | attachedExisting
  | needD2HCreate
  | waitForCreator
  | duplicateCandidate
  | rejectedStaleVersion
  | quotaExceeded
  | error
  deriving DecidableEq, Repr

inductive JobState
  | registered
  | running
  | draining
  | terminating
  | terminated
  | error
  deriving DecidableEq, Repr

/-! ## Slots, sessions, leases, locations -/

/-- A slot of the control region (`ofld_slot_entry_t`). Where it lies in its
    arena never changes, and is kept by the slot plan. -/
structure SlotEntry where
  state : SlotState := .free
  nbytes : ℕ := 0
  tensorId : ℕ := 0
  version : ℕ := 0
  leaseId : ℕ := 0
  ownerRank : ℕ := 0
  ownerPid : ℕ := 0
  rankEpoch : ℕ := 0
  flags : ℕ := 0
  coldRef : ℕ := 0
  lastTouchNs : ℕ := 0
  submitSeq : ℕ := 0
  completeSeq : ℕ := 0
  deriving DecidableEq, Repr

/-- The session of a rank, under the id of the rank. -/
structure Session where
  rankEpoch : ℕ
  pid : ℕ
  lastHeartbeatNs : ℕ
  alive : Bool
  ringIndex : ℕ
  deriving DecidableEq, Repr

/-- A lease on a run of slots, under the id of the lease: for an offload (D2H),
    or for a prefetch (H2D). -/
structure Lease where
  baseSlot : ℕ
  slotCount : ℕ
  tensorId : ℕ
  version : ℕ
  ownerRank : ℕ
  ownerPid : ℕ
  rankEpoch : ℕ
  nbytes : ℕ
  isPrefetch : Bool
  deriving DecidableEq, Repr

/-- The latest known location of a tensor, under its id. -/
structure Location where
  version : ℕ := 0
  kind : LocationKind := .none
  slotId : ℕ := 0
  coldRef : ℕ := 0
  nbytes : ℕ := 0
  deriving DecidableEq, Repr

/-- A copy of a run in a cold tier, pageable memory or NVMe. -/
structure ColdEntry where
  kind : LocationKind
  nbytes : ℕ
  data : List Bytes
  deriving DecidableEq, Repr

/-- A run waiting to be drained. -/
structure DrainJob where
  baseSlot : ℕ
  slotCount : ℕ
  deriving DecidableEq, Repr

/-- A run waiting to be read back from a cold copy. -/
structure ReadbackJob where
  baseSlot : ℕ
  slotCount : ℕ
  coldRef : ℕ
  nbytes : ℕ
  deriving DecidableEq, Repr

/-- An entry of a completion ring (`ofld_completion_entry_t`). -/
structure CompletionEntry where
  leaseId : ℕ
  tensorId : ℕ
  version : ℕ
  slotId : ℕ
  eventType : EventType
  deriving DecidableEq, Repr

/-- A completion ring as its two ends see it: the owner and epoch published in
    its header, the number of entries consumed so far (`head`), and the entries
    between `head` and `tail`, oldest first. -/
structure Ring where
  ownerRank : ℕ := noIndex
  rankEpoch : ℕ := 0
  head : ℕ := 0
  pending : List CompletionEntry := []
  deriving DecidableEq, Repr

/-! ## Jobs, canonical objects, manifests -/

structure JobUID where
  tenantId : ℕ
  jobId : ℕ
  launchEpoch : ℕ
  deriving DecidableEq, Repr

/-- A job, under its identity, with its accounting and quotas (0 is unlimited). -/
structure JobRecord where
  jobName : String := ""
  state : JobState := .running
  pinnedBytes : ℕ := 0
  inflightExportBytes : ℕ := 0
  canonicalObjectCount : ℕ := 0
  maxPinnedBytes : ℕ := 0
  maxInflightExportBytes : ℕ := 0
  deriving DecidableEq, Repr

/-- The key of a canonical tensor. The names are for display only. -/
structure CanonicalTensorKey where
  job : JobUID
  jobName : String := ""
  modelRole : ℕ
  modelVersion : ℕ
  paramId : ℕ
  paramFqnHash : ℕ := 0
  paramFqnDebug : String := ""
  dtype : ℕ := 0
  layout : ℕ := 0
  nbytes : ℕ
  shapeHash : ℕ := 0
  strideHash : ℕ := 0
  ppRank : ℕ := 0
  tpRank : ℕ := 0
  epRank : ℕ := 0
  etpRank : ℕ := 0
  expertId : ℤ := -1
  shardOffset : ℕ := 0
  shardNbytes : ℕ := 0
  deriving DecidableEq, Repr

/-- A canonical object, under its id: one logical shard, its holders, and the
    lease and run it was created with. Its bytes are those of the synthetic
    tensor of its id (`canonicalTid`), always in version `canonicalVersion`. -/
structure CanonicalObject where
  key : CanonicalTensorKey
  keyStr : List Char
  nbytes : ℕ
  state : ObjectState
  refcount : ℕ
  exportRefcount : ℕ := 0
  restoreRefcount : ℕ := 0
  holders : Finset ℕ
  contentHashLo : ℕ := 0
  contentHashHi : ℕ := 0
  leaseId : ℕ
  baseSlot : ℕ
  slotCount : ℕ
  deriving DecidableEq

/-- A model version of a job and role. -/
structure VersionKey where
  job : JobUID
  modelRole : ℕ
  modelVersion : ℕ
  deriving DecidableEq, Repr

/-- A role of a job. -/
structure RoleKey where
  job : JobUID
  modelRole : ℕ
  deriving DecidableEq, Repr

/-- The manifest of a model version, under its key: its members, and the hash of
    what they were. -/
structure Manifest where
  state : ManifestState
  objectIds : List ℕ
  totalNbytes : ℕ
  manifestHashLo : ℕ := 0
  manifestHashHi : ℕ := 0
  deriving DecidableEq, Repr

/-! ## Synthetic tensors -/

/-- The top bit of a tensor id marks a tensor synthesized by the daemon. -/
def canonicalTidBit : ℕ := 2 ^ 63

/-- Bit 62 marks, among these, the throwaway candidates. -/
def candidateBit : ℕ := 2 ^ 62

/-- The synthetic tensor of an object. -/
def canonicalTid (objectId : ℕ) : ℕ := canonicalTidBit ||| objectId

/-- The synthetic tensor of a candidate. -/
def candidateTid (seq : ℕ) : ℕ := canonicalTidBit ||| candidateBit ||| seq

/-- The version of every synthetic tensor. -/
def canonicalVersion : ℕ := 1

/-- Whether a tensor is synthesized by the daemon. -/
def isCanonicalTid (tid : ℕ) : Bool := tid.testBit 63

/-- The object of a synthetic tensor: its (64-bit) id without the top bit. -/
def objectOfTid (tid : ℕ) : ℕ := tid % canonicalTidBit

/-- The tensor of an object leads back to the object, as long as its id leaves room for the
    mark. -/
theorem objectOfTid_canonicalTid {oid : ℕ} (h : oid < canonicalTidBit) :
    objectOfTid (canonicalTid oid) = oid := by
  rw [objectOfTid, canonicalTid, canonicalTidBit, Nat.or_mod_two_pow, Nat.mod_self, Nat.zero_or]
  exact Nat.mod_eq_of_lt h

theorem isCanonicalTid_canonicalTid (oid : ℕ) : isCanonicalTid (canonicalTid oid) := by
  rw [isCanonicalTid, canonicalTid, Nat.testBit_or, canonicalTidBit, Nat.testBit_two_pow_self,
    Bool.true_or]

end StateSpectre
