import StateSpectre.Lib.Span
import StateSpectre.Protocol

/-!
# The state of the daemon

All tables of the daemon are guarded by one mutex, `mu_`. A handler or a worker
is atomic as long as it holds it, and lets go of it for the long copies between
the arenas and the cold tiers. So the state is made of

* the `Store`: the slots and the content of the pinned arenas, the leases, the
  locations and the cold copies, the two work queues, and the *tasks* under way
  without the mutex, each with the local variables its thread will go on with
  (`Task`);
* the sessions of the ranks and their completion rings;
* the `Catalog` of the canonical store: jobs, objects, manifests.

The store also records, on the side, the history that its properties speak about
and the source does not keep (`History`): the copies the ranks made into their
runs, the completions the daemon accepted, the candidates it granted, and the
restores it answered. No function of the daemon reads it.
-/

namespace StateSpectre

/-! ## Configuration and slot plan -/

/-- A window of the slot plan: consecutive slots, preferred by one GPU of a
    NUMA node, or the overflow of the node (`gpu` is then `noIndex`). -/
structure Window where
  numaNode : ℕ
  gpu : ℕ
  isOverflow : Bool
  /-- The slots of the window, in the order of their addresses. -/
  slotIds : List ℕ
  /-- They are carved one after the other. -/
  consecutive : ∃ first, slotIds = List.range' first slotIds.length

/-- The slot plan built at startup: the windows, and where each slot lies. -/
structure SlotPlan where
  windows : List Window
  numSlots : ℕ
  arenaId : ℕ → ℕ := fun _ => 0
  arenaOffset : ℕ → ℕ := fun _ => 0

/-- The configuration, as far as the handlers and workers read it. -/
structure Config where
  plan : SlotPlan
  allocationGranularityBytes : ℕ
  drainOnD2HComplete : Bool := true
  drainTarget : DrainTarget := .pageableThenNvme
  nvmeEnabled : Bool := true
  /-- `nvme_io_engine` is `io_uring`. -/
  useUringEngine : Bool := true
  nvmeQueueDepth : ℕ := 8
  heartbeatTimeoutMs : ℕ := 5000
  ringMaxRanks : ℕ := 64
  ringCapacity : ℕ := 1024
  enableCanonicalStore : Bool := true
  enableManifests : Bool := true
  enableRolloutExport : Bool := true
  includeLaunchEpoch : Bool := true
  /-- 0 waits for the creator, 1 hands out duplicate candidates under pressure. -/
  creatingPolicy : ℕ := 0
  /-- `pinned_pressure() >= threshold`, a comparison of floating point numbers,
      as a function of the pinned bytes in use. -/
  pressureHigh : ℕ → Bool := fun _ => false
  sealRequiresAllObjectsValid : Bool := true
  retainSealedVersions : ℕ := 4
  maxConcurrentExportsPerJob : ℕ := 8
  quotaMaxPinnedBytes : ℕ := 0
  quotaMaxInflightExportBytes : ℕ := 0

/-! ## Tasks -/

/-- What a run is searched for: the handlers that reserve one, with the local
    variables they keep while a forced drain lets go of the mutex. -/
inductive Purpose
  /-- `RequestOffload`, with the pid of the owner. -/
  | offload (req : RequestOffloadRequest) (ownerPid : ℕ)
  /-- `RequestPrefetch` of a cold tensor: the location as it was read, the
      version wanted, the pid of the owner and the lease id drawn. -/
  | prefetch (req : RequestPrefetchRequest) (loc : Location) (wantVersion ownerPid leaseId : ℕ)
  /-- `RequestCanonicalEvict` creating the object `objectId`. -/
  | create (req : RequestCanonicalEvictRequest) (objectId : ℕ)
  /-- `RequestCanonicalEvict` handing out the candidate tensor `tid` for the
      object `objectId`, to verify it or to race its creator. -/
  | candidate (req : RequestCanonicalEvictRequest) (tid objectId : ℕ) (verify : Bool)
  /-- `RequestCanonicalRestore` of a cold object of `nbytes`, with the copy to
      read. -/
  | restore (req : RequestCanonicalRestoreRequest) (cold : ColdEntry) (nbytes : ℕ)

/-- A drain under way: the run, what it carries and for which lease, as they were
    noted before the copy. A forced drain knows the search that forced it, and the
    number of the attempt; a drain worker has none. -/
structure DrainWork where
  baseSlot : ℕ
  slotCount : ℕ
  tensorId : ℕ
  version : ℕ
  nbytes : ℕ
  leaseId : ℕ
  forced : Option (Purpose × ℕ)

/-- What `PullTensor` keeps of the object it exports. -/
structure PullLocals where
  req : PullTensorRequest
  prevState : ObjectState
  nbytes : ℕ
  hashLo : ℕ
  hashHi : ℕ

/-- The threads under way without the mutex: where they are, and what they go on
    with. A task `…Io` is about to copy, and the task after it is about to take
    the mutex again, with the outcome of the copy. -/
inductive Task
  /-- A drain worker that took a job from the queue. -/
  | drainTaken (job : DrainJob)
  | drainIo (w : DrainWork)
  | drainCommit (w : DrainWork) (cold : Option ColdEntry)
  /-- A readback worker that took a job from the queue. -/
  | readbackTaken (job : ReadbackJob)
  /-- A readback worker that did not find the cold copy. -/
  | readbackMissing (job : ReadbackJob)
  | readbackIo (job : ReadbackJob) (cold : ColdEntry)
  | readbackCommit (job : ReadbackJob) (ok : Bool)
  /-- A canonical restore warming a run. -/
  | restoreIo (req : RequestCanonicalRestoreRequest) (base count : ℕ) (cold : ColdEntry)
      (nbytes : ℕ)
  | restoreCommit (req : RequestCanonicalRestoreRequest) (base count nbytes : ℕ) (ok : Bool)
  /-- A pull staging a cold object: first the readback, then the read of the
      cold copy into its own buffer. -/
  | pullStageIo (l : PullLocals) (cold : ColdEntry)
  | pullReadIo (l : PullLocals) (cold : ColdEntry)
  | pullStaged (l : PullLocals) (buf : Option (List Bytes))
  /-- A pull sending its buffer, and then what went wrong, if anything. -/
  | pullSendIo (l : PullLocals) (buf : List Bytes)
  | pullSent (l : PullLocals) (error : Option String)

/-! ## History -/

/-- A completion of a D2H copy that the daemon accepted: the tensor, its
    version, the lease, and the bytes the rank had copied into the run. -/
structure AcceptedD2H where
  tensorId : ℕ
  version : ℕ
  leaseId : ℕ
  data : List Bytes
  deriving DecidableEq

/-- A restore that the daemon answered, and that the rank may still be reading: the
    object, where its run starts, and the bytes that were there. -/
structure RestoreHold where
  rankId : ℕ
  rankEpoch : ℕ
  objectId : ℕ
  base : ℕ
  data : List Bytes
  deriving DecidableEq

/-- The history of a run of the daemon. -/
structure History where
  /-- The bytes last copied by a rank into the run of a lease. -/
  copied : Table ℕ (List Bytes) := ∅
  /-- The completions accepted, the last one first. -/
  accepted : List AcceptedD2H := []
  /-- The candidates granted: for each lease, the rank and the object. -/
  grants : Table ℕ (ℕ × ℕ) := ∅
  /-- The jobs that the candidates were charged to, by their leases. -/
  charged : Table ℕ JobUID := ∅
  /-- The restores of live sessions that have not been released. -/
  holds : List RestoreHold := []

/-! ## The state -/

/-- The slot store of the daemon. -/
structure Store where
  /-- The slot table. -/
  slots : ℕ → SlotEntry
  /-- The content of the slots. -/
  mem : ℕ → Bytes
  leases : Table ℕ Lease
  locations : Table ℕ Location
  coldStore : Table ℕ ColdEntry
  nextLeaseId : ℕ
  nextColdRef : ℕ
  drainQueue : List DrainJob
  readbackQueue : List ReadbackJob
  tasks : List Task
  history : History

/-- The tables of the canonical store. -/
structure Catalog where
  jobs : Table JobUID JobRecord
  objects : Table ℕ CanonicalObject
  objectByKey : Table (List Char) ℕ
  manifests : Table VersionKey Manifest
  latestSealed : Table RoleKey ℕ
  nextObjectId : ℕ
  nextLaunchEpoch : ℕ

/-- The gauges of the metrics that follow the slots, in 64 bits. -/
structure Gauges where
  usedPinnedBytes : ℕ := 0
  inflightD2HBytes : ℕ := 0
  inflightH2DBytes : ℕ := 0
  drainingBytes : ℕ := 0
  deriving DecidableEq

/-- The state of the daemon. -/
structure State where
  store : Store
  sessions : Table ℕ Session
  nextRankEpoch : ℕ
  rings : ℕ → Ring
  /-- The owner of each ring, as the daemon keeps it (`noIndex` for none). -/
  ringOwner : ℕ → ℕ
  catalog : Catalog
  gauges : Gauges

/-- The store at startup: all slots free, all tables empty. -/
def Store.initial : Store where
  slots _ := {}
  mem _ := []
  leases := ∅
  locations := ∅
  coldStore := ∅
  nextLeaseId := 1
  nextColdRef := 1
  drainQueue := []
  readbackQueue := []
  tasks := []
  history := {}

def State.initial : State where
  store := .initial
  sessions := ∅
  nextRankEpoch := 1
  rings _ := {}
  ringOwner _ := noIndex
  catalog :=
    { jobs := ∅, objects := ∅, objectByKey := ∅, manifests := ∅, latestSealed := ∅
      nextObjectId := 1, nextLaunchEpoch := 1 }
  gauges := {}

/-! ## Arithmetic in 32 and 64 bits -/

def addU64 (a b : ℕ) : ℕ := (a + b) % 2 ^ 64

def subU64 (a b : ℕ) : ℕ := (a + (2 ^ 64 - b % 2 ^ 64)) % 2 ^ 64

def decU32 (a : ℕ) : ℕ := (a + (2 ^ 32 - 1)) % 2 ^ 32

theorem addU64_mod (m n : ℕ) : addU64 (m % 2 ^ 64) n = (m + n) % 2 ^ 64 := Nat.mod_add_mod ..

theorem subU64_mod (m n : ℕ) : subU64 ((m + n) % 2 ^ 64) n = m % 2 ^ 64 := by
  simp only [subU64]
  omega

theorem subU64_of_le {m n : ℕ} (hle : n ≤ m) (hlt : m < 2 ^ 64) : subU64 m n = m - n := by
  rw [subU64]
  omega

theorem decU32_of_pos {n : ℕ} (hpos : 0 < n) (hle : n ≤ 2 ^ 32) : decU32 n = n - 1 := by
  rw [decU32]
  omega

end StateSpectre
