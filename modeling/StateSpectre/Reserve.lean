import StateSpectre.CanonicalKey
import StateSpectre.Slots

/-!
# Reserving a run

Four handlers reserve a run of slots: `RequestOffload`, `RequestPrefetch` of a
cold tensor, `RequestCanonicalEvict` and `RequestCanonicalRestore`. They share
the search for a run (`acquire`): as long as there is none free, the oldest
`PINNED_VALID` run is drained to a cold tier, with the mutex let go of for the
copy, and the search starts over, up to 65 times. What is done with the run that
is found (`grant`) and what is answered if there is none (`refuse`) depends on
the `Purpose`.
-/

namespace StateSpectre

variable (c : Config) (s : State)

/-! ## What a run is searched for -/

namespace Purpose

def gpuId : Purpose → ℕ
  | offload req _ => req.gpuId
  | prefetch req .. => req.gpuId
  | create req _ => req.gpuId
  | candidate req .. => req.gpuId
  | restore req .. => req.gpuId

def numaNode : Purpose → ℕ
  | offload req _ => req.numaNode
  | prefetch req .. => req.numaNode
  | create req _ => req.numaNode
  | candidate req .. => req.numaNode
  | restore req .. => req.numaNode

def nbytes : Purpose → ℕ
  | offload req _ => req.nbytes
  | prefetch _ loc .. => loc.nbytes
  | create req _ => req.key.nbytes
  | candidate req .. => req.key.nbytes
  | restore _ _ nbytes => nbytes

def flags : Purpose → ℕ
  | offload req _ => req.flags
  | prefetch req .. => req.flags
  | create .. => flagDestructive
  | candidate .. => flagDestructive
  | restore .. => flagAllowOverflow

end Purpose

/-! ## Granting a run -/

/-- The bytes of `n` slots come into use. -/
def State.usePinned (n : ℕ) : State :=
  { s with
    gauges :=
      { s.gauges with
        usedPinnedBytes := addU64 s.gauges.usedPinnedBytes (c.runBytes n) } }

def offloadLease (req : RequestOffloadRequest) (ownerPid base : ℕ) : Lease where
  baseSlot := base
  slotCount := c.slotsForBytes req.nbytes
  tensorId := req.tensorId
  version := req.version
  ownerRank := req.rankId
  ownerPid := ownerPid
  rankEpoch := req.rankEpoch
  nbytes := req.nbytes
  isPrefetch := false

/-- An offload is granted its run, after a last check that the run is free. -/
def grantOffload (now : ℕ) (req : RequestOffloadRequest) (ownerPid base : ℕ) :
    State × Response :=
  let count := c.slotsForBytes req.nbytes
  if (List.range count).all fun k => s.store.slotState (base + k) == .free then
    let id := s.store.nextLeaseId
    let L := offloadLease c req ownerPid base
    ({ s.usePinned c count with
        store :=
          { s.store.reserve c.allocationGranularityBytes now id L req.flags .reservedD2H none with
            nextLeaseId := id + 1 } },
      .offload
        { ok := true, message := "ok", leaseId := id, slotId := base
          arenaId := c.plan.arenaId base, arenaOffset := c.plan.arenaOffset base
          capacity := c.runBytes count, state := .reservedD2H })
  else (s, .offload { message := "slot overlap prevented" })

def prefetchLease (req : RequestPrefetchRequest) (loc : Location) (wantVersion ownerPid base : ℕ) :
    Lease where
  baseSlot := base
  slotCount := c.slotsForBytes loc.nbytes
  tensorId := req.tensorId
  version := wantVersion
  ownerRank := req.rankId
  ownerPid := ownerPid
  rankEpoch := req.rankEpoch
  nbytes := loc.nbytes
  isPrefetch := true

/-- A prefetch is granted a run to read the cold copy back into, and a readback
    worker is told to. -/
def grantPrefetch (now : ℕ) (req : RequestPrefetchRequest) (loc : Location)
    (wantVersion ownerPid id base : ℕ) : State × Response :=
  let count := c.slotsForBytes loc.nbytes
  let L := prefetchLease c req loc wantVersion ownerPid base
  ({ s.usePinned c count with
      store :=
        { s.store.reserve c.allocationGranularityBytes now id L req.flags .readbackInFlight
            (some loc.coldRef) with
          readbackQueue := s.store.readbackQueue ++ [⟨base, count, loc.coldRef, loc.nbytes⟩] } },
    .prefetch
      { ok := true, message := "readback started", leaseId := id, slotId := base
        arenaId := c.plan.arenaId base, arenaOffset := c.plan.arenaOffset base
        nbytes := loc.nbytes, state := .readbackInFlight, ready := false
        version := wantVersion })

/-- The lease of a canonical evict, on the synthetic tensor `tid`. -/
def evictLease (req : RequestCanonicalEvictRequest) (tid base : ℕ) : Lease where
  baseSlot := base
  slotCount := c.slotsForBytes req.key.nbytes
  tensorId := tid
  version := canonicalVersion
  ownerRank := req.rankId
  ownerPid := s.pidOf req.rankId
  rankEpoch := req.rankEpoch
  nbytes := req.key.nbytes
  isPrefetch := false

/-- The run of a canonical evict is reserved, and charged to the job. -/
def reserveEvict (now : ℕ) (req : RequestCanonicalEvictRequest) (tid base : ℕ) : State :=
  let id := s.store.nextLeaseId
  { s.usePinned c (c.slotsForBytes req.key.nbytes) with
    store :=
      { s.store.reserve c.allocationGranularityBytes now id (evictLease c s req tid base)
          flagDestructive .reservedD2H none with
        nextLeaseId := id + 1 }
    catalog :=
      { s.catalog with
        jobs := s.catalog.jobs.modify req.key.job fun j =>
          { j with pinnedBytes := addU64 j.pinnedBytes req.key.nbytes } } }

/-- The answer to a canonical evict that was given the run at `base`. -/
def evictGranted (req : RequestCanonicalEvictRequest) (message : String) (action : AttachAction)
    (objectId id tid base : ℕ) : RequestCanonicalEvictResponse where
  ok := true
  message := message
  action := action
  objectId := objectId
  leaseId := id
  slotId := base
  arenaId := c.plan.arenaId base
  arenaOffset := c.plan.arenaOffset base
  capacity := c.runBytes (c.slotsForBytes req.key.nbytes)
  syntheticTid := tid

/-- A new object, held by the rank that will fill the run at `base`. -/
def newObject (req : RequestCanonicalEvictRequest) (leaseId base : ℕ) : CanonicalObject where
  key := req.key
  keyStr := canonicalKeyString req.key
  nbytes := req.key.nbytes
  state := .creating
  refcount := 1
  holders := {req.rankId}
  leaseId := leaseId
  baseSlot := base
  slotCount := c.slotsForBytes req.key.nbytes

/-- A canonical object is created, to be filled and committed by its creator. -/
def grantCreate (now : ℕ) (req : RequestCanonicalEvictRequest) (objectId base : ℕ) :
    State × Response :=
  let id := s.store.nextLeaseId
  let obj := newObject c req id base
  let s' := reserveEvict c s now req (canonicalTid objectId) base
  ({ s' with
      catalog :=
        { s'.catalog with
          objects := s'.catalog.objects.insert objectId obj
          objectByKey := s'.catalog.objectByKey.insert obj.keyStr objectId
          jobs := s'.catalog.jobs.modify req.key.job fun j =>
            { j with canonicalObjectCount := addU64 j.canonicalObjectCount 1 } } },
    .evict (evictGranted c req "need d2h create" .needD2HCreate objectId id
      (canonicalTid objectId) base))

/-- A candidate is handed out, to be compared with the object and thrown away. -/
def grantCandidate (now : ℕ) (req : RequestCanonicalEvictRequest) (tid objectId : ℕ)
    (verify : Bool) (base : ℕ) : State × Response :=
  let id := s.store.nextLeaseId
  let s' := reserveEvict c s now req tid base
  ({ s' with
      store :=
        { s'.store with
          history :=
            { s'.store.history with
              grants := s'.store.history.grants.insert id (req.rankId, objectId)
              charged := s'.store.history.charged.insert id req.key.job } } },
    .evict (evictGranted c req (if verify then "verify candidate (hash)" else "duplicate candidate")
      .duplicateCandidate objectId id tid base))

/-- The slot at the offset `k` of a run that is reserved for a restore: it carries
    the synthetic tensor of the object, without a lease. -/
def warmSlot (gran now : ℕ) (req : RequestCanonicalRestoreRequest) (ownerPid nbytes k : ℕ)
    (e : SlotEntry) : SlotEntry :=
  { e with
    tensorId := canonicalTid req.objectId
    version := canonicalVersion
    ownerRank := req.rankId
    ownerPid := ownerPid
    rankEpoch := req.rankEpoch
    nbytes := if k = 0 then nbytes else gran
    state := .readbackInFlight
    lastTouchNs := now }

/-- The slots of a run are given the metadata of a restore. -/
def Store.warmRun (st : Store) (gran now : ℕ) (req : RequestCanonicalRestoreRequest)
    (ownerPid base count nbytes : ℕ) : Store :=
  st.mapRun base count (warmSlot gran now req ownerPid nbytes)

/-- A restore is granted a run to warm the object in. -/
def grantRestore (now : ℕ) (req : RequestCanonicalRestoreRequest) (cold : ColdEntry)
    (nbytes base : ℕ) : State × Response :=
  let count := c.slotsForBytes nbytes
  let st := s.store.warmRun c.allocationGranularityBytes now req (s.pidOf req.rankId) base count
    nbytes
  ({ s with store := st.addTask (.restoreIo req base count cold nbytes) }, .none)

/-- What is done with the run found at `base`. -/
def grant (now : ℕ) (p : Purpose) (base : ℕ) : State × Response :=
  match p with
  | .offload req pid => grantOffload c s now req pid base
  | .prefetch req loc v pid id => grantPrefetch c s now req loc v pid id base
  | .create req objectId => grantCreate c s now req objectId base
  | .candidate req tid objectId verify => grantCandidate c s now req tid objectId verify base
  | .restore req cold nbytes => grantRestore c s now req cold nbytes base

/-- What is answered when there is no run. -/
def refuse : Purpose → Response
  | .offload .. =>
    .offload { message := "no pinned capacity (blocked / backpressure)", blocked := true }
  | .prefetch .. => .prefetch { message := "no pinned capacity for readback" }
  | .create .. => .evict { message := "no pinned capacity / quota", action := .quotaExceeded }
  | .candidate _ _ _ verify =>
    .evict
      { message :=
          if verify then "no capacity for verify candidate"
          else "no capacity for duplicate candidate"
        action := .quotaExceeded }
  | .restore req .. =>
    .restore { message := "no pinned capacity to warm object", objectId := req.objectId }

/-! ## The search -/

/-- The most drains forced for one search. -/
def maxDrainAttempts : ℕ := 64

/-- What a forced drain notes of the lease `id`. -/
def Lease.drainWork (L : Lease) (id : ℕ) (p : Purpose) (attempt : ℕ) : DrainWork where
  baseSlot := L.baseSlot
  slotCount := L.slotCount
  tensorId := L.tensorId
  version := L.version
  nbytes := L.nbytes
  leaseId := id
  forced := some (p, attempt)

/-- A forced drain takes a run, and lets go of the mutex to copy it. -/
def startForceDrain (now : ℕ) (p : Purpose) (attempt id : ℕ) (L : Lease) : State :=
  { s with
    store := (s.store.setRunState now L.baseSlot L.slotCount .drainInFlight).addTask
      (.drainIo (L.drainWork id p attempt))
    gauges := { s.gauges with drainingBytes := addU64 s.gauges.drainingBytes L.nbytes } }

/-- One round of the search for a run. -/
def acquire (now : ℕ) (p : Purpose) (attempt : ℕ) : State × Response :=
  match allocateSlots c s.store p.gpuId p.numaNode p.nbytes p.flags with
  | some base => grant c s now p base
  | none =>
    match s.oldestDrainable with
    | some (id, L) => (startForceDrain s now p attempt id L, .none)
    | none => (s, refuse p)

/-! ## The end of a drain -/

/-- The run of a drain has been copied to a cold tier: the copy is recorded, it
    is the location of the tensor unless a later version is known, and the lease
    is dropped. -/
def Store.settleDrain (st : Store) (w : DrainWork) (cold : ColdEntry) : Store :=
  let cref := st.nextColdRef
  let st := (st.addCold cold).mapRun w.baseSlot w.slotCount fun _ e => { e with coldRef := cref }
  (st.updateLocationIfLatest w.tensorId w.version cold.kind w.baseSlot cref w.nbytes).dropLease
    w.leaseId

/-- A run is marked at its base and freed. -/
def State.reclaim (now b n : ℕ) (q : SlotState) : State :=
  { s with store := s.store.setRunState now b 1 q }.freeSlots c now b n

/-- The drain of a run is settled, and the run freed. -/
def finishDrain (now : ℕ) (w : DrainWork) (cold : ColdEntry) : State :=
  { s with store := s.store.settleDrain w cold }.reclaim c now w.baseSlot w.slotCount .coldValid

/-- The copy failed: the run stays pinned. -/
def failDrain (now : ℕ) (w : DrainWork) : State :=
  { s with store := s.store.setRunState now w.baseSlot w.slotCount .pinnedValid }

/-- The bytes of a drain are no longer under way. -/
def State.drainDone (nbytes : ℕ) : State :=
  { s with gauges := { s.gauges with drainingBytes := subU64 s.gauges.drainingBytes nbytes } }

/-- A forced drain takes the mutex again, and its search goes on. It does not
    look whether the run is still the one it took. -/
def forceDrainCommit (now : ℕ) (w : DrainWork) (p : Purpose) (attempt : ℕ) :
    Option ColdEntry → State × Response
  | none => (failDrain (s.drainDone w.nbytes) now w, refuse p)
  | some cold =>
    let s' := finishDrain c (s.drainDone w.nbytes) now w cold
    if attempt < maxDrainAttempts then acquire c s' now p (attempt + 1) else (s', refuse p)

end StateSpectre
