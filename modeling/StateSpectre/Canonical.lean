import StateSpectre.Offload

/-!
# The canonical store

Ranks evict replicated shards into one canonical object: the first rank creates
it, fills its run like that of an offload, and commits it; the others attach to
it. A rank that must prove that it has the same bytes, or that will not wait for
the creator, is handed a candidate run of its own, which is thrown away when it
is committed.
-/

namespace StateSpectre

variable (c : Config) (s : State)

/-! ## Jobs -/

/-- The id of a job: that of the scheduler, or a hash of the tenant and name. -/
def jobIdOf (req : RegisterJobRequest) : ℕ :=
  if req.schedulerJobId ≠ 0 then req.schedulerJobId
  else
    let h := (hashBytes ((toString req.tenantId ++ "/" ++ req.jobName).toUTF8.data.toList)).1
    if h ≠ 0 then h else 1

/-- All ranks of a job join the one that is registered and not terminated. -/
def handleRegisterJob (req : RegisterJobRequest) : State × Response :=
  if !c.enableCanonicalStore then
    (s, .registerJob { ok := false, message := "canonical store disabled" })
  else
    let jobId := jobIdOf req
    let live := s.catalog.jobs.rows.find? fun r =>
      decide (r.1.tenantId = req.tenantId) && decide (r.1.jobId = jobId) &&
        decide (r.2.state ≠ .terminated)
    match live with
    | some (uid, j) =>
      (s, .registerJob
        { ok := true, message := "ok (joined existing job)", job := some uid,
          jobName := j.jobName })
    | none =>
      let uid : JobUID :=
        ⟨req.tenantId, jobId, if c.includeLaunchEpoch then s.catalog.nextLaunchEpoch else 1⟩
      let j : JobRecord :=
        { jobName := req.jobName, state := .running
          maxPinnedBytes := c.quotaMaxPinnedBytes
          maxInflightExportBytes := c.quotaMaxInflightExportBytes }
      ({ s with
          catalog :=
            { s.catalog with
              jobs := s.catalog.jobs.insert uid j
              nextLaunchEpoch := if c.includeLaunchEpoch then s.catalog.nextLaunchEpoch + 1
                else s.catalog.nextLaunchEpoch } },
        .registerJob { ok := true, message := "ok", job := some uid, jobName := req.jobName })

def quotaAllowsPinned (j : JobRecord) (nbytes : ℕ) : Bool :=
  j.maxPinnedBytes == 0 || decide (addU64 j.pinnedBytes nbytes ≤ j.maxPinnedBytes)

/-! ## Evict -/

/-- The states of an object whose bytes can be read. -/
def ObjectState.readable : ObjectState → Bool
  | validPinned | validPageable | validNvme | validMultiTier | sealed | exportInFlight => true
  | _ => false

/-- The object indexed under a key, with its id. -/
def findObjectByKey (keyStr : List Char) : Option (ℕ × CanonicalObject) :=
  (s.catalog.objectByKey.lookup keyStr).bind fun oid =>
    (s.catalog.objects.lookup oid).map fun o => (oid, o)

def versionSealed (vk : VersionKey) : Bool :=
  match s.catalog.manifests.lookup vk with
  | some m => m.state == .sealed
  | none => false

/-- An id is drawn from the counter of the objects. -/
def State.drawObjectId : State :=
  { s with catalog := { s.catalog with nextObjectId := s.catalog.nextObjectId + 1 } }

/-- A run is reserved for a canonical evict, if the quota of the job allows it. -/
def reserveWithin (now : ℕ) (j : JobRecord) (p : Purpose) : State × Response :=
  if quotaAllowsPinned j p.nbytes then acquire c s now p 0 else (s, refuse p)

/-- An evict that finds a readable object attaches to it, or is handed a
    candidate to verify. -/
def evictExisting (now : ℕ) (req : RequestCanonicalEvictRequest) (j : JobRecord) (objectId : ℕ) :
    State × Response :=
  if !req.attachIfExists then (s, .evict { message := "exists but attach disabled" })
  else if req.dedupMode = .hashVerified ∨ req.dedupMode = .sampledHash then
    reserveWithin c s.drawObjectId now j
      (.candidate req (candidateTid s.catalog.nextObjectId) objectId true)
  else
    (s.modifyObject objectId fun o => o.addHolder req.rankId,
      .evict
        { ok := true, message := "attached existing", action := .attachedExisting
          objectId := objectId })

/-- An evict that finds an object being created waits for its creator, or is
    handed a duplicate candidate. -/
def evictCreating (now : ℕ) (req : RequestCanonicalEvictRequest) (j : JobRecord) (objectId : ℕ) :
    State × Response :=
  if req.allowDuplicateCandidate ∨
      (c.creatingPolicy = 1 ∧ c.pressureHigh s.gauges.usedPinnedBytes) then
    reserveWithin c s.drawObjectId now j
      (.candidate req (candidateTid s.catalog.nextObjectId) objectId false)
  else
    (s, .evict
      { ok := true, message := "wait for creator", action := .waitForCreator
        objectId := objectId })

/-- An evict that finds no object creates it. -/
def evictMissing (now : ℕ) (req : RequestCanonicalEvictRequest) (j : JobRecord) :
    State × Response :=
  if !req.createIfMissing then (s, .evict { message := "missing and create disabled" })
  else reserveWithin c s.drawObjectId now j (.create req s.catalog.nextObjectId)

def handleRequestCanonicalEvict (now : ℕ) (req : RequestCanonicalEvictRequest) :
    State × Response :=
  if !c.enableCanonicalStore then (s, .evict { message := "canonical store disabled" })
  else if !s.epochValid req.rankId req.rankEpoch then (s, .evict { message := "epoch invalid" })
  else
    match s.catalog.jobs.lookup req.key.job with
    | none => (s, .evict { message := "job not registered" })
    | some j =>
      if versionSealed s ⟨req.key.job, req.key.modelRole, req.key.modelVersion⟩ then
        (s, .evict { message := "model_version already sealed", action := .rejectedStaleVersion })
      else
        match findObjectByKey s (canonicalKeyString req.key) with
        | none => evictMissing c s now req j
        | some (oid, o) =>
          if o.nbytes ≠ req.key.nbytes then
            (s, .evict { message := "nbytes mismatch vs existing object" })
          else if o.state.readable then evictExisting c s now req j oid
          else if o.state = .creating then evictCreating c s now req j oid
          else evictMissing c s now req j

/-- What an evict searches a run for, if it does: an object, or a candidate. -/
def evictSearch (req : RequestCanonicalEvictRequest) : Option Purpose :=
  let create := if req.createIfMissing then some (.create req s.catalog.nextObjectId) else none
  let candidate (oid : ℕ) (verify : Bool) : Purpose :=
    .candidate req (candidateTid s.catalog.nextObjectId) oid verify
  if s.epochValid req.rankId req.rankEpoch ∧ (s.catalog.jobs.lookup req.key.job).isSome ∧
      versionSealed s ⟨req.key.job, req.key.modelRole, req.key.modelVersion⟩ = false then
    match findObjectByKey s (canonicalKeyString req.key) with
    | none => create
    | some (oid, o) =>
      if o.nbytes ≠ req.key.nbytes then none
      else if o.state.readable then
        if req.attachIfExists ∧ (req.dedupMode = .hashVerified ∨ req.dedupMode = .sampledHash) then
          some (candidate oid true)
        else none
      else if o.state = .creating then
        if req.allowDuplicateCandidate ∨
            (c.creatingPolicy = 1 ∧ c.pressureHigh s.gauges.usedPinnedBytes) then
          some (candidate oid false)
        else none
      else create
  else none

/-! ## Commit -/

/-- The commit of the creator of an object, by the lease it was created with. -/
def CanonicalObject.createdBy (o : CanonicalObject) (leaseId : ℕ) : Bool :=
  o.state == .creating && o.leaseId == leaseId

/-- The state of an object that is committed in the tier `kind`. -/
def committedState : LocationKind → ObjectState
  | .pageable => .validPageable
  | .nvme => .validNvme
  | _ => .validPinned

/-- The creator commits its object, whose bytes must have a location. -/
def commitCreator (req : CommitCanonicalObjectRequest) : State × CommitCanonicalObjectResponse :=
  match s.store.locations.lookup (canonicalTid req.objectId) with
  | none => (s, { message := "object bytes not yet valid", objectId := req.objectId })
  | some loc =>
    if loc.kind = .none ∨ loc.kind = .deleted then
      (s, { message := "object bytes not yet valid", objectId := req.objectId })
    else
      (s.modifyObject req.objectId fun o =>
        { o with
          contentHashLo := req.contentHashLo
          contentHashHi := req.contentHashHi
          state := committedState loc.kind },
        { ok := true, message := "committed", objectId := req.objectId, won := true })

/-- The states in which a candidate's run is freed when it is thrown away. -/
def candidateFrees : SlotState → Bool
  | .pinnedValid | .reservedD2H | .d2hInFlight => true
  | _ => false

/-- A candidate is thrown away: its lease, its location and its run. Any lease
    that is not the creator's is taken for a candidate. -/
def discardCandidate (now id : ℕ) (L : Lease) (o : CanonicalObject) : State :=
  let s' :=
    { s with
      store := (s.store.dropLease id).dropLocation L.tensorId
      catalog :=
        { s.catalog with
          jobs := s.catalog.jobs.modify o.key.job fun j =>
            if o.nbytes ≤ j.pinnedBytes then { j with pinnedBytes := j.pinnedBytes - o.nbytes }
            else j } }
  if candidateFrees (s.store.slotState L.baseSlot) then
    s'.freeSlots c now L.baseSlot L.slotCount
  else s'

/-- The states of an object that a candidate can be compared with. -/
def ObjectState.attachable : ObjectState → Bool
  | creating | missing | error | deleted => false
  | _ => true

/-- The hashes of the object and of the candidate agree, or one of them is not
    given. -/
def hashMatches (o : CanonicalObject) (req : CommitCanonicalObjectRequest) : Bool :=
  (o.contentHashLo == 0 && o.contentHashHi == 0) ||
    (req.contentHashLo == 0 && req.contentHashHi == 0) ||
    (o.contentHashLo == req.contentHashLo && o.contentHashHi == req.contentHashHi)

/-- A candidate is committed: it is thrown away, and its rank is attached to the
    object if the bytes are the same. -/
def commitCandidate (now : ℕ) (req : CommitCanonicalObjectRequest) (o : CanonicalObject) :
    State × CommitCanonicalObjectResponse :=
  let s' :=
    match s.store.leases.lookup req.leaseId with
    | some L => discardCandidate c s now req.leaseId L o
    | none => s
  if !o.state.attachable then
    (s', { message := "canonical object not valid for attach", objectId := req.objectId })
  else if !hashMatches o req then
    (s', { message := "content hash mismatch (corrupt replica)", objectId := req.objectId })
  else
    (s'.modifyObject req.objectId fun o => o.addHolder req.rankId,
      { ok := true, message := "attached after verify", objectId := req.objectId })

def handleCommitCanonicalObject (now : ℕ) (req : CommitCanonicalObjectRequest) :
    State × CommitCanonicalObjectResponse :=
  if !c.enableCanonicalStore then
    (s, { message := "canonical store disabled", objectId := req.objectId })
  else if !s.epochValid req.rankId req.rankEpoch then
    (s, { message := "epoch invalid", objectId := req.objectId })
  else
    match s.catalog.objects.lookup req.objectId with
    | none => (s, { message := "unknown object", objectId := req.objectId })
    | some o =>
      if o.createdBy req.leaseId then commitCreator s req else commitCandidate c s now req o

/-! ## Release -/

/-- The objects of a version with their ids, in the order of the table. -/
def versionRows (vk : VersionKey) : List (ℕ × CanonicalObject) :=
  s.catalog.objects.rows.filter fun r =>
    r.2.key.job = vk.job ∧ r.2.key.modelRole = vk.modelRole ∧
      r.2.key.modelVersion = vk.modelVersion

def versionObjects (vk : VersionKey) : List ℕ := (versionRows s vk).map (·.1)

/-- A rank lets go of one object, which is reclaimed if it was the last. -/
def releaseHold (now rankId : ℕ) (r : State × ReleaseCanonicalResponse) (oid : ℕ) :
    State × ReleaseCanonicalResponse :=
  match r.1.catalog.objects.lookup oid with
  | none => r
  | some o =>
    if rankId ∈ o.holders then
      let f := maybeFreeObject c (r.1.modifyObject oid fun o => o.dropHolder rankId) now oid
      (f.1,
        { r.2 with
          releasedCount := r.2.releasedCount + 1
          freedCount := if f.2 then r.2.freedCount + 1 else r.2.freedCount
          bytesFreed := if f.2 then addU64 r.2.bytesFreed o.nbytes else r.2.bytesFreed })
    else r

def handleReleaseCanonical (now : ℕ) (req : ReleaseCanonicalRequest) : State × Response :=
  if !c.enableCanonicalStore then
    (s, .releaseCanonical { message := "canonical store disabled" })
  else if !s.epochValid req.rankId req.rankEpoch then
    (s, .releaseCanonical { message := "epoch invalid" })
  else
    match s.catalog.jobs.lookup req.job with
    | none => (s, .releaseCanonical { message := "job not registered" })
    | some _ =>
      let ids := if req.objectId ≠ 0 then [req.objectId]
        else versionObjects s ⟨req.job, req.modelRole, req.modelVersion⟩
      let r := ids.foldl (releaseHold c now req.rankId) (s, { ok := true, message := "ok" })
      (r.1, .releaseCanonical r.2)

end StateSpectre
