import StateSpectre.Move

/-!
# The events of a step

The events that a step of the daemon goes through, each with the state it happens
in (`events`). A step meets the rules (`Rules.ok`) when all its events do. The events
are listed by the functions they happen in; a step that goes over a list has those
of every item, in the state left by the items before it.
-/

namespace StateSpectre

variable {S X : Type*} {k : Rules}

/-- An event, with the state it happens in. -/
abbrev Moment := State × Event

/-- The events of a step that goes over a list. -/
def eventsAlong (es : S → X → List Moment) (f : S → X → S) : S → List X → List Moment
  | _, [] => []
  | s, x :: xs => es s x ++ eventsAlong es f (f s x) xs

/-- All events meet the rules. -/
abbrev Rules.Met (k : Rules) (es : List Moment) : Prop := ∀ e ∈ es, k e.1 e.2

theorem Rules.met_append {es es' : List Moment} :
    k.Met (es ++ es') ↔ k.Met es ∧ k.Met es' := List.forall_mem_append

theorem Rules.met_cons {e : Moment} {es : List Moment} :
    k.Met (e :: es) ↔ k e.1 e.2 ∧ k.Met es := List.forall_mem_cons

theorem Rules.met_singleton {s : State} {e : Event} : k.Met [(s, e)] ↔ k s e :=
  List.forall_mem_singleton

/-- Rules that are met by all events along a list are met item by item. -/
theorem Rules.Met.along {es : S → X → List Moment} {f : S → X → S} :
    ∀ {s : S} {xs : List X}, k.Met (eventsAlong es f s xs) →
      Along (fun s x => k.Met (es s x)) f s xs
  | _, [], _ => trivial
  | _, _ :: _, h => ⟨(Rules.met_append.1 h).1, (Rules.met_append.1 h).2.along⟩

variable (c : Config) (s : State)

/-! ## What is left -/

/-- The runs that are left as they are. -/
def leftRuns (runs : List (ℕ × ℕ)) : List Moment :=
  (runs.filter fun r => ¬s.store.RunFree r.1 r.2).map fun r => (s, .abandon r.1 r.2)

/-! ## Objects -/

/-- An object is reclaimed, unless it is in flight. -/
def releaseEvents (now oid : ℕ) (o : CanonicalObject) : List Moment :=
  if o.inFlight then []
  else
    leftRuns (releaseObject c s now oid o).1 (s.store.leaseRun o.leaseId ++ s.objectRun oid o)

def dropEvents (now oid : ℕ) : List Moment :=
  match s.catalog.objects.lookup oid with
  | none => []
  | some o => releaseEvents c s now oid o

/-- An object is reclaimed if no rank holds it. -/
def freeEvents (now oid : ℕ) : List Moment :=
  match s.catalog.objects.lookup oid with
  | none => []
  | some o => if o.holders = ∅ then releaseEvents c s now oid o else []

def releaseHoldEvents (now rankId oid : ℕ) : List Moment :=
  match s.catalog.objects.lookup oid with
  | none => []
  | some o =>
    if rankId ∈ o.holders then
      freeEvents c (s.modifyObject oid fun o => o.dropHolder rankId) now oid
    else []

/-- The objects of an old version are dropped. -/
def retireEvents (now : ℕ) (uid : JobUID) (role latest : ℕ) (s : State) (version : ℕ) :
    List Moment :=
  if version = latest then []
  else
    eventsAlong (fun r oid => dropEvents c r.1 now oid) (retireObject c now) (s, true)
      (versionObjects s ⟨uid, role, version⟩)

/-- Old versions are retired when one is promoted. -/
def retentionEvents (now : ℕ) (uid : JobUID) (role : ℕ) : List Moment :=
  let latest := (s.catalog.latestSealed.lookup ⟨uid, role⟩).getD 0
  if c.retainSealedVersions = 0 then []
  else
    eventsAlong (retireEvents c now uid role latest) (retireVersion c now uid role latest) s
      ((sealedVersions s uid role).drop c.retainSealedVersions)

def sealEvents (now : ℕ) (req : SealModelVersionRequest) : List Moment :=
  let vk : VersionKey := ⟨req.job, req.modelRole, req.modelVersion⟩
  match sealCheck c s req with
  | some _ => []
  | none =>
    if sealFails c s req then []
    else
      (s, .sealVersion vk) ::
        if req.promote then
          (sealVersion s vk, .promote vk) ::
            retentionEvents c (markLatest (sealVersion s vk) vk) now req.job req.modelRole
        else []

def dropVersionEvents (now : ℕ) (req : DropCanonicalVersionRequest) : List Moment :=
  let vk : VersionKey := ⟨req.job, req.modelRole, req.modelVersion⟩
  let r₀ : State × DropCanonicalVersionResponse := (s, { ok := true, message := "ok" })
  eventsAlong (fun r oid => dropEvents c r.1 now oid) (dropObject c now) r₀ (versionObjects s vk) ++
    [(((versionObjects s vk).foldl (dropObject c now) r₀).1, .dropVersion vk)]

/-- The lease of a commit is thrown away, if it is there. -/
def discardEvents (now : ℕ) (req : CommitCanonicalObjectRequest) (o : CanonicalObject) :
    List Moment :=
  match s.store.leases.lookup req.leaseId with
  | none => []
  | some L =>
    (s, .discard req.leaseId L) :: (s, .refund req.leaseId L o) ::
      leftRuns (discardCandidate c s now req.leaseId L o) [(L.baseSlot, L.slotCount)]

/-- The state in which the rank of a candidate is attached. -/
def discarded (now : ℕ) (req : CommitCanonicalObjectRequest) (o : CanonicalObject) : State :=
  match s.store.leases.lookup req.leaseId with
  | none => s
  | some L => discardCandidate c s now req.leaseId L o

def commitEvents (now : ℕ) (req : CommitCanonicalObjectRequest) : List Moment :=
  match s.catalog.objects.lookup req.objectId with
  | none => []
  | some o =>
    if s.epochValid req.rankId req.rankEpoch ∧ o.createdBy req.leaseId = false then
      discardEvents c s now req o ++
        if o.state.attachable ∧ hashMatches o req then
          [(discarded c s now req o, .attach req.rankId req.objectId)]
        else []
    else []

/-! ## Searches, exports and restores -/

/-- The run that a search finds: for a cold copy, or charged to a job. -/
def findEvents (p : Purpose) : List Moment :=
  (allocateSlots c s.store p.gpuId p.numaNode p.nbytes p.flags).toList.flatMap fun base =>
    match p with
    | .prefetch .. | .restore .. => [(s, .readInto base (c.slotsForBytes p.nbytes))]
    | .create req _ | .candidate req .. => [(s, .charge req.key.job req.key.nbytes)]
    | .offload .. => []

/-- The search that an evict begins, the run it may be charged for at once, and the object it
    may attach to. -/
def evictEvents (req : RequestCanonicalEvictRequest) : List Moment :=
  ((evictSearch c s req).toList.flatMap fun p =>
    (s, .seek p) ::
      ((s.catalog.jobs.lookup req.key.job).filter (quotaAllowsPinned · p.nbytes)).toList.flatMap
        fun _ => findEvents c s.drawObjectId p) ++
  match findObjectByKey s (canonicalKeyString req.key) with
  | none => []
  | some (oid, o) =>
    if s.epochValid req.rankId req.rankEpoch ∧ o.state.readable ∧ req.attachIfExists ∧
        ¬(req.dedupMode = .hashVerified ∨ req.dedupMode = .sampledHash) then
      [(s, .attach req.rankId oid)]
    else []

/-- The search that a prefetch may begin. -/
def prefetchEvents (req : RequestPrefetchRequest) : List Moment :=
  match s.store.locations.lookup req.tensorId with
  | none => []
  | some loc =>
    if s.epochValid req.rankId req.rankEpoch then
      let p : Purpose := .prefetch req loc loc.version (s.pidOf req.rankId) s.store.nextLeaseId
      (s, .seek p) ::
        findEvents c { s with store := { s.store with nextLeaseId := s.store.nextLeaseId + 1 } } p
    else []

/-- A restore is answered at once, or begins a search. -/
def restoreEvents (req : RequestCanonicalRestoreRequest) : List Moment :=
  match s.catalog.objects.lookup req.objectId,
      s.store.locations.lookup (canonicalTid req.objectId) with
  | some o, some loc =>
    if !s.epochValid req.rankId req.rankEpoch then []
    else if loc.kind = .pinned ∧ s.store.slotState loc.slotId = .pinnedValid then
      [(s, .serve o loc.slotId)]
    else
      (s.store.coldStore.lookup loc.coldRef).toList.flatMap fun cold =>
        (s, .seek (.restore req cold o.nbytes)) :: findEvents c s (.restore req cold o.nbytes)
  | _, _ => []

/-- Whether an export finds nothing to stage. -/
def stageFails (l : PullLocals) : Bool :=
  match s.store.locations.lookup (canonicalTid l.req.objectId) with
  | none => true
  | some loc =>
    loc.kind ≠ .pinned ∧
      ((loc.kind ≠ .pageable ∧ loc.kind ≠ .nvme) ∨ s.store.coldStore.lookup loc.coldRef = none)

def pullEvents (req : PullTensorRequest) : List Moment :=
  match pullCheck c s req with
  | .error _ => []
  | .ok o =>
    let s' := startExport s req o
    (s, .pull (o.pullLocals req)) ::
      if stageFails s' (o.pullLocals req) then [(s', .failStaging (o.pullLocals req))] else []

/-! ## Sessions -/

def purgeEvents (now rankId : ℕ) : List Moment :=
  eventsAlong (fun s oid => freeEvents c s now oid) (fun s oid => (maybeFreeObject c s now oid).1)
    (dropHolds s rankId (heldObjects s rankId)) (heldObjects s rankId)

/-- The leases of a rank are recovered when its session ends. -/
def recoverEvents (now rankId rankEpoch : ℕ) : List Moment :=
  (s, .endSession rankId) ::
    leftRuns (recoverLeases c (s.endSession rankId) now rankId rankEpoch)
      (s.sessionRuns rankId rankEpoch)

def invalidateEvents (now rankId : ℕ) : List Moment :=
  match s.sessions.lookup rankId with
  | none => []
  | some ses =>
    if ses.alive then
      recoverEvents c s now rankId ses.rankEpoch ++
        purgeEvents c (releaseRing c (recoverLeases c (s.endSession rankId) now rankId
          ses.rankEpoch) now rankId ses) now rankId
    else []

def expireEvents (now rankId : ℕ) : List Moment :=
  match s.sessions.lookup rankId with
  | none => []
  | some ses =>
    if ses.expired c now then
      recoverEvents c s now rankId ses.rankEpoch ++
        purgeEvents c (recoverLeases c (s.endSession rankId) now rankId ses.rankEpoch) now rankId
    else []

def releaseLeaseEvents (req : ReleaseLeaseRequest) : List Moment :=
  match s.store.leases.lookup req.leaseId with
  | none => []
  | some L =>
    if s.epochValid req.rankId req.rankEpoch ∧ L.ownerRank = req.rankId ∧
        releaseFrees (s.store.slotState L.baseSlot) = false then
      (s, .dropLease req.leaseId) ::
        leftRuns { s with store := s.store.dropLease req.leaseId } [(L.baseSlot, L.slotCount)]
    else []

/-! ## Steps -/

def requestEvents (now : ℕ) : Request → List Moment
  | .register req =>
    eventsAlong (fun s r => invalidateEvents c s now r) (fun s r => invalidateSession c s now r) s
      (req.rankId :: ranksOfPid s req.rankId req.pid) ++
        [(invalidateSessions c s now req, .hear req.rankId now)]
  | .heartbeat req =>
    if s.epochValid req.rankId req.rankEpoch then [(s, .hear req.rankId now)] else []
  | .offload req =>
    if s.epochValid req.rankId req.rankEpoch ∧ req.nbytes ≠ 0 then
      [(s, .seek (.offload req (s.pidOf req.rankId)))]
    else []
  | .prefetch req => prefetchEvents c s req
  | .releaseLease req => releaseLeaseEvents s req
  | .evict req => evictEvents c s req
  | .commit req => commitEvents c s now req
  | .seal req => sealEvents c s now req
  | .pull req => pullEvents c s req
  | .restore req => restoreEvents c s req
  | .releaseRestore req =>
    if s.epochValid req.rankId req.rankEpoch then
      (s, .endRestore req) ::
        freeEvents c
          (endRestore (dropHold s req.rankId req.rankEpoch req.objectId) req.objectId) now
          req.objectId
    else []
  | .drop req => dropVersionEvents c s now req
  | .releaseCanonical req =>
    if s.epochValid req.rankId req.rankEpoch then
      eventsAlong (fun r oid => releaseHoldEvents c r.1 now req.rankId oid)
        (releaseHold c now req.rankId) (s, { ok := true, message := "ok" })
        (if req.objectId ≠ 0 then [req.objectId]
          else versionObjects s ⟨req.job, req.modelRole, req.modelVersion⟩)
    else []
  | _ => []

/-- The events of a task that takes the mutex again. -/
def resumeEvents (now : ℕ) : Task → List Moment
  | .drainCommit w cold =>
    if w.forced = none ∧ s.store.slotState w.baseSlot ≠ .drainInFlight then []
    else
      match cold with
      | none => [(s, .failDrain w)]
      | some cold =>
        let s' := finishDrain c (s.drainDone w.nbytes) now w cold
        (s, .settle w) :: (w.goesOn.toList.flatMap fun p => (s, .resume p) :: findEvents c s' p) ++
          leftRuns s' (s.store.leaseRun w.leaseId)
  | .readbackTaken job =>
    if s.store.slotState job.baseSlot = .readbackInFlight then [] else [(s, .endReadback job)]
  | .readbackMissing job => [(s, .endReadback job)]
  | .readbackCommit job ok =>
    (s, .endReadback job) ::
      if ok ∧ s.store.slotState job.baseSlot = .readbackInFlight then [(s, .readback job)] else []
  | .restoreCommit req base _ _ ok => if ok then [(s, .warm req base)] else []
  | .pullStaged l buf =>
    if (s.catalog.objects.lookup l.req.objectId).isSome ∧ buf.isSome then []
    else [(s, .failStaging l)]
  | .pullSent l _ => freeEvents c (endExport s l) now l.req.objectId
  | _ => []

def events : Action → List Moment
  | .rpc now req => requestEvents c s now req
  | .proceed now i =>
    (s.store.tasks[i]?).toList.flatMap
      (resumeEvents c { s with store := s.store.dropTask i } now)
  | .heartbeatSweep now =>
    eventsAlong (fun s r => expireEvents c s now r) (checkSession c now) s
      (s.sessions.rows.map (·.1))
  | _ => []

/-- A step meets the rules if all its events do. -/
abbrev Rules.ok (k : Rules) (a : Action) : Prop := k.Met (events c s a)

/-- Every step meets the rules that ask for nothing. -/
theorem Rules.free_ok (a : Action) : Rules.free.ok c s a := fun _ _ => trivial

end StateSpectre
