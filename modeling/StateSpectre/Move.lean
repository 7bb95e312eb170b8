import StateSpectre.StoreStep

/-!
# What a step can do to the daemon

A step of the daemon is made of *moves* (`Move`): one thing that happens to the
state as a whole, the slot store together with the sessions and the catalog. A
run is lent to a search, a copy is published, a session ends and its leases are
dropped, an object loses a holder, a version is sealed, and so on. That every step
of the daemon is a sequence of moves is proved in `StateSpectre.Refinement`; what
the moves do to the store alone, or to the catalog alone, follows from them.

Between two moves of one step some things are still to be done, and the moves keep
them in *hand* (`Hand`): the search that is under way, runs that have lost their
lease, cold copies that have lost their location, objects that may have lost their
last holder, a rank whose session has just ended. A step ends with empty hands.

Where the daemon goes on without looking, the moves ask for the guards of the store
(`Guards`), and for the rules of the events of the step (`Rules`).
-/

namespace StateSpectre

/-! ## Rules -/

/-- The moments of a step at which the daemon takes something for granted. -/
inductive Event
  /-- A search for a run begins. -/
  | seek (p : Purpose)
  /-- A search goes on after the drain that it forced. -/
  | resume (p : Purpose)
  /-- The cold copy of a drain is recorded. -/
  | settle (w : DrainWork)
  /-- The copy of a drain has failed. -/
  | failDrain (w : DrainWork)
  /-- A search has found a run that a cold copy is to be read into. -/
  | readInto (base count : ℕ)
  /-- A run that was read back is published. -/
  | readback (job : ReadbackJob)
  /-- A readback is over. -/
  | endReadback (job : ReadbackJob)
  /-- A restore of an object is answered from the run at `base`. -/
  | serve (o : CanonicalObject) (base : ℕ)
  /-- A run that was warmed is handed out. -/
  | warm (req : RequestCanonicalRestoreRequest) (base : ℕ)
  /-- A restore is released. -/
  | endRestore (req : ReleaseCanonicalRestoreRequest)
  /-- A pull is accepted. -/
  | pull (l : PullLocals)
  /-- The staging of an export has failed. -/
  | failStaging (l : PullLocals)
  /-- The run that a search has found is charged to a job. -/
  | charge (job : JobUID) (nbytes : ℕ)
  /-- A lease is dropped, and its run left as it is. -/
  | dropLease (id : ℕ)
  /-- A rank is attached to an object. -/
  | attach (rankId oid : ℕ)
  /-- A lease is taken for that of a candidate, and thrown away. -/
  | discard (id : ℕ) (L : Lease)
  /-- The bytes of an object are given back to its job, with a lease that is thrown away. -/
  | refund (id : ℕ) (L : Lease) (o : CanonicalObject)
  /-- A version is sealed. -/
  | sealVersion (vk : VersionKey)
  /-- A sealed version becomes the latest one of its role. -/
  | promote (vk : VersionKey)
  /-- A version is dropped. -/
  | dropVersion (vk : VersionKey)
  /-- The live session of a rank ends. -/
  | endSession (rankId : ℕ)
  /-- A rank is heard of: it registers, or its heartbeat is accepted. -/
  | hear (rankId now : ℕ)
  /-- A run that has lost its lease or its location is left as it is. -/
  | abandon (base count : ℕ)

/-- Side conditions on the events of a step, in the state they happen in. -/
abbrev Rules := State → Event → Prop

/-- The rules that ask for nothing. -/
abbrev Rules.free : Rules := fun _ _ => True

/-! ## Hands -/

/-- What is still to be done in a step. -/
structure Hand where
  /-- Runs that are to be freed. -/
  freeing : List (ℕ × ℕ) := []
  /-- Runs that have lost their lease or their location, and may be left. -/
  left : List (ℕ × ℕ) := []
  /-- References of cold copies that are to be forgotten. -/
  forgetting : List ℕ := []
  /-- Objects that may have lost their last holder. -/
  due : List ℕ := []
  /-- The rank whose session has ended, and that may still hold objects. -/
  leaving : Option ℕ := none

/-- A state within a step: the search under way, and what is still to be done. -/
abbrev Scene := State × Option Purpose × Hand

/-- The searches of a scene, the one under way first. -/
def Scene.purposes (x : Scene) : List Purpose :=
  x.2.1.toList ++ x.1.store.tasks.filterMap Task.purpose

namespace Purpose

/-- The rank that a run is searched for. -/
def rankId : Purpose → ℕ
  | offload req _ => req.rankId
  | prefetch req .. => req.rankId
  | create req _ => req.rankId
  | candidate req .. => req.rankId
  | restore req .. => req.rankId

def rankEpoch : Purpose → ℕ
  | offload req _ => req.rankEpoch
  | prefetch req .. => req.rankEpoch
  | create req _ => req.rankEpoch
  | candidate req .. => req.rankEpoch
  | restore req .. => req.rankEpoch

/-- A search that draws no id. -/
def Plain : Purpose → Prop
  | offload .. | restore .. => True
  | prefetch .. | create .. | candidate .. => False

end Purpose

/-- The search that a forced drain goes on with, unless it was the last attempt. -/
def DrainWork.goesOn (w : DrainWork) : Option Purpose :=
  w.forced.bind fun p => if p.2 < maxDrainAttempts then some p.1 else none

theorem DrainWork.goesOn_sublist (w : DrainWork) :
    w.goesOn.toList.Sublist (w.forced.map (·.1)).toList := by
  rw [goesOn]
  rcases w.forced with _ | ⟨p, attempt⟩
  · exact .refl _
  · by_cases ha : attempt < maxDrainAttempts <;> simp [ha]

/-- The slot that a task looks at when it takes the mutex again, and the state in
    which it goes on. -/
def Task.awaits : Task → Option (ℕ × SlotState)
  | .drainTaken job => some (job.baseSlot, .drainInFlight)
  | .drainCommit w _ => some (w.baseSlot, .drainInFlight)
  | .readbackTaken job | .readbackCommit job _ => some (job.baseSlot, .readbackInFlight)
  | _ => none

/-- The readback that a task is at. -/
def Task.readback : Task → Option ReadbackJob
  | .readbackTaken job | .readbackMissing job | .readbackIo job _ | .readbackCommit job _ =>
    some job
  | _ => none

/-- The run of a lease, if it is there. -/
def Store.leaseRun (st : Store) (id : ℕ) : List (ℕ × ℕ) :=
  (st.leases.lookup id).toList.map fun L => (L.baseSlot, L.slotCount)

/-- The run recorded for an object, as long as it is the location of the object. -/
def State.objectRun (s : State) (oid : ℕ) (o : CanonicalObject) : List (ℕ × ℕ) :=
  ((s.store.locations.lookup (canonicalTid oid)).filter fun loc =>
    loc.kind = .pinned ∧ loc.slotId = o.baseSlot).toList.map fun _ => (o.baseSlot, o.slotCount)

/-- The cold copy that goes with an object: that of its location, unless it is pinned. -/
def State.objectCopy (s : State) (oid : ℕ) (o : CanonicalObject) : List ℕ :=
  ((s.store.locations.lookup (canonicalTid oid)).filter fun loc =>
    ¬(loc.kind = .pinned ∧ o.baseSlot ≠ noIndex) ∧ loc.coldRef ≠ 0).toList.map (·.coldRef)

/-- What is to be done once an object is gone. -/
def Hand.afterObject (h : Hand) (s : State) (oid : ℕ) (o : CanonicalObject) : Hand :=
  { h with
    left := s.store.leaseRun o.leaseId ++ s.objectRun oid o ++ h.left
    forgetting := s.objectCopy oid o ++ h.forgetting }

/-- The session of a rank ends, and its leases are dropped. -/
def State.leaveSession (s : State) (rankId rankEpoch : ℕ) : State :=
  { s.endSession rankId with
    store := (s.endSession rankId).store.dropLeases
      ((sessionLeases s rankId rankEpoch).map (·.1)) }

/-- The runs of the leases of a session. -/
def State.sessionRuns (s : State) (rankId rankEpoch : ℕ) : List (ℕ × ℕ) :=
  (sessionLeases s rankId rankEpoch).map fun r => (r.2.baseSlot, r.2.slotCount)

/-- A candidate is thrown away, apart from its run. -/
def State.unlinkCandidate (s : State) (id : ℕ) (L : Lease) (o : CanonicalObject) : State :=
  { s with
    store := (s.store.dropLease id).dropLocation L.tensorId
    catalog :=
      { s.catalog with
        jobs := s.catalog.jobs.modify o.key.job fun j =>
          if o.nbytes ≤ j.pinnedBytes then { j with pinnedBytes := j.pinnedBytes - o.nbytes }
          else j } }

/-- What a pull keeps of the object it exports. -/
def CanonicalObject.pullLocals (o : CanonicalObject) (req : PullTensorRequest) : PullLocals where
  req := req
  prevState := o.state
  nbytes := o.nbytes
  hashLo := o.contentHashLo
  hashHi := o.contentHashHi

/-- The bytes that may come of a cold copy, when it is read. -/
def ColdEntry.Reads (c : Config) (cold : ColdEntry) (data : List Bytes) : Prop :=
  ∃ result, readCold c cold result = some (data, true)

/-- The bytes that a pull may yet send. -/
def Task.Sends (c : Config) : Task → List Bytes → Prop
  | .pullStageIo _ cold | .pullReadIo _ cold => cold.Reads c
  | .pullStaged _ buf => fun data => buf = some data
  | .pullSendIo _ buf => fun data => buf = data
  | _ => fun _ => False

/-- The bytes that a pull may send when it begins: those of the run that the object is in, or of
    its cold copy. -/
def State.Sends (c : Config) (s : State) (l : PullLocals) (data : List Bytes) : Prop :=
  ∃ loc, s.store.locations.lookup (canonicalTid l.req.objectId) = some loc ∧
    (loc.kind = .pinned ∧ s.store.readMem loc.slotId (c.slotsSpanned l.nbytes) = data ∨
      ∃ cold, s.store.coldStore.lookup loc.coldRef = some cold ∧ cold.Reads c data)

/-- The gauges after a run of so many bytes has entered a state. -/
def Gauges.enter (gauges : Gauges) (q : SlotState) (nbytes : ℕ) : Gauges :=
  match q with
  | .d2hInFlight => { gauges with inflightD2HBytes := addU64 gauges.inflightD2HBytes nbytes }
  | .h2dInFlight => { gauges with inflightH2DBytes := addU64 gauges.inflightH2DBytes nbytes }
  | .drainInFlight => { gauges with drainingBytes := addU64 gauges.drainingBytes nbytes }
  | _ => gauges

/-- The gauges after a run of so many bytes has left a state. -/
def Gauges.leave (gauges : Gauges) (q : SlotState) (nbytes : ℕ) : Gauges :=
  match q with
  | .d2hInFlight => { gauges with inflightD2HBytes := subU64 gauges.inflightD2HBytes nbytes }
  | .h2dInFlight => { gauges with inflightH2DBytes := subU64 gauges.inflightH2DBytes nbytes }
  | .drainInFlight => { gauges with drainingBytes := subU64 gauges.drainingBytes nbytes }
  | _ => gauges

/-- The gauges after a task that finds its run in another state than it left it in. -/
def State.gaugesWithout (s : State) : Task → Gauges
  | .drainTaken job => s.gauges.leave .drainInFlight (s.store.slots job.baseSlot).nbytes
  | .drainCommit w _ => s.gauges.leave .drainInFlight w.nbytes
  | _ => s.gauges

/-! ## Moves -/

/-- The moves of the daemon. -/
inductive Move (c : Config) (g : Guards) (k : Rules) : Scene → Scene → Prop
  -- Searches that begin, and that are given up.
  | seek {s h p} : p.Plain → p.Sought g s.store → s.epochValid p.rankId p.rankEpoch →
      (∀ req cold nbytes, p = .restore req cold nbytes →
        ∃ o, s.catalog.objects.lookup req.objectId = some o ∧ o.state.readable ∧
          o.nbytes = nbytes) →
      k s (.seek p) → Move c g k (s, none, h) (s, some p, h)
  | seekPrefetch {s h req loc ownerPid} : s.store.locations.lookup req.tensorId = some loc →
      s.epochValid req.rankId req.rankEpoch →
      k s (.seek (.prefetch req loc loc.version ownerPid s.store.nextLeaseId)) →
      Move c g k (s, none, h)
        ({ s with store := { s.store with nextLeaseId := s.store.nextLeaseId + 1 } },
          some (.prefetch req loc loc.version ownerPid s.store.nextLeaseId), h)
  | seekCreate {s h req} : s.epochValid req.rankId req.rankEpoch →
      (s.catalog.jobs.lookup req.key.job).isSome →
      versionSealed s ⟨req.key.job, req.key.modelRole, req.key.modelVersion⟩ = false →
      (∀ oid o, findObjectByKey s (canonicalKeyString req.key) = some (oid, o) →
        o.state.readable = false ∧ o.state ≠ .creating) →
      k s (.seek (.create req s.catalog.nextObjectId)) →
      Move c g k (s, none, h) (s.drawObjectId, some (.create req s.catalog.nextObjectId), h)
  | seekCandidate {s h req oid o verify} : s.epochValid req.rankId req.rankEpoch →
      (s.catalog.jobs.lookup req.key.job).isSome →
      findObjectByKey s (canonicalKeyString req.key) = some (oid, o) →
      k s (.seek (.candidate req (candidateTid s.catalog.nextObjectId) oid verify)) →
      Move c g k (s, none, h)
        (s.drawObjectId, some (.candidate req (candidateTid s.catalog.nextObjectId) oid verify), h)
  | draw {s h} : Move c g k (s, none, h) (s.drawObjectId, none, h)
  | giveUp {s p h} : Move c g k (s, some p, h) (s, none, h)
  -- Searches that find a run, or drain one.
  | lend {s h req pid base now} : s.store.RunFree base (c.slotsForBytes req.nbytes) →
      g.lend req.tensorId req.version req.nbytes → c.Planned base (c.slotsForBytes req.nbytes) →
      Move c g k (s, some (.offload req pid), h)
        ({ s with
            store :=
              { s.store.reserve c.allocationGranularityBytes now s.store.nextLeaseId
                  (offloadLease c req pid base) req.flags .reservedD2H none with
                nextLeaseId := s.store.nextLeaseId + 1 }
            gauges := (s.usePinned c (c.slotsForBytes req.nbytes)).gauges }, none, h)
  | create {s h req oid base now} : s.store.RunFree base (c.slotsForBytes req.key.nbytes) →
      g.lend (canonicalTid oid) canonicalVersion req.key.nbytes →
      k s (.charge req.key.job req.key.nbytes) → c.Planned base (c.slotsForBytes req.key.nbytes) →
      Move c g k (s, some (.create req oid), h) ((grantCreate c s now req oid base).1, none, h)
  | candidate {s h req tid oid verify base now} :
      s.store.RunFree base (c.slotsForBytes req.key.nbytes) →
      g.lend tid canonicalVersion req.key.nbytes → k s (.charge req.key.job req.key.nbytes) →
      c.Planned base (c.slotsForBytes req.key.nbytes) →
      Move c g k (s, some (.candidate req tid oid verify), h)
        ((grantCandidate c s now req tid oid verify base).1, none, h)
  | readback {s h req loc version ownerPid id base now} :
      s.store.RunFree base (c.slotsForBytes loc.nbytes) →
      k s (.readInto base (c.slotsForBytes loc.nbytes)) →
      c.Planned base (c.slotsForBytes loc.nbytes) →
      Move c g k (s, some (.prefetch req loc version ownerPid id), h)
        ((grantPrefetch c s now req loc version ownerPid id base).1, none, h)
  | warm {s h req cold nbytes base now} : s.store.RunFree base (c.slotsForBytes nbytes) →
      k s (.readInto base (c.slotsForBytes nbytes)) →
      Move c g k (s, some (.restore req cold nbytes), h)
        ((grantRestore c s now req cold nbytes base).1, none, h)
  | force {s h p now attempt id L} : s.store.leases.lookup id = some L → s.drainable L →
      Move c g k (s, some p, h) (startForceDrain s now p attempt id L, none, h)
  -- Draining a run.
  | enqueue {s h now id L st seq} : s.store.leases.lookup id = some L →
      s.store = st.publishD2H c now id L seq → g.publish st L → drainsOnComplete c s L.tensorId →
      Move c g k (s, none, h)
        ({ s with
            store := s.store.enqueueDrain now L
            gauges := s.gauges.enter .drainInFlight L.nbytes },
          none, h)
  | takeDrain {s h job rest} : s.store.drainQueue = job :: rest →
      Move c g k (s, none, h)
        ({ s with store := { s.store with drainQueue := rest }.addTask (.drainTaken job) }, none, h)
  | drainBegin {s h i job} : s.store.tasks[i]? = some (.drainTaken job) →
      s.store.slotState job.baseSlot = .drainInFlight →
      Move c g k (s, none, h)
        ({ s with store := (s.store.dropTask i).addTask (.drainIo (drainSnapshot s.store job)) },
          none, h)
  | drainCopied {s h i w cold} : s.store.tasks[i]? = some (.drainIo w) →
      (∀ e ∈ cold, e = doDrainToCold c s.store w.baseSlot w.nbytes) →
      Move c g k (s, none, h)
        ({ s with store := (s.store.dropTask i).addTask (.drainCommit w cold) }, none, h)
  | drainSettled {s h i w cold} : s.store.tasks[i]? = some (.drainCommit w (some cold)) →
      (w.forced = none → s.store.slotState w.baseSlot = .drainInFlight) → g.dropLease w.leaseId →
      k { s with store := s.store.dropTask i } (.settle w) →
      (∀ p, w.goesOn = some p → k { s with store := s.store.dropTask i } (.resume p)) →
      g.reclaim ((s.store.dropTask i).settleDrain w cold) w.baseSlot w.slotCount →
      Move c g k (s, none, h)
        ({ s with
            store := (s.store.dropTask i).settleDrain w cold
            gauges := s.gauges.leave .drainInFlight w.nbytes }, w.goesOn,
          { h with
            freeing := (w.baseSlot, w.slotCount) :: h.freeing
            left := s.store.leaseRun w.leaseId ++ h.left })
  | drainFailed {s h i w now} : s.store.tasks[i]? = some (.drainCommit w none) →
      (w.forced = none → s.store.slotState w.baseSlot = .drainInFlight) →
      k { s with store := s.store.dropTask i } (.failDrain w) →
      Move c g k (s, none, h)
        ({ s with
            store := (s.store.dropTask i).setRunState now w.baseSlot w.slotCount .pinnedValid
            gauges := s.gauges.leave .drainInFlight w.nbytes },
          none, h)
  -- Reading a run back.
  | takeReadback {s h job rest} : s.store.readbackQueue = job :: rest →
      Move c g k (s, none, h)
        ({ s with store := { s.store with readbackQueue := rest }.addTask (.readbackTaken job) },
          none, h)
  | readbackFound {s h i job cold} : s.store.tasks[i]? = some (.readbackTaken job) →
      s.store.slotState job.baseSlot = .readbackInFlight →
      s.store.coldStore.lookup job.coldRef = some cold →
      Move c g k (s, none, h)
        ({ s with store := (s.store.dropTask i).addTask (.readbackIo job cold) }, none, h)
  | readbackLost {s h i job} : s.store.tasks[i]? = some (.readbackTaken job) →
      s.store.slotState job.baseSlot = .readbackInFlight →
      s.store.coldStore.lookup job.coldRef = none →
      Move c g k (s, none, h)
        ({ s with store := (s.store.dropTask i).addTask (.readbackMissing job) }, none, h)
  | readbackRead {s h i job cold result data ok} :
      s.store.tasks[i]? = some (.readbackIo job cold) →
      readCold c cold result = some (data, ok) → g.read result →
      Move c g k (s, none, h)
        ({ s with
            store := (doReadbackFromCold c (s.store.dropTask i) job.baseSlot job.nbytes data
              ).addTask (.readbackCommit job ok) }, none, h)
  | readbackMissing {s h i job now} : s.store.tasks[i]? = some (.readbackMissing job) →
      k { s with store := s.store.dropTask i } (.endReadback job) →
      Move c g k (s, none, h)
        ({ s with store := (s.store.dropTask i).setRunState now job.baseSlot job.slotCount .error },
          none, h)
  | readbackFailed {s h i job now} : s.store.tasks[i]? = some (.readbackCommit job false) →
      s.store.slotState job.baseSlot = .readbackInFlight →
      k { s with store := s.store.dropTask i } (.endReadback job) →
      Move c g k (s, none, h)
        ({ s with store := (s.store.dropTask i).setRunState now job.baseSlot job.slotCount .error },
          none, h)
  | readbackDone {s h i job now} : s.store.tasks[i]? = some (.readbackCommit job true) →
      s.store.slotState job.baseSlot = .readbackInFlight →
      k { s with store := s.store.dropTask i } (.readback job) →
      k { s with store := s.store.dropTask i } (.endReadback job) →
      Move c g k (s, none, h)
        ({ s with
            store := ((s.store.dropTask i).setRunState now job.baseSlot job.slotCount .pinnedValid
              ).updateLocationIfLatest (s.store.slots job.baseSlot).tensorId
                (s.store.slots job.baseSlot).version .pinned job.baseSlot job.coldRef job.nbytes },
          none, h)
  -- Warming a run, and reading it.
  | warmRead {s h i req base count cold nbytes result data ok} :
      s.store.tasks[i]? = some (.restoreIo req base count cold nbytes) →
      readCold c cold result = some (data, ok) → g.read result →
      Move c g k (s, none, h)
        ({ s with
            store := (doReadbackFromCold c (s.store.dropTask i) base nbytes data).addTask
              (.restoreCommit req base count nbytes ok) }, none, h)
  | warmDone {s h i req base count nbytes now} :
      s.store.tasks[i]? = some (.restoreCommit req base count nbytes true) →
      g.bindWarm (s.store.dropTask i) (canonicalTid req.objectId) base →
      k { s with store := s.store.dropTask i } (.warm req base) →
      Move c g k (s, none, h)
        (warmCommit c { s with store := s.store.dropTask i } now req base count nbytes, none, h)
  | warmFailed {s h i req base count nbytes} :
      s.store.tasks[i]? = some (.restoreCommit req base count nbytes false) →
      Move c g k (s, none, h)
        ({ s with store := s.store.dropTask i }, none,
          { h with freeing := (base, count) :: h.freeing })
  | restore {s h req o loc} : s.epochValid req.rankId req.rankEpoch →
      s.catalog.objects.lookup req.objectId = some o → o.state.readable →
      s.store.locations.lookup (canonicalTid req.objectId) = some loc → loc.kind = .pinned →
      s.store.slotState loc.slotId = .pinnedValid → k s (.serve o loc.slotId) →
      Move c g k (s, none, h)
        ((noteHold c s req loc.slotId o.nbytes).modifyObject req.objectId fun o =>
          { o with restoreRefcount := (o.restoreRefcount + 1) % 2 ^ 32 }, none, h)
  | endRestore {s h req} : s.epochValid req.rankId req.rankEpoch → k s (.endRestore req) →
      Move c g k (s, none, h)
        (endRestore (dropHold s req.rankId req.rankEpoch req.objectId) req.objectId, none,
          { h with due := req.objectId :: h.due })
  -- Exporting an object.
  | startPull {s h req o t} : pullCheck c s req = .ok o → t.pull = some (o.pullLocals req) →
      k s (.pull (o.pullLocals req)) →
      (∀ data, t.Sends c data → s.Sends c (o.pullLocals req) data) →
      Move c g k (s, none, h)
        ({ startExport s req o with store := s.store.addTask t }, none, h)
  | refusePull {s h req o} : pullCheck c s req = .ok o →
      k (startExport s req o) (.failStaging (o.pullLocals req)) →
      Move c g k (s, none, h) ((failStaging (startExport s req o) (o.pullLocals req)).1, none, h)
  | nextPull {s h i t t' l} : s.store.tasks[i]? = some t → t.pull = some l → t'.pull = some l →
      (∀ data, t'.Sends c data → t.Sends c data) →
      Move c g k (s, none, h) ({ s with store := (s.store.dropTask i).addTask t' }, none, h)
  | stage {s h i l cold result data ok} : s.store.tasks[i]? = some (.pullStageIo l cold) →
      readCold c cold result = some (data, ok) →
      g.stage (s.store.dropTask i) (c.slotsSpanned l.nbytes) →
      Move c g k (s, none, h)
        ({ s with
            store := (doReadbackFromCold c (s.store.dropTask i) 0 l.nbytes data).addTask
              (.pullReadIo l cold) }, none, h)
  | failPull {s h i l buf} : s.store.tasks[i]? = some (.pullStaged l buf) →
      k { s with store := s.store.dropTask i } (.failStaging l) →
      Move c g k (s, none, h)
        ((failStaging { s with store := s.store.dropTask i } l).1, none, h)
  | endPull {s h i l error} : s.store.tasks[i]? = some (.pullSent l error) →
      Move c g k (s, none, h)
        (endExport { s with store := s.store.dropTask i } l, none,
          { h with due := l.req.objectId :: h.due })
  -- The life of a lease.
  | copyD2H {s h id L data} : s.store.leases.lookup id = some L → !L.isPrefetch →
      d2hOpen (s.store.slotState L.baseSlot) → data.length = c.slotsSpanned L.nbytes →
      Move c g k (s, none, h)
        ({ s with
            store :=
              { s.store.writeMem L.baseSlot (c.slotsSpanned L.nbytes) data with
                history :=
                  { s.store.history with copied := s.store.history.copied.insert id data } } },
          none, h)
  | submit {s h id L now seq source target} : s.store.leases.lookup id = some L →
      s.store.slotState L.baseSlot = source →
      (source = .reservedD2H ∧ target = .d2hInFlight ∨
        source = .pinnedValid ∧ target = .h2dInFlight) →
      Move c g k (s, none, h)
        ({ s with
            store := s.store.mapRun L.baseSlot L.slotCount fun _ e =>
              { e with submitSeq := seq, state := target, lastTouchNs := now }
            gauges := s.gauges.enter target L.nbytes }, none, h)
  | publish {s h id L now seq} : s.store.leases.lookup id = some L →
      s.store.slotState L.baseSlot = .d2hInFlight → g.publish s.store L →
      Move c g k (s, none, h)
        ({ s with
            store := s.store.publishD2H c now id L seq
            gauges := s.gauges.leave .d2hInFlight L.nbytes }, none, h)
  | bind {s h req loc} : s.epochValid req.rankId req.rankEpoch →
      s.store.locations.lookup req.tensorId = some loc → loc.kind = .pinned →
      s.store.slotState loc.slotId = .pinnedValid →
      g.bind s.store (prefetchLease c req loc loc.version (s.pidOf req.rankId) loc.slotId) →
      Move c g k (s, none, h)
        ({ s with
            store :=
              { s.store with
                leases := s.store.leases.insert s.store.nextLeaseId
                  (prefetchLease c req loc loc.version (s.pidOf req.rankId) loc.slotId)
                nextLeaseId := s.store.nextLeaseId + 1 } }, none, h)
  | keepPinned {s h id L now t v seq} : s.store.leases.lookup id = some L →
      s.store.slotState L.baseSlot = .h2dInFlight → g.h2d s.store L t v → g.complete id →
      Move c g k (s, none, h)
        ({ s with
            store := s.store.keepPinned now L t v seq
            gauges := s.gauges.leave .h2dInFlight L.nbytes }, none, h)
  | fallBack {s h id L t v cold} : s.store.leases.lookup id = some L →
      s.store.slotState L.baseSlot = .h2dInFlight → s.store.h2dCold t L.baseSlot = some cold →
      g.h2d s.store L t v → g.complete id →
      g.reclaim (s.store.unlink id t (Location.fallBack L.baseSlot v cold.kind)) L.baseSlot
        L.slotCount →
      Move c g k (s, none, h)
        ({ s with
            store := s.store.unlink id t (Location.fallBack L.baseSlot v cold.kind)
            gauges := s.gauges.leave .h2dInFlight L.nbytes }, none,
          { h with freeing := (L.baseSlot, L.slotCount) :: h.freeing })
  | release {s h id L} : s.store.leases.lookup id = some L →
      releaseFrees (s.store.slotState L.baseSlot) → g.release s.store L → g.dropLease id →
      Move c g k (s, none, h)
        ({ s with store := s.store.unlink id L.tensorId (Location.forget L.baseSlot L.version) },
          none, { h with freeing := (L.baseSlot, L.slotCount) :: h.freeing })
  | dropLease {s h id L} : s.store.leases.lookup id = some L →
      releaseFrees (s.store.slotState L.baseSlot) = false → g.dropLease id → k s (.dropLease id) →
      Move c g k (s, none, h)
        ({ s with store := s.store.dropLease id }, none,
          { h with left := (L.baseSlot, L.slotCount) :: h.left })
  -- Tasks that find nothing to do, and what is still to be done.
  | dropTask {s h i t b q} : s.store.tasks[i]? = some t → t.purpose = none →
      t.awaits = some (b, q) → s.store.slotState b ≠ q →
      (∀ job, t.readback = some job → k { s with store := s.store.dropTask i } (.endReadback job)) →
      Move c g k (s, none, h)
        ({ s with store := s.store.dropTask i, gauges := s.gaugesWithout t }, none, h)
  | reclaim {s p h now b n} : g.reclaim s.store b n →
      Move c g k (s, p, h) (s.freeSlots c now b n, p, h)
  | reclaimMarked {s p h now b n q} : g.reclaim s.store b n → q = .error ∨ q = .coldValid →
      Move c g k (s, p, h) (s.reclaim c now b n q, p, h)
  | freed {s p h r freeing} : h.freeing = r :: freeing → s.store.RunFree r.1 r.2 →
      Move c g k (s, p, h) (s, p, { h with freeing := freeing })
  | leaveRun {s p h r left} : h.left = r :: left →
      s.store.RunFree r.1 r.2 ∨ k s (.abandon r.1 r.2) →
      Move c g k (s, p, h) (s, p, { h with left := left })
  | forgetCold {s h cref} : g.forgetCold s.store cref →
      Move c g k (s, none, h)
        ({ s with store := { s.store with coldStore := s.store.coldStore.erase cref } }, none, h)
  | forgot {s p h cref forgetting} : h.forgetting = cref :: forgetting →
      s.store.coldStore.lookup cref = none →
      Move c g k (s, p, h) (s, p, { h with forgetting := forgetting })
  -- The life of an object.
  | attach {s h rankId rankEpoch oid} : s.epochValid rankId rankEpoch → k s (.attach rankId oid) →
      Move c g k (s, none, h) (s.modifyObject oid fun o => o.addHolder rankId, none, h)
  | letGo {s h rankId oid} :
      Move c g k (s, none, h)
        (s.modifyObject oid fun o => o.dropHolder rankId, none, { h with due := oid :: h.due })
  | check {s h oid due due'} : h.due = due ++ oid :: due' →
      (∀ o, s.catalog.objects.lookup oid = some o → o.holders ≠ ∅ ∨ o.inFlight) →
      Move c g k (s, none, h) (s, none, { h with due := due ++ due' })
  | unlinkObject {s h oid o} : s.catalog.objects.lookup oid = some o → o.inFlight = false →
      g.dropLease o.leaseId → g.dropLocation (s.store.dropLease o.leaseId) (canonicalTid oid) →
      Move c g k (s, none, h) (unlinkObject s oid o, none, h.afterObject s oid o)
  | discard {s h id L o} : s.store.leases.lookup id = some L → g.dropLease id →
      g.dropLocation (s.store.dropLease id) L.tensorId → k s (.discard id L) →
      k s (.refund id L o) →
      Move c g k (s, none, h)
        (s.unlinkCandidate id L o, none,
          { h with left := (L.baseSlot, L.slotCount) :: h.left })
  | commit {s h o loc} {req : CommitCanonicalObjectRequest} :
      s.epochValid req.rankId req.rankEpoch →
      s.catalog.objects.lookup req.objectId = some o → o.createdBy req.leaseId →
      s.store.locations.lookup (canonicalTid req.objectId) = some loc → loc.kind ≠ .none →
      loc.kind ≠ .deleted →
      Move c g k (s, none, h)
        (s.modifyObject req.objectId fun o =>
          { o with
            contentHashLo := req.contentHashLo
            contentHashHi := req.contentHashHi
            state := committedState loc.kind }, none, h)
  -- Jobs and manifests.
  | registerJob {s h uid j epoch} :
      (∀ j', s.catalog.jobs.lookup uid = some j' → j'.state = .terminated) →
      j.state = .running → j.canonicalObjectCount = 0 → j.pinnedBytes = 0 →
      j.inflightExportBytes = 0 → j.maxInflightExportBytes = c.quotaMaxInflightExportBytes →
      Move c g k (s, none, h)
        ({ s with
            catalog :=
              { s.catalog with jobs := s.catalog.jobs.insert uid j, nextLaunchEpoch := epoch } },
          none, h)
  | sealVersion {s h vk} : (s.catalog.jobs.lookup vk.job).isSome → versionSealed s vk = false →
      k s (.sealVersion vk) →
      Move c g k (s, none, h)
        ({ s with
            catalog :=
              { s.catalog with
                objects := (sealVersion s vk).catalog.objects
                manifests := s.catalog.manifests.insert vk (sealManifest s vk) } }, none, h)
  | failSeal {s h vk man} : versionSealed s vk = false → man.state = .error →
      Move c g k (s, none, h)
        ({ s with catalog := { s.catalog with manifests := s.catalog.manifests.insert vk man } },
          none, h)
  | markLatest {s h vk} : versionSealed s vk → k s (.promote vk) →
      Move c g k (s, none, h) (markLatest s vk, none, h)
  | retire {s h vk} :
      s.catalog.latestSealed.lookup ⟨vk.job, vk.modelRole⟩ ≠ some vk.modelVersion →
      Move c g k (s, none, h)
        ({ s with catalog := { s.catalog with manifests := s.catalog.manifests.erase vk } }, none,
          h)
  | forgetVersion {s h vk} : k s (.dropVersion vk) →
      Move c g k (s, none, h) (forgetVersion s vk, none, h)
  -- Sessions and rings.
  | heartbeat {s h rankId now} : k s (.hear rankId now) →
      Move c g k (s, none, h)
        ({ s with
            sessions := s.sessions.modify rankId fun ses => { ses with lastHeartbeatNs := now } },
          none, h)
  | endSession {s h rankId ses} : s.sessions.lookup rankId = some ses → ses.alive →
      (∀ r ∈ sessionLeases s rankId ses.rankEpoch, g.dropLease r.1) → k s (.endSession rankId) →
      h.leaving = none →
      Move c g k (s, none, h)
        (s.leaveSession rankId ses.rankEpoch, none,
          { h with
            left := s.sessionRuns rankId ses.rankEpoch ++ h.left
            leaving := some rankId })
  | purged {s h rankId} : h.leaving = some rankId →
      (∀ oid o, s.catalog.objects.lookup oid = some o → rankId ∉ o.holders) →
      Move c g k (s, none, h) (s, none, { h with leaving := none })
  | closeRing {s h i rankId ses head} : s.sessions.lookup rankId = some ses → ses.alive = false →
      ses.ringIndex = i →
      Move c g k (s, none, h)
        ({ s with
            rings := Function.update s.rings i
              { ownerRank := noIndex, rankEpoch := 0, head := head }
            ringOwner := Function.update s.ringOwner i noIndex }, none, h)
  | openSession {s h now req} :
      (∀ ses, s.sessions.lookup req.rankId = some ses → ses.alive = false) →
      k s (.hear req.rankId now) →
      Move c g k (s, none, h) (openSession s now req (freeRing c s), none, h)
  | pushRing {s h i e rings} : pushRing c s i e = some { s with rings := rings } →
      Move c g k (s, none, h) ({ s with rings := rings }, none, h)
  | popRing {s h i e rest} : (s.rings i).pending = e :: rest →
      Move c g k (s, none, h)
        ({ s with
            rings := Function.update s.rings i
              { s.rings i with head := (s.rings i).head + 1, pending := rest } }, none, h)
  -- What no other move looks at.
  | rehash {s h leases sessions objects jobs manifests} : s.store.leases.Reordered leases →
      s.sessions.Reordered sessions → s.catalog.objects.Reordered objects →
      s.catalog.jobs.Reordered jobs → s.catalog.manifests.Reordered manifests →
      Move c g k (s, none, h)
        ({ s with
            store := { s.store with leases := leases }
            sessions := sessions
            catalog :=
              { s.catalog with objects := objects, jobs := jobs, manifests := manifests } },
          none, h)

abbrev Moves (c : Config) (g : Guards) (k : Rules) : Scene → Scene → Prop :=
  Relation.ReflTransGen (Move c g k)

end StateSpectre
