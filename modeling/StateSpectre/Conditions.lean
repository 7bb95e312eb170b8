import StateSpectre.StoreStep

/-!
# The conditions of a step

When a step of the daemon meets the guards (`Guards.ok`): whatever it does to the
store, the guard of that transition holds in the state it is done in. The
conditions are those of the requests as they are found, of the tasks that take
the mutex again, and of the sessions that end; a step that goes over a list meets
them along the list.
-/

namespace StateSpectre

namespace Guards

variable (g : Guards) (c : Config) (s : State)

/-! ## Searches and completions -/

/-- A search: what is lent for it can be. -/
def okPurpose : Purpose → Prop
  | .offload req _ => g.lend req.tensorId req.version req.nbytes
  | .create req oid => g.lend (canonicalTid oid) canonicalVersion req.key.nbytes
  | .candidate req tid .. => g.lend tid canonicalVersion req.key.nbytes
  | .prefetch .. => True
  | .restore .. => True

/-- A completion of a D2H copy, if it is accepted. -/
abbrev okD2H (rankId rankEpoch id tensorId version slotId : ℕ) : Prop :=
  ∀ L, d2hLease s rankId rankEpoch id tensorId version slotId = some L → g.publish s.store L

/-- A completion of an H2D copy, if it is accepted: the run is kept, or freed
    once the lease is dropped and the location has fallen back. -/
abbrev okH2D (rankId rankEpoch id tensorId version slotId : ℕ) (keep : Bool) : Prop :=
  ∀ L, h2dLease s rankId rankEpoch id slotId = some L →
    g.h2d s.store L tensorId version ∧ g.complete id ∧
      ∀ cold, s.store.h2dCold tensorId L.baseSlot = some cold → keep = false →
        g.reclaim (s.store.unlink id tensorId (Location.fallBack L.baseSlot version cold.kind))
          L.baseSlot L.slotCount

/-- A completion in a batch, or from a ring. -/
def okCompletion (rankId rankEpoch : ℕ) (b : BatchCompletion) : Prop :=
  match b.eventType with
  | .d2hComplete => g.okD2H s rankId rankEpoch b.leaseId b.tensorId b.version b.slotId
  | .h2dComplete => g.okH2D s rankId rankEpoch b.leaseId b.tensorId b.version b.slotId b.keepPinned
  | .other => True

/-- The completions of a batch, along the batch. -/
abbrev okBatch (now rankId rankEpoch : ℕ) (bs : List BatchCompletion) : Prop :=
  Along (fun s b => g.okCompletion s rankId rankEpoch b)
    (fun s b => (applyBatchCompletion c s now rankId rankEpoch b).1) s bs

/-- A prefetch that is bound to a resident run, as it finds no lease. -/
abbrev okPrefetch (req : RequestPrefetchRequest) : Prop :=
  ∀ loc, s.store.locations.lookup req.tensorId = some loc →
    s.epochValid req.rankId req.rankEpoch → (req.version = 0 ∨ req.version = loc.version) →
    (existingPrefetch s req.tensorId loc.version).isNone →
    loc.kind = .pinned → s.store.slotState loc.slotId = .pinnedValid →
    g.bind s.store (prefetchLease c req loc loc.version (s.pidOf req.rankId) loc.slotId)

/-- A release of a lease, and of its run if that is freed, once the lease is dropped
    and the location forgotten. -/
abbrev okRelease (req : ReleaseLeaseRequest) : Prop :=
  ∀ L, s.store.leases.lookup req.leaseId = some L → s.epochValid req.rankId req.rankEpoch →
    L.ownerRank = req.rankId →
    g.dropLease req.leaseId ∧ (releaseFrees (s.store.slotState L.baseSlot) →
      g.release s.store L ∧
        g.reclaim (s.store.unlink req.leaseId L.tensorId (Location.forget L.baseSlot L.version))
          L.baseSlot L.slotCount)

/-! ## Canonical objects -/

/-- A run is searched for a new object, or for a candidate. -/
abbrev okEvict (req : RequestCanonicalEvictRequest) : Prop :=
  ∀ p ∈ evictSearch c s req, g.okPurpose p

/-- An object that is reclaimed, once its lease and location are dropped. -/
def okReclaim (oid : ℕ) (o : CanonicalObject) : Prop :=
  o.inFlight = false →
    g.dropLease o.leaseId ∧ g.dropLocation (s.store.dropLease o.leaseId) (canonicalTid oid) ∧
    ∀ loc, s.store.locations.lookup (canonicalTid oid) = some loc →
      let st := (s.store.dropLease o.leaseId).dropLocation (canonicalTid oid)
      if loc.kind = .pinned ∧ o.baseSlot ≠ noIndex then
        st.slotState o.baseSlot = .pinnedValid → g.reclaim st o.baseSlot o.slotCount
      else loc.coldRef ≠ 0 → g.forgetCold st loc.coldRef

/-- An object that is dropped, whoever holds it. -/
abbrev okDrop (oid : ℕ) : Prop := ∀ o, s.catalog.objects.lookup oid = some o → g.okReclaim s oid o

/-- An object that is reclaimed if no rank holds it. -/
abbrev okFree (oid : ℕ) : Prop :=
  ∀ o, s.catalog.objects.lookup oid = some o → o.holders = ∅ → g.okReclaim s oid o

/-- A rank lets go of one object. -/
abbrev okReleaseHold (rankId oid : ℕ) : Prop :=
  ∀ o, s.catalog.objects.lookup oid = some o → rankId ∈ o.holders →
    g.okFree (s.modifyObject oid fun o => o.dropHolder rankId) oid

/-- A rank lets go of the objects of a request. -/
abbrev okReleaseCanonical (now : ℕ) (req : ReleaseCanonicalRequest) : Prop :=
  s.epochValid req.rankId req.rankEpoch → (s.catalog.jobs.lookup req.job).isSome →
  Along (fun r oid => g.okReleaseHold r.1 req.rankId oid) (releaseHold c now req.rankId)
    (s, { ok := true, message := "ok" })
    (if req.objectId ≠ 0 then [req.objectId]
      else versionObjects s ⟨req.job, req.modelRole, req.modelVersion⟩)

abbrev okDropVersion (now : ℕ) (req : DropCanonicalVersionRequest) : Prop :=
  (s.catalog.jobs.lookup req.job).isSome →
  Along (fun r oid => g.okDrop r.1 oid) (dropObject c now) (s, { ok := true, message := "ok" })
    (versionObjects s ⟨req.job, req.modelRole, req.modelVersion⟩)

/-- The objects of an old version are dropped, unless it is the promoted one. -/
abbrev okRetire (now : ℕ) (uid : JobUID) (role latest : ℕ) (s : State) (version : ℕ) : Prop :=
  version ≠ latest →
    Along (fun r oid => g.okDrop r.1 oid) (retireObject c now) (s, true)
      (versionObjects s ⟨uid, role, version⟩)

/-- Old versions are retired when one is promoted. -/
def okRetention (now : ℕ) (uid : JobUID) (role : ℕ) : Prop :=
  let latest := (s.catalog.latestSealed.lookup ⟨uid, role⟩).getD 0
  c.retainSealedVersions ≠ 0 →
    Along (g.okRetire c now uid role latest) (retireVersion c now uid role latest) s
      ((sealedVersions s uid role).drop c.retainSealedVersions)

def okSeal (now : ℕ) (req : SealModelVersionRequest) : Prop :=
  let vk : VersionKey := ⟨req.job, req.modelRole, req.modelVersion⟩
  sealCheck c s req = none → sealFails c s req = false → req.promote →
    g.okRetention c (markLatest (sealVersion s vk) vk) now req.job req.modelRole

/-- The commit of a lease that is taken for a candidate. -/
abbrev okCommit (req : CommitCanonicalObjectRequest) : Prop :=
  ∀ o, s.catalog.objects.lookup req.objectId = some o →
    ∀ L, s.store.leases.lookup req.leaseId = some L →
    s.epochValid req.rankId req.rankEpoch → o.createdBy req.leaseId = false →
    g.dropLease req.leaseId ∧ g.dropLocation (s.store.dropLease req.leaseId) L.tensorId ∧
      (candidateFrees (s.store.slotState L.baseSlot) →
        g.reclaim ((s.store.dropLease req.leaseId).dropLocation L.tensorId) L.baseSlot L.slotCount)

/-- A restore from the cold location of an object. -/
abbrev okRestore (req : RequestCanonicalRestoreRequest) : Prop :=
  ∀ o, s.catalog.objects.lookup req.objectId = some o →
    ∀ loc, s.store.locations.lookup (canonicalTid req.objectId) = some loc →
    loc.kind = .pageable ∨ loc.kind = .nvme → g.warm loc o.nbytes

/-! ## Sessions -/

/-- The leases of a session are dropped, and then recovered. -/
abbrev okRecover (now rankId rankEpoch : ℕ) : Prop :=
  (∀ r ∈ sessionLeases s rankId rankEpoch, g.dropLease r.1) ∧
  Along (fun s L => survivesOwner (s.store.slotState L.baseSlot) = false →
      g.reclaim s.store L.baseSlot L.slotCount) (recoverLease c now)
    { s with store := s.store.dropLeases ((sessionLeases s rankId rankEpoch).map (·.1)) }
    ((sessionLeases s rankId rankEpoch).map (·.2))

/-- A rank lets go of all objects. -/
abbrev okPurge (now rankId : ℕ) : Prop :=
  Along (fun s oid => g.okFree s oid) (fun s oid => (maybeFreeObject c s now oid).1)
    (dropHolds s rankId (heldObjects s rankId)) (heldObjects s rankId)

/-- The live session of a rank is invalidated. -/
abbrev okInvalidate (now rankId : ℕ) : Prop :=
  ∀ ses, s.sessions.lookup rankId = some ses → ses.alive →
    g.okRecover c (s.endSession rankId) now rankId ses.rankEpoch ∧
      g.okPurge c (releaseRing c (recoverLeases c (s.endSession rankId) now rankId ses.rankEpoch)
        now rankId ses) now rankId

abbrev okRegister (now : ℕ) (req : RegisterRankRequest) : Prop :=
  Along (fun s r => g.okInvalidate c s now r) (fun s r => invalidateSession c s now r) s
    (req.rankId :: ranksOfPid s req.rankId req.pid)

abbrev okExpire (now rankId : ℕ) : Prop :=
  ∀ ses, s.sessions.lookup rankId = some ses → ses.expired c now →
    g.okRecover c (s.endSession rankId) now rankId ses.rankEpoch ∧
      g.okPurge c (recoverLeases c (s.endSession rankId) now rankId ses.rankEpoch) now rankId

/-! ## Steps -/

def okRequest (now : ℕ) : Request → Prop
  | .register req => g.okRegister c s now req
  | .offload req =>
    s.epochValid req.rankId req.rankEpoch → req.nbytes ≠ 0 →
      g.lend req.tensorId req.version req.nbytes
  | .d2hComplete req =>
    g.okD2H s req.rankId req.rankEpoch req.leaseId req.tensorId req.version req.slotId
  | .prefetch req => g.okPrefetch c s req
  | .h2dComplete req =>
    g.okH2D s req.rankId req.rankEpoch req.leaseId req.tensorId req.version req.slotId
      req.keepPinned
  | .releaseLease req => g.okRelease s req
  | .batchComplete req => g.okBatch c s now req.rankId req.rankEpoch req.completions
  | .evict req => g.okEvict c s req
  | .commit req => g.okCommit s req
  | .seal req => g.okSeal c s now req
  | .restore req => g.okRestore s req
  | .releaseRestore req =>
    s.epochValid req.rankId req.rankEpoch →
      g.okFree (endRestore (dropHold s req.rankId req.rankEpoch req.objectId) req.objectId)
        req.objectId
  | .drop req => g.okDropVersion c s now req
  | .releaseCanonical req => g.okReleaseCanonical c s now req
  | _ => True

/-- The condition of a task that takes the mutex again. -/
def okResume : Task → Prop
  | .drainCommit w cold =>
    (∀ p ∈ w.forced, g.okPurpose p.1) ∧
      ∀ e ∈ cold, (w.forced = none → s.store.slotState w.baseSlot = .drainInFlight) →
        g.dropLease w.leaseId ∧ g.reclaim (s.store.settleDrain w e) w.baseSlot w.slotCount
  | .restoreCommit req base count _ ok =>
    if ok then g.bindWarm s.store (canonicalTid req.objectId) base else g.reclaim s.store base count
  | .pullSent l _ => g.okFree (endExport s l) l.req.objectId
  | _ => True

/-- The condition of the copy that a task makes, with its outcome. -/
def okCopy (st : Store) (result : IoResult) : Task → Prop
  | .readbackIo .. | .restoreIo .. => g.read result
  | .pullStageIo l _ => g.stage st (c.slotsSpanned l.nbytes)
  | _ => True

def ok : Action → Prop
  | .rpc now req => g.okRequest c s now req
  | .io i result => ∀ t, s.store.tasks[i]? = some t → g.okCopy c (s.store.dropTask i) result t
  | .proceed _ i =>
    ∀ t, s.store.tasks[i]? = some t → g.okResume { s with store := s.store.dropTask i } t
  | .heartbeatSweep now =>
    Along (fun s r => g.okExpire c s now r) (checkSession c now) s (s.sessions.rows.map (·.1))
  | .pollRing _ i =>
    ∀ e, (s.rings i).pending.head? = some e →
      g.okCompletion s (s.rings i).ownerRank (s.rings i).rankEpoch e.toBatch
  | _ => True

/-! ## No conditions -/

section Unguarded

variable {c s}

abbrev unguarded : Guards := {}

@[simp] theorem unguarded_okPurpose (p : Purpose) : unguarded.okPurpose p := by
  cases p <;> trivial

@[simp] theorem unguarded_okCompletion {rankId rankEpoch : ℕ} {b : BatchCompletion} :
    unguarded.okCompletion s rankId rankEpoch b := by
  unfold okCompletion
  split <;> simp [okD2H, okH2D]

@[simp] theorem unguarded_okReclaim {oid : ℕ} {o : CanonicalObject} :
    unguarded.okReclaim s oid o := by
  simp [okReclaim]

@[simp] theorem unguarded_okRetention {now role : ℕ} {uid : JobUID} :
    unguarded.okRetention c s now uid role :=
  fun _ => .of_forall (by simp [okRetire, okDrop]) _ _

/-- Every step meets them. -/
theorem unguarded_ok {a : Action} : unguarded.ok c s a := by
  induction a using Action.casesOn with
  | rpc now req =>
    induction req using Request.casesOn <;>
      simp [ok, okRequest, okRegister, okInvalidate, okRecover, okPurge, okFree, okD2H, okH2D,
        okPrefetch, okRelease, okBatch, okEvict, okCommit, okSeal, okRestore, okDropVersion, okDrop,
        okReleaseCanonical, okReleaseHold]
  | io i result =>
    intro t _
    induction t using Task.casesOn <;> simp [okCopy]
  | proceed now i =>
    intro t _
    induction t using Task.casesOn <;> simp [okResume, okFree]
  | _ => simp [ok, okExpire, okRecover, okPurge, okFree]

end Unguarded

/-! ## Evaluating the conditions -/

section Decidable

variable {g c s} [DecidableGuards g] {now rankId rankEpoch : ℕ}

instance {p : Purpose} : Decidable (g.okPurpose p) := by
  induction p using Purpose.casesOn <;> dsimp only [okPurpose] <;> infer_instance

instance {b : BatchCompletion} : Decidable (g.okCompletion s rankId rankEpoch b) := by
  unfold okCompletion
  split <;> infer_instance

instance {oid : ℕ} {o : CanonicalObject} : Decidable (g.okReclaim s oid o) :=
  inferInstanceAs (Decidable (_ → _ ∧ _ ∧ ∀ loc, _ = some loc → ite _ _ _))

instance {uid : JobUID} {role : ℕ} : Decidable (g.okRetention c s now uid role) :=
  inferInstanceAs (Decidable (_ → Along _ _ _ _))

instance {req : SealModelVersionRequest} : Decidable (g.okSeal c s now req) :=
  inferInstanceAs (Decidable (_ → _ → _ → _))

instance {req : Request} : Decidable (g.okRequest c s now req) := by
  induction req using Request.casesOn <;> dsimp only [okRequest] <;> infer_instance

instance {t : Task} : Decidable (g.okResume s t) := by
  induction t using Task.casesOn <;> dsimp only [okResume] <;> infer_instance

instance {st : Store} {result : IoResult} {t : Task} : Decidable (g.okCopy c st result t) := by
  induction t using Task.casesOn <;> dsimp only [okCopy] <;> infer_instance

instance {a : Action} : Decidable (g.ok c s a) := by
  induction a using Action.casesOn <;> dsimp only [ok] <;> infer_instance

end Decidable

end Guards

end StateSpectre
