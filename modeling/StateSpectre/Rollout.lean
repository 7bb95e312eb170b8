import Mathlib.Data.List.Sort
import StateSpectre.Canonical
import StateSpectre.Workers

/-!
# Sealed versions, exports and restores

A version of a role is sealed into a manifest of its objects, and the latest
one is promoted for the rollout engines, which pull its objects. Training ranks
restore objects instead: one that is cold is first warmed in a pinned run. Old
versions are dropped on request, or by the retention of sealed versions.
-/

namespace StateSpectre

variable (c : Config) (s : State) {req : RequestCanonicalRestoreRequest} {base nbytes : ℕ}
  {vk : VersionKey}

/-! ## Retention -/

/-- One object of an old version is reclaimed; whether none was in flight. -/
def retireObject (now : ℕ) (r : State × Bool) (oid : ℕ) : State × Bool :=
  match r.1.catalog.objects.lookup oid with
  | none => r
  | some o =>
    let f := releaseObject c r.1 now oid o
    (f.1, r.2 && f.2)

/-- The objects of an old version are reclaimed, and its manifest if none was in
    flight. The promoted version is left alone. -/
def retireVersion (now : ℕ) (uid : JobUID) (role latest : ℕ) (s : State) (version : ℕ) : State :=
  if version = latest then s
  else
    let vk : VersionKey := ⟨uid, role, version⟩
    let r := (versionObjects s vk).foldl (retireObject c now) (s, true)
    if r.2 then
      { r.1 with catalog := { r.1.catalog with manifests := r.1.catalog.manifests.erase vk } }
    else r.1

/-- The sealed versions of a role, newest first. -/
def sealedVersions (uid : JobUID) (role : ℕ) : List ℕ :=
  ((s.catalog.manifests.rows.filter fun r =>
    r.1.job = uid ∧ r.1.modelRole = role ∧ r.2.state = .sealed).map (·.1.modelVersion)
    ).insertionSort (· ≥ ·)

/-- All but the newest `retain_sealed_versions` sealed versions are retired. -/
def enforceSealedRetention (now : ℕ) (uid : JobUID) (role : ℕ) : State :=
  if c.retainSealedVersions = 0 then s
  else
    ((sealedVersions s uid role).drop c.retainSealedVersions).foldl
      (retireVersion c now uid role ((s.catalog.latestSealed.lookup ⟨uid, role⟩).getD 0)) s

/-! ## Seal -/

/-- The members of a version: its objects that can be read. -/
def sealMembers (vk : VersionKey) : List (ℕ × CanonicalObject) :=
  (versionRows s vk).filter fun r => r.2.state.readable

/-- Something is missing: an object cannot be read, or an expected parameter is
    not among the members. -/
def sealIncomplete (vk : VersionKey) (expectedParamIds : List ℕ) : Bool :=
  (versionRows s vk).any (fun r => !r.2.state.readable) ||
    expectedParamIds.any fun pid => (sealMembers s vk).all fun r => r.2.key.paramId != pid

/-- The hash of the members, in the order of their ids. -/
def manifestHash (ids : List ℕ) : ℕ × ℕ :=
  ids.foldl (fun h oid =>
    match s.catalog.objects.lookup oid with
    | none => h
    | some o =>
      mixManifest (mixManifest (mixManifest (mixManifest h oid) o.contentHashLo) o.contentHashHi)
        o.nbytes) (fnvOffset, fnvPrime)

/-- The manifest of a version that is sealed now. -/
def sealManifest (vk : VersionKey) : Manifest :=
  let members := sealMembers s vk
  let ids := (members.map (·.1)).insertionSort (· ≤ ·)
  let h := manifestHash s ids
  { state := .sealed, objectIds := ids
    totalNbytes := (members.map (·.2.nbytes)).sum % 2 ^ 64
    manifestHashLo := h.1, manifestHashHi := h.2 }

/-- The members are sealed, and the manifest is recorded. -/
def sealVersion (vk : VersionKey) : State :=
  let man := sealManifest s vk
  let s' := man.objectIds.foldl
    (fun s oid => s.modifyObject oid fun o => { o with state := .sealed }) s
  { s' with catalog := { s'.catalog with manifests := s'.catalog.manifests.insert vk man } }

theorem sealVersion_eq (vk : VersionKey) : sealVersion s vk =
    { s with
      catalog :=
        { s.catalog with
          objects := s.catalog.objects.modifyAll (sealManifest s vk).objectIds fun o =>
            { o with state := .sealed }
          manifests := s.catalog.manifests.insert vk (sealManifest s vk) } } := by
  have hfold : ∀ (oids : List ℕ) (s : State),
      oids.foldl (fun s oid => s.modifyObject oid fun o => { o with state := .sealed }) s =
        { s with
          catalog :=
            { s.catalog with
              objects :=
                s.catalog.objects.modifyAll oids fun o => { o with state := .sealed } } } := by
    intro oids
    induction oids with
    | nil => exact fun _ => rfl
    | cons oid oids ih => exact fun s => ih _
  rw [sealVersion, hfold]

/-- A seal changes the objects and the manifests only. -/
theorem sealVersion_frame (vk : VersionKey) : sealVersion s vk =
    { s with
      catalog :=
        { s.catalog with
          objects := (sealVersion s vk).catalog.objects
          manifests := s.catalog.manifests.insert vk (sealManifest s vk) } } := by
  rw [sealVersion_eq]

theorem versionSealed_sealVersion (vk : VersionKey) : versionSealed (sealVersion s vk) vk := by
  rw [sealVersion_eq, versionSealed]
  rw [show _ = some (sealManifest s vk) from (Table.lookup_insert ..).trans (if_pos rfl)]
  rfl

/-- The members of a version are sealed with it. -/
theorem lookup_sealVersion {oid : ℕ} : (sealVersion s vk).catalog.objects.lookup oid =
      (s.catalog.objects.lookup oid).map fun o =>
        if oid ∈ (sealManifest s vk).objectIds then { o with state := .sealed } else o := by
  rw [sealVersion_eq]
  exact Table.lookup_modifyAll (f := fun o : CanonicalObject => { o with state := .sealed })
    (fun _ => rfl) ..

/-- What relates an object to itself and a member to what is sealed relates the objects
    before and after a seal. -/
theorem sealVersion_linked {R : CanonicalObject → CanonicalObject → Prop} (hR : ∀ o, R o o)
    (hs : ∀ oid o, s.catalog.objects.lookup oid = some o → oid ∈ (sealManifest s vk).objectIds →
      R o { o with state := .sealed }) :
    s.catalog.objects.Linked R (sealVersion s vk).catalog.objects :=
  .of_map hR hs fun _ => lookup_sealVersion s

/-- A sealed version becomes the latest one of its role. -/
def markLatest (vk : VersionKey) : State :=
  { s with
    catalog :=
      { s.catalog with
        latestSealed := s.catalog.latestSealed.insert ⟨vk.job, vk.modelRole⟩ vk.modelVersion } }

theorem lookup_markLatest (vk : VersionKey) :
    (markLatest s vk).catalog.latestSealed.lookup ⟨vk.job, vk.modelRole⟩ = some vk.modelVersion :=
  (Table.lookup_insert ..).trans (if_pos rfl)

/-- A sealed version is promoted, and old ones are retired. -/
def promoteVersion (now : ℕ) (vk : VersionKey) : State :=
  enforceSealedRetention c (markLatest s vk) now vk.job vk.modelRole

/-- What is answered about a sealed manifest. -/
def sealResponse (man : Manifest) (message : String) : SealModelVersionResponse :=
  { ok := true, message := message, state := .sealed, tensorCount := man.objectIds.length
    totalNbytes := man.totalNbytes, manifestHashLo := man.manifestHashLo
    manifestHashHi := man.manifestHashHi }

/-- What is answered to a request to seal when nothing is to be done. -/
def sealCheck (req : SealModelVersionRequest) : Option SealModelVersionResponse :=
  if !c.enableCanonicalStore ∨ !c.enableManifests then some { message := "manifests disabled" }
  else
    match s.catalog.jobs.lookup req.job with
    | none => some { message := "job not registered" }
    | some _ =>
      ((s.catalog.manifests.lookup ⟨req.job, req.modelRole, req.modelVersion⟩).filter
        (·.state = .sealed)).map fun man => sealResponse man "already sealed"

/-- Whether a version is refused, as something is missing. -/
def sealFails (req : SealModelVersionRequest) : Bool :=
  c.sealRequiresAllObjectsValid && req.failIfMissing &&
    sealIncomplete s ⟨req.job, req.modelRole, req.modelVersion⟩ req.expectedParamIds

def handleSealModelVersion (now : ℕ) (req : SealModelVersionRequest) : State × Response :=
  let vk : VersionKey := ⟨req.job, req.modelRole, req.modelVersion⟩
  match sealCheck c s req with
  | some r => (s, .seal r)
  | none =>
    if sealFails c s req then
      let man : Manifest :=
        { state := .error, objectIds := (sealMembers s vk).map (·.1)
          totalNbytes := ((sealMembers s vk).map (·.2.nbytes)).sum % 2 ^ 64 }
      ({ s with catalog := { s.catalog with manifests := s.catalog.manifests.insert vk man } },
        .seal { message := "seal failed: required objects missing/invalid" })
    else
      let s' := sealVersion s vk
      (if req.promote then promoteVersion c s' now vk else s',
        .seal (sealResponse (sealManifest s vk) "sealed"))

/-! ## Queries -/

def handleGetLatestSealedVersion (req : GetLatestSealedVersionRequest) : Response :=
  match s.catalog.jobs.lookup req.job with
  | none => .latest { message := "job not registered" }
  | some _ =>
    match s.catalog.latestSealed.lookup ⟨req.job, req.modelRole⟩ with
    | none => .latest { ok := true, message := "no sealed version promoted" }
    | some v => .latest { ok := true, message := "ok", found := true, modelVersion := v }

/-- The hint about the tier of an object. -/
def locHint : LocationKind → String
  | .pinned => "pinned"
  | .pageable => "pageable"
  | .nvme => "nvme"
  | .gpu => "gpu"
  | _ => "none"

/-- The filters that are given agree with the key. -/
def ManifestFilter.accepts (f : ManifestFilter) (k : CanonicalTensorKey) : Bool :=
  f.ppRank.all (· == k.ppRank) && f.tpRank.all (· == k.tpRank) && f.epRank.all (· == k.epRank) &&
    f.etpRank.all (· == k.etpRank) && f.expertId.all (· == k.expertId)

/-- The entry of a member, if it is there and the filter accepts it. -/
def manifestEntry (f : ManifestFilter) (oid : ℕ) : Option TensorManifestEntry :=
  ((s.catalog.objects.lookup oid).filter fun o => f.accepts o.key).map fun o =>
    { key := o.key, objectId := oid, nbytes := o.nbytes, contentHashLo := o.contentHashLo
      contentHashHi := o.contentHashHi
      locationHint := locHint
        (((s.store.locations.lookup (canonicalTid oid)).map (·.kind)).getD .none) }

def handleGetManifest (req : GetManifestRequest) : GetManifestResponse :=
  match s.catalog.jobs.lookup req.job with
  | none => { message := "job not registered" }
  | some _ =>
    match (s.catalog.manifests.lookup ⟨req.job, req.modelRole, req.modelVersion⟩).filter
        (·.state = .sealed) with
    | none => { message := "no sealed manifest for version" }
    | some man =>
      { ok := true, message := "ok", state := man.state
        tensors := man.objectIds.filterMap (manifestEntry s req.filter) }

/-! ## Drop -/

/-- One object of a dropped version is reclaimed, or counted as in flight. -/
def dropObject (now : ℕ) (r : State × DropCanonicalVersionResponse) (oid : ℕ) :
    State × DropCanonicalVersionResponse :=
  match r.1.catalog.objects.lookup oid with
  | none => r
  | some o =>
    let f := releaseObject c r.1 now oid o
    (f.1,
      if f.2 then
        { r.2 with
          droppedCount := r.2.droppedCount + 1
          bytesFreed := addU64 r.2.bytesFreed o.nbytes }
      else { r.2 with skippedInflight := r.2.skippedInflight + 1 })

/-- The manifest of a version is forgotten, and so is its promotion. -/
def forgetVersion (vk : VersionKey) : State :=
  let rk : RoleKey := ⟨vk.job, vk.modelRole⟩
  { s with
    catalog :=
      { s.catalog with
        manifests := s.catalog.manifests.erase vk
        latestSealed :=
          if s.catalog.latestSealed.lookup rk = some vk.modelVersion then
            s.catalog.latestSealed.erase rk
          else s.catalog.latestSealed } }

def handleDropCanonicalVersion (now : ℕ) (req : DropCanonicalVersionRequest) : State × Response :=
  if !c.enableCanonicalStore then (s, .drop { message := "canonical store disabled" })
  else
    match s.catalog.jobs.lookup req.job with
    | none => (s, .drop { message := "job not registered" })
    | some _ =>
      let vk : VersionKey := ⟨req.job, req.modelRole, req.modelVersion⟩
      let r := (versionObjects s vk).foldl (dropObject c now) (s, { ok := true, message := "ok" })
      (forgetVersion r.1 vk, .drop r.2)

/-! ## Pull -/

/-- Changing the bytes of a job that are being exported. -/
def State.modifyJob (uid : JobUID) (f : JobRecord → JobRecord) : State :=
  { s with catalog := { s.catalog with jobs := s.catalog.jobs.modify uid f } }

/-- Why a pull is refused, or else the object. -/
def pullCheck (req : PullTensorRequest) : Except String CanonicalObject :=
  if !c.enableCanonicalStore ∨ !c.enableRolloutExport then .error "rollout export disabled"
  else
    match s.catalog.jobs.lookup req.job with
    | none => .error "job not registered"
    | some j =>
      match (s.catalog.manifests.lookup ⟨req.job, req.modelRole, req.modelVersion⟩).filter
          (·.state = .sealed) with
      | none => .error "version not sealed; refusing pull"
      | some man =>
        match s.catalog.objects.lookup req.objectId with
        | none => .error "unknown object"
        | some o =>
          if o.state ≠ .sealed then .error "object not sealed"
          else if req.objectId ∉ man.objectIds then .error "object not in manifest"
          else if 0 < c.maxConcurrentExportsPerJob ∧ 0 < j.inflightExportBytes ∧
              0 < j.maxInflightExportBytes ∧
              j.maxInflightExportBytes < addU64 j.inflightExportBytes o.nbytes then
            .error "export inflight quota exceeded"
          else .ok o

/-- The object is held for the export. -/
def startExport (req : PullTensorRequest) (o : CanonicalObject) : State :=
  (s.modifyObject req.objectId fun o =>
    { o with exportRefcount := o.exportRefcount + 1, state := .exportInFlight }).modifyJob req.job
    fun j => { j with inflightExportBytes := addU64 j.inflightExportBytes o.nbytes }

/-- The staging failed: the object is let go of. -/
def failStaging (l : PullLocals) : State × Response :=
  ((s.modifyObject l.req.objectId fun o =>
    { o with exportRefcount := decU32 o.exportRefcount, state := l.prevState }).modifyJob l.req.job
    fun j => { j with inflightExportBytes := subU64 j.inflightExportBytes l.nbytes },
    .pull { message := "staging failed", objectId := l.req.objectId })

/-- The bytes of the object are staged: copied from its run at once, or read
    from its cold copy without the mutex. -/
def stageForExport (l : PullLocals) : State × Response :=
  match s.store.locations.lookup (canonicalTid l.req.objectId) with
  | none => failStaging s l
  | some loc =>
    if loc.kind = .pinned then
      ({ s with
          store := s.store.addTask
            (.pullSendIo l (s.store.readMem loc.slotId (c.slotsSpanned l.nbytes))) }, .none)
    else if loc.kind = .pageable ∨ loc.kind = .nvme then
      match s.store.coldStore.lookup loc.coldRef with
      | none => failStaging s l
      | some cold => ({ s with store := s.store.addTask (.pullStageIo l cold) }, .none)
    else failStaging s l

def handlePullTensor (req : PullTensorRequest) : State × Response :=
  match pullCheck c s req with
  | .error message => (s, .pull { message := message, objectId := req.objectId })
  | .ok o =>
    stageForExport c (startExport s req o)
      { req := req, prevState := o.state, nbytes := o.nbytes, hashLo := o.contentHashLo
        hashHi := o.contentHashHi }

/-- The cold copy has been read, or not: the pull goes on to send it. -/
def pullStaged (l : PullLocals) (buf : Option (List Bytes)) : State × Response :=
  match s.catalog.objects.lookup l.req.objectId, buf with
  | some _, some b => ({ s with store := s.store.addTask (.pullSendIo l b) }, .none)
  | _, _ => failStaging s l

/-- The object of a pull is let go of. -/
def endExport (l : PullLocals) : State :=
  (s.modifyObject l.req.objectId fun o =>
    let n := o.exportRefcount - 1
    { o with exportRefcount := n, state := if n = 0 then l.prevState else o.state }).modifyJob
    l.req.job fun j =>
      if l.nbytes ≤ j.inflightExportBytes then
        { j with inflightExportBytes := j.inflightExportBytes - l.nbytes }
      else j

/-- The bytes have been sent, or not: the pull ends, and the object is reclaimed
    if all its holders have gone. -/
def pullSent (now : ℕ) (l : PullLocals) (error : Option String) : State × Response :=
  ((maybeFreeObject c (endExport s l) now l.req.objectId).1,
    match error with
    | some message =>
      .pull { message := "transport failed: " ++ message, objectId := l.req.objectId }
    | none =>
      .pull
        { ok := true, message := "ok", objectId := l.req.objectId, nbytes := l.nbytes
          contentHashLo := l.hashLo, contentHashHi := l.hashHi })

/-! ## Restore -/

/-- The answer to a restore whose bytes are at the slot `base`. -/
def restoreServed (objectId nbytes base : ℕ) : Response :=
  .restore
    { ok := true, message := "ok", objectId := objectId, nbytes := nbytes
      arenaId := c.plan.arenaId base, arenaOffset := c.plan.arenaOffset base }

/-- A restore is answered with the run at `base`, if the rank is still there to be. -/
def noteHold (req : RequestCanonicalRestoreRequest) (base nbytes : ℕ) : State :=
  let hold : RestoreHold :=
    ⟨req.rankId, req.rankEpoch, req.objectId, base, s.store.readMem base (c.slotsSpanned nbytes)⟩
  { s with
    store :=
      { s.store with
        history :=
          { s.store.history with
            holds :=
              if s.epochValid req.rankId req.rankEpoch then hold :: s.store.history.holds
              else s.store.history.holds } } }

theorem noteHold_holds (h : s.epochValid req.rankId req.rankEpoch) :
    (noteHold c s req base nbytes).store.history.holds =
      ⟨req.rankId, req.rankEpoch, req.objectId, base,
        s.store.readMem base (c.slotsSpanned nbytes)⟩ :: s.store.history.holds :=
  if_pos h

theorem mem_noteHold {r : RestoreHold}
    (h : r ∈ (noteHold c s req base nbytes).store.history.holds) :
    r ∈ s.store.history.holds ∨ r.base = base := by
  dsimp only [noteHold] at h
  split at h
  · rcases List.mem_cons.1 h with rfl | h
    · exact .inr rfl
    · exact .inl h
  · exact .inl h

/-- An object is served from its pinned run, or warmed from its cold copy. -/
def restoreFrom (now : ℕ) (req : RequestCanonicalRestoreRequest) (o : CanonicalObject)
    (loc : Location) : State × Response :=
  if loc.kind = .pinned ∧ s.store.slotState loc.slotId = .pinnedValid then
    ((noteHold c s req loc.slotId o.nbytes).modifyObject req.objectId fun o =>
        { o with restoreRefcount := (o.restoreRefcount + 1) % 2 ^ 32 },
      restoreServed c req.objectId o.nbytes loc.slotId)
  else if loc.kind = .pageable ∨ loc.kind = .nvme then
    match if loc.coldRef = 0 then none else s.store.coldStore.lookup loc.coldRef with
    | none =>
      (s, .restore
        { message := "object cold reference not ready", retriable := true
          objectId := req.objectId })
    | some cold => acquire c s now (.restore req cold o.nbytes) 0
  else
    (s, .restore
      { message := "object transitioning between tiers", retriable := true
        objectId := req.objectId })

def handleRequestCanonicalRestore (now : ℕ) (req : RequestCanonicalRestoreRequest) :
    State × Response :=
  let refusal (message : String) : State × Response :=
    (s, .restore { message := message, objectId := req.objectId })
  if !c.enableCanonicalStore then refusal "canonical store disabled"
  else if !s.epochValid req.rankId req.rankEpoch then refusal "epoch invalid"
  else
    match s.catalog.objects.lookup req.objectId with
    | none => refusal "unknown object"
    | some o =>
      if !o.state.readable then refusal "object not readable"
      else
        match s.store.locations.lookup (canonicalTid req.objectId) with
        | none => refusal "object not resident"
        | some loc =>
          if loc.kind = .none ∨ loc.kind = .deleted then refusal "object not resident"
          else restoreFrom c s now req o loc

/-- A warmed run becomes the location of the synthetic tensor. The version and
    the cold reference of the location are kept, those of a blank one if there is
    none any more. -/
def Store.bindWarm (st : Store) (now tid base count nbytes : ℕ) : Store :=
  { st.setRunState now base count .pinnedValid with
    locations := st.locations.insert tid
      { (st.locations.lookup tid).getD {} with kind := .pinned, slotId := base, nbytes := nbytes } }

/-- The run of a restore has been read: it becomes the location of the object,
    whose cold copy is kept. -/
def warmCommit (now : ℕ) (req : RequestCanonicalRestoreRequest) (base count nbytes : ℕ) : State :=
  let s' :=
    { s.usePinned c count with
      store := s.store.bindWarm now (canonicalTid req.objectId) base count nbytes }
  (noteHold c s' req base nbytes).modifyObject req.objectId fun o =>
    { o with
      baseSlot := base
      slotCount := count
      state := .validMultiTier
      restoreRefcount := (o.restoreRefcount + 1) % 2 ^ 32 }

/-- The run of a restore has been read, or not. Then it is freed. -/
def restoreCommit (now : ℕ) (req : RequestCanonicalRestoreRequest) (base count nbytes : ℕ)
    (ok : Bool) : State × Response :=
  if ok then
    (warmCommit c s now req base count nbytes, restoreServed c req.objectId nbytes base)
  else
    ({ s with store := s.store.setRunState now base count .error }.freeSlots c now base count,
      .restore { message := "readback failed", objectId := req.objectId })

/-- One restore of an object is over. -/
def endRestore (objectId : ℕ) : State :=
  s.modifyObject objectId fun o => { o with restoreRefcount := o.restoreRefcount - 1 }

/-- A restore that a rank was answered is over, if it was. -/
def dropHold (rankId rankEpoch objectId : ℕ) : State :=
  { s with
    store :=
      { s.store with
        history :=
          { s.store.history with
            holds := s.store.history.holds.eraseP fun r =>
              r.rankId = rankId ∧ r.rankEpoch = rankEpoch ∧ r.objectId = objectId } } }

def handleReleaseCanonicalRestore (now : ℕ) (req : ReleaseCanonicalRestoreRequest) :
    State × Response :=
  if !s.epochValid req.rankId req.rankEpoch then (s, ack false "epoch invalid")
  else
    let s' := dropHold s req.rankId req.rankEpoch req.objectId
    ((maybeFreeObject c (endRestore s' req.objectId) now req.objectId).1, ack true "ok")

end StateSpectre
