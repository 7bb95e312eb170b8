import StateSpectre.Objects
import StateSpectre.Reserve

/-!
# The v1 handlers

The life of a lease. An offload is granted a run (`RESERVED_D2H`), the rank
submits its copy (`D2H_IN_FLIGHT`) and completes it (`PINNED_VALID`), which
publishes the location of the tensor and may send the run to the drain workers
(`DRAIN_IN_FLIGHT`). A prefetch is bound to the resident run, or to a run that
the cold copy is read back into (`READBACK_IN_FLIGHT`); the rank submits the copy
to the GPU (`H2D_IN_FLIGHT`) and completes it, and the run is kept, or freed if
there is a cold copy. A lease can be released at any time by its owner.

A completion reaches the daemon by RPC, alone or in a batch, or through the
completion ring of the rank; the checks are the same (`d2hLease`, `h2dLease`).
-/

namespace StateSpectre

variable (c : Config) (s : State)

/-- The answer of a handler that only succeeds or fails. -/
def ack (ok : Bool) (message : String) : Response := .ack ⟨ok, message⟩

/-! ## Offload -/

def handleRequestOffload (now : ℕ) (req : RequestOffloadRequest) : State × Response :=
  if !s.epochValid req.rankId req.rankEpoch then (s, .offload { message := "epoch invalid" })
  else if req.nbytes = 0 then (s, .offload { message := "nbytes must be > 0" })
  else acquire c s now (.offload req (s.pidOf req.rankId)) 0

/-- The lease `id`, if the rank owns it and it starts at the slot given. -/
def Store.ownedLease (st : Store) (rankId id slotId : ℕ) : Option Lease :=
  (st.leases.lookup id).filter fun L => L.ownerRank = rankId ∧ L.baseSlot = slotId

/-- The copy of an offload, or of a prefetch, is submitted: the run, found in
    the state `source`, goes to the state `target`. -/
def markSubmitted (now : ℕ) (req : MarkSubmittedRequest) (source target : SlotState)
    (refusal : String) (gauge : Gauges → ℕ → Gauges) : State × Response :=
  if !s.epochValid req.rankId req.rankEpoch then (s, ack false "epoch invalid")
  else
    match s.store.ownedLease req.rankId req.leaseId req.slotId with
    | none => (s, ack false "lease/owner/slot mismatch")
    | some L =>
      if s.store.slotState L.baseSlot ≠ source then (s, ack false refusal)
      else
        ({ s with
            store := s.store.mapRun L.baseSlot L.slotCount fun _ e =>
              { e with submitSeq := req.submitSeq, state := target, lastTouchNs := now }
            gauges := gauge s.gauges L.nbytes }, ack true "ok")

def handleMarkD2HSubmitted (now : ℕ) (req : MarkSubmittedRequest) : State × Response :=
  markSubmitted s now req .reservedD2H .d2hInFlight "not in RESERVED_D2H" fun g n =>
    { g with inflightD2HBytes := addU64 g.inflightD2HBytes n }

/-! ## Completion of a D2H copy -/

/-- The lease whose D2H copy is complete, if the daemon accepts that. -/
def d2hLease (rankId rankEpoch id tensorId version slotId : ℕ) : Option Lease :=
  if !s.epochValid rankId rankEpoch then none
  else
    (s.store.ownedLease rankId id slotId).filter fun L =>
      L.tensorId = tensorId ∧ L.version = version ∧
        s.store.slotState L.baseSlot = .d2hInFlight

/-- A canonical object still being created is not drained: its lease must be
    there when it is committed. -/
def creatingCanonical (tensorId : ℕ) : Bool :=
  isCanonicalTid tensorId &&
    match s.catalog.objects.lookup (objectOfTid tensorId) with
    | some o => o.state == .creating
    | none => false

/-- Whether the run of a tensor is drained as soon as it is complete. -/
def drainsOnComplete (tensorId : ℕ) : Bool :=
  !creatingCanonical s tensorId && c.drainOnD2HComplete

/-- The run of a lease is sent to the drain workers. -/
def Store.enqueueDrain (st : Store) (now : ℕ) (L : Lease) : Store :=
  { st.setRunState now L.baseSlot L.slotCount .drainInFlight with
    drainQueue := st.drainQueue ++ [⟨L.baseSlot, L.slotCount⟩] }

/-- The bytes a rank copied into the run of a lease. A rank that copied nothing
    completes with what is there. -/
def Store.copiedBytes (st : Store) (id : ℕ) (L : Lease) : List Bytes :=
  (st.history.copied.lookup id).getD (st.readMem L.baseSlot (c.slotsSpanned L.nbytes))

/-- A D2H copy is complete: the run is valid and becomes the location of the
    tensor, unless a later version is known. -/
def Store.publishD2H (st : Store) (now id : ℕ) (L : Lease) (completeSeq : ℕ) : Store :=
  { (st.mapRun L.baseSlot L.slotCount fun _ e =>
      { e with completeSeq := completeSeq, state := .pinnedValid, lastTouchNs := now }
      ).updateLocationIfLatest L.tensorId L.version .pinned L.baseSlot 0 L.nbytes with
    history :=
      { st.history with
        accepted := ⟨L.tensorId, L.version, id, st.copiedBytes c id L⟩ :: st.history.accepted } }

/-- An accepted completion: the run is valid, and is drained if it should be. -/
def completeD2H (now id : ℕ) (L : Lease) (completeSeq : ℕ) : State :=
  let s' :=
    { s with
      store := s.store.publishD2H c now id L completeSeq
      gauges := { s.gauges with inflightD2HBytes := subU64 s.gauges.inflightD2HBytes L.nbytes } }
  if drainsOnComplete c s L.tensorId then
    { s' with
      store := s'.store.enqueueDrain now L
      gauges := { s'.gauges with drainingBytes := addU64 s'.gauges.drainingBytes L.nbytes } }
  else s'

/-- `apply_d2h_complete`, with whether the completion is accepted. -/
def applyD2HComplete (now rankId rankEpoch id tensorId version slotId completeSeq : ℕ) :
    State × Bool :=
  match d2hLease s rankId rankEpoch id tensorId version slotId with
  | none => (s, false)
  | some L => (completeD2H c s now id L completeSeq, true)

def handleMarkD2HComplete (now : ℕ) (req : MarkD2HCompleteRequest) : State × Response :=
  match d2hLease s req.rankId req.rankEpoch req.leaseId req.tensorId req.version req.slotId with
  | none => (s, .d2hComplete ⟨false, "rejected", false, false⟩)
  | some L =>
    (completeD2H c s now req.leaseId L req.completeSeq,
      .d2hComplete ⟨true, "ok", s.store.isLatest L.tensorId L.version,
        drainsOnComplete c s L.tensorId⟩)

/-! ## Prefetch -/

/-- A prefetch lease of the same tensor and version whose run is readable, or is
    being read back: the first one found. -/
def existingPrefetch (tensorId version : ℕ) : Option (ℕ × Lease) :=
  s.store.leases.rows.find? fun r =>
    r.2.isPrefetch && decide (r.2.tensorId = tensorId) && decide (r.2.version = version) &&
      (s.store.slotState r.2.baseSlot == .readbackInFlight ||
        s.store.slotState r.2.baseSlot == .pinnedValid)

/-- The answer to a prefetch that finds the lease `L`. -/
def prefetchFound (id : ℕ) (L : Lease) : RequestPrefetchResponse :=
  let ready := s.store.slotState L.baseSlot == .pinnedValid
  { ok := true, message := if ready then "ready" else "readback in flight"
    leaseId := id, slotId := L.baseSlot
    arenaId := c.plan.arenaId L.baseSlot, arenaOffset := c.plan.arenaOffset L.baseSlot
    nbytes := L.nbytes, state := s.store.slotState L.baseSlot, ready := ready
    version := L.version }

/-- A prefetch of a resident tensor is bound to its run, which may have a lease
    already. -/
def bindPrefetch (req : RequestPrefetchRequest) (loc : Location) (id : ℕ) : State × Response :=
  let L := prefetchLease c req loc loc.version (s.pidOf req.rankId) loc.slotId
  ({ s with store := { s.store with leases := s.store.leases.insert id L } },
    .prefetch
      { ok := true, message := "ok", leaseId := id, slotId := loc.slotId
        arenaId := c.plan.arenaId loc.slotId, arenaOffset := c.plan.arenaOffset loc.slotId
        nbytes := loc.nbytes, state := .pinnedValid, ready := true, version := loc.version })

/-- A prefetch that finds no lease draws a new one, on the resident run or on a
    run to read the cold copy back into. -/
def newPrefetch (now : ℕ) (req : RequestPrefetchRequest) (loc : Location) : State × Response :=
  let id := s.store.nextLeaseId
  let s' := { s with store := { s.store with nextLeaseId := id + 1 } }
  if loc.kind = .pinned ∧ s.store.slotState loc.slotId = .pinnedValid then
    bindPrefetch c s' req loc id
  else acquire c s' now (.prefetch req loc loc.version (s.pidOf req.rankId) id) 0

def handleRequestPrefetch (now : ℕ) (req : RequestPrefetchRequest) : State × Response :=
  if !s.epochValid req.rankId req.rankEpoch then (s, .prefetch { message := "epoch invalid" })
  else
    match s.store.locations.lookup req.tensorId with
    | none => (s, .prefetch { message := "unknown tensor" })
    | some loc =>
      let wantVersion := if req.version = 0 then loc.version else req.version
      if wantVersion ≠ loc.version then
        (s, .prefetch { message := "requested version not latest/available" })
      else if loc.kind = .none ∨ loc.kind = .deleted then
        (s, .prefetch { message := "tensor not resident" })
      else
        match existingPrefetch s req.tensorId loc.version with
        | some (id, L) => (s, .prefetch (prefetchFound c s id L))
        | none => newPrefetch c s now req loc

def handleMarkH2DSubmitted (now : ℕ) (req : MarkSubmittedRequest) : State × Response :=
  markSubmitted s now req .pinnedValid .h2dInFlight "slot not PINNED_VALID" fun g n =>
    { g with inflightH2DBytes := addU64 g.inflightH2DBytes n }

/-! ## Completion of an H2D copy -/

/-- The lease whose H2D copy is complete, if the daemon accepts that. The tensor
    and the version of the message are not looked at. -/
def h2dLease (rankId rankEpoch id slotId : ℕ) : Option Lease :=
  if !s.epochValid rankId rankEpoch then none
  else
    (s.store.ownedLease rankId id slotId).filter fun L =>
      s.store.slotState L.baseSlot = .h2dInFlight

/-- The cold reference a completion goes by: that of the location of the tensor,
    if it has one, or that of the slot. -/
def Store.h2dColdRef (st : Store) (tensorId base : ℕ) : ℕ :=
  match st.locations.lookup tensorId with
  | some loc => if loc.coldRef ≠ 0 then loc.coldRef else (st.slots base).coldRef
  | none => (st.slots base).coldRef

/-- The cold copy a completion finds. -/
def Store.h2dCold (st : Store) (tensorId base : ℕ) : Option ColdEntry :=
  let cref := st.h2dColdRef tensorId base
  if cref ≠ 0 then st.coldStore.lookup cref else none

/-- A location at the slot `base`, of that version, falls back to a cold tier. -/
def Location.fallBack (base version : ℕ) (kind : LocationKind) (loc : Location) : Location :=
  if loc.slotId = base ∧ loc.version = version then { loc with kind := kind, slotId := 0 } else loc

/-- A lease is dropped, and the location of a tensor changed. -/
def Store.unlink (st : Store) (id tensorId : ℕ) (f : Location → Location) : Store :=
  { st with leases := st.leases.erase id, locations := st.locations.modify tensorId f }

/-- A lease is dropped, the location of a tensor changed, and the run of the
    lease freed. -/
def freeRunOf (now id : ℕ) (L : Lease) (tensorId : ℕ) (f : Location → Location) : State :=
  { s with store := s.store.unlink id tensorId f }.freeSlots c now L.baseSlot L.slotCount

/-- The run is freed, as there is a cold copy: the location of the tensor falls
    back to it. -/
def releaseToCold (now id : ℕ) (L : Lease) (tensorId version : ℕ) (cold : ColdEntry) : State :=
  freeRunOf c s now id L tensorId (Location.fallBack L.baseSlot version cold.kind)

/-- The run is kept, and is the location of the tensor. -/
def Store.keepPinned (st : Store) (now : ℕ) (L : Lease) (tensorId version completeSeq : ℕ) :
    Store :=
  (st.mapRun L.baseSlot L.slotCount fun _ e =>
    { e with completeSeq := completeSeq, state := .pinnedValid, lastTouchNs := now }
    ).updateLocationIfLatest tensorId version .pinned L.baseSlot
      (st.h2dColdRef tensorId L.baseSlot) L.nbytes

/-- An accepted completion of an H2D copy: the run is freed if there is a cold
    copy, unless it is to be kept. (The sequence number of the completion shows
    only in a run that is kept.) -/
def completeH2D (now id : ℕ) (L : Lease) (tensorId version : ℕ) (keep : Bool)
    (completeSeq : ℕ) : State :=
  let s' :=
    { s with
      gauges := { s.gauges with inflightH2DBytes := subU64 s.gauges.inflightH2DBytes L.nbytes } }
  match s.store.h2dCold tensorId L.baseSlot with
  | some cold =>
    if keep then { s' with store := s.store.keepPinned now L tensorId version completeSeq }
    else releaseToCold c s' now id L tensorId version cold
  | none => { s' with store := s.store.keepPinned now L tensorId version completeSeq }

/-- `apply_h2d_complete`, with whether the completion is accepted. -/
def applyH2DComplete (now rankId rankEpoch id tensorId version slotId : ℕ) (keep : Bool)
    (completeSeq : ℕ) : State × Bool :=
  match h2dLease s rankId rankEpoch id slotId with
  | none => (s, false)
  | some L => (completeH2D c s now id L tensorId version keep completeSeq, true)

def handleMarkH2DComplete (now : ℕ) (req : MarkH2DCompleteRequest) : State × Response :=
  let r := applyH2DComplete c s now req.rankId req.rankEpoch req.leaseId req.tensorId req.version
    req.slotId req.keepPinned req.completeSeq
  (r.1, ack r.2 (if r.2 then "ok" else "rejected"))

/-! ## Release -/

/-- The states in which releasing a lease frees its run. In the others, the
    drain workers will. -/
def releaseFrees : SlotState → Bool
  | .pinnedValid | .reservedD2H | .h2dInFlight | .d2hInFlight | .readbackInFlight => true
  | _ => false

/-- A pinned location at the slot `base`, of that version, is none any more. -/
def Location.forget (base version : ℕ) (loc : Location) : Location :=
  if loc.slotId = base ∧ loc.kind = .pinned ∧ loc.version = version then
    { loc with kind := .none }
  else loc

/-- The run of a lease is freed, and the tensor has no location if it was there. -/
def freeLease (now id : ℕ) (L : Lease) : State :=
  freeRunOf c s now id L L.tensorId (Location.forget L.baseSlot L.version)

def handleReleaseLease (now : ℕ) (req : ReleaseLeaseRequest) : State × Response :=
  if !s.epochValid req.rankId req.rankEpoch then (s, ack false "epoch invalid")
  else
    match s.store.leases.lookup req.leaseId with
    | none => (s, ack true "already released")
    | some L =>
      if L.ownerRank ≠ req.rankId then (s, ack false "not lease owner")
      else if releaseFrees (s.store.slotState L.baseSlot) then
        (freeLease c s now req.leaseId L, ack true "ok")
      else
        ({ s with store := s.store.dropLease req.leaseId }, ack true "ok (slot managed by drain)")

/-! ## Queries, batches and ring entries -/

def handleQueryLocation (req : LocationQueryRequest) : Response :=
  match s.store.locations.lookup req.tensorId with
  | none => .location { message := "unknown tensor" }
  | some loc =>
    if req.version ≠ 0 ∧ req.version ≠ loc.version then
      .location { message := "version not latest" }
    else
      .location
        { ok := true, message := "ok", locationKind := loc.kind.toNat, slotId := loc.slotId
          nbytes := loc.nbytes, version := loc.version }

/-- A completion of a batch of a rank, with whether it is accepted. -/
def applyBatchCompletion (now rankId rankEpoch : ℕ) (b : BatchCompletion) : State × Bool :=
  match b.eventType with
  | .d2hComplete =>
    applyD2HComplete c s now rankId rankEpoch b.leaseId b.tensorId b.version b.slotId b.seq
  | .h2dComplete =>
    applyH2DComplete c s now rankId rankEpoch b.leaseId b.tensorId b.version b.slotId
      b.keepPinned b.seq
  | .other => (s, false)

/-- The completions of a batch in order, counting those accepted and those rejected. -/
def applyBatch (now rankId rankEpoch : ℕ) (bs : List BatchCompletion) : State × ℕ × ℕ :=
  bs.foldl (fun r b =>
    let r' := applyBatchCompletion c r.1 now rankId rankEpoch b
    (r'.1, if r'.2 then (r.2.1 + 1, r.2.2) else (r.2.1, r.2.2 + 1))) (s, 0, 0)

def handleBatchComplete (now : ℕ) (req : BatchCompleteRequest) : State × Response :=
  let r := applyBatch c s now req.rankId req.rankEpoch req.completions
  (r.1, .batch ⟨true, "ok", r.2.1, r.2.2⟩)

/-- A completion that comes through a ring has no sequence number, and never
    keeps the run pinned. -/
def CompletionEntry.toBatch (e : CompletionEntry) : BatchCompletion :=
  { eventType := e.eventType, leaseId := e.leaseId, tensorId := e.tensorId
    version := e.version, slotId := e.slotId }

def applyRingCompletion (now rankId rankEpoch : ℕ) (e : CompletionEntry) : State :=
  (applyBatchCompletion c s now rankId rankEpoch e.toBatch).1

/-! ## The copies of the ranks -/

/-- The states in which the owner of a lease may copy into its run. -/
def d2hOpen : SlotState → Bool
  | .reservedD2H | .d2hInFlight => true
  | _ => false

/-- The owner of a lease copies its tensor into the run, as long as the daemon
    waits for it to. -/
def copyD2H (id : ℕ) (data : List Bytes) : Option State :=
  match s.store.leases.lookup id with
  | none => none
  | some L =>
    if !L.isPrefetch ∧ d2hOpen (s.store.slotState L.baseSlot) ∧
        data.length = c.slotsSpanned L.nbytes then
      let st := s.store.writeMem L.baseSlot (c.slotsSpanned L.nbytes) data
      some { s with
        store :=
          { st with history := { st.history with copied := st.history.copied.insert id data } } }
    else none

end StateSpectre
