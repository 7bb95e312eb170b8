import StateSpectre.State

/-!
# Slots, locations and the allocator

The helpers that the handlers and the workers share, on the store or on the
whole state:

* the number of slots of a run, and reading and writing its content;
* the state of the slots of a run, reserving and freeing a run;
* the location table, which only moves on to the same or a later version;
* the allocator: a run of free slots in the windows, in order of preference;
* the choice of a run to drain when there is none.
-/

namespace StateSpectre

/-! ## Sizes -/

/-- The number of slots of a run of `nbytes`, as the daemon computes it: in 64
    bits, at least 1, and then cut to 32 bits. -/
def Config.slotsForBytes (c : Config) (nbytes : ℕ) : ℕ :=
  let n := (nbytes + c.allocationGranularityBytes - 1) % 2 ^ 64 / c.allocationGranularityBytes
  (if n = 0 then 1 else n) % 2 ^ 32

/-- The number of slots that a copy of `nbytes` goes over. -/
def Config.slotsSpanned (c : Config) (nbytes : ℕ) : ℕ :=
  (nbytes + c.allocationGranularityBytes - 1) / c.allocationGranularityBytes

/-- The number of bytes of `n` slots, in 64 bits. -/
def Config.runBytes (c : Config) (n : ℕ) : ℕ := n * c.allocationGranularityBytes % 2 ^ 64

/-! ## Runs of slots -/

namespace Store

variable (st : Store) {gpuId numaNode nbytes flags base : ℕ} {f : ℕ → SlotEntry → SlotEntry}
  {c : Config}

def slotState (id : ℕ) : SlotState := (st.slots id).state

abbrev RunFree (b n : ℕ) : Prop := ∀ i, InRun b n i → st.slotState i = .free

/-- Changing the slots of a run. -/
def mapRun (b n : ℕ) (f : ℕ → SlotEntry → SlotEntry) : Store :=
  { st with slots := onRun b n f st.slots }

theorem mapRun_slots_of_mem {st : Store} {b n i : ℕ} (hi : InRun b n i) :
    (st.mapRun b n f).slots i = f (i - b) (st.slots i) := onRun_of_mem hi

theorem mapRun_slots_of_not_mem {st : Store} {b n i : ℕ} (hi : ¬InRun b n i) :
    (st.mapRun b n f).slots i = st.slots i := onRun_of_not_mem hi

/-- Setting the state of the slots of a run, at the time `now`. -/
def setRunState (now b n : ℕ) (q : SlotState) : Store :=
  st.mapRun b n fun _ e => { e with state := q, lastTouchNs := now }

/-- Freeing the slots of a run: whatever they were for is forgotten. -/
def freeSlots (now b n : ℕ) : Store :=
  st.mapRun b n fun _ e =>
    { state := .free, lastTouchNs := now, flags := e.flags }

/-- The slot at the offset `k` of a run that is reserved for a lease, in the state
    `q`. It keeps its cold reference unless a new one is given. -/
def leaseSlot (gran now id : ℕ) (L : Lease) (flags : ℕ) (q : SlotState) (coldRef : Option ℕ)
    (k : ℕ) (e : SlotEntry) : SlotEntry :=
  { e with
    tensorId := L.tensorId
    version := L.version
    leaseId := id
    ownerRank := L.ownerRank
    ownerPid := L.ownerPid
    rankEpoch := L.rankEpoch
    nbytes := if k = 0 then L.nbytes else gran
    coldRef := coldRef.getD e.coldRef
    flags := flags
    state := q
    lastTouchNs := now }

/-- Reserving the run of a lease, in the state `q`: its slots are given the
    metadata of the lease, and the lease enters the table, with no copy made into
    its run so far. -/
def reserve (gran now id : ℕ) (L : Lease) (flags : ℕ) (q : SlotState) (coldRef : Option ℕ) :
    Store :=
  { st with
    slots := onRun L.baseSlot L.slotCount (leaseSlot gran now id L flags q coldRef) st.slots
    leases := st.leases.insert id L
    history := { st.history with copied := st.history.copied.erase id } }

/-- The content of a run of `n` slots. -/
def readMem (b n : ℕ) : List Bytes := readRun st.mem b n

/-- Writing `data` over the first slots of a run of `n`. -/
def writeMem (b n : ℕ) (data : List Bytes) : Store :=
  { st with mem := writeRun b n data st.mem }

/-! ## Locations -/

/-- Whether no later version of the tensor is known. -/
def isLatest (tensorId version : ℕ) : Bool :=
  match st.locations.lookup tensorId with
  | some loc => !decide (version < loc.version)
  | none => true

/-- A location replaces the one known, unless that is of a later version. -/
def updateLocationIfLatest (tensorId version : ℕ) (kind : LocationKind)
    (slotId coldRef nbytes : ℕ) : Store :=
  { st with
    locations :=
      if st.isLatest tensorId version then
        st.locations.insert tensorId ⟨version, kind, slotId, coldRef, nbytes⟩
      else st.locations }

theorem lookup_updateLocationIfLatest {st : Store} {t t' v slotId coldRef nbytes : ℕ}
    {kind : LocationKind} (h : t' ≠ t) :
    (st.updateLocationIfLatest t v kind slotId coldRef nbytes).locations.lookup t' =
      st.locations.lookup t' := by
  simp only [updateLocationIfLatest]
  split
  · rw [Table.lookup_insert, if_neg h]
  · rfl

def dropLocation (tensorId : ℕ) : Store :=
  { st with locations := st.locations.erase tensorId }

/-- A new cold copy enters the cold store, under the next reference. -/
def addCold (cold : ColdEntry) : Store :=
  { st with
    coldStore := st.coldStore.insert st.nextColdRef cold
    nextColdRef := st.nextColdRef + 1 }

/-! ## Leases and tasks -/

def dropLease (id : ℕ) : Store := { st with leases := st.leases.erase id }

def dropLeases (ids : List ℕ) : Store := { st with leases := st.leases.eraseAll ids }

/-- A thread goes on without the mutex. -/
def addTask (t : Task) : Store := { st with tasks := t :: st.tasks }

/-- The task `i` is over. -/
def dropTask (i : ℕ) : Store := { st with tasks := st.tasks.eraseIdx i }

end Store

/-! ## The allocator -/

/-- The first `count` consecutive free slots among `ids`: the scan goes on
    behind the first slot found in use. The fuel bounds the number of restarts. -/
def scanWindow (slotFree : ℕ → Bool) (count : ℕ) : ℕ → List ℕ → Option ℕ
  | 0, _ => none
  | fuel + 1, ids =>
    if ids.length < count then none
    else
      match (ids.take count).findIdx? (fun id => !slotFree id) with
      | none => ids.head?
      | some k => scanWindow slotFree count fuel (ids.drop (k + 1))

/-- The base of the first `count` consecutive free slots of a window. -/
def tryAllocInWindow (st : Store) (w : Window) (count : ℕ) : Option ℕ :=
  scanWindow (fun id => st.slotState id == .free) count (w.slotIds.length + 1) w.slotIds

/-- The window indexed under a node and a GPU, the last one carved. -/
def Config.windowIndex (c : Config) (numa gpu : ℕ) : Option Window :=
  (c.plan.windows.filter fun w => w.numaNode = numa ∧ w.gpu = gpu).getLast?

/-- The base of a free run for `nbytes`, if there is one: in the window of the
    GPU, in the overflow of its node, in the windows of the other GPUs of the
    node, and on other nodes if the flags allow it. -/
def allocateSlots (c : Config) (st : Store) (gpuId numaNode nbytes flags : ℕ) : Option ℕ :=
  let count := c.slotsForBytes nbytes
  let tryWin (gpu : ℕ) := (c.windowIndex numaNode gpu).bind fun w => tryAllocInWindow st w count
  let peers := c.plan.windows.filter fun w => w.numaNode = numaNode ∧ !w.isOverflow ∧ w.gpu ≠ gpuId
  let remote := c.plan.windows.filter fun w => w.numaNode ≠ numaNode
  tryWin gpuId <|> tryWin noIndex <|> peers.findSome? (tryAllocInWindow st · count) <|>
    if flags &&& flagAllowRemoteNuma ≠ 0 then remote.findSome? (tryAllocInWindow st · count)
    else none

/-- A scan ends at consecutive ids of the list, the first `count` of which are
    free. -/
theorem scanWindow_eq_some {slotFree : ℕ → Bool} {count fuel base : ℕ} {ids : List ℕ}
    (h : scanWindow slotFree count fuel ids = some base) :
    ∃ l r, ids = l ++ r ∧ r.head? = some base ∧ count ≤ r.length ∧
      ∀ id ∈ r.take count, slotFree id := by
  induction fuel generalizing ids with
  | zero => simp [scanWindow] at h
  | succ fuel ih =>
    rw [scanWindow] at h
    split at h
    · simp at h
    next hlen =>
      split at h
      · next hnone =>
        rw [List.findIdx?_eq_none_iff] at hnone
        exact ⟨[], ids, rfl, h, by omega, fun id hid => by simpa using hnone id hid⟩
      · next k _ =>
        obtain ⟨l, r, hids, hr⟩ := ih h
        exact ⟨ids.take (k + 1) ++ l, r,
          by rw [List.append_assoc, ← hids, List.take_append_drop], hr⟩

/-- A run found in a window has free slots of the window only. -/
theorem tryAllocInWindow_run {st : Store} {w : Window} {count base i : ℕ}
    (h : tryAllocInWindow st w count = some base) (hi : InRun base count i) :
    i ∈ w.slotIds ∧ st.slotState i = .free := by
  obtain ⟨l, r, hids, hhead, hlen, hfree⟩ := scanWindow_eq_some h
  obtain ⟨first, hfirst⟩ := w.consecutive
  obtain ⟨k, -, -, rfl⟩ := List.range'_eq_append_iff.1 (hfirst.symm.trans hids)
  rw [List.length_range'] at hlen
  obtain ⟨j, hj, rfl⟩ := inRun_iff.1 hi
  have hbase : base = first + k := by
    rw [List.head?_range'] at hhead
    split at hhead
    · cases hhead
    · rw [← Option.some.inj hhead, Nat.mul_one]
  have hmem : base + j ∈ (List.range' (first + k * 1) (w.slotIds.length - k)).take count :=
    List.mem_take_iff_getElem.2 ⟨j, by simp; omega, by simp [hbase]⟩
  refine ⟨?_, by simpa using hfree _ hmem⟩
  rw [hids]
  exact List.mem_append_right _ (List.mem_of_mem_take hmem)

/-- The allocator finds a run in one of the windows. -/
theorem allocateSlots_window {st : Store}
    (h : allocateSlots c st gpuId numaNode nbytes flags = some base) :
    ∃ w ∈ c.plan.windows, tryAllocInWindow st w (c.slotsForBytes nbytes) = some base := by
  have hwin : ∀ {gpu : ℕ}, ((c.windowIndex numaNode gpu).bind fun w =>
      tryAllocInWindow st w (c.slotsForBytes nbytes)) = some base →
      ∃ w ∈ c.plan.windows, tryAllocInWindow st w (c.slotsForBytes nbytes) = some base := by
    intro gpu hw
    obtain ⟨w, hmem, hw⟩ := Option.bind_eq_some_iff.1 hw
    exact ⟨w, List.mem_of_mem_filter (List.mem_of_getLast? hmem), hw⟩
  have hfind : ∀ {p : Window → Bool}, (c.plan.windows.filter p).findSome? (tryAllocInWindow st ·
      (c.slotsForBytes nbytes)) = some base →
      ∃ w ∈ c.plan.windows, tryAllocInWindow st w (c.slotsForBytes nbytes) = some base := by
    intro p hws
    obtain ⟨w, hmem, hw⟩ := List.exists_of_findSome?_eq_some hws
    exact ⟨w, List.mem_of_mem_filter hmem, hw⟩
  simp only [allocateSlots, Option.orElse_eq_some] at h
  rcases h with h | ⟨-, h | ⟨-, h | ⟨-, h⟩⟩⟩
  · exact hwin h
  · exact hwin h
  · exact hfind h
  · split at h
    · exact hfind h
    · simp at h

/-- A run that the allocator finds is free. -/
theorem allocateSlots_runFree {st : Store}
    (h : allocateSlots c st gpuId numaNode nbytes flags = some base) :
    st.RunFree base (c.slotsForBytes nbytes) := by
  obtain ⟨w, -, hw⟩ := allocateSlots_window h
  exact fun i hi => (tryAllocInWindow_run hw hi).2

/-- The slots of a run are slots of the plan. -/
def Config.Planned (c : Config) (b n : ℕ) : Prop :=
  ∀ i, InRun b n i → ∃ w ∈ c.plan.windows, i ∈ w.slotIds

/-- A run that the allocator finds is one of the plan. -/
theorem allocateSlots_planned {st : Store}
    (h : allocateSlots c st gpuId numaNode nbytes flags = some base) :
    c.Planned base (c.slotsForBytes nbytes) := by
  obtain ⟨w, hmem, hw⟩ := allocateSlots_window h
  exact fun i hi => ⟨w, hmem, (tryAllocInWindow_run hw hi).1⟩

/-! ## Sessions and gauges -/

namespace State

variable (s : State)

/-- The rank has a live session of that epoch. -/
def epochValid (rankId rankEpoch : ℕ) : Bool :=
  match s.sessions.lookup rankId with
  | some ses => ses.alive && ses.rankEpoch == rankEpoch
  | none => false

/-- The pid of a rank, 0 if it has no session. -/
def pidOf (rankId : ℕ) : ℕ := ((s.sessions.lookup rankId).map (·.pid)).getD 0

/-- Freeing a run, and giving its bytes back to the gauge. -/
def freeSlots (c : Config) (now b n : ℕ) : State :=
  { s with
    store := s.store.freeSlots now b n
    gauges :=
      { s.gauges with
        usedPinnedBytes := subU64 s.gauges.usedPinnedBytes (c.runBytes n) } }

/-! ## The run to drain -/

/-- An object that the forced drains leave alone: one being read or created. -/
def objectBusy (objectId : ℕ) : Bool :=
  match s.catalog.objects.lookup objectId with
  | some o => decide (0 < o.restoreRefcount) || decide (0 < o.exportRefcount) ||
      o.state == .creating
  | none => false

/-- A lease whose run a forced drain may take. -/
def drainable (L : Lease) : Bool :=
  !L.isPrefetch && s.store.slotState L.baseSlot == .pinnedValid &&
    !(isCanonicalTid L.tensorId && s.objectBusy (objectOfTid L.tensorId))

/-- The lease touched least recently among those whose run may be drained; the
    first one found, if there are several. -/
def oldestDrainable : Option (ℕ × Lease) :=
  (s.store.leases.rows.foldl (fun best r =>
    let ts := (s.store.slots r.2.baseSlot).lastTouchNs
    if s.drainable r.2 && decide (ts < best.1) then (ts, some r) else best)
    (2 ^ 64 - 1, none)).2

end State

end StateSpectre
