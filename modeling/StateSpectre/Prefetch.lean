import StateSpectre.Contents.Step

/-!
# What a prefetch finds

A prefetch that is answered as ready sends the rank to a run of slots, where it
finds the bytes of its tensor and version: those of a D2H copy that the daemon
accepted for them. The answer is ready in two cases only, when there is a prefetch
lease already whose run is valid, and when the tensor is resident; a search for a
run to read the cold copy back into ends with an answer that is not
(`acquire_not_ready`).

As a run can have several leases, and the daemon frees it for any of them, the slot
of a prefetch lease may have been lent again by the time it is found
(`prefetch_finds_other`). Under the guards of the contents the bytes are the right
ones (`prefetch_finds_accepted`).

The prefetch lease that is found can be that of another rank
(`prefetch_finds_lease_of_other`). Then the rank cannot submit its copy, as it does not own
the lease; otherwise it can (`prefetch_usable`).
-/

namespace StateSpectre

variable {c : Config} {s s' : State} {now : ℕ} {req : RequestPrefetchRequest}
  {r : RequestPrefetchResponse} {version ownerPid id attempt : ℕ} {loc : Location}

/-! ## The answers -/

/-- A prefetch request is answered: at once, or when the search that it had to drain
    a run for goes on. -/
inductive PrefetchAnswer (c : Config) (s : State) (req : RequestPrefetchRequest) (s' : State)
    (r : RequestPrefetchResponse) : Prop
  | atOnce (now : ℕ) (h : step c s (.rpc now (.prefetch req)) = some (s', .prefetch r))
  | resumed (now i : ℕ) (w : DrainWork) (cold : Option ColdEntry) (loc : Location)
      (version ownerPid id attempt : ℕ) (hi : s.store.tasks[i]? = some (.drainCommit w cold))
      (hw : w.forced = some (.prefetch req loc version ownerPid id, attempt))
      (h : step c s (.proceed now i) = some (s', .prefetch r))

/-- A search of a prefetch ends with an answer that is not ready. -/
theorem acquire_not_ready
    (h : acquire c s now (.prefetch req loc version ownerPid id) attempt = (s', .prefetch r)) :
    r.ready = false := by
  unfold acquire at h
  split at h
  · obtain ⟨-, h⟩ := Prod.mk.inj h
    cases h
    rfl
  · split at h
    · cases h
    · cases h
      rfl

theorem forceDrainCommit_not_ready {w : DrainWork} {cold : Option ColdEntry}
    (h : forceDrainCommit c s now w (.prefetch req loc version ownerPid id) attempt cold =
      (s', .prefetch r)) : r.ready = false := by
  cases cold with
  | none =>
    cases h
    rfl
  | some cold =>
    simp only [forceDrainCommit] at h
    split at h
    · exact acquire_not_ready h
    · cases h
      rfl

/-- How a prefetch of a tensor at `loc` comes to be answered as ready: by a prefetch lease that
    there is already, or by a new one on the resident run. -/
inductive ReadyAnswer (c : Config) (s s' : State) (req : RequestPrefetchRequest) (loc : Location)
    (r : RequestPrefetchResponse) : Prop
  | found (id : ℕ) (L : Lease)
      (hL : existingPrefetch s req.tensorId loc.version = some (id, L)) (hs : s' = s)
      (hr : r = prefetchFound c s id L)
  | bound (hL : existingPrefetch s req.tensorId loc.version = none) (hk : loc.kind = .pinned)
      (hst : s.store.slotState loc.slotId = .pinnedValid)
      (h : bindPrefetch c
        { s with store := { s.store with nextLeaseId := s.store.nextLeaseId + 1 } } req loc
        s.store.nextLeaseId = (s', .prefetch r))

theorem handleRequestPrefetch_answer
    (h : handleRequestPrefetch c s now req = (s', .prefetch r)) (hok : r.ok) (hready : r.ready) :
    s.epochValid req.rankId req.rankEpoch ∧
      ∃ loc, s.store.locations.lookup req.tensorId = some loc ∧
        (req.version ≠ 0 → loc.version = req.version) ∧ ReadyAnswer c s s' req loc r := by
  unfold handleRequestPrefetch at h
  split at h
  · cases h
    cases hok
  next hepoch =>
  refine ⟨by simpa using hepoch, ?_⟩
  split at h
  · cases h
    cases hok
  next loc hloc =>
  dsimp only at h
  generalize hwant : (if req.version = 0 then loc.version else req.version) = want at h
  split at h
  · cases h
    cases hok
  next hv =>
  have hv : req.version ≠ 0 → loc.version = req.version := fun hne => by
    rw [if_neg hne] at hwant
    exact (not_not.1 hv).symm.trans hwant.symm
  refine ⟨loc, hloc, hv, ?_⟩
  split at h
  · cases h
    cases hok
  split at h
  · next id L hL =>
    cases h
    exact .found id L hL rfl rfl
  · next hL =>
    simp only [newPrefetch] at h
    split at h
    · next hres => exact .bound hL hres.1 hres.2 h
    · rw [acquire_not_ready h] at hready
      cases hready

theorem existingPrefetch_eq_some {tensorId version id : ℕ} {L : Lease}
    (h : existingPrefetch s tensorId version = some (id, L)) :
    s.store.leases.lookup id = some L ∧ L.isPrefetch ∧ L.tensorId = tensorId ∧
      L.version = version := by
  have hfound := List.find?_some h
  simp only [Bool.and_eq_true, decide_eq_true_eq] at hfound
  obtain ⟨⟨⟨hprefetch, ht⟩, hversion⟩, -⟩ := hfound
  exact ⟨Table.mem_rows.1 (List.mem_of_find?_eq_some h), hprefetch, ht, hversion⟩

/-- Where a ready answer comes from: a prefetch lease found, or the resident run. -/
inductive ReadyFrom (c : Config) (s s' : State) (req : RequestPrefetchRequest)
    (r : RequestPrefetchResponse) : Prop
  | lease (id : ℕ) (L : Lease) (hL : s.store.leases.lookup id = some L) (hs : s' = s)
      (hst : s.store.slotState L.baseSlot = .pinnedValid) (ht : L.tensorId = req.tensorId)
      (hr : r.slotId = L.baseSlot ∧ r.nbytes = L.nbytes ∧ r.version = L.version)
  | resident (loc : Location) (hloc : s.store.locations.lookup req.tensorId = some loc)
      (hk : loc.kind = .pinned) (hst : s.store.slotState loc.slotId = .pinnedValid)
      (hs : ∃ n leases, s'.store = { s.store with nextLeaseId := n, leases := leases })
      (hr : r.slotId = loc.slotId ∧ r.nbytes = loc.nbytes ∧ r.version = loc.version)

theorem handleRequestPrefetch_ready
    (h : handleRequestPrefetch c s now req = (s', .prefetch r)) (hok : r.ok) (hready : r.ready) :
    ReadyFrom c s s' req r ∧ (req.version ≠ 0 → r.version = req.version) := by
  obtain ⟨-, loc, hloc, hv, hanswer⟩ := handleRequestPrefetch_answer h hok hready
  cases hanswer with
  | found id L hL hs hr =>
    obtain ⟨hlookup, -, ht, hversion⟩ := existingPrefetch_eq_some hL
    subst hr
    exact ⟨.lease id L hlookup hs (eq_of_beq hready) ht ⟨rfl, rfl, rfl⟩,
      fun hne => hversion.trans (hv hne)⟩
  | bound hL hk hst h =>
    cases h
    exact ⟨.resident loc hloc hk hst ⟨_, _, rfl⟩ ⟨rfl, rfl, rfl⟩, hv⟩

/-! ## The bytes found -/

/-- The bytes of a run are those of a copy accepted for a tensor and version, and
    none of its slots has been freed. -/
def HoldsAccepted (c : Config) (st : Store) (tensorId version base nbytes : ℕ) : Prop :=
  (∃ e ∈ st.history.accepted, e.tensorId = tensorId ∧ e.version = version ∧
    e.data = st.readMem base (c.slotsSpanned nbytes)) ∧
  ∀ i, InRun base (c.slotsSpanned nbytes) i → st.slotState i ≠ .free

/-- A run in use that holds data holds that of a copy accepted for its tags. -/
theorem Store.RunOk.holdsAccepted {st : Store} {b t v nbytes : ℕ}
    (h : st.RunOk c Provenance.any b) (hd : (st.slots b).state.hasData)
    (htags : (t, v) = ((st.slots b).tensorId, (st.slots b).version))
    (hn : nbytes = (st.slots b).nbytes) : HoldsAccepted c st t v b nbytes := by
  have hspan : c.slotsSpanned nbytes = st.extent c b := by
    rw [hn]
    exact h.whole.symm
  refine ⟨?_, ?_⟩
  · obtain ⟨ht, hv⟩ := Prod.mk.inj htags
    obtain ⟨e, he, hdata⟩ := List.mem_map.1 (h.data hd)
    simp only [Prod.mk.injEq] at hdata
    rw [hspan]
    exact ⟨e, he, hdata.1.trans ht.symm, hdata.2.1.trans hv.symm, hdata.2.2⟩
  · rw [hspan]
    exact h.live

/-- The guards of the contents, for any copy accepted. -/
abbrev acceptedGuards (c : Config) : Guards := contentGuards c Provenance.any

/-- In every state that the daemon reaches under the guards, a prefetch that is
    answered as ready is sent to a run that holds the bytes of a D2H copy accepted for
    the tensor and version. -/
theorem prefetch_finds_accepted (hs : Reachable c ((acceptedGuards c).ok c) s)
    (h : PrefetchAnswer c s req s' r) (hok : r.ok) (hready : r.ready) :
    HoldsAccepted c s'.store req.tensorId r.version r.slotId r.nbytes ∧
      (req.version ≠ 0 → r.version = req.version) := by
  have hcontents := Reachable.contents (.refl _) hs
  cases h with
  | atOnce now h =>
    obtain ⟨hfrom, hv⟩ := handleRequestPrefetch_ready (Option.some.inj h) hok hready
    refine ⟨?_, hv⟩
    cases hfrom with
    | lease id L hL hs' hst ht hr =>
      obtain ⟨hslot, hn, hversion⟩ := hr
      have hinv := hcontents.runs _ (Store.used_of_lease hL)
      have hlease := hinv.lease id L hL rfl
      rw [hs', hslot, hn, hversion, ← ht]
      have hst : (s.store.slots L.baseSlot).state = .pinnedValid := hst
      refine hinv.run.holdsAccepted ?_ hlease.tags hlease.nbytes
      rw [hst]
      rfl
    | resident loc hloc hk hst hs' hr =>
      obtain ⟨hslot, hn, hversion⟩ := hr
      obtain ⟨n, leases, hs'⟩ := hs'
      have hinv := hcontents.runs _ (Store.used_of_resident hloc hk)
      have hres := hinv.resident _ loc hloc hk rfl
      rw [hs', hslot, hn, hversion]
      exact hinv.run.holdsAccepted hres.state hres.tags hres.nbytes
  | resumed now i w cold loc version pid id attempt hi hw h =>
    simp only [step, hi, Option.bind_some, resume, hw] at h
    rw [forceDrainCommit_not_ready (Option.some.inj h)] at hready
    cases hready

/-- A tensor is offloaded and prefetched, and its slot drained for another tensor. The
    next prefetch of the first one finds its lease still there, and is sent to the bytes
    of the other. -/
theorem prefetch_finds_other :
    ∃ s s' r, Reached oneSlot s ∧
      step oneSlot s (prefetches 9 1 1) = some (s', .prefetch r) ∧ r.ok ∧ r.ready ∧
      r.version = 1 ∧ ∀ e ∈ s'.store.history.accepted, e.tensorId = 1 → e.version = 1 →
        e.data ≠ s'.store.readMem r.slotId (oneSlot.slotsSpanned r.nbytes) :=
  exists_reachable₃ oneSlot _
    (registers :: offloads 1 1 1 1 [1] ++ [prefetches 5 1 1] ++ offloadsDraining 6 2 1 3 [2])
    (by decide +kernel)

/-- The guards are met when a tensor is offloaded, drained for another one, and the
    other one prefetched. -/
theorem prefetch_finds_accepted_resident :
    ∃ s s' r, Reachable oneSlot ((acceptedGuards oneSlot).ok oneSlot) s ∧
      (step oneSlot s (prefetches 9 2 1) = some (s', .prefetch r) ∧ r.ok ∧ r.ready) ∧
      HoldsAccepted oneSlot s'.store 2 r.version r.slotId r.nbytes := by
  refine exists_reachable₃_and oneSlot _
    (registers :: offloads 1 1 1 1 [1] ++ offloadsDraining 2 2 1 2 [2]) (by decide +kernel) ?_
  rintro s s' r hs ⟨h, hok, hready⟩
  exact (prefetch_finds_accepted hs (.atOnce 9 h) hok hready).1

/-! ## The lease found -/

/-- The rank that prefetched submits its copy. -/
def RequestPrefetchRequest.submits (req : RequestPrefetchRequest) (r : RequestPrefetchResponse)
    (submitSeq : ℕ) : Request :=
  .h2dSubmitted
    { rankId := req.rankId, rankEpoch := req.rankEpoch, leaseId := r.leaseId, slotId := r.slotId
      submitSeq := submitSeq }

/-- The lease that a prefetch is answered with is the rank's own, and its copy is accepted. -/
def Usable (c : Config) (s' : State) (req : RequestPrefetchRequest) (r : RequestPrefetchResponse) :
    Prop :=
  (∃ L, s'.store.leases.lookup r.leaseId = some L ∧ L.ownerRank = req.rankId) ∧
    ∀ now submitSeq, (handle c s' now (req.submits r submitSeq)).2 = ack true "ok"

/-- A prefetch lease of the tensor that is readable, if there is one, is the rank's own: the first
    one in the table. -/
def FindsOwn (s : State) (req : RequestPrefetchRequest) : Prop :=
  ∀ loc id L, s.store.locations.lookup req.tensorId = some loc →
    existingPrefetch s req.tensorId loc.version = some (id, L) → L.ownerRank = req.rankId

/-- A rank can submit the copy of a lease that is its own. -/
theorem usable_of_owner {L : Lease} (hepoch : s'.epochValid req.rankId req.rankEpoch)
    (hL : s'.store.leases.lookup r.leaseId = some L) (hslot : r.slotId = L.baseSlot)
    (hst : s'.store.slotState L.baseSlot = .pinnedValid) (howner : L.ownerRank = req.rankId) :
    Usable c s' req r := by
  refine ⟨⟨L, hL, howner⟩, fun now submitSeq => ?_⟩
  have howned : s'.store.ownedLease req.rankId r.leaseId r.slotId = some L := by
    simp [Store.ownedLease, hL, Option.filter, howner, hslot]
  simp [handle, RequestPrefetchRequest.submits, handleMarkH2DSubmitted, markSubmitted, hepoch,
    howned, hst]

/-- A prefetch that is answered as ready can be used, in any state, if and only if a prefetch
    lease that is found for it is the rank's own. -/
theorem prefetch_usable (h : PrefetchAnswer c s req s' r) (hok : r.ok) (hready : r.ready) :
    Usable c s' req r ↔ FindsOwn s req := by
  cases h with
  | resumed now i w cold loc version pid id attempt hi hw h =>
    simp only [step, hi, Option.bind_some, resume, hw] at h
    rw [forceDrainCommit_not_ready (Option.some.inj h)] at hready
    cases hready
  | atOnce now h =>
    obtain ⟨hepoch, loc, hloc, -, hanswer⟩ :=
      handleRequestPrefetch_answer (Option.some.inj h) hok hready
    cases hanswer with
    | found id L hL hs hr =>
      obtain ⟨hlookup, -⟩ := existingPrefetch_eq_some hL
      subst hs hr
      constructor
      · rintro ⟨⟨L', hL', howner⟩, -⟩ loc' id' L'' hloc' hfound
        cases hloc.symm.trans hloc'
        cases hL.symm.trans hfound
        cases hlookup.symm.trans hL'
        exact howner
      · intro hown
        exact usable_of_owner hepoch hlookup rfl (eq_of_beq hready) (hown loc id L hloc hL)
    | bound hL hk hst h =>
      cases h
      refine iff_of_true (usable_of_owner hepoch (AList.lookup_insert _) rfl hst rfl) ?_
      intro loc' id' L'' hloc' hfound
      cases hloc.symm.trans hloc'
      cases hL.symm.trans hfound

/-- The rank 1 prefetches the tensor 1. -/
def otherPrefetch : RequestPrefetchRequest :=
  { rankId := 1, rankEpoch := 2, tensorId := 1, version := 1 }

/-- Two ranks prefetch a tensor that is resident. The second is answered with the lease of the
    first, and cannot submit its copy. -/
theorem prefetch_finds_lease_of_other :
    ∃ s s' r, Reached oneSlot s ∧
      (step oneSlot s (.rpc 5 (.prefetch otherPrefetch)) = some (s', .prefetch r) ∧ r.ok ∧
        r.ready ∧ (s'.store.leases.lookup r.leaseId).map (·.ownerRank) = some 0 ∧
        (handle oneSlot s' 6 (otherPrefetch.submits r 0)).2 =
          ack false "lease/owner/slot mismatch") ∧
      PrefetchAnswer oneSlot s otherPrefetch s' r :=
  exists_reachable₃_and oneSlot _
    (registers :: .rpc 0 (.register ⟨1, 8⟩) :: offloads 1 1 1 1 [1] ++ [prefetches 4 1 1])
    (by decide +kernel) fun _ _ _ _ hp => .atOnce 5 hp.1

/-- A rank is the only one to prefetch the tensor. -/
theorem prefetch_usable_alone :
    ∃ s s' r, Reached oneSlot s ∧
      (step oneSlot s (.rpc 5 (.prefetch otherPrefetch)) = some (s', .prefetch r) ∧ r.ok ∧
        r.ready ∧ existingPrefetch s 1 1 = none ∧
        ∀ loc, s.store.locations.lookup 1 = some loc → loc.version = 1) ∧
      Usable oneSlot s' otherPrefetch r := by
  refine exists_reachable₃_and oneSlot _
    (registers :: .rpc 0 (.register ⟨1, 8⟩) :: offloads 1 1 1 1 [1]) (by decide +kernel) ?_
  rintro s s' r - ⟨h, hok, hready, hnone, hversion⟩
  refine (prefetch_usable (.atOnce 5 h) hok hready).2 fun loc id L hloc hL => ?_
  rw [hversion loc hloc] at hL
  cases hnone.symm.trans hL

end StateSpectre
