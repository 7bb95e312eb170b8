import StateSpectre.LeaseCover

/-!
# What an export changes

A pull of a sealed object is to read it only, in whatever tier it is: the arenas, the
slots, the leases, the locations and the cold store stay as they are
(`Store.SameTiers`), apart from the object itself being reclaimed when its last holder
has gone in the meantime (`Reclaimed`).

The object is staged by the routine that reads a cold copy back, which writes to a run
of slots, and the export has none: it passes the slot 0. So the pull of a cold object
writes it over the first slots, whoever they are lent to (`pull_overwrites`). This is
the only step of a pull that changes anything, and it does unless the same bytes are
there already (`pull_readOnly_iff`).
-/

namespace StateSpectre

variable {c : Config} {s s' : State} {a : Action} {r : Response} {now oid : ℕ}

/-! ## Frames -/

/-- The arenas, the slots and the tables of the tiers are the same. -/
structure Store.SameTiers (st st' : Store) : Prop where
  mem : st'.mem = st.mem
  slots : st'.slots = st.slots
  leases : st'.leases = st.leases
  locations : st'.locations = st.locations
  coldStore : st'.coldStore = st.coldStore

/-- Nothing has changed but what backs an object that no rank holds: its lease, its
    location, its run and its cold copy. -/
structure Reclaimed (s s' : State) (oid : ℕ) (o : CanonicalObject) : Prop where
  found : s.catalog.objects.lookup oid = some o
  unheld : o.holders = ∅
  mem : s'.store.mem = s.store.mem
  slots : ∀ i, ¬InRun o.baseSlot o.slotCount i → s'.store.slots i = s.store.slots i
  leases : ∀ id ≠ o.leaseId, s'.store.leases.lookup id = s.store.leases.lookup id
  locations : ∀ t ≠ canonicalTid oid, s'.store.locations.lookup t = s.store.locations.lookup t
  coldStore : ∀ cref, (∀ loc, s.store.locations.lookup (canonicalTid oid) = some loc →
    loc.coldRef ≠ cref) → s'.store.coldStore.lookup cref = s.store.coldStore.lookup cref

/-- Reclaiming an object that no rank holds changes nothing else. -/
theorem maybeFreeObject_frame :
    s.store.SameTiers (maybeFreeObject c s now oid).1.store ∨
      ∃ o, Reclaimed s (maybeFreeObject c s now oid).1 oid o := by
  unfold maybeFreeObject
  split
  · exact .inl ⟨rfl, rfl, rfl, rfl, rfl⟩
  next o ho =>
  split
  · next hfree =>
    unfold releaseObject
    split
    · exact .inl ⟨rfl, rfl, rfl, rfl, rfl⟩
    refine .inr ⟨o, ?_⟩
    have hl : ∀ id ≠ o.leaseId,
        (s.store.leases.erase o.leaseId).lookup id = s.store.leases.lookup id := fun id hid => by
      rw [Table.lookup_erase, if_neg hid]
    have ht : ∀ t ≠ canonicalTid oid,
        (s.store.locations.erase (canonicalTid oid)).lookup t = s.store.locations.lookup t :=
      fun t ht => by rw [Table.lookup_erase, if_neg ht]
    split
    · exact ⟨ho, hfree, rfl, fun _ _ => rfl, hl, ht, fun _ _ => rfl⟩
    next loc hloc =>
    unfold releaseBacking
    split
    · split
      · refine ⟨ho, hfree, rfl, fun i hi => ?_, hl, ht, fun _ _ => rfl⟩
        simp only [State.freeSlots, Store.freeSlots, Store.mapRun, onRun_of_not_mem hi]
        rfl
      · exact ⟨ho, hfree, rfl, fun _ _ => rfl, hl, ht, fun _ _ => rfl⟩
    · split
      · refine ⟨ho, hfree, rfl, fun _ _ => rfl, hl, ht, fun cref hcref => ?_⟩
        rw [Table.lookup_erase, if_neg fun h => hcref loc hloc h.symm]
        rfl
      · exact ⟨ho, hfree, rfl, fun _ _ => rfl, hl, ht, fun _ _ => rfl⟩
  · exact .inl ⟨rfl, rfl, rfl, rfl, rfl⟩

/-! ## The steps of a pull -/

/-- The steps of a pull: the request, the copies it makes without the mutex, and what
    it does when it takes the mutex again. -/
def PullStep (s : State) : Action → Prop
  | .rpc _ (.pull _) => True
  | .io i _ | .proceed _ i => ∃ t, s.store.tasks[i]? = some t ∧ t.isPull
  | _ => False

/-- Nothing has changed in the tiers, unless the step ends the pull of an object that
    no rank holds any more. -/
def PullReadOnly (s : State) (a : Action) (s' : State) : Prop :=
  s.store.SameTiers s'.store ∨
    ∃ now i l error o, a = .proceed now i ∧ s.store.tasks[i]? = some (.pullSent l error) ∧
      Reclaimed s s' l.req.objectId o

/-- If a task stages a cold copy, what it reads is already in the first slots. -/
def Task.StagesInPlace (c : Config) (st : Store) (result : IoResult) : Task → Prop
  | .pullStageIo l cold => ∀ x, readCold c cold result = some x →
      ∀ k < c.slotsSpanned l.nbytes, ∀ b ∈ x.1[k]?, st.mem k = b
  | _ => True

/-- If the step stages a cold copy, what it reads is already in the first slots. -/
def StagesInPlace (c : Config) (s : State) : Action → Prop
  | .io i result => ∀ t, s.store.tasks[i]? = some t → t.StagesInPlace c s.store result
  | _ => True

instance {st : Store} {result : IoResult} : ∀ t : Task, Decidable (t.StagesInPlace c st result)
  | .pullStageIo l cold => inferInstanceAs (Decidable (∀ x, readCold c cold result = some x →
      ∀ k < c.slotsSpanned l.nbytes, ∀ b ∈ x.1[k]?, st.mem k = b))
  | .drainTaken .. | .drainIo .. | .drainCommit .. | .readbackTaken .. | .readbackMissing ..
  | .readbackIo .. | .readbackCommit .. | .restoreIo .. | .restoreCommit .. | .pullReadIo ..
  | .pullStaged .. | .pullSendIo .. | .pullSent .. => isTrue trivial

instance : ∀ a : Action, Decidable (StagesInPlace c s a)
  | .io i _ => inferInstanceAs (Decidable (∀ t, s.store.tasks[i]? = some t → _))
  | .rpc .. | .proceed .. | .takeDrain | .takeReadback | .heartbeatSweep .. | .pushRing ..
  | .pollRing .. | .copyD2H .. | .rehash .. => isTrue trivial

theorem handlePullTensor_sameTiers {req : PullTensorRequest} :
    s.store.SameTiers (handlePullTensor c s req).1.store := by
  unfold handlePullTensor
  split
  · exact ⟨rfl, rfl, rfl, rfl, rfl⟩
  unfold stageForExport
  split
  · exact ⟨rfl, rfl, rfl, rfl, rfl⟩
  split
  · exact ⟨rfl, rfl, rfl, rfl, rfl⟩
  split
  · split <;> exact ⟨rfl, rfl, rfl, rfl, rfl⟩
  · exact ⟨rfl, rfl, rfl, rfl, rfl⟩

theorem pullStaged_sameTiers (s : State) (l : PullLocals) (buf : Option (List Bytes)) :
    s.store.SameTiers (pullStaged s l buf).1.store := by
  unfold pullStaged
  split <;> exact ⟨rfl, rfl, rfl, rfl, rfl⟩

/-- A pull that ends has changed nothing but its object, if no rank holds it. -/
theorem pullSent_frame (s : State) (now : ℕ) (l : PullLocals) (error : Option String) :
    s.store.SameTiers (pullSent c s now l error).1.store ∨
      ∃ o, Reclaimed s (pullSent c s now l error).1 l.req.objectId o := by
  have hcases : (endExport s l).store.SameTiers (pullSent c s now l error).1.store ∨
      ∃ o, Reclaimed (endExport s l) (pullSent c s now l error).1 l.req.objectId o :=
    maybeFreeObject_frame
  obtain hsame | ⟨o, ho⟩ := hcases
  · exact .inl ⟨hsame.mem, hsame.slots, hsame.leases, hsame.locations, hsame.coldStore⟩
  · -- The object at the end of the export has the same holders and backing.
    obtain ⟨-, o', ho', rfl⟩ | ⟨hne, -⟩ := Table.lookup_modify_eq_some.1 ho.found
    · exact .inr ⟨o', ho', ho.unheld, ho.mem, ho.slots, ho.leases, ho.locations, ho.coldStore⟩
    · exact absurd rfl hne

/-- A step of a pull is read-only if and only if it does not stage a cold copy, or the
    copy is in place. -/
theorem pull_readOnly_iff (hp : PullStep s a) (hstep : step c s a = some (s', r)) :
    PullReadOnly s a s' ↔ StagesInPlace c s a := by
  cases a with
  | rpc now req =>
    cases req with
    | pull req =>
      obtain ⟨rfl, -⟩ := Prod.mk.inj (Option.some.inj hstep)
      exact iff_of_true (.inl handlePullTensor_sameTiers) trivial
    | _ => exact hp.elim
  | io i result =>
    obtain ⟨t, ht, hpull⟩ := hp
    simp only [step, ht, Option.bind_some] at hstep
    obtain ⟨x, hx, hstep⟩ := Option.map_eq_some_iff.1 hstep
    cases hstep
    cases t with
    | pullStageIo l cold =>
      obtain ⟨⟨data, ok⟩, hread, rfl⟩ := Option.map_eq_some_iff.1 hx
      constructor
      · rintro (hsame | ⟨_, _, _, _, _, h, _⟩) t ht'
        · cases ht.symm.trans ht'
          intro x hread' k hk b hb
          cases hread.symm.trans hread'
          exact Nat.zero_add k ▸ writeRun_eq_self_iff.1 hsame.mem k b hk hb
        · cases h
      · intro h
        refine .inl ⟨writeRun_eq_self_iff.2 fun k b hk hb => ?_, rfl, rfl, rfl, rfl⟩
        exact (Nat.zero_add k).symm ▸ h _ ht _ hread k hk b hb
    | pullReadIo l cold =>
      obtain ⟨⟨data, ok⟩, hread, rfl⟩ := Option.map_eq_some_iff.1 hx
      exact iff_of_true (.inl ⟨rfl, rfl, rfl, rfl, rfl⟩)
        fun _ ht' => Option.some.inj (ht.symm.trans ht') ▸ trivial
    | pullSendIo l buf =>
      cases hx
      exact iff_of_true (.inl ⟨rfl, rfl, rfl, rfl, rfl⟩)
        fun _ ht' => Option.some.inj (ht.symm.trans ht') ▸ trivial
    | pullStaged | pullSent => cases hx
    | _ => cases hpull
  | proceed now i =>
    obtain ⟨t, ht, hpull⟩ := hp
    simp only [step, ht, Option.bind_some] at hstep
    refine iff_of_true ?_ trivial
    cases t with
    | pullStaged l buf =>
      obtain ⟨rfl, -⟩ := Prod.mk.inj (Option.some.inj hstep)
      have h := pullStaged_sameTiers { s with store := s.store.dropTask i } l buf
      exact .inl ⟨h.mem, h.slots, h.leases, h.locations, h.coldStore⟩
    | pullSent l error =>
      cases hstep
      obtain h | ⟨o, h⟩ :=
        pullSent_frame (c := c) { s with store := s.store.dropTask i } now l error
      · exact .inl ⟨h.mem, h.slots, h.leases, h.locations, h.coldStore⟩
      · exact .inr ⟨now, i, l, error, o, rfl, ht, h.found, h.unheld, h.mem, h.slots, h.leases,
          h.locations, h.coldStore⟩
    | pullStageIo | pullReadIo | pullSendIo => cases hstep
    | _ => cases hpull
  | _ => exact hp.elim

/-! ## Pulling a cold object -/

/-- The job of the runs below. -/
def theJob : JobUID := ⟨1, 5, 1⟩

/-- The job registers, for its first launch. -/
def registersJob : Action :=
  .rpc 0 (.registerJob { tenantId := 1, jobName := "train", schedulerJobId := 5 })

/-- The key of a shard of one slot, of the version 1 of the role 0. -/
def shardKey (paramId : ℕ) : CanonicalTensorKey :=
  { job := theJob, modelRole := 0, modelVersion := 1, paramId := paramId, nbytes := 4 }

/-- The rank 0 commits an object. -/
def commits (now oid leaseId : ℕ) : Action :=
  .rpc now (.commit { rankId := 0, rankEpoch := 1, objectId := oid, leaseId := leaseId })

/-- The rank 0 creates an object of `nbytes` bytes in a slot, and commits it. -/
def createsIn (slotId now oid leaseId nbytes : ℕ) (data : List Bytes) : List Action :=
  [.rpc now (.evict
      { rankId := 0, rankEpoch := 1, key := { shardKey oid with nbytes := nbytes } }),
    .rpc now (.d2hSubmitted { rankId := 0, rankEpoch := 1, leaseId := leaseId, slotId := slotId }),
    .copyD2H leaseId data,
    .rpc now (.d2hComplete
      { rankId := 0, rankEpoch := 1, leaseId := leaseId, tensorId := canonicalTid oid
        version := canonicalVersion, slotId := slotId }),
    commits now oid leaseId]

/-- The rank 0 creates an object of one slot in the slot 0, and commits it. -/
def creates (now oid leaseId : ℕ) (data : Bytes) : List Action :=
  createsIn 0 now oid leaseId 4 [data]

/-- The version 1 of the role 0 is sealed. -/
def seals (now : ℕ) : Action :=
  .rpc now (.seal { job := theJob, modelRole := 0, modelVersion := 1 })

/-- An object of the sealed version is pulled. -/
def pulls (now oid : ℕ) : Action :=
  .rpc now (.pull { job := theJob, modelRole := 0, modelVersion := 1, objectId := oid })

/-- A sealed object is drained for a tensor, which is copied to its slot. The pull of
    the object then writes it over the bytes of the tensor. -/
theorem pull_overwrites :
    ∃ s s' r, Reached oneSlot s ∧
      (step oneSlot s (.io 0 .ok) = some (s', r) ∧ (∃ t, s.store.tasks[0]? = some t ∧ t.isPull) ∧
        s.store.mem 0 = [2] ∧ s'.store.mem 0 = [1] ∧
        s'.store.locations.lookup 2 = some ⟨1, .pinned, 0, 0, 4⟩) ∧
      ¬PullReadOnly s (.io 0 .ok) s' := by
  refine exists_reachable₃_and oneSlot _ (registers :: registersJob :: creates 1 1 1 [1] ++
    [seals 2] ++ offloadsDraining 3 2 1 2 [2] ++ [pulls 4 1]) (by decide +kernel) ?_
  rintro s s' r - ⟨-, -, h₂, h₁, -⟩ (hsame | ⟨_, _, _, _, _, h, _⟩)
  · have hmem := congrFun hsame.mem 0
    rw [h₂, h₁] at hmem
    cases hmem
  · cases h

/-- The pull of a cold object is read-only as long as its bytes are still in the slot it
    was drained from, and not in an empty one. -/
theorem pull_readOnly_in_place :
    ∃ s s' r, Reached oneSlot s ∧
      (step oneSlot s (.io 0 .ok) = some (s', r) ∧
        (∃ t, s.store.tasks[0]? = some t ∧ t.isPull ∧
          ¬t.StagesInPlace oneSlot State.initial.store .ok) ∧
        StagesInPlace oneSlot s (.io 0 .ok)) ∧ PullReadOnly s (.io 0 .ok) s' := by
  refine exists_reachable₃_and oneSlot _ (registers :: registersJob :: creates 1 1 1 [1] ++
    [seals 2] ++ (offloadsDraining 3 2 1 2 [2]).take 3 ++ [pulls 4 1]) (by decide +kernel) ?_
  rintro s s' r - ⟨hstep, ⟨t, ht, hpull, -⟩, hplace⟩
  have hpulls : PullStep s (.io 0 .ok) := ⟨t, ht, hpull⟩
  exact (pull_readOnly_iff hpulls hstep).2 hplace

end StateSpectre
