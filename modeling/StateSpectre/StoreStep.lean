import StateSpectre.Step

/-!
# What a step can do to the store

The handlers and workers of the daemon change the slot store in a few ways only.
This file lists them, as the transitions of an abstract machine (`StoreStep`) on
the store and the search for a run that is under way, if one is: a run is lent,
a copy is published, a run is drained, read back, reclaimed, and so on. That every
step of the daemon is made of such transitions is proved in
`StateSpectre.Refinement`.

A run is freed by one transition, `reclaim`, after the lease and the location
that went with it have been dropped. What else may count on the run at that
moment is not looked at by the daemon: this and the other things it takes for
granted are the *guards* of the transitions (`Guards`). A property of the store
is then an invariant of the daemon under the guards it needs.
-/

namespace StateSpectre

variable {st : Store} {X : Type*}

/-! ## Guards -/

/-- Side conditions on the transitions of the store; by default there are none. -/
structure Guards where
  /-- A run is lent for a tensor, in that version and size. -/
  lend : (tensorId version nbytes : ℕ) → Prop := fun _ _ _ => True
  /-- A run is freed. -/
  reclaim : Store → (base count : ℕ) → Prop := fun _ _ _ => True
  /-- A prefetch lease is bound to a resident run. -/
  bind : Store → Lease → Prop := fun _ _ => True
  /-- The D2H copy into the run of a lease is accepted. -/
  publish : Store → Lease → Prop := fun _ _ => True
  /-- An H2D copy from the run of a lease is accepted, as one of that tensor and
      version. -/
  h2d : Store → Lease → (tensorId version : ℕ) → Prop := fun _ _ _ _ => True
  /-- The H2D copy of a lease is complete. -/
  complete : (id : ℕ) → Prop := fun _ => True
  /-- A lease is released, and its run with it. -/
  release : Store → Lease → Prop := fun _ _ => True
  /-- A lease is dropped. -/
  dropLease : (id : ℕ) → Prop := fun _ => True
  /-- The location of a tensor is dropped. -/
  dropLocation : Store → (tensorId : ℕ) → Prop := fun _ _ => True
  /-- A cold copy is forgotten. -/
  forgetCold : Store → (coldRef : ℕ) → Prop := fun _ _ => True
  /-- An object of that size is restored from its cold location. -/
  warm : Location → (nbytes : ℕ) → Prop := fun _ _ => True
  /-- A warmed run becomes the location of a synthetic tensor. -/
  bindWarm : Store → (tid base : ℕ) → Prop := fun _ _ _ => True
  /-- An export stages that many slots. -/
  stage : Store → (count : ℕ) → Prop := fun _ _ => True
  /-- A cold copy has been read into a run. -/
  read : IoResult → Prop := fun _ => True

/-- Guards that can be evaluated. -/
class DecidableGuards (g : Guards) where
  lend : ∀ t v n, Decidable (g.lend t v n) := by intros; infer_instance
  reclaim : ∀ st b n, Decidable (g.reclaim st b n) := by intros; infer_instance
  bind : ∀ st L, Decidable (g.bind st L) := by intros; infer_instance
  publish : ∀ st L, Decidable (g.publish st L) := by intros; infer_instance
  h2d : ∀ st L t v, Decidable (g.h2d st L t v) := by intros; infer_instance
  complete : ∀ id, Decidable (g.complete id) := by intros; infer_instance
  release : ∀ st L, Decidable (g.release st L) := by intros; infer_instance
  dropLease : ∀ id, Decidable (g.dropLease id) := by intros; infer_instance
  dropLocation : ∀ st t, Decidable (g.dropLocation st t) := by intros; infer_instance
  forgetCold : ∀ st cref, Decidable (g.forgetCold st cref) := by intros; infer_instance
  warm : ∀ loc n, Decidable (g.warm loc n) := by intros; infer_instance
  bindWarm : ∀ st tid base, Decidable (g.bindWarm st tid base) := by intros; infer_instance
  stage : ∀ st n, Decidable (g.stage st n) := by intros; infer_instance
  read : ∀ result, Decidable (g.read result) := by intros; infer_instance

attribute [reducible, instance] DecidableGuards.lend DecidableGuards.reclaim
  DecidableGuards.bind DecidableGuards.publish DecidableGuards.h2d DecidableGuards.complete
  DecidableGuards.release DecidableGuards.dropLease DecidableGuards.dropLocation
  DecidableGuards.forgetCold DecidableGuards.warm DecidableGuards.bindWarm DecidableGuards.stage
  DecidableGuards.read

/-! ## Transitions -/

/-- What is known of the store when a search starts; that of a prefetch has a
    transition of its own. -/
def Purpose.Sought (g : Guards) (st : Store) : Purpose → Prop
  | .prefetch .. => False
  | .restore req cold nbytes =>
    ∃ loc, st.locations.lookup (canonicalTid req.objectId) = some loc ∧ loc.coldRef ≠ 0 ∧
      st.coldStore.lookup loc.coldRef = some cold ∧ g.warm loc nbytes
  | _ => True

/-- The search that a task goes on with, if it does. -/
def Task.purpose : Task → Option Purpose
  | .drainIo w | .drainCommit w _ => w.forced.map (·.1)
  | _ => none

/-- What the tasks of an export keep. They hold no run. -/
def Task.pull : Task → Option PullLocals
  | pullStageIo l _ | pullReadIo l _ | pullStaged l _ | pullSendIo l _ | pullSent l _ => some l
  | _ => none

theorem Task.purpose_of_pull {t : Task} {l : PullLocals} (h : t.pull = some l) :
    t.purpose = none := by
  cases t <;> first | rfl | cases h

theorem subperm_filterMap {X Y : Type*} {f : X → Option Y} {l l' : List X} (h : l.Subperm l') :
    (l.filterMap f).Subperm (l'.filterMap f) := by
  obtain ⟨l₀, hperm, hsub⟩ := h
  exact ⟨l₀.filterMap f, hperm.filterMap _, hsub.filterMap _⟩

/-- What the tasks are at, before and after one of them is dropped. -/
theorem Store.filterMap_dropTask (f : Task → Option X) {i : ℕ} {t : Task}
    (h : st.tasks[i]? = some t) :
    (st.tasks.filterMap f).Perm ((f t).toList ++ (st.dropTask i).tasks.filterMap f) := by
  obtain ⟨hi, rfl⟩ := List.getElem?_eq_some_iff.1 h
  have hperm := (List.getElem_cons_eraseIdx_perm hi).symm.filterMap f
  rw [List.filterMap_cons] at hperm
  rcases hf : f st.tasks[i] with _ | x
  · rw [hf] at hperm
    exact hperm
  · rw [hf] at hperm
    exact hperm

theorem Store.filterMap_addTask (f : Task → Option X) (st : Store) (t : Task) :
    (st.addTask t).tasks.filterMap f = (f t).toList ++ st.tasks.filterMap f := by
  rw [Store.addTask, List.filterMap_cons]
  rcases f t with _ | x <;> rfl

/-- A task is followed by another one that is at the same. -/
theorem Store.filterMap_nextTask (f : Task → Option X) {i : ℕ} {t t' : Task}
    (h : st.tasks[i]? = some t) (ht : f t' = f t) :
    (st.tasks.filterMap f).Perm (((st.dropTask i).addTask t').tasks.filterMap f) := by
  rw [filterMap_addTask, ht]
  exact filterMap_dropTask f h

def Task.isPull (t : Task) : Bool := t.pull.isSome

/-- The transitions of the store, with the search under way. -/
inductive StoreStep (c : Config) (g : Guards) :
    Store × Option Purpose → Store × Option Purpose → Prop
  -- Searching a run.
  | seek {st p} : p.Sought g st → StoreStep c g (st, none) (st, some p)
  | seekPrefetch {st req loc ownerPid} : st.locations.lookup req.tensorId = some loc →
      StoreStep c g (st, none)
        ({ st with nextLeaseId := st.nextLeaseId + 1 },
          some (.prefetch req loc loc.version ownerPid st.nextLeaseId))
  | giveUp {st p} : StoreStep c g (st, some p) (st, none)
  | lend {st p now L flags} :
      st.RunFree L.baseSlot L.slotCount → L.slotCount = c.slotsForBytes L.nbytes →
      g.lend L.tensorId L.version L.nbytes →
      StoreStep c g (st, some p)
        ({ st.reserve c.allocationGranularityBytes now st.nextLeaseId L flags .reservedD2H none with
            nextLeaseId := st.nextLeaseId + 1 }, none)
  | readback {st req loc version ownerPid id base now} :
      st.RunFree base (c.slotsForBytes loc.nbytes) →
      StoreStep c g (st, some (.prefetch req loc version ownerPid id))
        ({ st.reserve c.allocationGranularityBytes now id
              (prefetchLease c req loc version ownerPid base) req.flags .readbackInFlight
              (some loc.coldRef) with
            readbackQueue := st.readbackQueue ++
              [⟨base, c.slotsForBytes loc.nbytes, loc.coldRef, loc.nbytes⟩] }, none)
  | warm {st req cold nbytes now pid base} :
      st.RunFree base (c.slotsForBytes nbytes) →
      StoreStep c g (st, some (.restore req cold nbytes))
        ((st.warmRun c.allocationGranularityBytes now req pid base (c.slotsForBytes nbytes) nbytes
          ).addTask (.restoreIo req base (c.slotsForBytes nbytes) cold nbytes), none)
  | force {st p now attempt id L} :
      st.leases.lookup id = some L → st.slotState L.baseSlot = .pinnedValid →
      StoreStep c g (st, some p)
        ((st.setRunState now L.baseSlot L.slotCount .drainInFlight).addTask
          (.drainIo (L.drainWork id p attempt)), none)
  -- Draining a run.
  | enqueue {st now id L} :
      st.leases.lookup id = some L →
      (0 < L.slotCount → st.slotState L.baseSlot = .pinnedValid) →
      StoreStep c g (st, none) (st.enqueueDrain now L, none)
  | takeDrain {st job rest} : st.drainQueue = job :: rest →
      StoreStep c g (st, none) ({ st with drainQueue := rest }.addTask (.drainTaken job), none)
  | drainBegin {st i job} : st.tasks[i]? = some (.drainTaken job) →
      st.slotState job.baseSlot = .drainInFlight →
      StoreStep c g (st, none)
        ((st.dropTask i).addTask (.drainIo (drainSnapshot st job)), none)
  | drainCopied {st i w cold} : st.tasks[i]? = some (.drainIo w) →
      (∀ e ∈ cold, e = doDrainToCold c st w.baseSlot w.nbytes) →
      StoreStep c g (st, none) ((st.dropTask i).addTask (.drainCommit w cold), none)
  | drainSettled {st i w cold} : st.tasks[i]? = some (.drainCommit w (some cold)) →
      (w.forced = none → st.slotState w.baseSlot = .drainInFlight) → g.dropLease w.leaseId →
      StoreStep c g (st, none) ((st.dropTask i).settleDrain w cold, w.forced.map (·.1))
  | drainFailed {st i w now} : st.tasks[i]? = some (.drainCommit w none) →
      (w.forced = none → st.slotState w.baseSlot = .drainInFlight) →
      StoreStep c g (st, none)
        ((st.dropTask i).setRunState now w.baseSlot w.slotCount .pinnedValid, w.forced.map (·.1))
  -- Reading a run back.
  | takeReadback {st job rest} : st.readbackQueue = job :: rest →
      StoreStep c g (st, none)
        ({ st with readbackQueue := rest }.addTask (.readbackTaken job), none)
  | readbackFound {st i job cold} : st.tasks[i]? = some (.readbackTaken job) →
      st.slotState job.baseSlot = .readbackInFlight →
      st.coldStore.lookup job.coldRef = some cold →
      StoreStep c g (st, none) ((st.dropTask i).addTask (.readbackIo job cold), none)
  | readbackLost {st i job} : st.tasks[i]? = some (.readbackTaken job) →
      st.slotState job.baseSlot = .readbackInFlight → st.coldStore.lookup job.coldRef = none →
      StoreStep c g (st, none) ((st.dropTask i).addTask (.readbackMissing job), none)
  | readbackRead {st i job cold result data ok} : st.tasks[i]? = some (.readbackIo job cold) →
      readCold c cold result = some (data, ok) → g.read result →
      StoreStep c g (st, none)
        ((doReadbackFromCold c (st.dropTask i) job.baseSlot job.nbytes data).addTask
          (.readbackCommit job ok), none)
  | readbackMissing {st i job now} : st.tasks[i]? = some (.readbackMissing job) →
      StoreStep c g (st, none)
        ((st.dropTask i).setRunState now job.baseSlot job.slotCount .error, none)
  | readbackFailed {st i job now} : st.tasks[i]? = some (.readbackCommit job false) →
      st.slotState job.baseSlot = .readbackInFlight →
      StoreStep c g (st, none)
        ((st.dropTask i).setRunState now job.baseSlot job.slotCount .error, none)
  | readbackDone {st i job now} : st.tasks[i]? = some (.readbackCommit job true) →
      st.slotState job.baseSlot = .readbackInFlight →
      StoreStep c g (st, none)
        (((st.dropTask i).setRunState now job.baseSlot job.slotCount .pinnedValid
          ).updateLocationIfLatest (st.slots job.baseSlot).tensorId (st.slots job.baseSlot).version
            .pinned job.baseSlot job.coldRef job.nbytes, none)
  -- Warming a run.
  | warmRead {st i req base count cold nbytes result data ok} :
      st.tasks[i]? = some (.restoreIo req base count cold nbytes) →
      readCold c cold result = some (data, ok) → g.read result →
      StoreStep c g (st, none)
        ((doReadbackFromCold c (st.dropTask i) base nbytes data).addTask
          (.restoreCommit req base count nbytes ok), none)
  | warmDone {st i req base count nbytes now} :
      st.tasks[i]? = some (.restoreCommit req base count nbytes true) →
      g.bindWarm (st.dropTask i) (canonicalTid req.objectId) base →
      StoreStep c g (st, none)
        ((st.dropTask i).bindWarm now (canonicalTid req.objectId) base count nbytes, none)
  -- Exporting an object.
  | addPull {st l t} : t.pull = some l →
      l.prevState = .sealed ∨ (∃ t' ∈ st.tasks, t'.pull = some l) →
      StoreStep c g (st, none) (st.addTask t, none)
  | stage {st i l cold result data ok} : st.tasks[i]? = some (.pullStageIo l cold) →
      readCold c cold result = some (data, ok) →
      g.stage (st.dropTask i) (c.slotsSpanned l.nbytes) →
      StoreStep c g (st, none)
        ((doReadbackFromCold c (st.dropTask i) 0 l.nbytes data).addTask (.pullReadIo l cold), none)
  -- The life of a lease.
  | copyD2H {st id L data} : st.leases.lookup id = some L → !L.isPrefetch →
      d2hOpen (st.slotState L.baseSlot) → data.length = c.slotsSpanned L.nbytes →
      StoreStep c g (st, none)
        ({ st.writeMem L.baseSlot (c.slotsSpanned L.nbytes) data with
            history := { st.history with copied := st.history.copied.insert id data } }, none)
  | submit {st id L now seq source target} : st.leases.lookup id = some L →
      st.slotState L.baseSlot = source →
      (source = .reservedD2H ∧ target = .d2hInFlight ∨
        source = .pinnedValid ∧ target = .h2dInFlight) →
      StoreStep c g (st, none)
        (st.mapRun L.baseSlot L.slotCount fun _ e =>
          { e with submitSeq := seq, state := target, lastTouchNs := now }, none)
  | publish {st id L now seq} : st.leases.lookup id = some L →
      st.slotState L.baseSlot = .d2hInFlight → g.publish st L →
      StoreStep c g (st, none) (st.publishD2H c now id L seq, none)
  | bind {st L t loc} : st.locations.lookup t = some loc → loc.kind = .pinned →
      st.slotState loc.slotId = .pinnedValid → L.baseSlot = loc.slotId → L.tensorId = t →
      L.version = loc.version → L.nbytes = loc.nbytes → L.slotCount = c.slotsForBytes L.nbytes →
      g.bind st L →
      StoreStep c g (st, none)
        ({ st with
            leases := st.leases.insert st.nextLeaseId L
            nextLeaseId := st.nextLeaseId + 1 }, none)
  | keepPinned {st id L now t v seq} : st.leases.lookup id = some L →
      st.slotState L.baseSlot = .h2dInFlight → g.h2d st L t v → g.complete id →
      StoreStep c g (st, none) (st.keepPinned now L t v seq, none)
  | fallBack {st id L t v cold} : st.leases.lookup id = some L →
      st.slotState L.baseSlot = .h2dInFlight → st.h2dCold t L.baseSlot = some cold →
      g.h2d st L t v → g.complete id →
      StoreStep c g (st, none) (st.unlink id t (Location.fallBack L.baseSlot v cold.kind), none)
  | release {st id L} : st.leases.lookup id = some L → releaseFrees (st.slotState L.baseSlot) →
      g.release st L → g.dropLease id →
      StoreStep c g (st, none)
        (st.unlink id L.tensorId (Location.forget L.baseSlot L.version), none)
  -- Dropping table entries, and freeing a run.
  | dropTask {st i} : StoreStep c g (st, none) (st.dropTask i, none)
  | dropLease {st id} : g.dropLease id → StoreStep c g (st, none) (st.dropLease id, none)
  | dropLocation {st t} : g.dropLocation st t → StoreStep c g (st, none) (st.dropLocation t, none)
  | forgetCold {st cref} : g.forgetCold st cref →
      StoreStep c g (st, none) ({ st with coldStore := st.coldStore.erase cref }, none)
  | reclaim {st p now b n} : g.reclaim st b n → StoreStep c g (st, p) (st.freeSlots now b n, p)
  | reclaimMarked {st p now b n q} : g.reclaim st b n → q ≠ .free →
      StoreStep c g (st, p) ((st.setRunState now b 1 q).freeSlots now b n, p)
  -- What no function of the daemon sees.
  | noteGrant {st p grants charged} :
      StoreStep c g (st, p)
        ({ st with history := { st.history with grants := grants, charged := charged } }, p)
  | noteHolds {st p holds} :
      StoreStep c g (st, p) ({ st with history := { st.history with holds := holds } }, p)
  | rehash {st leases} : st.leases.Reordered leases →
      StoreStep c g (st, none) ({ st with leases := leases }, none)

/-- The guards `g` ask for all that `g'` do. -/
structure Guards.Implies (g g' : Guards) : Prop where
  lend : ∀ {t v n}, g.lend t v n → g'.lend t v n := by exact fun _ => trivial
  reclaim : ∀ {st b n}, g.reclaim st b n → g'.reclaim st b n := by exact fun _ => trivial
  bind : ∀ {st L}, g.bind st L → g'.bind st L := by exact fun _ => trivial
  publish : ∀ {st L}, g.publish st L → g'.publish st L := by exact fun _ => trivial
  h2d : ∀ {st L t v}, g.h2d st L t v → g'.h2d st L t v := by exact fun _ => trivial
  complete : ∀ {id}, g.complete id → g'.complete id := by exact fun _ => trivial
  release : ∀ {st L}, g.release st L → g'.release st L := by exact fun _ => trivial
  dropLease : ∀ {id}, g.dropLease id → g'.dropLease id := by exact fun _ => trivial
  dropLocation : ∀ {st t}, g.dropLocation st t → g'.dropLocation st t := by exact fun _ => trivial
  forgetCold : ∀ {st r}, g.forgetCold st r → g'.forgetCold st r := by exact fun _ => trivial
  warm : ∀ {loc n}, g.warm loc n → g'.warm loc n := by exact fun _ => trivial
  bindWarm : ∀ {st t b}, g.bindWarm st t b → g'.bindWarm st t b := by exact fun _ => trivial
  stage : ∀ {st n}, g.stage st n → g'.stage st n := by exact fun _ => trivial
  read : ∀ {result}, g.read result → g'.read result := by exact fun _ => trivial

theorem Guards.Implies.refl (g : Guards) : g.Implies g :=
  ⟨fun h => h, fun h => h, fun h => h, fun h => h, fun h => h, fun h => h, fun h => h, fun h => h,
    fun h => h, fun h => h, fun h => h, fun h => h, fun h => h, fun h => h⟩

theorem Guards.Implies.trans {g g' g'' : Guards} (h : g.Implies g') (h' : g'.Implies g'') :
    g.Implies g'' :=
  ⟨h'.lend ∘ h.lend, h'.reclaim ∘ h.reclaim, h'.bind ∘ h.bind, h'.publish ∘ h.publish,
    h'.h2d ∘ h.h2d, h'.complete ∘ h.complete, h'.release ∘ h.release, h'.dropLease ∘ h.dropLease,
    h'.dropLocation ∘ h.dropLocation, h'.forgetCold ∘ h.forgetCold, h'.warm ∘ h.warm,
    h'.bindWarm ∘ h.bindWarm, h'.stage ∘ h.stage, h'.read ∘ h.read⟩

theorem Purpose.Sought.mono {g g' : Guards} (hg : g.Implies g') {p : Purpose} (h : p.Sought g st) :
    p.Sought g' st := by
  cases p with
  | restore req cold nbytes =>
    obtain ⟨loc, hloc, hne, hcold, hw⟩ := h
    exact ⟨loc, hloc, hne, hcold, hg.warm hw⟩
  | _ => exact h

/-- A transition that meets stronger guards meets weaker ones. -/
theorem StoreStep.mono {c : Config} {g g' : Guards} (hg : g.Implies g')
    {x y : Store × Option Purpose} (h : StoreStep c g x y) : StoreStep c g' x y := by
  cases h with
  | seek h => exact .seek (h.mono hg)
  | lend h₁ h₂ h => exact .lend h₁ h₂ (hg.lend h)
  | readbackRead h₁ h₂ h => exact .readbackRead h₁ h₂ (hg.read h)
  | warmRead h₁ h₂ h => exact .warmRead h₁ h₂ (hg.read h)
  | warmDone h₁ h => exact .warmDone h₁ (hg.bindWarm h)
  | stage h₁ h₂ h => exact .stage h₁ h₂ (hg.stage h)
  | publish h₁ h₂ h => exact .publish h₁ h₂ (hg.publish h)
  | bind h₁ h₂ h₃ h₄ h₅ h₆ h₇ h₈ h => exact .bind h₁ h₂ h₃ h₄ h₅ h₆ h₇ h₈ (hg.bind h)
  | keepPinned h₁ h₂ h h' => exact .keepPinned h₁ h₂ (hg.h2d h) (hg.complete h')
  | fallBack h₁ h₂ h₃ h h' => exact .fallBack h₁ h₂ h₃ (hg.h2d h) (hg.complete h')
  | release h₁ h₂ h h' => exact .release h₁ h₂ (hg.release h) (hg.dropLease h')
  | dropLease h => exact .dropLease (hg.dropLease h)
  | drainSettled h₁ h₂ h => exact .drainSettled h₁ h₂ (hg.dropLease h)
  | dropLocation h => exact .dropLocation (hg.dropLocation h)
  | forgetCold h => exact .forgetCold (hg.forgetCold h)
  | reclaim h => exact .reclaim (hg.reclaim h)
  | reclaimMarked h hq => exact .reclaimMarked (hg.reclaim h) hq
  | readbackFailed h₁ h₂ => exact .readbackFailed h₁ h₂
  -- The other ones are not guarded.
  | _ => constructor <;> assumption

abbrev StoreSteps (c : Config) (g : Guards) :
    Store × Option Purpose → Store × Option Purpose → Prop :=
  Relation.ReflTransGen (StoreStep c g)

end StateSpectre
