import StateSpectre.LeaseCover

/-!
# What locations refer to

The location table is what a later prefetch or restore goes by. A pinned location
names a slot, which should be in use for the tensor in that version; a location in
a cold tier names a cold copy, which should be in the cold store
(`LocationsValid`).

Slots and locations are changed by different code, and the end of a session frees
the runs of its leases by the state of their slots alone, without a look at the
locations: the run of a prefetch under way is freed though it is the location of
its tensor (`location_dangles`). The guards under which locations stay valid
(`locationGuards`) are what the daemon does not check: that no location is left in
a run it frees, that a completion is for the tensor its slot carries, that a warmed
run is still the one it warmed, and that a cold copy it forgets is not in use.
-/

namespace StateSpectre

variable {c : Config} {st st' : Store} {s : State} {p p' : Option Purpose} {cold : ColdEntry}
  {t v slotId cref nbytes : ℕ} {f : Location → Location} {kind : LocationKind} {loc : Location}
  {now b n : ℕ}

/-! ## Locations -/

/-- The tiers behind the pinned memory. -/
abbrev LocationKind.IsCold (k : LocationKind) : Prop := k = .pageable ∨ k = .nvme

/-- What a location of the tensor `t` refers to is there. -/
structure Store.Refers (st : Store) (t : ℕ) (loc : Location) : Prop where
  pinned : loc.kind = .pinned → st.Carries loc.slotId t loc.version
  cold : loc.kind.IsCold → (st.coldStore.lookup loc.coldRef).isSome

/-- What the locations refer to is there. -/
def LocationsValid (st : Store) : Prop :=
  ∀ t loc, st.locations.lookup t = some loc → st.Refers t loc

/-- What the daemon does not check when it changes the cold store, or makes a
    location fall back to it. -/
abbrev coldGuards : Guards where
  h2d st L t v :=
    ∀ loc, st.locations.lookup t = some loc → loc.slotId = L.baseSlot → loc.version = v →
      loc.coldRef = 0 → (st.slots L.baseSlot).coldRef = 0
  forgetCold st cref :=
    ∀ t loc, st.locations.lookup t = some loc → loc.kind.IsCold → loc.coldRef ≠ cref

/-- What the daemon does not check when it frees slots, or makes one the location of
    a tensor. -/
abbrev pinnedGuards : Guards where
  reclaim st b n :=
    ∀ t loc, st.locations.lookup t = some loc → loc.kind = .pinned → ¬InRun b n loc.slotId
  publish st L := st.Carries L.baseSlot L.tensorId L.version
  h2d st L t v := st.Carries L.baseSlot t v
  bindWarm st tid base := st.Carries base tid ((st.locations.lookup tid).getD {}).version

/-- What the daemon does not check when it changes slots and locations. -/
abbrev locationGuards : Guards :=
  { pinnedGuards with
    h2d := fun st L t v => pinnedGuards.h2d st L t v ∧ coldGuards.h2d st L t v
    forgetCold := coldGuards.forgetCold }

instance : DecidableGuards locationGuards where

/-! ## Cold copies -/

theorem LocationKind.IsCold.ne_pinned {k : LocationKind} (h : k.IsCold) : k ≠ .pinned := by
  rcases h with rfl | rfl <;> decide

/-- The cold copy that a task is about to store. -/
def Task.toStore : Task → Option ColdEntry
  | .drainCommit _ cold => cold
  | _ => none

/-- The cold copies, also those about to be stored, are in a cold tier. -/
structure ColdKinds (st : Store) : Prop where
  stored : ∀ cref e, st.coldStore.lookup cref = some e → e.kind.IsCold
  drained : ∀ t ∈ st.tasks, ∀ e ∈ t.toStore, e.kind.IsCold

theorem drainKind_isCold : (drainKind c).IsCold := by
  unfold drainKind
  split
  · exact .inl rfl
  · split
    · exact .inr rfl
    · exact .inl rfl
  · exact .inl rfl

namespace ColdKinds

theorem dropTask (h : ColdKinds st) (i : ℕ) : ColdKinds (st.dropTask i) :=
  ⟨h.stored, fun t ht => h.drained t (List.mem_of_mem_eraseIdx ht)⟩

/-- A task is added that stores a cold copy in a cold tier, if any. -/
theorem addTask {task : Task} (h : ColdKinds st) (ht : ∀ e ∈ task.toStore, e.kind.IsCold) :
    ColdKinds (st.addTask task) where
  stored := h.stored
  drained t htask e he := by
    rcases List.mem_cons.1 htask with rfl | htask
    · exact ht e he
    · exact h.drained t htask e he

/-- Every transition of the store keeps the tiers of the cold copies. -/
theorem step {g : Guards} (h : ColdKinds st)
    (hstep : StoreStep c g (st, p) (st', p')) : ColdKinds st' := by
  cases hstep with
  | warm | force | takeDrain | takeReadback =>
    exact ⟨h.stored, (h.addTask (by simp [Task.toStore])).drained⟩
  | drainBegin | readbackFound | readbackLost =>
    exact (h.dropTask _).addTask (by simp [Task.toStore])
  | readbackRead | warmRead | stage =>
    exact ⟨h.stored, ((h.dropTask _).addTask (by simp [Task.toStore])).drained⟩
  | @addPull _ _ task ht =>
    refine h.addTask fun e he => ?_
    cases task <;> simp_all [Task.toStore, Task.pull]
  | drainCopied hi hcold =>
    refine (h.dropTask _).addTask fun e he => ?_
    rw [hcold e he]
    exact drainKind_isCold
  | @drainSettled _ i w cold hi =>
    refine ⟨fun cref e he => ?_, (h.dropTask i).drained⟩
    rcases Table.lookup_insert_eq_some.1 he with ⟨-, rfl⟩ | ⟨-, he⟩
    · exact h.drained _ (List.mem_of_getElem? hi) _ rfl
    · exact h.stored cref e he
  | drainFailed | readbackMissing | readbackFailed | readbackDone | warmDone | dropTask =>
    exact ⟨h.stored, (h.dropTask _).drained⟩
  | forgetCold =>
    exact ⟨fun cref e he => h.stored cref e (Table.lookup_of_lookup_erase he), h.drained⟩
  | _ => exact ⟨h.stored, h.drained⟩

end ColdKinds

/-- The locations in a cold tier refer to cold copies that are stored. -/
def ColdPresent (st : Store) : Prop :=
  ∀ t loc, st.locations.lookup t = some loc → loc.kind.IsCold →
    (st.coldStore.lookup loc.coldRef).isSome

namespace ColdPresent

/-- A location is entered that refers to a cold copy that is stored, or to none. -/
theorem insertLocation {t : ℕ} (h : ColdPresent st)
    (hloc : loc.kind.IsCold → (st.coldStore.lookup loc.coldRef).isSome) :
    ColdPresent { st with locations := st.locations.insert t loc } := by
  intro t' loc' hloc' hk
  rcases Table.lookup_insert_eq_some.1 hloc' with ⟨-, rfl⟩ | ⟨-, hloc'⟩
  · exact hloc hk
  · exact h t' loc' hloc' hk

theorem updateLocationIfLatest (h : ColdPresent st)
    (hloc : kind.IsCold → (st.coldStore.lookup cref).isSome) :
    ColdPresent (st.updateLocationIfLatest t v kind slotId cref nbytes) := by
  unfold Store.updateLocationIfLatest
  split
  · exact h.insertLocation hloc
  · exact h

/-- The location of a tensor is changed to one that refers to a cold copy that is
    stored, or to none. -/
theorem modifyLocation {t : ℕ} (h : ColdPresent st)
    (hf : ∀ loc, st.locations.lookup t = some loc → (f loc).kind.IsCold →
      (st.coldStore.lookup (f loc).coldRef).isSome) :
    ColdPresent { st with locations := st.locations.modify t f } := by
  intro t' loc' hloc' hk
  obtain ⟨rfl, loc, hloc, rfl⟩ | ⟨-, hloc⟩ := Table.lookup_modify_eq_some.1 hloc'
  · exact hf loc hloc hk
  · exact h t' loc' hloc hk

theorem addCold (h : ColdPresent st) : ColdPresent (st.addCold cold) := by
  intro t loc hloc hk
  rw [Store.addCold, Table.lookup_insert]
  split
  · rfl
  · exact h t loc hloc hk

/-- A drain is settled: its cold copy is stored before the location refers to it. -/
theorem settleDrain {w : DrainWork} (h : ColdPresent st) : ColdPresent (st.settleDrain w cold) := by
  have h₁ : ColdPresent ((st.addCold cold).mapRun w.baseSlot w.slotCount
      fun _ e => { e with coldRef := st.nextColdRef }) := h.addCold
  refine h₁.updateLocationIfLatest fun _ => ?_
  simp only [Store.mapRun, Store.addCold, Table.lookup_insert, if_pos]
  rfl

end ColdPresent

/-- The cold copy that a completion finds is stored under the reference it goes by. -/
theorem Store.h2dCold_eq_some {t base : ℕ} (h : st.h2dCold t base = some cold) :
    st.h2dColdRef t base ≠ 0 ∧ st.coldStore.lookup (st.h2dColdRef t base) = some cold := by
  simp only [Store.h2dCold] at h
  split at h
  · next hne => exact ⟨hne, h⟩
  · cases h

/-- A location falls back to the cold copy that the completion found. If that was
    found by the reference of the slot, the location is not the one at the slot, or
    has a reference of its own. -/
theorem ColdPresent.fallBack {leaseId base t v : ℕ} (h : ColdPresent st)
    (hcold : st.h2dCold t base = some cold)
    (hg : ∀ loc, st.locations.lookup t = some loc → loc.slotId = base → loc.version = v →
      loc.coldRef = 0 → (st.slots base).coldRef = 0) :
    ColdPresent (st.unlink leaseId t (Location.fallBack base v cold.kind)) := by
  obtain ⟨hne, hfound⟩ := Store.h2dCold_eq_some hcold
  refine h.modifyLocation fun loc hloc hk => ?_
  unfold Location.fallBack at hk ⊢
  split at hk
  · next hat =>
    rw [if_pos hat]
    have href : loc.coldRef ≠ 0 := by
      intro h0
      refine hne ?_
      rw [Store.h2dColdRef, hloc]
      simp only [h0, ne_eq, not_true_eq_false, if_false]
      exact hg loc hloc hat.1 hat.2 h0
    have : st.h2dColdRef t base = loc.coldRef := by
      rw [Store.h2dColdRef, hloc]
      exact if_pos href
    rw [← this, hfound]
    rfl
  · next hat =>
    rw [if_neg hat]
    exact h t loc hloc hk

/-- Every transition of the store keeps the cold copies of the locations, if it
    meets the guards. -/
theorem ColdPresent.step (h : ColdPresent st)
    (hstep : StoreStep c coldGuards (st, p) (st', p')) : ColdPresent st' := by
  cases hstep with
  | @drainSettled _ i => exact ColdPresent.settleDrain h
  | readbackDone | publish | keepPinned =>
    exact ColdPresent.updateLocationIfLatest h fun hk => absurd rfl hk.ne_pinned
  | warmDone => exact h.insertLocation fun hk => absurd rfl hk.ne_pinned
  | fallBack _ _ hcold hg => exact h.fallBack hcold hg
  | release =>
    refine h.modifyLocation fun loc hloc hk => ?_
    unfold Location.forget at hk ⊢
    split at hk
    · rcases hk with hk | hk <;> cases hk
    · next hat =>
      rw [if_neg hat]
      exact h _ loc hloc hk
  | dropLocation => exact fun t loc hloc => h t loc (Table.lookup_of_lookup_erase hloc)
  | forgetCold hg =>
    intro t loc hloc hk
    rw [Table.lookup_erase, if_neg (hg t loc hloc hk)]
    exact h t loc hloc hk
  | _ => exact h

/-! ## Pinned locations -/

/-- The pinned locations name slots in use for their tensor and version. -/
def PinnedCarried (st : Store) : Prop :=
  ∀ t loc, st.locations.lookup t = some loc → loc.kind = .pinned →
    st.Carries loc.slotId t loc.version

namespace PinnedCarried

/-- Slots in use stay in use. -/
theorem mono (h : PinnedCarried st) (hs : ∀ i t v, st.Carries i t v → st'.Carries i t v)
    (hl : st'.locations = st.locations) : PinnedCarried st' :=
  fun t loc hloc hk => hs _ _ _ (h t loc (hl ▸ hloc) hk)

/-- A run that was free is given a use. -/
theorem ofFree {b n : ℕ} (h : PinnedCarried st) (hfree : st.RunFree b n)
    (hs : ∀ i, ¬InRun b n i → st'.slots i = st.slots i) (hl : st'.locations = st.locations) :
    PinnedCarried st' :=
  h.mono (fun i _ _ hi => by
    have : ¬InRun b n i := fun hi' => hi.1 (hfree i hi')
    rwa [Store.Carries, hs i this]) hl

theorem mapRun {b n : ℕ} {f : ℕ → SlotEntry → SlotEntry} (h : PinnedCarried st)
    (hf : KeepsUse f) : PinnedCarried (st.mapRun b n f) :=
  h.mono (fun _ _ _ hi => hi.mapRun hf) rfl

theorem setRunState {q : SlotState} (h : PinnedCarried st) (hq : q ≠ .free) :
    PinnedCarried (st.setRunState now b n q) :=
  h.mapRun (.ofState hq fun _ _ => ⟨rfl, rfl, rfl⟩)

/-- A run that holds no location is freed. -/
theorem freeSlots (h : PinnedCarried st)
    (hn : ∀ t loc, st.locations.lookup t = some loc → loc.kind = .pinned → ¬InRun b n loc.slotId) :
    PinnedCarried (st.freeSlots now b n) := by
  intro t loc hloc hk
  simpa only [Store.Carries, Store.freeSlots, Store.mapRun,
    onRun_of_not_mem (hn t loc hloc hk)] using h t loc hloc hk

/-- A location is entered that names a slot in use for it, or none. -/
theorem insertLocation {t : ℕ} (h : PinnedCarried st)
    (hloc : loc.kind = .pinned → st.Carries loc.slotId t loc.version) :
    PinnedCarried { st with locations := st.locations.insert t loc } := by
  intro t' loc' hloc' hk
  rcases Table.lookup_insert_eq_some.1 hloc' with ⟨rfl, rfl⟩ | ⟨-, hloc'⟩
  · exact hloc hk
  · exact h t' loc' hloc' hk

theorem updateLocationIfLatest (h : PinnedCarried st)
    (hloc : kind = .pinned → st.Carries slotId t v) :
    PinnedCarried (st.updateLocationIfLatest t v kind slotId cref nbytes) := by
  unfold Store.updateLocationIfLatest
  split
  · exact h.insertLocation hloc
  · exact h

/-- The location of a tensor is changed to one that is not pinned, if at all. -/
theorem modifyLocation {t : ℕ} (h : PinnedCarried st)
    (hf : ∀ loc, (f loc).kind = .pinned → f loc = loc) :
    PinnedCarried { st with locations := st.locations.modify t f } := by
  intro t' loc' hloc' hk
  obtain ⟨rfl, loc, hloc, rfl⟩ | ⟨-, hloc⟩ := Table.lookup_modify_eq_some.1 hloc'
  · have he := hf loc hk
    rw [he] at hk ⊢
    exact h t' loc hloc hk
  · exact h t' loc' hloc hk

/-- Every transition of the store keeps the slots of pinned locations in use, if it
    meets the guards. -/
theorem step (h : PinnedCarried st) (hkinds : ColdKinds st)
    (hstep : StoreStep c pinnedGuards (st, p) (st', p')) : PinnedCarried st' := by
  cases hstep with
  | lend hfree => exact h.ofFree hfree (fun _ => Store.reserve_slots) rfl
  | @readback _ req loc v pid _ base _ hfree =>
    refine h.ofFree hfree (fun i hi => ?_) rfl
    exact Store.reserve_slots (L := prefetchLease c req loc v pid base) hi
  | warm hfree => exact h.ofFree hfree (fun _ => Store.warmRun_slots) rfl
  | force | enqueue | drainFailed | readbackMissing | readbackFailed =>
    exact h.setRunState (by decide)
  | drainSettled hi =>
    have hk := hkinds.drained _ (List.mem_of_getElem? hi) _ rfl
    refine updateLocationIfLatest (mapRun h ?_) fun hp => absurd hp hk.ne_pinned
    exact ⟨fun _ _ => rfl, fun _ _ => rfl, fun _ _ => id⟩
  | @readbackDone _ i job now hi hst =>
    -- The location is entered under what the slot carries.
    have hcar : st.Carries job.baseSlot (st.slots job.baseSlot).tensorId
        (st.slots job.baseSlot).version := ⟨ne_of_eq_of_ne hst (by decide), rfl, rfl⟩
    refine updateLocationIfLatest (setRunState h (by decide)) fun _ => ?_
    exact hcar.mapRun (.ofState (by decide) fun _ _ => ⟨rfl, rfl, rfl⟩)
  | warmDone hi hg =>
    refine insertLocation (setRunState h (by decide)) fun _ => ?_
    exact hg.mapRun (.ofState (by decide) fun _ _ => ⟨rfl, rfl, rfl⟩)
  | submit _ _ hq =>
    refine h.mapRun (.ofState ?_ fun _ _ => ⟨rfl, rfl, rfl⟩)
    rcases hq with ⟨-, rfl⟩ | ⟨-, rfl⟩ <;> decide
  | publish _ _ hg | keepPinned _ _ hg =>
    exact updateLocationIfLatest (mapRun h keepsUse_completed) fun _ => hg.mapRun keepsUse_completed
  | fallBack _ _ hcold =>
    refine h.modifyLocation fun loc hk => ?_
    unfold Location.fallBack at hk ⊢
    split at hk
    · exact absurd hk (hkinds.stored _ _ (Store.h2dCold_eq_some hcold).2).ne_pinned
    · next hat => rw [if_neg hat]
  | release =>
    refine h.modifyLocation fun loc hk => ?_
    unfold Location.forget at hk ⊢
    split at hk
    · cases hk
    · next hat => rw [if_neg hat]
  | dropLocation => exact fun t loc hloc => h t loc (Table.lookup_of_lookup_erase hloc)
  | reclaim hg => exact h.freeSlots hg
  | reclaimMarked hg hq => exact (h.setRunState hq).freeSlots hg
  | _ => exact h

end PinnedCarried

/-! ## Reachable states -/

/-- What the transitions keep of the locations. -/
structure Referable (st : Store) : Prop where
  kinds : ColdKinds st
  cold : ColdPresent st
  pinned : PinnedCarried st

theorem Referable.initial : Referable Store.initial :=
  ⟨⟨fun _ _ h => (nomatch h), fun _ h => (nomatch h)⟩, fun _ _ h => (nomatch h),
    fun _ _ h => (nomatch h)⟩

theorem Referable.step {g : Guards} (h : Referable st)
    (hg : g.Implies locationGuards) (hstep : StoreStep c g (st, p) (st', p')) : Referable st' := by
  have hc : locationGuards.Implies coldGuards := { h2d := And.right, forgetCold := id }
  have hp : locationGuards.Implies pinnedGuards :=
    { reclaim := id, publish := id, h2d := And.left, bindWarm := id }
  exact ⟨h.kinds.step hstep, h.cold.step (hstep.mono (hg.trans hc)),
    h.pinned.step h.kinds (hstep.mono (hg.trans hp))⟩

theorem Referable.valid (h : Referable st) : LocationsValid st :=
  fun t loc hloc => ⟨h.pinned t loc hloc, h.cold t loc hloc⟩

theorem Reachable.referable (h : Reachable c (locationGuards.ok c) s) : Referable s.store :=
  h.store_invariant (motive := fun x => Referable x.1) .initial
    fun _ _ hx hstep => hx.step (.refl _) hstep

/-- In every state reached under the guards, a pinned location names a slot in use
    for its tensor and version, and a cold one a cold copy in the cold store. -/
theorem locations_valid (h : Reachable c (locationGuards.ok c) s) : LocationsValid s.store :=
  h.referable.valid

/-- The H2D copy of the rank 0 from the slot 0 is submitted. -/
def submitsH2D (now leaseId : ℕ) : Action :=
  .rpc now (.h2dSubmitted { rankId := 0, rankEpoch := 1, leaseId := leaseId, slotId := 0 })

/-- The H2D copy of the rank 0 from the slot 0 is complete. -/
def completesH2D (now tensorId version leaseId : ℕ) : Action :=
  .rpc now (.h2dComplete
    { rankId := 0, rankEpoch := 1, leaseId := leaseId, tensorId := tensorId, version := version
      slotId := 0 })

/-- A tensor is offloaded and prefetched, and its rank registers again while the
    H2D copy is under way. The end of its first session frees the slot, which
    stays the location of the tensor. -/
theorem location_dangles :
    ∃ s loc, Reached oneSlot s ∧
      (s.store.locations.lookup 1 = some loc ∧ loc.kind = .pinned ∧
        s.store.slotState loc.slotId = .free) ∧ ¬LocationsValid s.store := by
  refine exists_reachable₂_and oneSlot _ (registers :: offloads 1 1 1 1 [1] ++
    [prefetches 2 1 1, submitsH2D 3 2, registers]) (by decide +kernel) ?_
  rintro s loc - ⟨hloc, hk, hfree⟩ hv
  exact ((hv 1 loc hloc).pinned hk).1 hfree

/-- The guards are met when a tensor is offloaded, drained for another one, which is
    prefetched and kept: the first is in the cold store, the second in its slot. -/
theorem locations_valid_kept :
    ∃ s, Reachable oneSlot (locationGuards.ok oneSlot) s ∧
      (s.store.locations.lookup 1 = some ⟨1, .pageable, 0, 1, 4⟩ ∧
        s.store.locations.lookup 2 = some ⟨1, .pinned, 0, 0, 4⟩) ∧
      (s.store.coldStore.lookup 1).isSome ∧ s.store.Carries 0 2 1 := by
  refine exists_reachable_and oneSlot _ (registers :: offloads 1 1 1 1 [1] ++
    offloadsDraining 2 2 1 2 [2] ++ [prefetches 3 2 1, submitsH2D 4 3, completesH2D 5 2 1 3])
    (by decide +kernel) ?_
  rintro s hs ⟨h₁, h₂⟩
  have hv := locations_valid hs
  exact ⟨(hv 1 _ h₁).cold (.inl rfl), (hv 2 _ h₂).pinned rfl⟩

end StateSpectre
