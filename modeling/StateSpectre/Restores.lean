import StateSpectre.Holds

/-!
# The runs of restores

A restore that is answered leaves a run to the rank, to read the object from it, until the
rank releases the restore or its session ends. The daemon counts the restores of an object, so
that it is not reclaimed, and forced drains leave its run alone. But nothing else looks at the
count: whoever has the lease of the run may release it, and the run is freed under the reader
(`release_frees_restored`). A completion that names the tensor of the object moves its
location, and so does a second restore that has warmed another run.

As long as nothing of this happens to the tensor of an object with a restore (`holdGuards`,
`holdRules`), every restore that was answered finds the object and its bytes where it was told
(`restores_served`).
-/

namespace StateSpectre

variable {c : Config} {st st' : Store} {s : State} {x y : Scene} {r : RestoreHold} {L : Lease}
  {id : ℕ} {lost : ℕ → ℕ}

/-! ## Conditions -/

/-- No rank has a restore of an object whose tensor is `t`. -/
abbrev Store.Unheld (st : Store) (t : ℕ) : Prop :=
  ∀ r ∈ st.history.holds, canonicalTid r.objectId ≠ t

/-- What restores take for granted, beside the contents of runs: that no copy of the tensor is
    completed, and no lease of it released, while the object has a restore. -/
abbrev holdGuards (c : Config) : Guards :=
  { contentGuards c .any with
    publish := fun st L => st.Unheld L.tensorId
    h2d := fun st L t v => (contentGuards c .any).h2d st L t v ∧ st.Unheld t
    release := fun st L => st.Unheld L.tensorId }

instance : DecidableGuards (holdGuards c) where

theorem holdGuards_implies : (holdGuards c).Implies (contentGuards c .any) :=
  { Guards.Implies.refl (contentGuards c .any) with
    publish := fun _ h => nomatch h
    h2d := And.left
    release := fun _ => trivial }

/-- No drain, readback, candidate or restore moves the location of an object while it has a
    restore; a restore is answered from a run of the size of the object; restores are answered
    for objects that are there and can count them, and released by who has been answered them. -/
def holdRules (c : Config) : Rules := fun s e =>
  match e with
  | .seek (.create _ oid) => oid < canonicalTidBit
  | .settle w => s.store.Unheld w.tensorId
  | .readback job => s.store.Unheld (s.store.slots job.baseSlot).tensorId
  | .serve o base => c.slotsSpanned o.nbytes = s.store.extent c base ∧
      o.restoreRefcount + 1 < 2 ^ 32
  | .warm req _ => s.restorable req.objectId ∧ s.store.Unheld (canonicalTid req.objectId)
  | .endRestore req => ∃ r ∈ s.store.history.holds,
      r.rankId = req.rankId ∧ r.rankEpoch = req.rankEpoch ∧ r.objectId = req.objectId
  | .discard _ L => s.store.Unheld L.tensorId
  | _ => True

instance {e : Event} : Decidable (holdRules c s e) := by
  induction e using Event.casesOn with
  | seek p => induction p using Purpose.casesOn <;> dsimp only [holdRules] <;> infer_instance
  | _ =>
    dsimp only [holdRules]
    infer_instance

theorem restoreRules_of_holdRules {e : Event} (h : holdRules c s e) : restoreRules s e := by
  cases e with
  | serve o base => exact h.2
  | warm req base => exact h.1
  | endRestore req => exact h
  | _ => trivial

/-! ## Runs that are read -/

/-- The object of a restore is where the restore was told, and its bytes are. -/
structure Store.Held (c : Config) (st : Store) (r : RestoreHold) : Prop where
  location : ∃ loc, st.locations.lookup (canonicalTid r.objectId) = some loc ∧
    loc.kind = .pinned ∧ loc.slotId = r.base
  state : st.slotState r.base = .pinnedValid ∨ st.slotState r.base = .h2dInFlight
  data : r.data = st.readMem r.base (st.extent c r.base)

namespace Store.Held

variable (h : st.Held c r) (hc : st.Contents c .any)

include h

theorem used : st.Used r.base := by
  obtain ⟨loc, hloc, hk, hb⟩ := h.location
  exact hb ▸ used_of_resident hloc hk

include hc

theorem inRun : InRun r.base (st.extent c r.base) r.base := (hc.runs _ h.used).run.inRun

theorem tensorId : (st.slots r.base).tensorId = canonicalTid r.objectId := by
  obtain ⟨loc, hloc, hk, hb⟩ := h.location
  rw [← hb]
  exact (Prod.mk.inj ((hc.runs _ h.used).resident _ loc hloc hk hb).tags).1.symm

/-- Another run in use is apart from it. -/
theorem apart {b : ℕ} (hu : st.Used b) (hne : b ≠ r.base) :
    ¬Meet b (st.extent c b) r.base (st.extent c r.base) := hc.apart b r.base hu h.used hne

/-- There is no work on the run. -/
theorem work_apart {w : Work} (hw : w ∈ st.works) :
    ¬Meet w.base w.count r.base (st.extent c r.base) := by
  have hne : w.base ≠ r.base := by
    refine hc.no_work ?_ ?_ w hw <;> rcases h.state with hq | hq <;> rw [← slotState, hq] <;> nofun
  rw [((hc.runs _ (used_of_work hw)).work w hw rfl).count]
  exact h.apart hc (used_of_work hw) hne

/-- A lease that is not on the run is apart from it. -/
theorem lease_apart (hL : st.leases.lookup id = some L) (hne : L.baseSlot ≠ r.base) :
    ¬Meet L.baseSlot L.slotCount r.base (st.extent c r.base) := by
  rw [((hc.runs _ (used_of_lease hL)).lease id L hL rfl).count]
  exact h.apart hc (used_of_lease hL) hne

/-- What the owner of such a lease copies does not go over it. -/
theorem copy_apart (hL : st.leases.lookup id = some L) (hne : L.baseSlot ≠ r.base) :
    ¬Meet L.baseSlot (c.slotsSpanned L.nbytes) r.base (st.extent c r.base) := by
  have hrun := hc.runs _ (used_of_lease hL)
  rw [(hrun.lease id L hL rfl).nbytes, ← hrun.run.whole]
  exact h.apart hc (used_of_lease hL) hne

/-- What a task copies into its run does not go over it. -/
theorem io_apart {w : Work} {n : ℕ} (hw : w ∈ st.works) (hn : n ∈ w.nbytes) :
    ¬Meet w.base (c.slotsSpanned n) r.base (st.extent c r.base) := by
  have hrun := hc.runs _ (used_of_work hw)
  have hok := hrun.work w hw rfl
  have hsize : c.slotsSpanned n = w.count := by
    rw [hok.nbytes n hn, hok.count]
    exact hrun.run.whole.symm
  rw [hsize]
  exact h.work_apart hc hw

/-- A lease on the run is one of the tensor of the object. -/
theorem lease_tensorId (hL : st.leases.lookup id = some L) (hb : L.baseSlot = r.base) :
    L.tensorId = canonicalTid r.objectId := by
  have htags := ((hc.runs _ (used_of_lease hL)).lease id L hL rfl).tags
  rw [hb] at htags
  exact (Prod.mk.inj htags).1.trans (h.tensorId hc)

end Store.Held

/-- A forced drain leaves an object with a restore alone. -/
theorem State.not_drainable {oid : ℕ} {o : CanonicalObject}
    (ho : s.catalog.objects.lookup oid = some o) (hpos : 0 < o.restoreRefcount)
    (hsmall : oid < canonicalTidBit) (ht : L.tensorId = canonicalTid oid) : ¬s.drainable L := by
  have hbusy : s.objectBusy oid := by simp [objectBusy, ho, hpos]
  simp [drainable, ht, isCanonicalTid_canonicalTid, objectOfTid_canonicalTid hsmall, hbusy]

/-- The object of a restore is there, and counts it. -/
theorem RestoresCounted.object (h : RestoresCounted lost s) (hr : r ∈ s.store.history.holds) :
    ∃ o, s.catalog.objects.lookup r.objectId = some o ∧ 0 < o.restoreRefcount := by
  have hpos : 0 < s.store.restores r.objectId := List.countP_pos_iff.2 ⟨r, hr, by simp⟩
  have hcount := h.count r.objectId
  rcases ho : s.catalog.objects.lookup r.objectId with _ | o
  · rw [State.restoresOf, ho] at hcount
    simp only [Option.map_none, Option.getD_none] at hcount
    omega
  · rw [State.restoresOf_eq ho] at hcount
    exact ⟨o, rfl, by omega⟩

/-- The bytes of a run depend on the size that its first slot has, and not on its state. -/
theorem Store.readMem_extent_congr {b : ℕ} (hmem : st'.mem = st.mem)
    (hn : (st'.slots b).nbytes = (st.slots b).nbytes) :
    st'.readMem b (st'.extent c b) = st.readMem b (st.extent c b) := by
  rw [readMem, extent, hmem, hn]
  rfl

/-- What a restore depends on does not change. -/
structure Store.Untouched (c : Config) (st st' : Store) (r : RestoreHold) : Prop where
  location : st'.locations.lookup (canonicalTid r.objectId) =
    st.locations.lookup (canonicalTid r.objectId) := by rfl
  slot : st'.slots r.base = st.slots r.base := by rfl
  mem : ∀ i, InRun r.base (st.extent c r.base) i → st'.mem i = st.mem i := by exact fun _ _ => rfl

theorem Store.Held.frame (h : st.Held c r) (hu : st.Untouched c st' r) : st'.Held c r where
  location := by
    rw [hu.location]
    exact h.location
  state := by
    rw [slotState, hu.slot]
    exact h.state
  data := by
    rw [extent, hu.slot, ← extent, h.data]
    exact (readRun_congr hu.mem).symm

/-- All restores find the object and its bytes where they were told. -/
def HoldsKept (c : Config) (x : Scene) : Prop :=
  ∀ r ∈ x.1.store.history.holds, x.1.store.Held c r

/-- No restore begins, and none is touched. The fields that are not given say that nothing
    changes. -/
structure HoldsChange (c : Config) (x y : Scene) : Prop where
  holds : y.1.store.history.holds ⊆ x.1.store.history.holds := by exact fun _ h => h
  untouched : ∀ r ∈ x.1.store.history.holds, x.1.store.Untouched c y.1.store r := by
    exact fun _ _ => {}

theorem HoldsKept.change (h : HoldsKept c x) (hc : HoldsChange c x y) : HoldsKept c y :=
  fun r hr => (h r (hc.holds hr)).frame (hc.untouched r (hc.holds hr))

/-- A slot is not in a run that is apart from one that it starts. -/
theorem not_inRun_of_apart {b n b' n' : ℕ} (h : ¬Meet b n b' n') (hb : InRun b' n' b') :
    ¬InRun b n b' := fun hi => h ⟨b', hi, hb⟩

/-- A restore is answered with the run at `base`. -/
theorem HoldsKept.answered (h : HoldsKept c x) {o : RestoreHold}
    (hholds : y.1.store.history.holds ⊆ o :: x.1.store.history.holds) (hnew : y.1.store.Held c o)
    (hold : ∀ r ∈ x.1.store.history.holds, x.1.store.Untouched c y.1.store r) :
    HoldsKept c y := by
  intro r hr
  rcases List.mem_cons.1 (hholds hr) with rfl | hr
  · exact hnew
  · exact (h r hr).frame (hold r hr)

theorem Store.bindWarm_slots {now t base count nbytes i : ℕ} :
    (st.bindWarm now t base count nbytes).slots i =
      if InRun base count i then { st.slots i with state := .pinnedValid, lastTouchNs := now }
      else st.slots i := rfl

/-- A run is warmed for an object that has no restore: the answer is the first one. -/
theorem HoldsKept.warmDone {s : State} {hand hand' : Hand} {p p' : Option Purpose} {i : ℕ}
    {req : RequestCanonicalRestoreRequest} {base count nbytes now : ℕ}
    (h : HoldsKept c (s, p, hand)) (hc : s.store.Contents c .any)
    (hi : s.store.tasks[i]? = some (.restoreCommit req base count nbytes true))
    (hfree : s.store.Unheld (canonicalTid req.objectId)) :
    HoldsKept c (warmCommit c { s with store := s.store.dropTask i } now req base count nbytes,
      p', hand') := by
  have hw := Store.mem_works hi rfl
  have hrun := hc.runs _ (Store.used_of_work hw)
  have hok := hrun.work _ hw rfl
  have hbase : InRun base count base := by
    rw [show count = _ from hok.count]
    exact hrun.run.inRun
  have hn : nbytes = (s.store.slots base).nbytes := hok.nbytes _ rfl
  have hsize : c.slotsSpanned nbytes = s.store.extent c base := by
    rw [Store.extent, hn]
    exact hrun.run.whole.symm
  have hslot : ((s.store.dropTask i).bindWarm now (canonicalTid req.objectId) base count
      nbytes).slots base = { s.store.slots base with state := .pinnedValid, lastTouchNs := now } :=
    Store.bindWarm_slots.trans (if_pos hbase)
  refine h.answered (o := ⟨req.rankId, req.rankEpoch, req.objectId, base,
    s.store.readMem base (c.slotsSpanned nbytes)⟩) ?_ ⟨?_, ?_, ?_⟩ fun r hr => ?_
  · dsimp only [warmCommit, noteHold, State.modifyObject]
    split
    · exact fun _ h => h
    · exact fun _ h => List.mem_cons_of_mem _ h
  · exact ⟨_, (Table.lookup_insert ..).trans (if_pos rfl), rfl, rfl⟩
  · exact .inl (congrArg SlotEntry.state hslot)
  · rw [hsize]
    refine (Store.readMem_extent_congr ?_ ?_).symm
    · rfl
    · exact (congrArg SlotEntry.nbytes hslot :)
  · have hfar := not_inRun_of_apart ((h r hr).work_apart hc hw) ((h r hr).inRun hc)
    have hsame : (s.store.dropTask i).Untouched c ((s.store.dropTask i).bindWarm now
        (canonicalTid req.objectId) base count nbytes) r :=
      { location := (Table.lookup_insert ..).trans (if_neg (hfree r hr))
        slot := Store.bindWarm_slots.trans (if_neg hfar) }
    exact ⟨hsame.location, hsame.slot, hsame.mem⟩

/-- Every move keeps it that all restores find what they were told. -/
theorem HoldsKept.move (h : HoldsKept c x) (hs : Sound c .any x.1.store x.2.1)
    (hcount : RestoresCounted lost x.1) (hsmall : x.SmallIds)
    (hm : Move c (holdGuards c) (holdRules c) x y) : HoldsKept c y := by
  have hc := hs.contents
  have hfar : ∀ r ∈ x.1.store.history.holds, ∀ {b n : ℕ},
      ¬Meet b n r.base (x.1.store.extent c r.base) → ¬InRun b n r.base :=
    fun r hr _ _ hm => not_inRun_of_apart hm ((h r hr).inRun hc)
  have hmem : ∀ {r : RestoreHold} {b n : ℕ} {data : List Bytes},
      ¬Meet b n r.base (x.1.store.extent c r.base) →
      ∀ i, InRun r.base (x.1.store.extent c r.base) i →
        writeRun b n data x.1.store.mem i = x.1.store.mem i :=
    fun hm i hi => onRun_of_not_mem fun hi' => hm ⟨i, hi', hi⟩
  have hbusy : ∀ r ∈ x.1.store.history.holds, ∀ {b n : ℕ}, x.1.store.RunFree b n →
      ¬Meet b n r.base (x.1.store.extent c r.base) :=
    fun r hr _ _ hfree => hc.unused_of_free hfree _ (h r hr).used
  have hspared : ∀ r ∈ x.1.store.history.holds, ∀ {b n : ℕ}, x.1.store.RunFree b n →
      ¬InRun b n r.base := fun r hr _ _ hfree => hfar r hr (hbusy r hr hfree)
  cases hm with
  | lend hfree | create hfree | candidate hfree | readback hfree | warm hfree =>
    exact h.change { untouched := fun r hr => { slot := if_neg (hspared r hr hfree) } }
  | force hL hd =>
    refine h.change { untouched := fun r hr => { slot := if_neg (hfar r hr ?_) } }
    refine (h r hr).lease_apart hc hL fun hb => ?_
    obtain ⟨o, ho, hpos⟩ := hcount.object hr
    exact State.not_drainable ho hpos (hsmall.object _ o ho) ((h r hr).lease_tensorId hc hL hb) hd
  | @enqueue s h' now id L st seq hL hpub hun =>
    refine h.change { untouched := fun r hr => { slot := if_neg (hfar r hr ?_) } }
    refine (h r hr).lease_apart hc hL fun hb => ?_
    refine absurd ((h r hr).lease_tensorId hc hL hb).symm (hun r ?_)
    dsimp only at hr
    rw [hpub] at hr
    exact hr
  | drainFailed hi | readbackMissing hi | readbackFailed hi =>
    have hw := Store.mem_works hi rfl
    exact h.change
      { untouched := fun r hr => { slot := if_neg (hfar r hr ((h r hr).work_apart hc hw)) } }
  | drainSettled hi _ _ hk | readbackDone hi _ hk =>
    have hw := Store.mem_works hi rfl
    exact h.change
      { untouched := fun r hr =>
          { location := Store.lookup_updateLocationIfLatest (hk r hr)
            slot := if_neg (hfar r hr ((h r hr).work_apart hc hw)) } }
  | readbackRead hi | warmRead hi =>
    have hw := Store.mem_works hi rfl
    exact h.change { untouched := fun r hr => { mem := hmem ((h r hr).io_apart hc hw rfl) } }
  | @stage s _ i _ _ _ _ _ _ _ hun =>
    have hheld : ∀ r ∈ s.store.history.holds, (s.store.dropTask i).Held c r :=
      fun r hr => (h r hr).frame {}
    exact h.change { untouched := fun r hr => { mem := hmem (hun _ (hheld r hr).used) } }
  | warmDone hi _ hk => exact h.warmDone hc hi hk.2
  | @restore s h' req o loc hv ho _ hloc hkind hst hk =>
    refine h.answered (o := ⟨req.rankId, req.rankEpoch, req.objectId, loc.slotId,
      s.store.readMem loc.slotId (c.slotsSpanned o.nbytes)⟩) ?_ ⟨⟨loc, hloc, hkind, rfl⟩, .inl hst,
        congrArg (s.store.readMem loc.slotId) hk.1⟩ fun _ _ => {}
    exact fun _ hr => noteHold_holds c s hv ▸ hr
  | endRestore => exact h.change { holds := List.eraseP_subset }
  | endSession => exact h.change { holds := fun _ hr => (List.mem_filter.1 hr).1 }
  | copyD2H hL _ hopen =>
    refine h.change { untouched := fun r hr => { mem := hmem ?_ } }
    refine (h r hr).copy_apart hc hL fun hb => ?_
    rw [hb] at hopen
    rcases (h r hr).state with hq | hq <;> rw [hq] at hopen <;> cases hopen
  | @submit s h' id L now seq source target hL hst hq =>
    intro r hr
    by_cases hb : L.baseSlot = r.base
    · -- The run is read by a copy to the GPU.
      have hcount := ((hc.runs _ (Store.used_of_lease hL)).lease id L hL rfl).count
      have hslot : (s.store.mapRun L.baseSlot L.slotCount fun _ e =>
          { e with submitSeq := seq, state := target, lastTouchNs := now }).slots r.base =
          { s.store.slots r.base with submitSeq := seq, state := target, lastTouchNs := now } := by
        refine if_pos ?_
        rw [hcount, hb]
        exact (h r hr).inRun hc
      refine ⟨(h r hr).location, ?_, ?_⟩
      · rcases hq with ⟨rfl, -⟩ | ⟨-, rfl⟩
        · rw [hb] at hst
          rcases (h r hr).state with hq | hq <;> rw [hq] at hst <;> cases hst
        · exact .inr (congrArg SlotEntry.state hslot)
      · refine (h r hr).data.trans ?_
        refine (Store.readMem_extent_congr ?_ ?_).symm
        · rfl
        · exact (congrArg SlotEntry.nbytes hslot :)
    · exact (h r hr).frame { slot := if_neg (hfar r hr ((h r hr).lease_apart hc hL hb)) }
  | publish hL hst hun =>
    refine h.change
      { untouched := fun r hr =>
          { location := Store.lookup_updateLocationIfLatest (hun r hr)
            slot := if_neg (hfar r hr ((h r hr).lease_apart hc hL fun hb => ?_)) } }
    exact hun r hr ((h r hr).lease_tensorId hc hL hb).symm
  | keepPinned hL _ hh =>
    refine h.change
      { untouched := fun r hr =>
          { location := Store.lookup_updateLocationIfLatest (hh.2 r hr)
            slot := if_neg (hfar r hr ((h r hr).lease_apart hc hL fun hb => ?_)) } }
    refine hh.2 r hr (((h r hr).lease_tensorId hc hL hb).symm.trans ?_)
    exact (Prod.mk.inj hh.1.1).1.symm
  | fallBack _ _ _ hh =>
    exact h.change
      { untouched := fun r hr =>
          { location := (Table.lookup_modify ..).trans (if_neg (hh.2 r hr)) } }
  | release _ _ hun =>
    exact h.change
      { untouched := fun r hr =>
          { location := (Table.lookup_modify ..).trans (if_neg (hun r hr)) } }
  | reclaim hun =>
    exact h.change
      { untouched := fun r hr => { slot := if_neg (hfar r hr (hun.2 _ (h r hr).used)) } }
  | reclaimMarked hun =>
    refine h.change { untouched := fun r hr => { slot := ?_ } }
    have hni := hfar r hr (hun.2 _ (h r hr).used)
    refine (if_neg hni).trans (if_neg fun hi => hni ⟨hi.1, ?_⟩)
    have := hun.1
    have := hi.2
    omega
  | @unlinkObject s h' oid o ho hidle =>
    refine h.change
      { untouched := fun r hr =>
          { location := (Table.lookup_erase ..).trans (if_neg fun he => ?_) } }
    obtain ⟨o', ho', hpos⟩ := hcount.object hr
    rw [canonicalTid_inj (hsmall.object _ o' ho') (hsmall.object _ o ho) he] at ho'
    cases ho.symm.trans ho'
    simp [CanonicalObject.inFlight, hpos] at hidle
  | discard _ _ _ hk =>
    exact h.change
      { untouched := fun r hr => { location := (Table.lookup_erase ..).trans (if_neg (hk r hr)) } }
  | _ => exact h.change {}

/-! ## Runs -/

/-- A restore finds what it was told: the object is there and is bound to the run, nothing in
    the run is free, drained or read into, leases on it are for the object, and its bytes are
    those that were found, which are of a copy accepted for the object. -/
structure State.Serves (s : State) (r : RestoreHold) : Prop where
  object : (s.catalog.objects.lookup r.objectId).isSome
  bound : ∃ loc, s.store.locations.lookup (canonicalTid r.objectId) = some loc ∧
    loc.kind = .pinned ∧ loc.slotId = r.base
  live : ∀ i, InRun r.base r.data.length i → s.store.slotState i ≠ .free
  idle : ∀ w ∈ s.store.works, ¬Meet w.base w.count r.base r.data.length
  owned : ∀ id L, s.store.leases.lookup id = some L →
    Meet L.baseSlot L.slotCount r.base r.data.length → L.tensorId = canonicalTid r.objectId
  data : s.store.readMem r.base r.data.length = r.data
  accepted : ∃ e ∈ s.store.history.accepted,
    e.tensorId = canonicalTid r.objectId ∧ e.data = r.data

end StateSpectre
