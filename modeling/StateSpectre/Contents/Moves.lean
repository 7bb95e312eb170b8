import StateSpectre.Contents.Step

/-!
# What a move does to a slot, and to the work on a run

Who may change the entry of a slot, and how (`SlotChange`): a slot is lent or taken for a restore
while it is free, it changes with the copies of a lease on it, at the end of a drain, a readback
or a restore of its run, or it is freed. Every change of a slot by a move is one of these
(`Move.slotChange`). Likewise, the work on a run goes on until it ends in one of a few ways
(`WorkEnd`, `Move.workEnd`).
-/

namespace StateSpectre

variable {c : Config} {g : Guards} {k : Rules} {x y : Scene} {st : Store} {i : ℕ}

theorem Store.mem_works_enqueueDrain {now : ℕ} {L : Lease} :
    (⟨L.baseSlot, L.slotCount⟩ : DrainJob).work ∈ (st.enqueueDrain now L).works := by
  simp [works, enqueueDrain]

/-- The work of a task that reads a cold copy back. -/
theorem Task.work_of_readback {t : Task} {job : ReadbackJob} (h : t.readback = some job) :
    ∃ w, t.work = some w ∧ w.base = job.baseSlot ∧ w.count = job.slotCount ∧
      w.state = .readbackInFlight := by
  cases t <;> cases h <;> exact ⟨_, rfl, rfl, rfl, rfl⟩

/-! ## Slots -/

/-- The ways in which the entry of the slot `i` changes. -/
inductive SlotChange (c : Config) (g : Guards) (k : Rules) (x y : Scene) (i : ℕ) : Prop
  /-- The slot was free, and is lent with a lease. -/
  | lent {id : ℕ} {L : Lease} {q : SlotState} : x.1.store.slotState i = .free →
      y.1.store.leases.lookup id = some L → InRun L.baseSlot L.slotCount i →
      y.1.store.slotState i = q → q ≠ .drainInFlight → SlotChange c g k x y i
  /-- The slot was free, and is taken for a restore. -/
  | taken {w : Work} : x.1.store.slotState i = .free → w ∈ y.1.store.works →
      InRun w.base w.count i → y.1.store.slotState i = .readbackInFlight → w.coldRef = none →
      SlotChange c g k x y i
  /-- A copy of a lease on the slot begins or ends, or its run is to be drained. -/
  | leased {id : ℕ} {L : Lease} : x.1.store.leases.lookup id = some L →
      y.1.store.leases.lookup id = some L → InRun L.baseSlot L.slotCount i →
      x.1.store.slotState L.baseSlot ≠ .drainInFlight →
      x.1.store.slotState L.baseSlot ≠ .readbackInFlight →
      (y.1.store.slotState i = .drainInFlight →
        ∃ w ∈ y.1.store.works, w.state = .drainInFlight ∧ InRun w.base w.count i) →
      SlotChange c g k x y i
  /-- The cold copy of the run is recorded. -/
  | settled {j : ℕ} {w : DrainWork} {cold : ColdEntry} :
      x.1.store.tasks[j]? = some (.drainCommit w (some cold)) →
      k { x.1 with store := x.1.store.dropTask j } (.settle w) → InRun w.baseSlot w.slotCount i →
      y.1.store.slotState i = x.1.store.slotState i →
      (w.baseSlot, w.slotCount) ∈ y.2.2.freeing → SlotChange c g k x y i
  /-- The run could not be drained. -/
  | drainFailed {j now : ℕ} {w : DrainWork} : x.1.store.tasks[j]? = some (.drainCommit w none) →
      k { x.1 with store := x.1.store.dropTask j } (.failDrain w) →
      InRun w.baseSlot w.slotCount i →
      y.1 =
        { x.1.drainDone w.nbytes with
          store := (x.1.store.dropTask j).setRunState now w.baseSlot w.slotCount .pinnedValid } →
      y.1.store.slotState i = .pinnedValid → SlotChange c g k x y i
  /-- The readback into the run is over. -/
  | read {j : ℕ} {t : Task} {job : ReadbackJob} : x.1.store.tasks[j]? = some t →
      t.readback = some job → InRun job.baseSlot job.slotCount i →
      y.1.store.slotState i = .error ∨ y.1.store.slotState i = .pinnedValid → SlotChange c g k x y i
  /-- The run is warm. -/
  | warmed {j now : ℕ} {req : RequestCanonicalRestoreRequest} {base count nbytes : ℕ} :
      x.1.store.tasks[j]? = some (.restoreCommit req base count nbytes true) →
      k { x.1 with store := x.1.store.dropTask j } (.warm req base) → InRun base count i →
      y.1 = (restoreCommit c { x.1 with store := x.1.store.dropTask j } now req base count nbytes
        true).1 →
      y.1.store.slotState i = .pinnedValid → SlotChange c g k x y i
  /-- The run is freed. -/
  | freed {b n : ℕ} : g.reclaim x.1.store b n → InRun b n i → y.1.store.slotState i = .free →
      SlotChange c g k x y i

/-- Every change of a slot is one of these. -/
theorem Move.slotChange (hm : Move c g k x y) (hg : ∀ st b n, g.reclaim st b n → 0 < n) :
    y.1.store.slots i = x.1.store.slots i ∨ SlotChange c g k x y i := by
  by_cases hsame : y.1.store.slots i = x.1.store.slots i
  · exact .inl hsame
  refine .inr ?_
  -- The slot is in the run that the move changes.
  have hin : ∀ {b n : ℕ}, (¬InRun b n i → y.1.store.slots i = x.1.store.slots i) → InRun b n i :=
    fun h => by_contra fun hi => hsame (h hi)
  have hfound : ∀ {b n : ℕ}, x.1.store.RunFree b n →
      (¬InRun b n i → y.1.store.slots i = x.1.store.slots i) → InRun b n i := fun _ => hin
  have hof : ∀ {id : ℕ} {L : Lease}, x.1.store.leases.lookup id = some L →
      (¬InRun L.baseSlot L.slotCount i → y.1.store.slots i = x.1.store.slots i) →
      InRun L.baseSlot L.slotCount i := fun _ => hin
  cases hm with
  | lend hfree | create hfree | candidate hfree | readback hfree =>
    have hi := hfound hfree fun hi => if_neg hi
    exact .lent (hfree i hi) (AList.lookup_insert _) hi (congrArg SlotEntry.state (if_pos hi)) nofun
  | warm hfree =>
    have hi := hfound hfree fun hi => if_neg hi
    exact .taken (hfree i hi) ((Store.works_addTask ..).mem_iff.2 (List.mem_cons_self ..)) hi
      (congrArg SlotEntry.state (if_pos hi)) rfl
  | force hL hd =>
    have hi := hof hL fun hi => if_neg hi
    have hst := State.slotState_of_drainable hd
    refine .leased hL hL hi (by rw [hst]; nofun) (by rw [hst]; nofun) fun _ => ?_
    exact ⟨_, (Store.works_addTask ..).mem_iff.2 (List.mem_cons_self ..), rfl, hi⟩
  | @enqueue s h now id L st seq hL hpub =>
    have hi := hof hL fun hi => if_neg hi
    have hst : s.store.slotState L.baseSlot = .pinnedValid := by
      rw [hpub]
      exact Store.slotState_publishD2H (by have := hi.1; have := hi.2; omega)
    refine .leased hL hL hi (by rw [hst]; nofun) (by rw [hst]; nofun) fun _ => ?_
    exact ⟨_, Store.mem_works_enqueueDrain, rfl, hi⟩
  | @drainSettled s h j w cold hj _ _ hk =>
    have hi := hin (b := w.baseSlot) (n := w.slotCount) fun hi => if_neg hi
    exact .settled hj hk hi ((congrArg SlotEntry.state (if_pos hi)).trans rfl)
      (List.mem_cons_self ..)
  | @drainFailed s h j w now hj _ hk =>
    have hi := hin (b := w.baseSlot) (n := w.slotCount) fun hi => if_neg hi
    exact .drainFailed hj hk hi rfl (congrArg SlotEntry.state (if_pos hi))
  | @readbackMissing s h j job now hj | @readbackFailed s h j job now hj =>
    have hi := hin (b := job.baseSlot) (n := job.slotCount) fun hi => if_neg hi
    exact .read hj rfl hi (.inl (congrArg SlotEntry.state (if_pos hi)))
  | @readbackDone s h j job now hj =>
    have hi := hin (b := job.baseSlot) (n := job.slotCount) fun hi => if_neg hi
    exact .read hj rfl hi (.inr (congrArg SlotEntry.state (if_pos hi)))
  | @warmDone s h j req base count nbytes now hj _ hk =>
    have hi := hin (b := base) (n := count) fun hi => if_neg hi
    exact .warmed hj hk hi rfl (congrArg SlotEntry.state (if_pos hi))
  | submit hL hst hq =>
    have hi := hof hL fun hi => if_neg hi
    rcases hq with ⟨rfl, rfl⟩ | ⟨rfl, rfl⟩ <;>
    exact .leased hL hL hi (by rw [hst]; nofun) (by rw [hst]; nofun) fun hd =>
      nomatch hd.symm.trans (congrArg SlotEntry.state (if_pos hi))
  | publish hL hst | keepPinned hL hst =>
    have hi := hof hL fun hi => if_neg hi
    exact .leased hL hL hi (by rw [hst]; nofun) (by rw [hst]; nofun) fun hd =>
      nomatch hd.symm.trans (congrArg SlotEntry.state (if_pos hi))
  | @reclaim s p h now b n hr =>
    have hi := hin (b := b) (n := n) fun hi => if_neg hi
    exact .freed hr hi (congrArg SlotEntry.state (if_pos hi))
  | @reclaimMarked s p h now b n q hr =>
    have hi := hin (b := b) (n := n) fun hi => (if_neg hi).trans
      (if_neg fun hi' => hi ⟨hi'.1, by have := hi'.2; have := hg _ _ _ hr; omega⟩)
    exact .freed hr hi (congrArg SlotEntry.state (if_pos hi))
  | _ => exact absurd rfl hsame

/-- A run that is valid stays as it is, unless it is that of a lease. -/
theorem Move.valid_or_leased {b : ℕ} (hm : Move c g k x y)
    (hg : g.Implies (contentGuards c π)) (hc : x.1.store.Contents c π)
    (hu : x.1.store.Used b) (hq : x.1.store.slotState b = .pinnedValid) :
    y.1.store.slots b = x.1.store.slots b ∨ ∃ id L, y.1.store.leases.lookup id = some L ∧
      L.baseSlot = b ∧ L.slotCount = x.1.store.extent c b := by
  have hb := (hc.runs b hu).run.inRun
  -- There is no work on it.
  have hwork : ∀ w ∈ x.1.store.works, ¬InRun w.base w.count b := by
    intro w hw hi
    have hok := (hc.runs _ (Store.used_of_work hw)).work w hw rfl
    have hne : w.base ≠ b :=
      hc.no_work (by rw [← Store.slotState, hq]; nofun) (by rw [← Store.slotState, hq]; nofun) w hw
    rw [hok.count] at hi
    exact hc.apart _ _ (Store.used_of_work hw) hu hne ⟨b, hi, hb⟩
  refine (hm.slotChange fun _ _ _ hr => (hg.reclaim hr).1).imp_right fun hch => ?_
  cases hch with
  | lent hfree | taken hfree => exact nomatch hfree.symm.trans hq
  | @leased id L hL hL' hi =>
    have hcount := ((hc.runs _ (Store.used_of_lease hL)).lease id L hL rfl).count
    have heq : L.baseSlot = b := by
      by_contra hne
      rw [hcount] at hi
      exact hc.apart _ _ (Store.used_of_lease hL) hu hne ⟨b, hi, hb⟩
    exact ⟨id, L, hL', heq, heq ▸ hcount⟩
  | settled hj _ hi | drainFailed hj _ hi | warmed hj _ hi =>
    exact absurd hi (hwork _ (Store.mem_works hj rfl))
  | read hj ht hi =>
    obtain ⟨w, hw, hbase, hn, -⟩ := Task.work_of_readback ht
    rw [← hbase, ← hn] at hi
    exact absurd hi (hwork w (Store.mem_works hj hw))
  | freed hr hi => exact absurd ⟨b, hi, hb⟩ ((hg.reclaim hr).2 b hu)

/-- A run that is to be freed is freed. -/
theorem Move.freeing {r : ℕ × ℕ} (hm : Move c g k x y) (hr : r ∈ x.2.2.freeing) :
    r ∈ y.2.2.freeing ∨ y.1.store.RunFree r.1 r.2 := by
  cases hm with
  | drainSettled | warmFailed | fallBack | release => exact .inl (List.mem_cons_of_mem _ hr)
  | freed hf hfree =>
    rw [hf] at hr
    rcases List.mem_cons.1 hr with rfl | hr
    · exact .inr hfree
    · exact .inl hr
  | _ => exact .inl hr

/-! ## Work -/

/-- Works on the same run, of the same kind. -/
structure Work.Follows (w w' : Work) : Prop where
  base : w'.base = w.base := by rfl
  count : w'.count = w.count := by rfl
  state : w'.state = w.state := by rfl
  coldRef : w'.coldRef = w.coldRef := by rfl

/-- The ways in which the work on a run ends. -/
inductive WorkEnd (c : Config) (k : Rules) (x y : Scene) (w : Work) : Prop
  /-- The cold copy is recorded, and the run is to be freed. -/
  | settled {s : State} {v : DrainWork} : v.baseSlot = w.base → w.state = .drainInFlight →
      k s (.settle v) → (w.base, w.count) ∈ y.2.2.freeing → WorkEnd c k x y w
  /-- The run could not be drained. -/
  | drainFailed {j now : ℕ} {v : DrainWork} : x.1.store.tasks[j]? = some (.drainCommit v none) →
      v.baseSlot = w.base → v.slotCount = w.count → w.state = .drainInFlight →
      k { x.1 with store := x.1.store.dropTask j } (.failDrain v) →
      y.1 =
        { x.1.drainDone v.nbytes with
          store := (x.1.store.dropTask j).setRunState now v.baseSlot v.slotCount .pinnedValid } →
      (∀ i, InRun w.base w.count i → y.1.store.slotState i = .pinnedValid) → WorkEnd c k x y w
  /-- A readback is over. -/
  | read {r : ℕ} : w.state = .readbackInFlight → w.coldRef = some r → WorkEnd c k x y w
  /-- The run is warm. -/
  | warmed {j now : ℕ} {req : RequestCanonicalRestoreRequest} {nbytes : ℕ} :
      x.1.store.tasks[j]? = some (.restoreCommit req w.base w.count nbytes true) →
      w.state = .readbackInFlight →
      k { x.1 with store := x.1.store.dropTask j } (.warm req w.base) →
      y.1 = (restoreCommit c { x.1 with store := x.1.store.dropTask j } now req w.base w.count
        nbytes true).1 →
      WorkEnd c k x y w
  /-- The run could not be warmed, and is to be freed. -/
  | warmFailed : w.state = .readbackInFlight → (w.base, w.count) ∈ y.2.2.freeing →
      WorkEnd c k x y w

section Work

variable {j : ℕ} {t t' : Task} {w : Work}

theorem Store.mem_works_split (hj : st.tasks[j]? = some t) (hw : w ∈ st.works) :
    t.work = some w ∨ w ∈ (st.dropTask j).works := by
  have hmem := (works_dropTask hj).mem_iff.1 hw
  simpa [eq_comm] using hmem

theorem Store.mem_works_addTask (hw : w ∈ st.works) : w ∈ (st.addTask t).works :=
  (works_addTask ..).mem_iff.2 (List.mem_append_right _ hw)

theorem Store.mem_works_queue {st' : Store} (hw : w ∈ st.works)
    (hd : st.drainQueue ⊆ st'.drainQueue) (hr : st.readbackQueue ⊆ st'.readbackQueue)
    (ht : st'.tasks = st.tasks := by rfl) : w ∈ st'.works := by
  simp only [works, List.mem_append, ht] at hw ⊢
  exact hw.imp_left (Or.imp (fun h => List.map_subset _ hd h) fun h => List.map_subset _ hr h)

/-- A task is followed by one with the same work. -/
theorem Store.mem_works_nextTask (hj : st.tasks[j]? = some t)
    (ht : ∀ w, t.work = some w → ∃ w', t'.work = some w' ∧ w.Follows w') (hw : w ∈ st.works) :
    ∃ w' ∈ ((st.dropTask j).addTask t').works, w.Follows w' := by
  rcases mem_works_split hj hw with hw | hw
  · obtain ⟨w', hw', hf⟩ := ht w hw
    exact ⟨w', (works_addTask ..).mem_iff.2 (by simp [hw']), hf⟩
  · exact ⟨w, mem_works_addTask hw, {}⟩

end Work

/-- A task finds its run in the state that it awaits. -/
theorem Store.Contents.awaited {j b : ℕ} {t : Task} {q : SlotState} (hc : st.Contents c π)
    (hj : st.tasks[j]? = some t) (ha : t.awaits = some (b, q)) : st.slotState b = q := by
  obtain ⟨w, hw, rfl, rfl⟩ : ∃ w, t.work = some w ∧ w.base = b ∧ w.state = q := by
    cases t <;> cases ha <;> exact ⟨_, rfl, rfl, rfl⟩
  have hmem := mem_works hj hw
  exact ((hc.runs _ (used_of_work hmem)).work w hmem rfl).state

/-- The work on a run goes on, or ends in one of these ways. -/
theorem Move.workEnd {w : Work} (hm : Move c g k x y) (hc : x.1.store.Contents c π)
    (hw : w ∈ x.1.store.works) :
    (∃ w' ∈ y.1.store.works, w.Follows w') ∨ WorkEnd c k x y w := by
  have hkept : w ∈ y.1.store.works → (∃ w' ∈ y.1.store.works, w.Follows w') ∨ WorkEnd c k x y w :=
    fun hw => .inl ⟨w, hw, {}⟩
  -- A task is over: the work is its, or goes on.
  have hend : ∀ {j : ℕ} {t : Task}, x.1.store.tasks[j]? = some t →
      ((x.1.store.dropTask j).works = y.1.store.works) →
      (t.work = some w → WorkEnd c k x y w) →
      (∃ w' ∈ y.1.store.works, w.Follows w') ∨ WorkEnd c k x y w := by
    intro j t hj hworks ht
    rcases Store.mem_works_split hj hw with hw | hw
    · exact .inr (ht hw)
    · exact hkept (hworks ▸ hw)
  cases hm with
  | warm | force | startPull => exact hkept (Store.mem_works_addTask hw)
  | enqueue =>
    exact hkept (Store.mem_works_queue hw (List.subset_append_left ..) (List.Subset.refl _))
  | readback =>
    exact hkept (Store.mem_works_queue hw (List.Subset.refl _) (List.subset_append_left ..))
  | takeDrain hq => exact hkept ((Store.works_takeDrain hq).mem_iff.2 hw)
  | takeReadback hq => exact hkept ((Store.works_takeReadback hq).mem_iff.2 hw)
  | drainBegin hj | drainCopied hj | readbackFound hj | readbackLost hj | readbackRead hj
  | warmRead hj =>
    exact .inl (Store.mem_works_nextTask hj (by rintro _ ⟨⟩; exact ⟨_, rfl, {}⟩) hw)
  | stage hj => exact .inl (Store.mem_works_nextTask hj nofun hw)
  | nextPull hj ht =>
    exact .inl (Store.mem_works_nextTask hj (by rw [Task.work_of_pull ht]; nofun) hw)
  | drainSettled hj _ _ hk =>
    refine hend hj rfl ?_
    rintro ⟨⟩
    exact .settled rfl rfl hk (List.mem_cons_self ..)
  | drainFailed hj _ hk =>
    refine hend hj rfl ?_
    rintro ⟨⟩
    exact .drainFailed hj rfl rfl rfl hk rfl fun i hi => congrArg SlotEntry.state (if_pos hi)
  | readbackMissing hj | readbackFailed hj | readbackDone hj =>
    refine hend hj rfl ?_
    rintro ⟨⟩
    exact .read rfl rfl
  | warmDone hj _ hk =>
    refine hend hj rfl ?_
    rintro ⟨⟩
    exact .warmed hj rfl hk rfl
  | warmFailed hj =>
    refine hend hj rfl ?_
    rintro ⟨⟩
    exact .warmFailed rfl (List.mem_cons_self ..)
  | failPull hj | endPull hj => exact hend hj rfl nofun
  | dropTask hj _ hawaits hne => exact absurd (hc.awaited hj hawaits) hne
  | _ => exact hkept hw

end StateSpectre
