import StateSpectre.Contents.Changes

/-!
# Drains, readbacks and restores keep the contents

What the workers, the forced drains and the restores do to a run, in the steps
they do it in: they hold it by their work (`Work`) from the moment it is queued, so
that they find the run as they left it whenever they take the mutex again. The
guards that the contents need are stated first (`contentGuards`).
-/

namespace StateSpectre

variable {c : Config} {π : Provenance} {st : Store} {b n : ℕ} {data : List Bytes}
  {result : IoResult} {rest : List ReadbackJob} {ok : Bool} {t : Task}

/-! ## Guards -/

/-- The tensor and version whose cold copy a search is to read. -/
def Purpose.tags : Purpose → Option (ℕ × ℕ)
  | .prefetch req _ version _ _ => some (req.tensorId, version)
  | .restore req _ _ => some (canonicalTid req.objectId, canonicalVersion)
  | .offload .. | .create .. | .candidate .. => none

/-- No other run, and no work or search, is for the tensor and version of a lease. -/
abbrev Store.Sole (st : Store) (L : Lease) : Prop :=
  (∀ id' L', st.leases.lookup id' = some L' →
    (L'.tensorId, L'.version) = (L.tensorId, L.version) → L'.baseSlot = L.baseSlot) ∧
  (∀ w ∈ st.works,
    ((st.slots w.base).tensorId, (st.slots w.base).version) ≠ (L.tensorId, L.version)) ∧
  ∀ task ∈ st.tasks, ∀ p ∈ task.purpose, p.tags ≠ some (L.tensorId, L.version)

/-- What the daemon takes for granted about the content of runs: that sizes are not
    cut, that no run in use is freed or staged over, that completions are for the
    tensor of their lease, and that the object restored is the one that was read.
    Where a new copy makes the old ones stale, none of those may be around. -/
abbrev contentGuards (c : Config) (π : Provenance) : Guards where
  lend _ _ nbytes := c.slotsForBytes nbytes = c.slotsSpanned nbytes
  reclaim st b n := 0 < n ∧ st.Unused c b n
  publish st L := π.strict → st.Sole L
  h2d st L t v :=
    (t, v) = (L.tensorId, L.version) ∧
      ∀ loc, st.locations.lookup t = some loc →
        v < loc.version ∨ loc.coldRef = 0 ∨ loc.version = v ∧ loc.nbytes = L.nbytes
  warm loc nbytes := loc.version = canonicalVersion ∧ loc.nbytes = nbytes
  bindWarm st tid base :=
    ((st.locations.lookup tid).getD {}).version = canonicalVersion ∧
      ((st.locations.lookup tid).getD {}).nbytes = (st.slots base).nbytes
  stage st n := st.Unused c 0 n
  read result := result.silent → π.blind

instance {b n : ℕ} : Decidable (st.Unused c b n) :=
  inferInstanceAs (Decidable (∀ b' ∈ st.usedBases, ¬Meet b n b' (st.extent c b')))

instance : DecidableGuards (contentGuards c π) where

namespace Store

/-! ## Work -/

/-- There is no work on a run that is in another state. -/
theorem Contents.no_work (h : st.Contents c π) (hd : (st.slots b).state ≠ .drainInFlight)
    (hr : (st.slots b).state ≠ .readbackInFlight) : ∀ w ∈ st.works, w.base ≠ b := by
  rintro w hw rfl
  have hst := ((h.runs _ (used_of_work hw)).work w hw rfl).state
  obtain hq | hq := work_state hw
  · exact hd (hst.trans hq)
  · exact hr (hst.trans hq)

/-- A task that is over leaves its run without any other work. -/
theorem Contents.finish {i : ℕ} {w : Work} (h : st.Contents c π) (hi : st.tasks[i]? = some t)
    (ht : t.work = some w) :
    (st.dropTask i).ContentsAt c π w.base ∧ (st.dropTask i).WorkOk c π w ∧
      ∀ w' ∈ (st.dropTask i).works, w'.base ≠ w.base := by
  have hperm := works_dropTask hi
  rw [ht] at hperm
  have hw : w ∈ st.works := hperm.mem_iff.2 (List.mem_cons_self)
  have hok := (h.runs _ (used_of_work hw)).work w hw rfl
  refine ⟨(h.at (used_of_work hw)).frame fun _ => change_dropTask i, ?_, ?_⟩
  · exact ⟨hok.state, hok.count, hok.tags, hok.nbytes, hok.coldRef, hok.copy, hok.read⟩
  · have hnd := h.exclusive
    rw [(hperm.map Work.base).nodup_iff] at hnd
    rintro w' hw' he
    exact (List.nodup_cons.1 hnd).1 (he ▸ List.mem_map_of_mem hw')

theorem WorkOk.hasData {w : Work} (h : st.WorkOk c π w) (hw : w.state.hasData) :
    (st.slots w.base).state.hasData := by
  rwa [h.state]

theorem WorkOk.not_hasData {w : Work} (h : st.WorkOk c π w) (hw : ¬w.state.hasData) :
    ¬(st.slots w.base).state.hasData := by
  rwa [h.state]

theorem WorkOk.not_open {w : Work} (h : st.WorkOk c π w) (hw : ¬d2hOpen w.state) :
    ¬d2hOpen (st.slots w.base).state := by
  rwa [h.state]

/-- Work moves from a queue to a task. -/
theorem Contents.moveWork (h : st.Contents c π) (drainQueue : List DrainJob)
    (readbackQueue : List ReadbackJob) {tasks : List Task}
    (hperm : (st.withWork drainQueue readbackQueue tasks).works.Perm st.works)
    (hp : ∀ t ∈ tasks, ∀ p ∈ t.purpose, ∃ t ∈ st.tasks, p ∈ t.purpose) :
    (st.withWork drainQueue readbackQueue tasks).Contents c π :=
  h.frame fun b =>
    { work := fun w hw _ => hperm.mem_iff.1 hw
      exclusive := (hperm.map _).nodup_iff.2
      purpose := fun t ht p hpt => .inl (hp t ht p hpt) }

/-- A task without work on a run is added. -/
theorem Contents.addTask (h : st.Contents c π) (ht : t.work = none) (hp : t.purpose = none) :
    (st.addTask t).Contents c π := by
  have hperm :
      (st.withWork st.drainQueue st.readbackQueue (t :: st.tasks)).works.Perm st.works := by
    have hperm := st.works_addTask t
    rwa [ht] at hperm
  refine h.moveWork _ _ hperm ?_
  · intro t' ht' p hpt
    rcases List.mem_cons.1 ht' with rfl | ht'
    · rw [hp] at hpt
      cases hpt
    · exact ⟨t', ht', hpt⟩

/-- A run goes to another state. -/
theorem ContentsAt.setRunState {now : ℕ} {q : SlotState} (h : st.ContentsAt c π b)
    (hn : n = st.extent c b) (hw : ∀ w ∈ st.works, w.base ≠ b) (hlive : q ≠ .free)
    (hdata : q.hasData → st.GoodAt π b (st.readMem b (st.extent c b)))
    (hblank : d2hOpen q → d2hOpen (st.slots b).state)
    (hres : (st.slots b).state.hasData → q.hasData) :
    (st.setRunState now b n q).ContentsAt c π b :=
  h.setState hn hw ⟨fun _ _ => rfl, fun _ _ => rfl, fun _ _ => rfl, fun _ _ => rfl⟩
    (fun _ _ => rfl) (fun _ _ => rfl) hlive hdata hblank hres

/-! ## Draining a run -/

variable {i now : ℕ} {w : DrainWork} {cold : ColdEntry}

/-- A copy is stored, and is good for the run that refers to it from now on. -/
theorem Contents.settleDrain (h : st.Contents c π) (hk : cold.kind ≠ .pinned)
    (hi : st.tasks[i]? = some (.drainCommit w (some cold))) :
    ((st.dropTask i).settleDrain w cold).Contents c π := by
  obtain ⟨h₀, hok, hw⟩ := h.finish hi rfl
  obtain ⟨ht, hv⟩ := Prod.mk.inj (hok.tags _ rfl)
  have hn : w.nbytes = _ := hok.nbytes _ rfl
  have href : ((st.dropTask i).addCold cold).RefOk c π w.tensorId w.version w.nbytes
      (st.dropTask i).nextColdRef := by
    refine ⟨Nat.lt_succ_self _, fun e he => ?_⟩
    rw [Store.addCold, Table.lookup_insert, if_pos rfl] at he
    cases he
    obtain ⟨hgood, hlen⟩ := hok.copy _ rfl
    rw [ht, hv, hn, ← h₀.run.whole]
    exact ⟨hgood, hlen⟩
  have h₁ := h₀.frame fun _ => change_addCold h₀.toContents cold
  have h₂ := h₁.mapRun (f := fun _ e => { e with coldRef := (st.dropTask i).nextColdRef })
    hok.count ⟨fun _ _ => rfl, fun _ _ => rfl, fun _ _ => rfl, fun _ _ => rfl⟩ hw
    (fun _ _ h => h) h₁.run.data (by rwa [ht, hv, hn] at href)
    (fun hd => absurd hd (hok.not_open (by rintro ⟨⟩))) (fun h => h)
  have hloc : ((st.dropTask i).addCold cold).LocationOk c π w.tensorId
      ⟨w.version, cold.kind, w.baseSlot, (st.dropTask i).nextColdRef, w.nbytes⟩ :=
    ⟨by rw [hn]; exact h₀.run.whole, href.drawn, href.good⟩
  have h₃ := h₂.updateLocationIfLatest (fun _ => ⟨hloc.whole, hloc.ref.drawn, hloc.ref.good⟩)
    fun h => absurd h hk
  exact h₃.toContents.frame fun _ => change_dropLease w.leaseId

/-- A failed drain leaves the run as it was. -/
theorem Contents.failDrain (h : st.Contents c π) (hi : st.tasks[i]? = some (.drainCommit w none)) :
    ((st.dropTask i).setRunState now w.baseSlot w.slotCount .pinnedValid).Contents c π := by
  obtain ⟨h₀, hok, hw⟩ := h.finish hi rfl
  exact (h₀.setRunState (q := .pinnedValid) hok.count hw (by decide)
    (fun _ => h₀.run.data (hok.hasData rfl))
    (fun h => nomatch h) fun _ => rfl).toContents

/-- A worker notes what the run is for. -/
theorem Contents.drainBegin {job : DrainJob} (h : st.Contents c π)
    (hi : st.tasks[i]? = some (.drainTaken job)) :
    ((st.dropTask i).addTask (.drainIo (drainSnapshot st job))).Contents c π := by
  obtain ⟨h₀, hok, hw⟩ := h.finish hi rfl
  refine (h₀.addTask (.drainIo (drainSnapshot st job)) rfl rfl ?_ hw
    fun _ h => nomatch h).toContents
  refine ⟨hok.state, hok.count, ?_, ?_, (fun _ h => nomatch h), (fun _ h => nomatch h), (nomatch ·)⟩
  · rintro _ ⟨⟩
    rfl
  · rintro _ ⟨⟩
    rfl

/-- The copy of a run is what is in it. -/
theorem Contents.drainCopied {copy : Option ColdEntry} (h : st.Contents c π)
    (hi : st.tasks[i]? = some (.drainIo w))
    (hcopy : ∀ e ∈ copy, e = doDrainToCold c st w.baseSlot w.nbytes) :
    ((st.dropTask i).addTask (.drainCommit w copy)).Contents c π := by
  obtain ⟨h₀, hok, hw⟩ := h.finish hi rfl
  have hp : ∀ p ∈ w.forced.map (·.1), (st.dropTask i).PurposeOk c π p := fun p hp =>
    (h.purposes _ (List.mem_of_getElem? hi) p hp).mono rfl fun h => ⟨h.drawn, h.good⟩
  refine (h₀.addTask (.drainCommit w copy) rfl rfl ?_ hw hp).toContents
  refine ⟨hok.state, hok.count, hok.tags, hok.nbytes, hok.coldRef, ?_, (nomatch ·)⟩
  intro data hdata
  obtain ⟨e, he, rfl⟩ := Option.map_eq_some_iff.1 hdata
  have hspan : c.slotsSpanned w.nbytes = (st.dropTask i).extent c w.baseSlot := by
    rw [show w.nbytes = _ from hok.nbytes _ rfl]
    exact h₀.run.whole.symm
  rw [hcopy e he, doDrainToCold, hspan]
  exact ⟨h₀.run.data (hok.hasData rfl), length_readRun _⟩

/-- A drain starts on a run. What it notes of the slots is as they are. -/
theorem ContentsAt.startDrain {w : Work} (h : st.ContentsAt c π w.base) (now : ℕ)
    (hst : (st.slots w.base).state = .pinnedValid) (hcount : w.count = st.extent c w.base)
    (htags : ∀ x ∈ w.tags, x = ((st.slots w.base).tensorId, (st.slots w.base).version))
    (hnbytes : ∀ n ∈ w.nbytes, n = (st.slots w.base).nbytes)
    (hw : w.state = .drainInFlight ∧ w.coldRef = none ∧ w.copy = none ∧ w.read = false) :
    (st.setRunState now w.base w.count .drainInFlight).ContentsAt c π w.base ∧
      (st.setRunState now w.base w.count .drainInFlight).WorkOk c π w ∧
      ∀ w' ∈ st.works, w'.base ≠ w.base := by
  obtain ⟨hstate, hcoldRef, hcopy, hread⟩ := hw
  have hnone := h.toContents.no_work (b := w.base) (by rw [hst]; decide) (by rw [hst]; decide)
  have hbase : (st.setRunState now w.base w.count .drainInFlight).slots w.base =
      { st.slots w.base with state := .drainInFlight, lastTouchNs := now } :=
    h.run.mapRun_base hcount
  refine ⟨h.setRunState hcount hnone (by decide) (fun _ => h.run.data ?_) (fun h => nomatch h)
    fun _ => rfl, ⟨?_, ?_, ?_, ?_, ?_, ?_, ?_⟩, hnone⟩
  · rw [hst]
    rfl
  · rw [hbase, hstate]
  · rwa [extent, hbase]
  · rwa [hbase]
  · rwa [hbase]
  · simp [hcoldRef]
  · simp [hcopy]
  · simp [hread]

/-- A run is sent to the drain workers. -/
theorem Contents.enqueueDrain {id : ℕ} {L : Lease} (h : st.Contents c π)
    (hL : st.leases.lookup id = some L)
    (hst : 0 < L.slotCount → st.slotState L.baseSlot = .pinnedValid) :
    (st.enqueueDrain now L).Contents c π := by
  have hinv := h.runs _ (used_of_lease hL)
  have hok := hinv.lease id L hL rfl
  obtain ⟨h₁, hwork, hw⟩ := (h.at (used_of_lease hL)).startDrain now
    (w := DrainJob.work ⟨L.baseSlot, L.slotCount⟩) (hst (hok.count ▸ hinv.run.pos)) hok.count
    (fun _ h => nomatch h) (fun _ h => nomatch h) ⟨rfl, rfl, rfl, rfl⟩
  refine (h₁.addWork ?_ rfl hwork hw fun t ht p hp => .inl ⟨t, ht, hp⟩).toContents
  simp only [works, withWork, List.map_append, List.map_cons, List.map_nil, List.append_assoc]
  exact List.perm_middle

/-- A forced drain takes a run, for the search it will go on with. -/
theorem Contents.forceDrain {id attempt : ℕ} {L : Lease} {p : Purpose} (h : st.Contents c π)
    (hL : st.leases.lookup id = some L) (hst : st.slotState L.baseSlot = .pinnedValid)
    (hp : st.PurposeOk c π p) :
    ((st.setRunState now L.baseSlot L.slotCount .drainInFlight).addTask
      (.drainIo (L.drainWork id p attempt))).Contents c π := by
  have hok := (h.runs _ (used_of_lease hL)).lease id L hL rfl
  obtain ⟨h₁, hwork, hw⟩ := (h.at (used_of_lease hL)).startDrain now
    (w := (L.drainWork id p attempt).work) hst hok.count
    (by rintro _ ⟨⟩; exact hok.tags) (by rintro _ ⟨⟩; exact hok.nbytes) ⟨rfl, rfl, rfl, rfl⟩
  refine (h₁.addTask (.drainIo (L.drainWork id p attempt)) rfl rfl hwork hw ?_).toContents
  rintro _ ⟨⟩
  exact hp.mono rfl fun h => ⟨h.drawn, h.good⟩

theorem works_takeDrain {job : DrainJob} {rest : List DrainJob} (hq : st.drainQueue = job :: rest) :
    ({ st with drainQueue := rest }.addTask (.drainTaken job)).works.Perm st.works := by
  simp only [works, addTask, hq, List.map_cons, List.filterMap_cons, Task.work]
  exact List.perm_middle

theorem Contents.takeDrain {job : DrainJob} {rest : List DrainJob} (h : st.Contents c π)
    (hq : st.drainQueue = job :: rest) :
    ({ st with drainQueue := rest }.addTask (.drainTaken job)).Contents c π := by
  refine h.moveWork rest st.readbackQueue (works_takeDrain hq) fun t ht p hp => ?_
  rcases List.mem_cons.1 ht with rfl | ht
  · cases hp
  · exact ⟨t, ht, hp⟩

/-! ## Reading a run back -/

theorem works_takeReadback {job : ReadbackJob} (hq : st.readbackQueue = job :: rest) :
    ({ st with readbackQueue := rest }.addTask (.readbackTaken job)).works.Perm st.works := by
  simp only [works, addTask, hq, List.map_cons, List.filterMap_cons, Task.work,
    List.append_assoc, List.cons_append]
  exact List.perm_middle.append_left _

theorem Contents.takeReadback {job : ReadbackJob} (h : st.Contents c π)
    (hq : st.readbackQueue = job :: rest) :
    ({ st with readbackQueue := rest }.addTask (.readbackTaken job)).Contents c π := by
  refine h.moveWork st.drainQueue rest (works_takeReadback hq) fun t ht p hp => ?_
  rcases List.mem_cons.1 ht with rfl | ht
  · cases hp
  · exact ⟨t, ht, hp⟩

variable {job : ReadbackJob}

/-- A worker finds the cold copy that the run refers to. -/
theorem Contents.readbackFound (h : st.Contents c π) (hi : st.tasks[i]? = some (.readbackTaken job))
    (hcold : st.coldStore.lookup job.coldRef = some cold) :
    ((st.dropTask i).addTask (.readbackIo job cold)).Contents c π := by
  obtain ⟨h₀, hok, hw⟩ := h.finish hi rfl
  refine (h₀.addTask (.readbackIo job cold) rfl rfl ?_ hw fun _ h => nomatch h).toContents
  refine ⟨hok.state, hok.count, hok.tags, hok.nbytes, hok.coldRef, ?_, (fun h => nomatch h)⟩
  rintro _ ⟨⟩
  have hgood := h₀.run.ref.good cold
  rw [← hok.coldRef _ rfl, ← h₀.run.whole] at hgood
  exact hgood hcold

theorem Contents.readbackLost (h : st.Contents c π)
    (hi : st.tasks[i]? = some (.readbackTaken job)) :
    ((st.dropTask i).addTask (.readbackMissing job)).Contents c π := by
  obtain ⟨h₀, hok, hw⟩ := h.finish hi rfl
  exact (h₀.addTask (.readbackMissing job) rfl rfl hok hw fun _ h => nomatch h).toContents

/-- A run that holds no data is in error. -/
theorem ContentsAt.setError (h : st.ContentsAt c π b) (hn : n = st.extent c b)
    (hd : ¬(st.slots b).state.hasData) (hw : ∀ w ∈ st.works, w.base ≠ b) :
    (st.setRunState now b n .error).Contents c π :=
  (h.setRunState (q := .error) hn hw (by decide) (fun h => nomatch h) (fun h => nomatch h)
    fun hd' => absurd hd' hd).toContents

/-- Whatever a read leaves in a run, it is good if the read is said to be made. -/
theorem ContentsAt.readInto {w : Work} {nbytes : ℕ} (h : st.ContentsAt c π w.base)
    (hok : st.WorkOk c π w) (hw : ∀ w' ∈ st.works, w'.base ≠ w.base)
    (hstate : w.state = .readbackInFlight) (hn : w.nbytes = some nbytes)
    (hcopy : w.copy = some cold.data) (hread : readCold c cold result = some (data, ok))
    (hg : (contentGuards c π).read result)
    (ht : t.work = some { w with copy := none, read := ok }) (hp : t.purpose = none) :
    ((doReadbackFromCold c st w.base nbytes data).addTask t).Contents c π := by
  have hnd : ¬(st.slots w.base).state.hasData := hok.not_hasData (by rw [hstate]; decide)
  have hspan : c.slotsSpanned nbytes = st.extent c w.base := by
    rw [hok.nbytes nbytes hn]
    exact h.run.whole.symm
  have h₁ : (doReadbackFromCold c st w.base nbytes data).ContentsAt c π w.base :=
    h.writeMem hspan hnd hw (fun _ _ _ _ => rfl) fun _ _ _ _ ho =>
      absurd ho (hok.not_open (by rw [hstate]; decide))
  refine (h₁.addTask t ht rfl ?_ hw (by simp [hp])).toContents
  refine ⟨hok.state, hok.count, hok.tags, hok.nbytes, hok.coldRef, (fun _ h => nomatch h), ?_⟩
  rintro rfl
  obtain ⟨hgood, hlen⟩ := hok.copy cold.data hcopy
  by_cases hsilent : result.silent
  · exact π.unread (hg hsilent) ..
  have hdata : data = cold.data := by
    cases result <;> simp_all [readCold, IoResult.silent]
  have hmem : (doReadbackFromCold c st w.base nbytes data).readMem w.base (st.extent c w.base) =
      cold.data := by
    rw [doReadbackFromCold, hspan, hdata]
    exact readRun_writeRun hlen
  exact hmem.symm ▸ hgood

theorem Contents.readbackRead (h : st.Contents c π)
    (hi : st.tasks[i]? = some (.readbackIo job cold))
    (hread : readCold c cold result = some (data, ok)) (hg : (contentGuards c π).read result) :
    ((doReadbackFromCold c (st.dropTask i) job.baseSlot job.nbytes data).addTask
      (.readbackCommit job ok)).Contents c π := by
  obtain ⟨h₀, hok, hw⟩ := h.finish hi rfl
  exact h₀.readInto hok hw rfl rfl rfl hread hg rfl rfl

/-- A run that has been read is the location of its tensor. -/
theorem Contents.readbackDone (h : st.Contents c π)
    (hi : st.tasks[i]? = some (.readbackCommit job true)) :
    (((st.dropTask i).setRunState now job.baseSlot job.slotCount .pinnedValid
      ).updateLocationIfLatest (st.slots job.baseSlot).tensorId (st.slots job.baseSlot).version
        .pinned job.baseSlot job.coldRef job.nbytes).Contents c π := by
  obtain ⟨h₀, hok, hw⟩ := h.finish hi rfl
  have hn : job.nbytes = (st.slots job.baseSlot).nbytes := hok.nbytes _ rfl
  have hr : job.coldRef = (st.slots job.baseSlot).coldRef := hok.coldRef _ rfl
  refine (h₀.pinIfLatest hok.count hw (pins_setRunState now) (hok.read rfl) rfl hn
    fun _ => ?_).toContents
  rw [hn, hr]
  exact h₀.run.ref

/-! ## Warming a run -/

variable {req : RequestCanonicalRestoreRequest} {base count nbytes : ℕ}

theorem Contents.warmRead (h : st.Contents c π)
    (hi : st.tasks[i]? = some (.restoreIo req base count cold nbytes))
    (hread : readCold c cold result = some (data, ok)) (hg : (contentGuards c π).read result) :
    ((doReadbackFromCold c (st.dropTask i) base nbytes data).addTask
      (.restoreCommit req base count nbytes ok)).Contents c π := by
  obtain ⟨h₀, hok, hw⟩ := h.finish hi rfl
  exact h₀.readInto hok hw rfl rfl rfl hread hg rfl rfl

/-- A run that has been warmed is the location of its object, whose cold copy is
    still of the same version and size. -/
theorem Contents.bindWarm (h : st.Contents c π)
    (hi : st.tasks[i]? = some (.restoreCommit req base count nbytes true))
    (hg : (contentGuards c π).bindWarm (st.dropTask i) (canonicalTid req.objectId) base) :
    ((st.dropTask i).bindWarm now (canonicalTid req.objectId) base count nbytes).Contents c π := by
  obtain ⟨h₀, hok, hw⟩ := h.finish hi rfl
  have hn : nbytes = ((st.dropTask i).slots base).nbytes := hok.nbytes _ rfl
  obtain ⟨hv, hsize⟩ := hg
  have htags := hok.tags _ rfl
  rw [← hv] at htags
  refine (h₀.pinAt hok.count hw (pins_setRunState now) (hok.read rfl) htags hn ?_).toContents
  cases hloc : (st.dropTask i).locations.lookup (canonicalTid req.objectId) with
  | none => exact ⟨h.drawn, fun ce hce => absurd (h.stored 0 ce hce).1 (lt_irrefl 0)⟩
  | some loc =>
    rw [hloc] at hsize
    have href := (h₀.locations _ _ hloc).ref
    rwa [show loc.nbytes = _ from hsize, ← hn] at href

/-- A run is reserved for what a restore is to read. -/
theorem Contents.warm {gran pid : ℕ} (h : st.Contents c π)
    (hfree : st.RunFree base (c.slotsForBytes nbytes))
    (hp : st.PurposeOk c π (.restore req cold nbytes)) :
    ((st.warmRun gran now req pid base (c.slotsForBytes nbytes) nbytes).addTask
      (.restoreIo req base (c.slotsForBytes nbytes) cold nbytes)).Contents c π := by
  obtain ⟨hwhole, hgood, hlen⟩ := hp
  obtain ⟨h₁, hbase⟩ := h.warmRun gran now pid req hfree hwhole
  have hnot := h.not_used (h.unused_of_free hfree) (c.slotsForBytes_pos hwhole)
  have hext := congrArg (fun e => c.slotsForBytes e.nbytes) hbase
  have hgoodAt : (st.warmRun gran now req pid base (c.slotsForBytes nbytes) nbytes).GoodAt π base
      cold.data := by
    rw [GoodAt, hbase]
    exact hgood
  refine (h₁.addTask (.restoreIo req base (c.slotsForBytes nbytes) cold nbytes) rfl rfl ?_ ?_
    (by rintro _ ⟨⟩)).toContents
  · refine ⟨?_, hext.symm, ?_, ?_, by rintro _ ⟨⟩, ?_, by rintro ⟨⟩⟩
    · exact congrArg SlotEntry.state hbase
    · rintro _ ⟨⟩
      exact congrArg (fun e : SlotEntry => (e.tensorId, e.version)) hbase.symm
    · rintro _ ⟨⟩
      exact congrArg SlotEntry.nbytes hbase.symm
    · rintro _ ⟨⟩
      exact ⟨hgoodAt, hlen.trans (hwhole.symm.trans hext.symm)⟩
  · rintro w hw rfl
    exact hnot (used_of_work hw)

/-- A run is lent for a cold copy to be read back into it. -/
theorem Contents.readback {gran id pid base : ℕ} {req : RequestPrefetchRequest} {loc : Location}
    {version : ℕ} (h : st.Contents c π) (hfree : st.RunFree base (c.slotsForBytes loc.nbytes))
    (hp : st.PurposeOk c π (.prefetch req loc version pid id)) :
    { st.reserve gran now id (prefetchLease c req loc version pid base) req.flags
        .readbackInFlight (some loc.coldRef) with
      readbackQueue := st.readbackQueue ++
        [ReadbackJob.mk base (c.slotsForBytes loc.nbytes) loc.coldRef loc.nbytes] }.Contents
      c π := by
  obtain ⟨rfl, hok⟩ := hp
  obtain ⟨h₁, hbase⟩ := h.reserve gran now id req.flags
    (L := prefetchLease c req loc loc.version pid base) (q := .readbackInFlight)
    (r := some loc.coldRef) hfree rfl hok.whole (by decide) (by rintro ⟨⟩)
    (by rintro _ ⟨⟩; exact hok.ref) (by rintro ⟨⟩)
  have hnot := h.not_used (h.unused_of_free hfree) (c.slotsForBytes_pos hok.whole)
  refine (h₁.addWork
    (w := ReadbackJob.work ⟨base, c.slotsForBytes loc.nbytes, loc.coldRef, loc.nbytes⟩) ?_ rfl ?_ ?_
    fun t ht p hp => .inl ⟨t, ht, hp⟩).toContents
  · simp only [works, withWork, List.map_append, List.map_cons, List.map_nil, List.append_assoc]
    exact (List.perm_middle.append_left _).trans List.perm_middle
  · refine ⟨congrArg SlotEntry.state hbase, ?_, by rintro _ ⟨⟩, ?_, ?_, by rintro _ ⟨⟩,
      by rintro ⟨⟩⟩
    · exact (congrArg (fun e => c.slotsForBytes e.nbytes) hbase).symm
    · rintro _ ⟨⟩
      exact (congrArg SlotEntry.nbytes hbase).symm
    · rintro _ ⟨⟩
      exact (congrArg SlotEntry.coldRef hbase).symm
  · rintro w hw rfl
    exact hnot (used_of_work hw)

end Store

end StateSpectre
