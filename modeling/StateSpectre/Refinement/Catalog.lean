import StateSpectre.CatalogStep
import StateSpectre.LeaseCover

/-!
# The daemon refines its catalog

Every move of the daemon is a sequence of transitions of the catalog (`Move.catalog`),
as it is one of the store, and so is every step that meets the guards (`step_catalog`),
and every run (`daemon_refines`). The one thing a move takes from the past is the state
that an export puts its object back into, which was the sealed one (`PullsSealed`).
-/

namespace StateSpectre

variable {c : Config} {g : Guards} {k : Rules} {s : State} {now : ℕ} {x y : Scene} {oid : ℕ}
  {ok : State → Action → Prop} {s' : State} {o' : CanonicalObject} {o : CanonicalObject}
  {vk : VersionKey} {l : PullLocals} {r : Response}

/-- The catalog of a state, with the searches that its tasks will go on with. -/
def State.inventory (s : State) : Catalog × List Purpose :=
  (s.catalog, s.store.tasks.filterMap Task.purpose)

/-! ## Objects -/

theorem findObjectByKey_eq_some {keyStr : List Char}
    (h : findObjectByKey s keyStr = some (oid, o)) :
    s.catalog.objectByKey.lookup keyStr = some oid ∧ s.catalog.objects.lookup oid = some o := by
  obtain ⟨oid', hoid, h⟩ := Option.bind_eq_some_iff.1 h
  obtain ⟨o', ho, h⟩ := Option.map_eq_some_iff.1 h
  cases h
  exact ⟨hoid, ho⟩

/-- The states that a move takes the catalog through. -/
abbrev Reshapes (g : Guards) (s s' : State) : Prop :=
  CatalogSteps g s.inventory s'.inventory

/-- An object that changes its holders, its counts or its place is the same one. -/
theorem CanonicalObject.Continues.of_eq {o o' : CanonicalObject} (hk : o'.key = o.key)
    (hs : o'.keyStr = o.keyStr) (hn : o'.nbytes = o.nbytes) (hst : o'.state = o.state)
    (hlo : o'.contentHashLo = o.contentHashLo) (hhi : o'.contentHashHi = o.contentHashHi) :
    o.Continues o' :=
  ⟨hk, hs, hn, fun h => ⟨hst ▸ h, hlo, hhi⟩⟩

/-- An object changes, and the account of its job with it. -/
theorem modifyJob_catalog {f : CanonicalObject → CanonicalObject} {uid : JobUID}
    {f' : JobRecord → JobRecord}
    (hf : ∀ o, s.catalog.objects.lookup oid = some o → o.Continues (f o)) :
    Reshapes g s ((s.modifyObject oid f).modifyJob uid f') :=
  .tail (.single (.modify hf)) (.admin fun _ => Table.isSome_lookup_modify)

theorem sealVersion_catalog : Reshapes g s (sealVersion s vk) := by
  have h : Reshapes g s ((sealManifest s vk).objectIds.foldl
      (fun s oid => s.modifyObject oid fun o => { o with state := .sealed }) s) := by
    refine foldl_invariant (motive := fun s' => Reshapes g s s') (fun _ _ h => h.tail ?_) _ .refl
    exact .modify fun _ _ => ⟨rfl, rfl, rfl, fun _ => ⟨by simp, rfl, rfl⟩⟩
  exact h.tail (.admin fun _ hu => hu)

theorem startExport_catalog {req : PullTensorRequest} : Reshapes g s (startExport s req o) :=
  modifyJob_catalog fun _ _ => ⟨rfl, rfl, rfl, fun _ => ⟨by simp, rfl, rfl⟩⟩

theorem failStaging_catalog (hl : l.prevState = .sealed) : Reshapes g s (failStaging s l).1 := by
  refine modifyJob_catalog fun _ _ => ⟨rfl, rfl, rfl, fun _ => ⟨?_, rfl, rfl⟩⟩
  simp [hl]

theorem endExport_catalog (hl : l.prevState = .sealed) : Reshapes g s (endExport s l) := by
  refine modifyJob_catalog fun o _ => ⟨rfl, rfl, rfl, fun h => ⟨?_, rfl, rfl⟩⟩
  dsimp only
  split
  · simp [hl]
  · exact h

/-! ## Moves -/

/-- Exports begin with sealed objects. -/
def PullsSealed (st : Store) : Prop := ∀ t ∈ st.tasks, ∀ l, t.pull = some l → l.prevState = .sealed

/-- Every transition of the store keeps it that exports begin with sealed objects. -/
theorem PullsSealed.step {st st' : Store} {p p' : Option Purpose} (h : PullsSealed st)
    (hstep : StoreStep c g (st, p) (st', p')) : PullsSealed st' := by
  have hadd : ∀ {st : Store} {t : Task}, PullsSealed st →
      (∀ l, t.pull = some l → l.prevState = .sealed) → PullsSealed (st.addTask t) :=
    fun h ht => List.forall_mem_cons.2 ⟨ht, h⟩
  have hdrop : ∀ i, PullsSealed (st.dropTask i) :=
    fun i t ht => h t (List.mem_of_mem_eraseIdx ht)
  cases hstep with
  | warm | force | takeDrain | takeReadback => exact hadd h fun _ h => nomatch h
  | drainBegin | drainCopied | readbackFound | readbackLost | readbackRead | warmRead =>
    exact hadd (hdrop _) fun _ h => nomatch h
  | drainSettled | drainFailed | readbackMissing | readbackFailed | readbackDone | warmDone
  | dropTask => exact hdrop _
  | addPull ht hl =>
    refine hadd h fun l hl' => ?_
    cases ht.symm.trans hl'
    exact hl.elim id fun ⟨t', ht', hp⟩ => h t' ht' _ hp
  | stage hi => exact hadd (hdrop _) fun l hl => h _ (List.mem_of_getElem? hi) l hl
  | _ => exact h

section Searches

variable {h : Hand} {st : Store} {i : ℕ} {t t' : Task} {p : Purpose}

/-- A task goes on with the same search. -/
theorem nextTask_catalog (hi : s.store.tasks[i]? = some t) (ht : t'.purpose = t.purpose)
    (hst : st.tasks = (s.store.dropTask i).tasks) :
    CatalogSteps g (s.catalog, Scene.purposes (s, none, h))
      (s.catalog, Scene.purposes ({ s with store := st.addTask t' }, none, h)) := by
  have hperm := (Store.filterMap_nextTask Task.purpose hi ht).symm.subperm
  rw [Store.addTask, ← hst] at hperm
  exact .single (.settle hperm)

/-- A task ends, and its search with it. -/
theorem dropTask_catalog (hi : s.store.tasks[i]? = some t)
    (hst : st.tasks = (s.store.dropTask i).tasks) :
    CatalogSteps g (s.catalog, Scene.purposes (s, none, h))
      (s.catalog, Scene.purposes ({ s with store := st }, none, h)) := by
  have hsub := (List.sublist_append_right t.purpose.toList _).subperm.trans
    (Store.filterMap_dropTask Task.purpose hi).symm.subperm
  rw [← hst] at hsub
  exact .single (.settle hsub)

/-- The search under way is over. -/
theorem endSearch_catalog (hst : st.tasks.filterMap Task.purpose =
      s.store.tasks.filterMap Task.purpose) :
    CatalogSteps g (s.catalog, Scene.purposes (s, some p, h))
      (s.catalog, Scene.purposes ({ s with store := st }, none, h)) := by
  rw [Scene.purposes, Scene.purposes, hst]
  exact .single (.settle (List.sublist_cons_self _ _).subperm)

/-- The search for the run of a new object is over, and the object is there. -/
theorem create_catalog {req : RequestCanonicalEvictRequest} {oid base : ℕ} :
    CatalogSteps g (s.catalog, Scene.purposes (s, some (.create req oid), h))
      ((grantCreate c s now req oid base).1.catalog,
        Scene.purposes ((grantCreate c s now req oid base).1, none, h)) := by
  have hnew : CatalogSteps g (s.catalog, Scene.purposes (s, some (.create req oid), h))
      ({ s.catalog with
          objects := s.catalog.objects.insert oid (newObject c req s.store.nextLeaseId base)
          objectByKey := s.catalog.objectByKey.insert (canonicalKeyString req.key) oid },
        s.inventory.2) :=
    .single (@CatalogStep.create g _ _ _ _ (newObject c req s.store.nextLeaseId base) rfl)
  exact hnew.tail (.admin fun uid hu => Table.isSome_lookup_modify (Table.isSome_lookup_modify hu))

end Searches

/-- What a move does to the catalog, and to the searches. -/
theorem Move.catalog (h : Move c g k x y) (hpulls : PullsSealed x.1.store) :
    CatalogSteps g (x.1.catalog, x.purposes) (y.1.catalog, y.purposes) := by
  have hsealed : ∀ {st : Store} {i : ℕ} {t : Task} {l : PullLocals}, PullsSealed st →
      st.tasks[i]? = some t → t.pull = some l → l.prevState = .sealed :=
    fun h hi ht => h _ (List.mem_of_getElem? hi) _ ht
  cases h with
  -- Searches.
  | @seek s h p hp =>
    cases p <;> first | exact hp.elim | exact .single (.seek rfl rfl)
  | seekPrefetch => exact .single (.seek rfl rfl)
  | seekCreate => exact .single .seekCreate
  | seekCandidate _ _ hfind => exact .single (.seekCandidate (findObjectByKey_eq_some hfind).1)
  | draw => exact .single .draw
  | giveUp | lend | readback | warm => exact endSearch_catalog rfl
  | create => exact create_catalog
  | candidate =>
    exact .tail (endSearch_catalog rfl) (.admin fun uid hu => Table.isSome_lookup_modify hu)
  -- Tasks.
  | drainBegin hi | drainCopied hi | readbackFound hi | readbackLost hi | readbackRead hi
  | warmRead hi | stage hi => exact nextTask_catalog hi rfl rfl
  | nextPull hi ht ht' =>
    exact nextTask_catalog hi ((Task.purpose_of_pull ht').trans (Task.purpose_of_pull ht).symm) rfl
  | drainFailed hi | readbackMissing hi | readbackFailed hi | readbackDone hi | warmFailed hi
  | dropTask hi => exact dropTask_catalog hi rfl
  | drainSettled hi => exact .single (.settle (Store.purposes_settle hi))
  | warmDone hi =>
    refine .tail (dropTask_catalog hi rfl) (.modify fun _ _ => ⟨rfl, rfl, rfl, fun _ => ?_⟩)
    exact ⟨by rintro ⟨⟩, rfl, rfl⟩
  -- Exports.
  | startPull ho ht =>
    rw [Scene.purposes, Scene.purposes, Store.addTask, List.filterMap_cons,
      Task.purpose_of_pull ht]
    exact startExport_catalog
  | refusePull ho =>
    exact startExport_catalog.trans (failStaging_catalog (pullCheck_sealed ho).1)
  | @failPull s h i l buf hi =>
    have hfail : Reshapes g { s with store := s.store.dropTask i } (failStaging _ l).1 :=
      failStaging_catalog (hsealed hpulls hi rfl)
    exact (dropTask_catalog (h := h) hi rfl).trans hfail
  | @endPull s h i l error hi =>
    have hend : Reshapes g { s with store := s.store.dropTask i } (endExport _ l) :=
      endExport_catalog (hsealed hpulls hi rfl)
    exact (dropTask_catalog (h := h) hi rfl).trans hend
  -- Objects.
  | restore | endRestore | attach | letGo =>
    exact .single (.modify fun _ _ => .of_eq rfl rfl rfl rfl rfl rfl)
  | unlinkObject ho _ _ hl =>
    exact .tail (.single (.reclaim ho hl)) (.admin fun _ => Table.isSome_lookup_modify)
  | discard => exact .single (.admin fun _ => Table.isSome_lookup_modify)
  | commit _ ho hc =>
    refine .single (.modify fun o' ho' => ⟨rfl, rfl, rfl, fun h => ?_⟩)
    cases ho.symm.trans ho'
    simp only [CanonicalObject.createdBy, Bool.and_eq_true, beq_iff_eq] at hc
    exact absurd hc.1 h
  | registerJob => exact .single (.admin fun _ => Table.isSome_lookup_insert)
  | sealVersion => exact sealVersion_frame _ _ ▸ sealVersion_catalog
  | failSeal | markLatest | retire | forgetVersion => exact .single (.admin fun _ hu => hu)
  | rehash _ _ ho hj =>
    refine .tail (.single (.rehash ho)) (.admin fun uid hu => ?_)
    rw [hj.lookup_eq]
    exact hu
  | _ => exact .refl

/-- Where an object comes from: it was there before, or it has just been created. -/
theorem Move.object_origin (h : Move c g k x y) (hpulls : PullsSealed x.1.store)
    (ho' : y.1.catalog.objects.lookup oid = some o') :
    (∃ o, x.1.catalog.objects.lookup oid = some o ∧ o.Continues o') ∨
      ∃ req leaseId base, x.2.1 = some (.create req oid) ∧ o' = newObject c req leaseId base := by
  have hrefl : ∀ o : CanonicalObject, o.Continues o := fun _ => .of_eq rfl rfl rfl rfl rfl rfl
  have hlinked (hl : x.1.catalog.objects.Linked CanonicalObject.Continues y.1.catalog.objects) :
      ∃ o, x.1.catalog.objects.lookup oid = some o ∧ o.Continues o' := hl.of_lookup ho'
  have hbegun : ∀ {o o' : CanonicalObject}, o'.key = o.key → o'.keyStr = o.keyStr →
      o'.nbytes = o.nbytes → o'.contentHashLo = o.contentHashLo →
      o'.contentHashHi = o.contentHashHi → o'.state ≠ .creating → o.Continues o' :=
    fun hk hs hn hlo hhi hst => ⟨hk, hs, hn, fun _ => ⟨hst, hlo, hhi⟩⟩
  have hsealed : ∀ {i : ℕ} {t : Task} {l}, x.1.store.tasks[i]? = some t → t.pull = some l →
      l.prevState ≠ .creating := by
    intro i t l hi ht
    rw [hpulls t (List.mem_of_getElem? hi) l ht]
    decide
  cases h with
  | create =>
    rcases Table.lookup_insert_eq_some.1 ho' with ⟨rfl, rfl⟩ | ⟨-, ho⟩
    · exact .inr ⟨_, _, _, rfl, rfl⟩
    · exact .inl ⟨o', ho, hrefl o'⟩
  | unlinkObject => exact .inl ⟨o', Table.lookup_of_lookup_erase ho', hrefl o'⟩
  | restore | endRestore | attach | letGo =>
    exact .inl (hlinked (.modify hrefl fun _ _ => .of_eq rfl rfl rfl rfl rfl rfl))
  | warmDone | startPull =>
    exact .inl (hlinked (.modify hrefl fun _ _ => hbegun rfl rfl rfl rfl rfl (by rintro ⟨⟩)))
  | @refusePull s h' req o hpull =>
    refine .inl (hlinked (.modify_modify hrefl fun _ _ => hbegun rfl rfl rfl rfl rfl ?_))
    rw [CanonicalObject.pullLocals, (pullCheck_sealed hpull).1]
    decide
  | failPull hi =>
    exact .inl (hlinked (.modify hrefl fun _ _ => hbegun rfl rfl rfl rfl rfl (hsealed hi rfl)))
  | endPull hi =>
    refine .inl (hlinked (.modify hrefl fun _ _ => ⟨rfl, rfl, rfl, fun hc => ⟨?_, rfl, rfl⟩⟩))
    dsimp only
    split
    · exact hsealed hi rfl
    · exact hc
  | commit _ ho hc =>
    refine .inl (hlinked (.modify hrefl fun o' ho' => ⟨rfl, rfl, rfl, fun h => ?_⟩))
    cases ho.symm.trans ho'
    simp only [CanonicalObject.createdBy, Bool.and_eq_true, beq_iff_eq] at hc
    exact absurd hc.1 h
  | sealVersion =>
    refine .inl (hlinked (sealVersion_linked _ hrefl fun _ _ _ _ => ?_))
    exact hbegun rfl rfl rfl rfl rfl (by rintro ⟨⟩)
  | rehash _ _ hr => exact .inl (hlinked (hr.linked hrefl))
  | _ => exact .inl ⟨o', ho', hrefl o'⟩

/-- Where a holder of an object comes from: it held it before, it has just been attached, or it
    has just created it. -/
theorem Move.holder_origin {oid r : ℕ} (h : Move c g k x y)
    (ho' : y.1.catalog.objects.lookup oid = some o') (hr : r ∈ o'.holders) :
    (∃ o, x.1.catalog.objects.lookup oid = some o ∧ r ∈ o.holders) ∨
      (k x.1 (.attach r oid) ∧ ∃ e, x.1.epochValid r e) ∨
      ∃ req, x.2.1 = some (.create req oid) ∧ r = req.rankId := by
  have hlinked (hl : x.1.catalog.objects.Linked (fun o o' => o'.holders ⊆ o.holders)
      y.1.catalog.objects) : ∃ o, x.1.catalog.objects.lookup oid = some o ∧ r ∈ o.holders := by
    obtain ⟨o, ho, hsub⟩ := hl.of_lookup ho'
    exact ⟨o, ho, hsub hr⟩
  have hrefl : ∀ o : CanonicalObject, o.holders ⊆ o.holders := fun _ => subset_rfl
  cases h with
  | create =>
    rcases Table.lookup_insert_eq_some.1 ho' with ⟨rfl, rfl⟩ | ⟨-, ho⟩
    · exact .inr (.inr ⟨_, rfl, Finset.mem_singleton.1 hr⟩)
    · exact .inl ⟨o', ho, hr⟩
  | attach hv hk =>
    obtain ⟨rfl, o, ho, rfl⟩ | ⟨-, ho⟩ := Table.lookup_modify_eq_some.1 ho'
    · rcases Finset.mem_insert.1 hr with rfl | hr
      · exact .inr (.inl ⟨hk, _, hv⟩)
      · exact .inl ⟨o, ho, hr⟩
    · exact .inl ⟨o', ho, hr⟩
  | letGo => exact .inl (hlinked (.modify hrefl fun _ _ => Finset.erase_subset _ _))
  | unlinkObject => exact .inl ⟨o', Table.lookup_of_lookup_erase ho', hr⟩
  | restore | endRestore | warmDone | startPull | failPull | endPull | commit =>
    exact .inl (hlinked (.modify hrefl fun _ _ => subset_rfl))
  | refusePull => exact .inl (hlinked (.modify_modify hrefl fun _ _ => subset_rfl))
  | sealVersion => exact .inl (hlinked (sealVersion_linked _ hrefl fun _ _ _ _ => subset_rfl))
  | rehash _ _ hr => exact .inl (hlinked (hr.linked hrefl))
  | _ => exact .inl ⟨o', ho', hr⟩

/-- Where a sealed manifest comes from: it was there before, or it has just been made. -/
theorem Move.manifest_origin {man : Manifest} (h : Move c g k x y)
    (hman : y.1.catalog.manifests.lookup vk = some man) (hsealed : man.state = .sealed) :
    x.1.catalog.manifests.lookup vk = some man ∨
      y.1 = StateSpectre.sealVersion x.1 vk ∧ y.2.1 = none ∧ x.2.1 = none ∧
        man = sealManifest x.1 vk ∧
        k x.1 (.sealVersion vk) := by
  cases h with
  | @sealVersion s h' vk' _ _ hk =>
    rcases Table.lookup_insert_eq_some.1 hman with ⟨rfl, rfl⟩ | ⟨-, hman⟩
    · exact .inr ⟨(sealVersion_frame ..).symm, rfl, rfl, rfl, hk⟩
    · exact .inl hman
  | failSeal _ herr =>
    rcases Table.lookup_insert_eq_some.1 hman with ⟨rfl, rfl⟩ | ⟨-, hman⟩
    · cases herr.symm.trans hsealed
    · exact .inl hman
  | retire | forgetVersion => exact .inl (Table.lookup_of_lookup_erase hman)
  | rehash _ _ _ _ hr => exact .inl ((hr.lookup_eq vk).symm.trans hman)
  | _ => exact .inl hman

/-- What holds of the catalog, the searches and the exports at every move. -/
structure Scene.Orderly (x : Scene) : Prop where
  indexed : Indexed (x.1.catalog, x.purposes)
  pulls : PullsSealed x.1.store

theorem Scene.Orderly.move (h : x.Orderly) (hm : Move c g k x y) : y.Orderly where
  indexed := (hm.catalog h.pulls).invariant (fun _ _ hx hxy => hx.step hxy) h.indexed
  pulls := hm.store.invariant (motive := fun x => PullsSealed x.1) (fun _ _ hx hxy => hx.step hxy)
    h.pulls

/-- No job is forgotten. -/
theorem Scene.Orderly.jobs (h : x.Orderly) (hm : Move c g k x y) {uid : JobUID}
    (hu : (x.1.catalog.jobs.lookup uid).isSome) : (y.1.catalog.jobs.lookup uid).isSome :=
  (hm.catalog h.pulls).invariant (motive := fun z => (z.1.jobs.lookup uid).isSome)
    (fun _ _ hz hzw => hzw.jobs hz) hu

theorem Descends.move {k₀ : Catalog} (h : Descends k₀ (x.1.catalog, x.purposes) oid)
    (ho : x.Orderly) (hm : Move c g k x y) : Descends k₀ (y.1.catalog, y.purposes) oid :=
  (hm.catalog ho.pulls).invariant (motive := fun z => Descends k₀ z oid)
    (fun _ _ hz hzw => hz.step hzw) h

/-- The id of an object that is there leads to it. -/
theorem Scene.Orderly.descends_self (h : x.Orderly)
    (ho : x.1.catalog.objects.lookup oid = some o) :
    Descends x.1.catalog (x.1.catalog, x.purposes) oid where
  fresh hc := nomatch (h.indexed.created oid hc).2.symm.trans ho
  drawn := h.indexed.drawn oid o ho
  object o ho := ⟨o, ho, .of_eq rfl rfl rfl rfl rfl rfl⟩

/-- The ids of objects, and of those to be created, leave room for the mark of their tensors. -/
structure Scene.SmallIds (x : Scene) : Prop where
  object : ∀ oid o, x.1.catalog.objects.lookup oid = some o → oid < canonicalTidBit
  create : ∀ req oid, .create req oid ∈ x.purposes → oid < canonicalTidBit

/-- Ids stay small as long as small ones are drawn. -/
theorem Scene.SmallIds.move (h : x.SmallIds) (ho : x.Orderly)
    (hk : ∀ s req oid, k s (.seek (.create req oid)) → oid < canonicalTidBit)
    (hm : Move c g k x y) : y.SmallIds where
  object oid o hoid := by
    rcases hm.object_origin ho.pulls hoid with ⟨o', ho', -⟩ | ⟨req, _, _, hp, -⟩
    · exact h.object oid o' ho'
    · exact h.create req oid (List.mem_append_left _ (by simp [hp]))
  create req oid hp := by
    rcases hm.mem_purposes hp with hp | ⟨⟨-, -, hseek⟩, -⟩
    · exact h.create req oid hp
    · exact hk _ req oid hseek

/-- An object has the tensor of no other, as long as ids are small. -/
theorem canonicalTid_inj {oid oid' : ℕ} (h : oid < canonicalTidBit) (h' : oid' < canonicalTidBit)
    (he : canonicalTid oid = canonicalTid oid') : oid = oid' := by
  rw [← objectOfTid_canonicalTid h, he, objectOfTid_canonicalTid h']

/-! ## Steps -/

/-- Every step of the daemon that meets the guards is a sequence of transitions of the
    catalog. -/
theorem step_catalog {a : Action} (hpulls : PullsSealed s.store) (hg : g.ok c s a)
    (h : step c s a = some (s', r)) : Reshapes g s s' := by
  have hinv := (step_moves hg (Rules.free_ok c s a) h).invariant
    (motive := fun x => PullsSealed x.1.store ∧
      CatalogSteps g s.inventory (x.1.catalog, x.purposes)) (fun x y hx hxy => ?_) ⟨hpulls, .refl⟩
  · exact hinv.2
  · refine ⟨hxy.store.invariant (motive := fun x => PullsSealed x.1) (fun _ _ h hs => h.step hs)
      hx.1, hx.2.trans (hxy.catalog hx.1)⟩

/-- What holds of the catalog, and of the exports, in every state. -/
abbrev Orderly (s : State) : Prop := Scene.Orderly (s, none, {})

theorem Orderly.step {a : Action} (h : Orderly s) (hstep : step c s a = some (s', r)) :
    Orderly s' :=
  (step_moves Guards.unguarded_ok (Rules.free_ok c s a) hstep).invariant
    (motive := Scene.Orderly) (fun _ _ hx hxy => hx.move hxy) h

theorem Scene.Orderly.initial : Scene.Orderly (State.initial, none, {}) := by
  refine ⟨⟨?_, ?_, List.nodup_nil, ?_, ?_⟩, ?_⟩
  · exact fun _ _ h => nomatch h
  · exact fun _ h => nomatch h
  · exact fun _ _ h => nomatch h
  · exact fun _ _ _ _ h => nomatch h
  · exact fun _ h => nomatch h

theorem Scene.SmallIds.initial : Scene.SmallIds (State.initial, none, {}) where
  object _ _ h := nomatch h
  create _ _ h := nomatch h

theorem Reachable.orderly (h : Reachable c ok s) : Orderly s := by
  refine Reach.invariant (fun s hs => ?_) (fun _ _ _ _ hs _ hstep => hs.step hstep) h
  rw [hs]
  exact .initial

/-- Every run of the daemon that meets the guards is one of its store, and one of its catalog. -/
theorem daemon_refines (h : Reachable c (g.ok c) s) :
    Evolves c g Store.initial s.store ∧ Reshapes g State.initial s := by
  induction h with
  | init h₀ =>
    cases h₀
    exact ⟨.refl, .refl⟩
  | step hs ha hstep ih =>
    obtain ⟨hstore, hcatalog⟩ := ih
    exact ⟨hstore.trans (step_refines ha hstep),
      hcatalog.trans (step_catalog (Reachable.orderly hs).pulls ha hstep)⟩

theorem daemon_refines_offloaded : ∃ s, s.store.locations.lookup 1 ≠ none ∧
    Evolves oneSlot leaseGuards Store.initial s.store ∧ Reshapes leaseGuards State.initial s := by
  obtain ⟨s, hs, hloc⟩ := exists_reachable oneSlot (leaseGuards.ok oneSlot)
    (p := (·.store.locations.lookup 1 ≠ none)) (registers :: offloads 1 1 1 1 [1])
    (by decide +kernel)
  exact ⟨s, hloc, daemon_refines hs⟩

/-- An id that was drawn, and is not to be created under, leads to what it led to, or to nothing. -/
theorem Orderly.descends (h : Orderly s) (hfresh : oid ∉ createdIds s.inventory.2)
    (hdrawn : oid < s.catalog.nextObjectId)
    (h' : Reach (· = s) ok (StateSpectre.step c) s') : Descends s.catalog s'.inventory oid := by
  refine (Reach.invariant (motive := fun s' => Orderly s' ∧ Descends s.catalog s'.inventory oid)
    ?_ ?_ h').2
  · rintro _ rfl
    exact ⟨h, hfresh, hdrawn, fun o ho => ⟨o, ho, .of_eq rfl rfl rfl rfl rfl rfl⟩⟩
  · intro s₁ a s₂ r hs₁ _ hstep
    exact ⟨hs₁.1.step hstep, (step_catalog hs₁.1.pulls Guards.unguarded_ok hstep).invariant
      (motive := fun x => Descends s.catalog x oid) (fun _ _ hx hxy => hx.step hxy) hs₁.2⟩

end StateSpectre
