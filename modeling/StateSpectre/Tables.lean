import StateSpectre.Copies
import StateSpectre.Export
import StateSpectre.Refinement.Catalog

/-!
# The tables of the catalog

An object is found under its id, and through an index under the string of its key. It counts
its holders, and its job counts its objects. An evict looks the key up before it searches a
run for a new object, and records the object when it has found one. The search may release
the mutex to drain a run, and nothing keeps another evict from creating an object of the same
key meanwhile: then there are two, and the index leads to one of them only
(`same_shard_twice`).

If no entry of the index is in the way when such a search goes on (`tableRules`), the tables
agree in every state (`tables_agree`).
-/

namespace StateSpectre

variable {c : Config} {g : Guards} {x y : Scene} {s : State} {k k' : Catalog} {o : CanonicalObject}

/-! ## Agreement -/

def Catalog.jobObjects (k : Catalog) (uid : JobUID) : Finset ℕ :=
  k.objects.keysWhere fun o => o.key.job = uid

/-- The tables of the catalog agree. -/
structure TablesAgree (k : Catalog) : Prop where
  keys : ∀ oid oid' o o', k.objects.lookup oid = some o → k.objects.lookup oid' = some o' →
    o.keyStr = o'.keyStr → oid = oid'
  index : ∀ keyStr oid, k.objectByKey.lookup keyStr = some oid ↔
    ∃ o, k.objects.lookup oid = some o ∧ o.keyStr = keyStr
  refcount : ∀ oid o, k.objects.lookup oid = some o → o.refcount = o.holders.card
  count : ∀ uid j, k.jobs.lookup uid = some j → j.canonicalObjectCount = (k.jobObjects uid).card

/-- There is room for one more in the count of the objects of a job. -/
abbrev Catalog.Countable (k : Catalog) (uid : JobUID) : Prop := (k.jobObjects uid).card + 1 < 2 ^ 64

/-- A search for the run of a new object goes on only if no object has its key, and the
    objects of the job can be counted. -/
def tableRules : Rules := fun s e =>
  match e with
  | .seek (.create req _) => s.catalog.Countable req.key.job
  | .resume (.create req _) =>
    s.catalog.objectByKey.lookup (canonicalKeyString req.key) = none ∧
      s.catalog.Countable req.key.job
  | _ => True

instance {e : Event} : Decidable (tableRules s e) := by
  induction e using Event.casesOn with
  | seek p | resume p =>
    induction p using Purpose.casesOn <;> dsimp only [tableRules] <;> infer_instance
  | _ =>
    dsimp only [tableRules]
    infer_instance

/-! ## Changes of the catalog -/

/-- The states of an object that is in the catalog. -/
def ObjectState.Usual (q : ObjectState) : Prop := q.readable ∨ q = .creating

/-- The tables of the catalog agree; the states of the objects are usual ones, and their
    jobs are registered and running. -/
structure Catalog.Tabled (k : Catalog) : Prop where
  index : k.objectByKey.Indexes CanonicalObject.keyStr k.objects
  object : ∀ oid o, k.objects.lookup oid = some o →
    o.refcount = o.holders.card ∧ o.state.Usual ∧ (k.jobs.lookup o.key.job).isSome
  job : ∀ uid j, k.jobs.lookup uid = some j →
    j.state = .running ∧ j.canonicalObjectCount = (k.jobObjects uid).card

theorem Catalog.Tabled.agree (h : k.Tabled) : TablesAgree k :=
  ⟨fun _ _ _ _ ho ho' => h.index.inj ho ho', h.index, fun oid o ho => (h.object oid o ho).1,
    fun uid j hj => (h.job uid j hj).2⟩

/-- An object after a change is of the same shard, and as well counted as before. -/
structure CanonicalObject.Tallies (o o' : CanonicalObject) : Prop where
  key : o'.key = o.key := by rfl
  keyStr : o'.keyStr = o.keyStr := by rfl
  refcount : o.refcount = o.holders.card → o'.refcount = o'.holders.card := by exact id
  state : o.state.Usual → o'.state.Usual := by exact id

/-- A job after a change is as well counted as before. -/
structure JobRecord.Tallies (j j' : JobRecord) : Prop where
  state : j'.state = j.state := by rfl
  count : j'.canonicalObjectCount = j.canonicalObjectCount := by rfl

/-- No object comes or goes, and no job. The fields that are not given say that nothing
    changes. -/
structure Catalog.Tallies (k k' : Catalog) : Prop where
  index : k'.objectByKey = k.objectByKey := by rfl
  objects : k.objects.Linked CanonicalObject.Tallies k'.objects := by exact .refl (fun _ => {}) _
  jobs : k.jobs.Linked JobRecord.Tallies k'.jobs := by exact .refl (fun _ => {}) _

namespace Catalog

theorem Tallies.jobObjects_eq (hc : k.Tallies k') (uid : JobUID) :
    k'.jobObjects uid = k.jobObjects uid :=
  hc.objects.keysWhere_eq fun o o' ho => by rw [ho.key]

theorem Tabled.change (h : k.Tabled) (hc : k.Tallies k') : k'.Tabled := by
  refine ⟨?_, fun oid o' ho' => ?_, fun uid j' hj' => ?_⟩
  · rw [hc.index]
    exact h.index.linked hc.objects fun _ _ ho => ho.keyStr
  · obtain ⟨o, ho, hoo⟩ := hc.objects.of_lookup ho'
    obtain ⟨hcard, hstate, hjob⟩ := h.object oid o ho
    rw [hc.jobs.isSome, hoo.key]
    exact ⟨hoo.refcount hcard, hoo.state hstate, hjob⟩
  · obtain ⟨j, hj, hjj⟩ := hc.jobs.of_lookup hj'
    rw [hjj.state, hjj.count, hc.jobObjects_eq]
    exact h.job uid j hj

/-- An object of a registered job is created under a key that no object has. -/
theorem Tabled.create {oid : ℕ} (h : k.Tabled) (hnew : k.objects.lookup oid = none)
    (hfree : k.objectByKey.lookup o.keyStr = none) (hjob : (k.jobs.lookup o.key.job).isSome)
    (hroom : k.Countable o.key.job) (hcard : o.refcount = o.holders.card) (hstate : o.state.Usual) :
    Tabled
      { k with
        objects := k.objects.insert oid o
        objectByKey := k.objectByKey.insert o.keyStr oid
        jobs := k.jobs.modify o.key.job fun j =>
          { j with canonicalObjectCount := addU64 j.canonicalObjectCount 1 } } := by
  refine ⟨h.index.insert hnew hfree, fun oid' o' ho' => ?_, fun uid j' hj' => ?_⟩
  · rcases Table.lookup_insert_eq_some.1 ho' with ⟨-, rfl⟩ | ⟨-, ho'⟩
    · exact ⟨hcard, hstate, Table.isSome_lookup_modify hjob⟩
    · exact (h.object oid' o' ho').imp_right (And.imp_right Table.isSome_lookup_modify)
  · have hcount := Table.card_keysWhere_insert (v := o) (p := fun o => o.key.job = uid) hnew
    rw [Catalog.jobObjects, hcount]
    rcases Table.lookup_modify_eq_some.1 hj' with ⟨rfl, j, hj, rfl⟩ | ⟨hne, hj⟩
    · obtain ⟨hrun, hcount⟩ := h.job _ j hj
      rw [hcount, decide_eq_true rfl]
      exact ⟨hrun, Nat.mod_eq_of_lt hroom⟩
    · rw [decide_eq_false (Ne.symm hne)]
      exact h.job uid j' hj

/-- An object leaves the catalog, and its job is told. -/
theorem Tabled.unlink {oid : ℕ} (h : k.Tabled) (ho : k.objects.lookup oid = some o) : Tabled
      { k with
        objects := k.objects.erase oid
        objectByKey := k.objectByKey.erase o.keyStr
        jobs := k.jobs.modify o.key.job o.uncharge } := by
  refine ⟨h.index.erase ho, fun oid' o' ho' => ?_, fun uid j' hj' => ?_⟩
  · exact (h.object oid' o' (Table.lookup_of_lookup_erase ho')).imp_right
      (And.imp_right Table.isSome_lookup_modify)
  · have hcount := Table.card_keysWhere_erase (p := fun o => o.key.job = uid) ho
    rw [Catalog.jobObjects, hcount]
    rcases Table.lookup_modify_eq_some.1 hj' with ⟨rfl, j, hj, rfl⟩ | ⟨hne, hj⟩
    · rw [decide_eq_true rfl]
      exact (h.job _ j hj).imp_right (congrArg (· - 1))
    · rw [decide_eq_false (Ne.symm hne)]
      exact h.job uid j' hj

/-- A job registers that was not registered, and so has no objects. -/
theorem Tabled.register {uid : JobUID} {j : JobRecord} {epoch : ℕ} (h : k.Tabled)
    (hnew : k.jobs.lookup uid = none) (hstate : j.state = .running)
    (hcount : j.canonicalObjectCount = 0) :
    Tabled { k with jobs := k.jobs.insert uid j, nextLaunchEpoch := epoch } := by
  refine ⟨h.index, fun oid o ho => ?_, fun uid' j' hj' => ?_⟩
  · exact (h.object oid o ho).imp_right (And.imp_right Table.isSome_lookup_insert)
  · rcases Table.lookup_insert_eq_some.1 hj' with ⟨rfl, rfl⟩ | ⟨-, hj⟩
    · rw [hcount, eq_comm (a := 0), Finset.card_eq_zero, Finset.eq_empty_iff_forall_notMem]
      refine ⟨hstate, fun oid hm => ?_⟩
      obtain ⟨o, ho, huid⟩ := Table.mem_keysWhere.1 hm
      have hreg := (h.object oid o ho).2.2
      rw [of_decide_eq_true huid, hnew] at hreg
      cases hreg
    · exact h.job uid' j' hj

end Catalog

/-! ## Moves -/

/-- The tables agree, and the objects that searches are to create have a job; the one that
    the search under way is to create has a key of its own. -/
structure Tabled (x : Scene) : Prop where
  catalog : x.1.catalog.Tabled
  searches : ∀ req oid, .create req oid ∈ x.purposes →
    (x.1.catalog.jobs.lookup req.key.job).isSome
  search : ∀ req oid, x.2.1 = some (.create req oid) →
    x.1.catalog.objectByKey.lookup (canonicalKeyString req.key) = none ∧
      x.1.catalog.Countable req.key.job

/-- An evict that finds no usable object finds none. -/
theorem Catalog.Tabled.lookup_eq_none {keyStr : List Char} (h : s.catalog.Tabled)
    (hfind : ∀ oid o, findObjectByKey s keyStr = some (oid, o) →
      o.state.readable = false ∧ o.state ≠ .creating) :
    s.catalog.objectByKey.lookup keyStr = none := by
  refine Option.eq_none_iff_forall_ne_some.2 fun oid hoid => ?_
  obtain ⟨o, ho, -⟩ := (h.index keyStr oid).1 hoid
  obtain ⟨hread, hcreating⟩ := hfind oid o (by rw [findObjectByKey, hoid]; simp [ho])
  rcases (h.object oid o ho).2.1 with hstate | hstate
  · rw [hread] at hstate
    cases hstate
  · exact hcreating hstate

/-- A change of the catalog and of the search under way. -/
theorem Tabled.change (h : Tabled x) (hc : x.1.catalog.Tallies y.1.catalog)
    (hsearches : ∀ req oid, .create req oid ∈ y.purposes →
      (y.1.catalog.jobs.lookup req.key.job).isSome)
    (hsearch : ∀ req oid, y.2.1 = some (.create req oid) → x.2.1 = some (.create req oid) ∨
      x.1.catalog.objectByKey.lookup (canonicalKeyString req.key) = none ∧
        x.1.catalog.Countable req.key.job := by
      first | exact fun _ _ h => .inl h | exact fun _ _ h => nomatch h) : Tabled y := by
  refine ⟨h.catalog.change hc, hsearches, fun req oid hp => ?_⟩
  rw [hc.index, Catalog.Countable, hc.jobObjects_eq]
  exact (hsearch req oid hp).elim (h.search req oid) id

/-- Every move keeps the agreement of the tables. -/
theorem Tabled.move (h : Tabled x) (ho : x.Orderly) (hm : Move c g tableRules x y) :
    Tabled y := by
  have hs : ∀ req oid, .create req oid ∈ y.purposes →
      (y.1.catalog.jobs.lookup req.key.job).isSome := by
    intro req oid hp
    rcases hm.mem_purposes hp with hp | ⟨⟨hjob, -⟩, -⟩
    · exact ho.jobs hm (h.searches req oid hp)
    · exact ho.jobs hm hjob
  have husual : ∀ {i : ℕ} {t : Task} {l}, x.1.store.tasks[i]? = some t → t.pull = some l →
      l.prevState.Usual := by
    intro i t l hi ht
    rw [ho.pulls t (List.mem_of_getElem? hi) l ht]
    exact .inl rfl
  cases hm with
  | seek hplain =>
    refine h.change {} hs fun req oid he => ?_
    cases he
    exact hplain.elim
  | seekCreate _ _ _ hfind hk =>
    refine h.change {} hs fun req oid he => .inr ?_
    cases he
    exact ⟨h.catalog.lookup_eq_none hfind, hk⟩
  | drainSettled _ _ _ _ hk =>
    refine h.change {} hs fun req oid he => .inr ?_
    exact hk _ he
  | @create s h' req oid base now =>
    obtain ⟨hfree, hroom⟩ := h.search req oid rfl
    have hjob := h.searches req oid (List.mem_cons_self ..)
    have hnew := (ho.indexed.created oid (List.mem_cons_self ..)).2
    -- The bytes of the object are charged to its job first.
    have hcharged : Catalog.Tabled
        { s.catalog with
          jobs := s.catalog.jobs.modify req.key.job fun j =>
            { j with pinnedBytes := addU64 j.pinnedBytes req.key.nbytes } } :=
      h.catalog.change { jobs := .modify (fun _ => {}) fun _ _ => {} }
    refine ⟨hcharged.create (o := newObject c req s.store.nextLeaseId base) hnew hfree
      (Table.isSome_lookup_modify hjob) hroom rfl (.inr rfl), hs, nofun⟩
  | candidate =>
    exact h.change { jobs := .modify (fun _ => {}) fun _ _ => {} } hs
  | warmDone =>
    exact h.change
      { objects := .modify (fun _ => {}) fun _ _ => { state := fun _ => .inl rfl } } hs
  | restore | endRestore =>
    exact h.change { objects := .modify (fun _ => {}) fun _ _ => {} } hs
  | startPull =>
    exact h.change
      { objects := .modify (fun _ => {}) fun _ _ => { state := fun _ => .inl rfl }
        jobs := .modify (fun _ => {}) fun _ _ => {} } hs
  | @refusePull s h' req o hpull =>
    have hstate : o.state.Usual := .inl (by rw [(pullCheck_sealed hpull).1]; rfl)
    exact h.change
      { objects := .modify_modify (fun _ => {}) fun _ _ => { state := fun _ => hstate }
        jobs := .modify_modify (fun _ => {}) fun _ _ => {} } hs
  | failPull hi =>
    exact h.change
      { objects := .modify (fun _ => {}) fun _ _ => { state := fun _ => husual hi rfl }
        jobs := .modify (fun _ => {}) fun _ _ => {} } hs
  | endPull hi =>
    refine h.change
      { objects := .modify (fun _ => {}) fun o _ => { state := fun hst => ?_ }
        jobs := .modify (fun _ => {}) fun j _ => ?_ } hs
    · dsimp only
      split
      · exact husual hi rfl
      · exact hst
    · split <;> exact {}
  | attach | letGo =>
    exact h.change
      { objects := .modify (fun _ => {}) fun _ _ => { refcount := fun _ => rfl } } hs
  | unlinkObject hobj => exact ⟨h.catalog.unlink hobj, hs, nofun⟩
  | discard =>
    refine h.change { jobs := .modify (fun _ => {}) fun j _ => ?_ } hs
    split <;> exact {}
  | @commit s h' o loc =>
    refine h.change
      { objects := .modify (fun _ => {}) fun _ _ => { state := fun _ => .inl ?_ } } hs
    cases loc.kind <;> rfl
  | @registerJob s h' uid j epoch hterm hst hcount =>
    have hnew : s.catalog.jobs.lookup uid = none := by
      refine Option.eq_none_iff_forall_ne_some.2 fun j' hj' => ?_
      cases (hterm j' hj').symm.trans (h.catalog.job uid j' hj').1
    exact ⟨h.catalog.register hnew hst hcount, hs, nofun⟩
  | sealVersion =>
    refine h.change { objects := sealVersion_linked _ (fun _ => {}) fun _ _ _ _ => ?_ } hs
    exact { state := fun _ => .inl rfl }
  | rehash _ _ hobj hj =>
    exact h.change { objects := hobj.linked fun _ => {}, jobs := hj.linked fun _ => {} } hs
  | _ => exact h.change {} hs

/-! ## Runs -/

/-- In every run in which a search goes on to create an object only if its key is free, and
    the objects of the job can be counted, the tables agree. -/
theorem tables_agree (h : Reachable c (tableRules.ok c) s) : TablesAgree s.catalog := by
  have hs : Orderly s ∧ Tabled (s, none, {}) := by
    refine h.invariant_of_rules (motive := fun x => x.Orderly ∧ Tabled x) ⟨.initial, ?_⟩
      fun x y hx hxy => ⟨hx.1.move hxy, hx.2.move hx.1 hxy⟩
    refine ⟨⟨?_, nofun, nofun⟩, ?_, ?_⟩
    · exact fun _ _ => ⟨nofun, fun ⟨_, ho, _⟩ => nomatch ho⟩
    · exact fun _ _ hp => nomatch hp
    · exact fun _ _ hp => nomatch hp
  exact hs.2.catalog.agree

/-- The rank `r` registers, for the epoch `r + 1` if it is the first time and the ranks
    before did. -/
def registersRank (r : ℕ) : Action := .rpc 0 (.register ⟨r, 7 + r⟩)

/-- The rank `r` evicts a shard. -/
def evicts (now r paramId : ℕ) : Action :=
  .rpc now (.evict { rankId := r, rankEpoch := r + 1, key := shardKey paramId })

/-- Two ranks evict the same shard while both slots are taken: each finds no object, and
    drains a slot. Then each creates the object. -/
theorem same_shard_twice :
    ∃ s o o', Reached twoKept s ∧
      (s.catalog.objects.lookup 1 = some o ∧ s.catalog.objects.lookup 2 = some o' ∧
        o.keyStr = o'.keyStr) ∧ ¬TablesAgree s.catalog := by
  refine exists_reachable₃_and twoKept _ ([registersJob, registersRank 0, registersRank 1] ++
    offloadsTo 0 1 1 1 1 [1] ++ offloadsTo 1 1 2 1 2 [2] ++ [evicts 2 0 1, evicts 2 1 1,
      .io 0 .ok, .proceed 3 0, .io 0 .ok, .proceed 3 0]) (by decide +kernel) ?_
  rintro s o o' - ⟨ho, ho', hkey⟩ h
  cases h.keys 1 2 o o' ho ho' hkey

/-- Two ranks evict two shards, each through a forced drain. -/
theorem tables_agree_drained :
    ∃ s, Reachable twoKept (tableRules.ok twoKept) s ∧ (s.catalog.jobObjects theJob).card = 2 ∧
      TablesAgree s.catalog :=
  exists_reachable_and twoKept _ ([registersJob, registersRank 0, registersRank 1] ++
    offloadsTo 0 1 1 1 1 [1] ++ offloadsTo 1 1 2 1 2 [2] ++ [evicts 2 0 1, evicts 2 1 2,
      .io 0 .ok, .proceed 3 0, .io 0 .ok, .proceed 3 0]) (by decide +kernel)
    fun _ hs _ => tables_agree hs

end StateSpectre
