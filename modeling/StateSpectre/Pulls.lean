import StateSpectre.Sealing

/-!
# The state of a sealed object

An object of a sealed version is `SEALED`, and `EXPORT_IN_FLIGHT` while it is pulled; a pull
is refused unless the object is `SEALED`. The state is shared with others, though: a restore of
an object that has become cold leaves it `VALID_MULTI_TIER`, and then it is never pulled again
(`restore_unseals`). And a pull that comes in while another one is under way is refused too.

If no object is warmed while it is sealed, and no version is sealed while one of its objects
is pulled (`exportRules`), the members of sealed manifests are `SEALED` or, exactly while they
are pulled, `EXPORT_IN_FLIGHT` (`members_served`).
-/

namespace StateSpectre

variable {c : Config} {g : Guards} {k : Rules} {x y : Scene} {s : State} {vk : VersionKey}
  {man : Manifest} {oid n : ℕ} {o : CanonicalObject} {req : PullTensorRequest} {s' : State}
  {ps ps' : List PullLocals} {l : PullLocals}

/-! ## Exports -/

/-- The states of the members of sealed versions. -/
def ObjectState.Served (q : ObjectState) : Prop := q = .sealed ∨ q = .exportInFlight

/-- A restore does not end on an object that is sealed or exported, and a version is not
    sealed while one of its objects is exported. -/
def exportRules : Rules := fun s e =>
  match e with
  | .warm req _ => ∀ o, s.catalog.objects.lookup req.objectId = some o →
      o.state ≠ .sealed ∧ o.state ≠ .exportInFlight
  | .sealVersion vk => ∀ oid o, s.catalog.objects.lookup oid = some o → o.key.versionKey = vk →
      o.state ≠ .exportInFlight
  | _ => True

instance {e : Event} : Decidable (exportRules s e) := by
  induction e using Event.casesOn <;> dsimp only [exportRules] <;> infer_instance

/-! ## Pulls under way -/

def Store.pulling (st : Store) : List PullLocals := st.tasks.filterMap Task.pull

def pullsOf (ps : List PullLocals) (oid : ℕ) : ℕ := ps.countP fun l => l.req.objectId = oid

theorem pullsOf_cons : pullsOf (l :: ps) oid =
    pullsOf ps oid + if l.req.objectId = oid then 1 else 0 := by
  simp [pullsOf, List.countP_cons]

theorem pullsOf_perm (h : ps'.Perm ps) : pullsOf ps' oid = pullsOf ps oid := h.countP_eq _

section

variable {st : Store} {i : ℕ} {t t' : Task} {w : ℕ × SlotState}

theorem pulling_nextTask (hi : st.tasks[i]? = some t) (ht : t'.pull = t.pull) :
    ((st.dropTask i).addTask t').pulling.Perm st.pulling :=
  (Store.filterMap_nextTask Task.pull hi ht).symm

theorem pulling_dropTask (hi : st.tasks[i]? = some t) (ht : t.pull = none) :
    (st.dropTask i).pulling.Perm st.pulling := by
  have hperm := Store.filterMap_dropTask Task.pull hi
  rw [ht] at hperm
  exact hperm.symm

theorem Task.pull_of_awaits (h : t.awaits = some w) : t.pull = none := by
  cases t <;> first | rfl | cases h

theorem pulling_finish (hi : st.tasks[i]? = some t) (ht : t.pull = some l) :
    st.pulling.Perm (l :: (st.dropTask i).pulling) := by
  have hperm := Store.filterMap_dropTask Task.pull hi
  rw [ht] at hperm
  exact hperm

theorem pulling_addTask (ht : t.pull = some l) : (st.addTask t).pulling = l :: st.pulling := by
  rw [Store.pulling, Store.filterMap_addTask, ht]
  rfl

end

/-- The objects count their pulls, of which each has at most `n`. -/
structure ObjectCounts (n : ℕ) (objects : Table ℕ CanonicalObject) (ps : List PullLocals) :
    Prop where
  count : ∀ oid o, objects.lookup oid = some o → o.exportRefcount = pullsOf ps oid
  absent : ∀ oid, objects.lookup oid = none → pullsOf ps oid = 0
  few : ∀ oid, pullsOf ps oid ≤ n

namespace ObjectCounts

variable {objects objects' : Table ℕ CanonicalObject} {o : CanonicalObject}
  {f : CanonicalObject → CanonicalObject}

theorem change (h : ObjectCounts n objects ps)
    (hobj : objects.Linked (fun o o' => o'.exportRefcount = o.exportRefcount) objects')
    (hps : ps'.Perm ps) : ObjectCounts n objects' ps' where
  count oid o' ho' := by
    obtain ⟨o, ho, heq⟩ := hobj.of_lookup ho'
    rw [heq, pullsOf_perm hps]
    exact h.count oid o ho
  absent oid ho' := by
    rw [pullsOf_perm hps]
    exact h.absent oid (hobj.lookup_eq_none.1 ho')
  few oid := by
    rw [pullsOf_perm hps]
    exact h.few oid

/-- The pulls of one object change, and its count with them. -/
theorem modify (h : ObjectCounts n objects ps) (ho : objects.lookup oid = some o)
    (hcount : (f o).exportRefcount = pullsOf ps' oid) (hfew : pullsOf ps' oid ≤ n)
    (hother : ∀ oid', oid' ≠ oid → pullsOf ps' oid' = pullsOf ps oid') :
    ObjectCounts n (objects.modify oid f) ps' where
  count oid' o' ho' := by
    rcases Table.lookup_modify_eq_some.1 ho' with ⟨rfl, o₀, ho₀, rfl⟩ | ⟨hne, ho'⟩
    · cases ho.symm.trans ho₀
      exact hcount
    · rw [hother oid' hne]
      exact h.count oid' o' ho'
  absent oid' ho' := by
    have hne : oid' ≠ oid := by
      rintro rfl
      rw [Table.lookup_modify_self ho] at ho'
      exact nomatch ho'
    rw [Table.lookup_modify, if_neg hne] at ho'
    rw [hother oid' hne]
    exact h.absent oid' ho'
  few oid' := by
    by_cases hne : oid' = oid
    · exact hne ▸ hfew
    · rw [hother oid' hne]
      exact h.few oid'

/-- An object that is not there yet is not pulled. -/
theorem insert (h : ObjectCounts n objects ps) (hnew : objects.lookup oid = none)
    (hzero : o.exportRefcount = 0) : ObjectCounts n (objects.insert oid o) ps where
  count oid' o' ho' := by
    rcases Table.lookup_insert_eq_some.1 ho' with ⟨rfl, rfl⟩ | ⟨-, ho'⟩
    · exact hzero.trans (h.absent _ hnew).symm
    · exact h.count oid' o' ho'
  absent oid' ho' := by
    by_cases hne : oid' = oid
    · exact hne ▸ h.absent oid hnew
    · exact h.absent oid' (((Table.lookup_insert ..).trans (if_neg hne)).symm.trans ho')
  few := h.few

/-- An object is forgotten that is not pulled. -/
theorem erase (h : ObjectCounts n objects ps) (ho : objects.lookup oid = some o)
    (hzero : o.exportRefcount = 0) : ObjectCounts n (objects.erase oid) ps where
  count oid' o' ho' := h.count oid' o' (Table.lookup_of_lookup_erase ho')
  absent oid' ho' := by
    by_cases hne : oid' = oid
    · exact hne ▸ (h.count oid o ho).symm.trans hzero
    · exact h.absent oid' (((Table.lookup_erase ..).trans (if_neg hne)).symm.trans ho')
  few := h.few

theorem initial : ObjectCounts n State.initial.catalog.objects State.initial.store.pulling :=
  ⟨nofun, fun _ _ => rfl, fun _ => Nat.zero_le n⟩

/-- A pull is accepted. -/
theorem start (h : ObjectCounts n objects ps) (ho : objects.lookup l.req.objectId = some o)
    (hf : (f o).exportRefcount = o.exportRefcount + 1)
    (hfew : pullsOf ps l.req.objectId < n) :
    ObjectCounts n (objects.modify l.req.objectId f) (l :: ps) := by
  have hself : pullsOf (l :: ps) l.req.objectId = pullsOf ps l.req.objectId + 1 := by
    rw [pullsOf_cons, if_pos rfl]
  refine h.modify ho ?_ (by omega) fun oid' hne => ?_
  · rw [hf, hself, h.count _ o ho]
  · rw [pullsOf_cons, if_neg (Ne.symm hne), Nat.add_zero]

/-- A pull ends. Its object is still there. -/
theorem finish (h : ObjectCounts n objects ps) (hps : ps.Perm (l :: ps'))
    (hf : ∀ o : CanonicalObject, 0 < o.exportRefcount → o.exportRefcount ≤ n →
      (f o).exportRefcount = o.exportRefcount - 1) :
    ObjectCounts n (objects.modify l.req.objectId f) ps' := by
  have hcons : ∀ oid, pullsOf ps oid = pullsOf ps' oid + if l.req.objectId = oid then 1 else 0 :=
    fun oid => (pullsOf_perm hps).trans pullsOf_cons
  have hself := hcons l.req.objectId
  rw [if_pos rfl] at hself
  have hfew := h.few l.req.objectId
  rcases ho : objects.lookup l.req.objectId with _ | o
  · have hnone := h.absent _ ho
    omega
  · have hcount := h.count _ o ho
    refine h.modify ho ?_ (by omega) fun oid' hne => ?_
    · rw [hf o (by omega) (by omega)]
      omega
    · rw [hcons, if_neg (Ne.symm hne), Nat.add_zero]

/-- The object of a pull is there, and if it has no others it counts one. -/
theorem of_pull (h : ObjectCounts 1 objects ps) (hps : ps.Perm (l :: ps'))
    (ho : objects.lookup l.req.objectId = some o) : o.exportRefcount = 1 := by
  have hcount := h.count _ o ho
  have hfew := h.few l.req.objectId
  rw [pullsOf_perm hps, pullsOf_cons, if_pos rfl] at hcount hfew
  omega

end ObjectCounts

theorem exportRefcount_of_idle (h : o.inFlight = false) : o.exportRefcount = 0 := by
  simp only [CanonicalObject.inFlight, Bool.or_eq_false_iff, decide_eq_false_iff_not] at h
  exact Nat.eq_zero_of_not_pos h.1

/-- A change that has nothing to do with exports. The fields that are not given say that nothing
    changes. -/
structure SamePulls (s s' : State) : Prop where
  objects : s.catalog.objects.Linked (fun o o' => o'.exportRefcount = o.exportRefcount)
    s'.catalog.objects := by exact .refl (fun o => Eq.refl o.exportRefcount) _
  pulling : s'.store.pulling.Perm s.store.pulling := by exact .refl _

/-- Every move keeps the counts of the objects, if a pull is accepted only where one more can be
    counted. -/
theorem ObjectCounts.move (h : ObjectCounts n x.1.catalog.objects x.1.store.pulling)
    (hn : n < 2 ^ 32) (ho : x.Orderly) (hm : Move c g k x y)
    (hstart : ∀ req o, pullCheck c x.1 req = .ok o → k x.1 (.pull (o.pullLocals req)) →
      pullsOf x.1.store.pulling req.objectId < n) :
    ObjectCounts n y.1.catalog.objects y.1.store.pulling := by
  have hsame (hs : SamePulls x.1 y.1) : ObjectCounts n y.1.catalog.objects y.1.store.pulling :=
    h.change hs.objects hs.pulling
  cases hm with
  -- Tasks that export nothing.
  | drainBegin hi | drainCopied hi | readbackFound hi | readbackLost hi | readbackRead hi
  | warmRead hi | stage hi => exact hsame { pulling := pulling_nextTask hi rfl }
  | nextPull hi ht ht' => exact hsame { pulling := pulling_nextTask hi (ht'.trans ht.symm) }
  | drainSettled hi | drainFailed hi | readbackMissing hi | readbackFailed hi | readbackDone hi
  | warmFailed hi => exact hsame { pulling := pulling_dropTask hi rfl }
  | dropTask hi _ hw => exact hsame { pulling := pulling_dropTask hi (Task.pull_of_awaits hw) }
  | warmDone hi =>
    exact hsame
      { objects := .modify (fun _ => rfl) fun _ _ => rfl
        pulling := pulling_dropTask hi rfl }
  -- Exports.
  | @startPull s h' req o t hpull ht hk =>
    dsimp only
    rw [pulling_addTask ht]
    exact h.start (l := o.pullLocals req) (pullCheck_sealed hpull).2 rfl (hstart req o hpull hk)
  | @refusePull s h' req o =>
    refine hsame { objects := .modify_modify (fun _ => rfl) fun o' ho' => ?_ }
    have hfew := h.few (o.pullLocals req).req.objectId
    rw [← h.count _ o' ho'] at hfew
    exact decU32_of_pos (Nat.succ_pos _) (hfew.trans_lt hn)
  | failPull hi =>
    exact h.finish (pulling_finish hi rfl) fun o hpos hle => decU32_of_pos hpos (hle.trans hn.le)
  | endPull hi => exact h.finish (pulling_finish hi rfl) fun _ _ _ => rfl
  -- Objects.
  | create => exact h.insert (ho.indexed.created _ (List.mem_cons_self ..)).2 rfl
  | unlinkObject hobj hidle => exact h.erase hobj (exportRefcount_of_idle hidle)
  | restore | endRestore | attach | letGo | commit =>
    exact hsame { objects := .modify (fun _ => rfl) fun _ _ => rfl }
  | sealVersion => exact hsame { objects := sealVersion_linked _ (fun _ => rfl) fun _ _ _ _ => rfl }
  | rehash _ _ hr => exact hsame { objects := hr.linked fun _ => rfl }
  | _ => exact hsame {}

/-! ## The states of the objects -/

/-- An object is `EXPORT_IN_FLIGHT` while it counts exports. -/
def CanonicalObject.ShowsExports (o : CanonicalObject) : Prop :=
  o.state = .exportInFlight ↔ 0 < o.exportRefcount

/-- Objects are exported at most once at a time, and show it. -/
structure Exporting (s : State) : Prop where
  counts : ObjectCounts 1 s.catalog.objects s.store.pulling
  shown : ∀ oid o, s.catalog.objects.lookup oid = some o → o.ShowsExports

/-- An object whose pull is accepted is not exported yet. -/
theorem Exporting.idle (h : Exporting s) (hpull : pullCheck c s req = .ok o) :
    o.exportRefcount = 0 := by
  obtain ⟨hst, hobj⟩ := pullCheck_sealed hpull
  refine Nat.eq_zero_of_not_pos fun hpos => ?_
  cases hst.symm.trans ((h.shown _ o hobj).2 hpos)

/-- An object after a change shows its exports and is served, if it did and was before. -/
structure CanonicalObject.ServedAs (o o' : CanonicalObject) : Prop where
  shown : o.ShowsExports → o'.ShowsExports := by exact id
  served : o.state.Served → o'.state.Served := by exact id

/-- An object that is not exported any more, and is `SEALED` again. -/
theorem CanonicalObject.ServedAs.of_sealed {o' : CanonicalObject} (hst : o'.state = .sealed)
    (hzero : o'.exportRefcount = 0) : o.ServedAs o' where
  shown _ := by
    rw [ShowsExports, hst, hzero]
    exact ⟨by rintro ⟨⟩, fun h => absurd h (lt_irrefl 0)⟩
  served _ := .inl hst

/-- The objects after a change show their exports, and what was served before is served. -/
def StaysServed (s s' : State) : Prop :=
  (∀ oid o, s'.catalog.objects.lookup oid = some o → o.ShowsExports) ∧
    ∀ oid o o', s.catalog.objects.lookup oid = some o → s'.catalog.objects.lookup oid = some o' →
      o.state.Served → o'.state.Served

theorem Exporting.change (h : Exporting s)
    (hl : s.catalog.objects.Linked CanonicalObject.ServedAs s'.catalog.objects) :
    StaysServed s s' := by
  refine ⟨fun oid o' ho' => ?_, fun oid o o' ho ho' => ?_⟩
  · obtain ⟨o, ho, hoo⟩ := hl.of_lookup ho'
    exact hoo.shown (h.shown oid o ho)
  · obtain ⟨o'', ho'', hoo⟩ := hl.lookup ho
    cases ho''.symm.trans ho'
    exact hoo.served

/-- Every move keeps the states of the objects in step with their exports. -/
theorem Exporting.staysServed (h : Exporting x.1) (ho : x.Orderly)
    (hm : Move c g exportRules x y) : StaysServed x.1 y.1 := by
  have hsealed : ∀ {i : ℕ} {t : Task} {l}, x.1.store.tasks[i]? = some t → t.pull = some l →
      l.prevState = .sealed := fun hi ht => ho.pulls _ (List.mem_of_getElem? hi) _ ht
  have hrefl : ∀ o : CanonicalObject, o.ServedAs o := fun _ => {}
  cases hm with
  | @warmDone s h' i req base count nbytes now hi _ hk =>
    refine h.change (.modify hrefl fun o hobj => ?_)
    obtain ⟨hne, hne'⟩ := hk o hobj
    exact
      { shown := fun hshown => ⟨by rintro ⟨⟩, fun hpos => absurd (hshown.2 hpos) hne'⟩
        served := fun hs => (hs.elim hne hne').elim }
  | startPull =>
    exact h.change (.modify hrefl fun _ _ =>
      { shown := fun _ => ⟨fun _ => Nat.succ_pos _, fun _ => rfl⟩, served := fun _ => .inr rfl })
  | @refusePull s h' req o hpull =>
    obtain ⟨hst, hobj⟩ := pullCheck_sealed hpull
    refine h.change (.modify_modify hrefl fun o' hobj' => ?_)
    cases hobj.symm.trans hobj'
    exact .of_sealed hst (by dsimp only; rw [h.idle hpull]; rfl)
  | failPull hi =>
    refine h.change (.modify hrefl fun o hobj => .of_sealed (hsealed hi rfl) ?_)
    dsimp only
    rw [h.counts.of_pull (pulling_finish hi rfl) hobj]
    rfl
  | endPull hi =>
    refine h.change (.modify hrefl fun o hobj => ?_)
    have hone := h.counts.of_pull (pulling_finish hi rfl) hobj
    have hdec : o.exportRefcount - 1 = 0 := by rw [hone]
    exact .of_sealed ((if_pos hdec).trans (hsealed hi rfl)) hdec
  | @create s h' req oid base now =>
    have hnew := (ho.indexed.created oid (List.mem_cons_self ..)).2
    refine ⟨fun oid' o' ho' => ?_, fun oid' o₁ o' ho₁ ho' => ?_⟩
    · rcases Table.lookup_insert_eq_some.1 ho' with ⟨-, rfl⟩ | ⟨-, ho'⟩
      · exact ⟨by rintro ⟨⟩, by rintro ⟨⟩⟩
      · exact h.shown oid' o' ho'
    · rcases Table.lookup_insert_eq_some.1 ho' with ⟨rfl, -⟩ | ⟨-, ho'⟩
      · cases hnew.symm.trans ho₁
      · exact Option.some.inj (ho₁.symm.trans ho') ▸ id
  | unlinkObject =>
    refine ⟨fun oid' o' ho' => h.shown oid' o' (Table.lookup_of_lookup_erase ho'), ?_⟩
    intro oid' o₁ o' ho₁ ho'
    exact Option.some.inj (ho₁.symm.trans (Table.lookup_of_lookup_erase ho')) ▸ id
  | restore | endRestore | attach | letGo => exact h.change (.modify hrefl fun _ _ => {})
  | @commit s h' o loc req _ hobj hc =>
    refine h.change (.modify hrefl fun o' hobj' => ?_)
    cases hobj.symm.trans hobj'
    simp only [CanonicalObject.createdBy, Bool.and_eq_true, beq_iff_eq] at hc
    refine { shown := fun hshown => ⟨fun he => ?_, fun hpos => ?_⟩, served := fun hs => ?_ }
    · cases hkind : loc.kind <;> rw [hkind] at he <;> cases he
    · cases hc.1.symm.trans (hshown.2 hpos)
    · rcases hs with he | he <;> cases hc.1.symm.trans he
  | @sealVersion s h' vk _ _ hk =>
    refine h.change (sealVersion_linked _ hrefl fun oid o hobj hmem => ?_)
    obtain ⟨o', hobj', hvk, -⟩ := mem_sealManifest_iff.1 hmem
    cases hobj.symm.trans hobj'
    have hzero : o.exportRefcount = 0 := Nat.eq_zero_of_not_pos fun hpos =>
      hk oid o hobj hvk ((h.shown oid o hobj).2 hpos)
    exact .of_sealed rfl hzero
  | rehash _ _ hr => exact h.change (hr.linked hrefl)
  | _ => exact h.change (.refl hrefl _)

theorem Exporting.move (h : Exporting x.1) (ho : x.Orderly) (hm : Move c g exportRules x y) :
    Exporting y.1 := by
  refine ⟨h.counts.move (by decide) ho hm fun req o hpull _ => ?_, (h.staysServed ho hm).1⟩
  rw [← h.counts.count _ o (pullCheck_sealed hpull).2, h.idle hpull]
  exact Nat.zero_lt_one

/-! ## Members of sealed versions -/

/-- The members of sealed versions are served. -/
def MembersServed (s : State) : Prop :=
  ∀ vk man, s.catalog.manifests.lookup vk = some man → man.state = .sealed →
    ∀ oid ∈ man.objectIds, ∀ o, s.catalog.objects.lookup oid = some o → o.state.Served

theorem MembersServed.move (h : MembersServed x.1) (ho : x.Orderly) (hn : MembersNamed x)
    (hs : StaysServed x.1 y.1) (hm : Move c g k x y) : MembersServed y.1 := by
  intro vk man hman hsealed oid hoid o' ho'
  rcases hm.manifest_origin hman hsealed with hman | ⟨hy, -, -, rfl, -⟩
  · rcases hm.object_origin ho.pulls ho' with ⟨o, hobj, -⟩ | ⟨req, id, base, hp, -⟩
    · exact hs.2 oid o o' hobj ho' (h vk man hman hsealed oid hoid o hobj)
    · -- The id of a member is not drawn a second time.
      obtain ⟨-, -, hfresh, -⟩ := hn vk man hman hsealed oid hoid
      have hmem : Purpose.create req oid ∈ x.purposes := by
        rw [Scene.purposes, hp]
        exact List.mem_cons_self ..
      have hid : oid ∈ createdIds x.purposes := List.mem_filterMap.2 ⟨_, hmem, rfl⟩
      exact absurd hid hfresh
  · rw [hy, lookup_sealVersion] at ho'
    obtain ⟨o, -, rfl⟩ := Option.map_eq_some_iff.1 ho'
    rw [if_pos hoid]
    exact .inl rfl

/-! ## Runs -/

/-- A pull of a `SEALED` object is not refused for its state. -/
theorem pullCheck_of_sealed (ho : s.catalog.objects.lookup req.objectId = some o)
    (hst : o.state = .sealed) :
    pullCheck c s req ≠ .error "object not sealed" := by
  intro h
  rw [pullCheck] at h
  split at h
  · simp at h
  split at h
  · simp at h
  split at h
  · simp at h
  simp only [ho, hst, ne_eq, not_true_eq_false, if_false] at h
  split at h
  · simp at h
  split at h
  · simp at h
  · cases h

/-- In every run in which restores do not end on sealed objects, and versions are not sealed
    while their objects are exported, a member of a sealed version is `SEALED` or, exactly
    while it is exported, `EXPORT_IN_FLIGHT`; and while it is not, no pull of it is refused
    for its state. -/
theorem members_served (h : Reachable c (exportRules.ok c) s)
    (hman : s.catalog.manifests.lookup vk = some man) (hsealed : man.state = .sealed)
    (hoid : oid ∈ man.objectIds) {o : CanonicalObject}
    (ho : s.catalog.objects.lookup oid = some o) :
    (o.state = .sealed ∨ o.state = .exportInFlight) ∧
      (o.state = .exportInFlight ↔ 0 < o.exportRefcount) ∧
      ∀ req : PullTensorRequest, req.objectId = oid → o.exportRefcount = 0 →
        pullCheck c s req ≠ .error "object not sealed" := by
  have hs : Orderly s ∧ MembersNamed (s, none, {}) ∧ Exporting s ∧
      MembersServed s := by
    refine h.invariant_of_rules
      (motive := fun x => x.Orderly ∧ MembersNamed x ∧ Exporting x.1 ∧ MembersServed x.1)
      ⟨.initial, nofun, ⟨.initial, nofun⟩, nofun⟩ ?_
    rintro x y ⟨hord, hnamed, hexp, hserved⟩ hxy
    exact ⟨hord.move hxy, hnamed.move hord hxy, hexp.move hord hxy,
      hserved.move hord hnamed (hexp.staysServed hord hxy) hxy⟩
  have hst : o.state.Served := hs.2.2.2 vk man hman hsealed oid hoid o ho
  have hiff := hs.2.2.1.shown oid o ho
  refine ⟨hst, hiff, fun req hreq hzero => ?_⟩
  subst hreq
  refine pullCheck_of_sealed ho (hst.resolve_right fun he => ?_)
  exact (hiff.1 he).ne' hzero

/-- The rank 0 restores an object. -/
def restores (now oid : ℕ) : Action :=
  .rpc now (.restore { rankId := 0, rankEpoch := 1, objectId := oid })

/-- The object of a sealed version is drained for another tensor and restored: then it is
    not `SEALED` any more, and its pulls are refused. -/
theorem restore_unseals :
    ∃ s man o, Reached oneSlot s ∧
      s.catalog.manifests.lookup theVersion = some man ∧ man.state = .sealed ∧
      1 ∈ man.objectIds ∧ s.catalog.objects.lookup 1 = some o ∧ o.state = .validMultiTier ∧
      pullCheck oneSlot s ⟨theJob, 0, 1, 1, .tcp⟩ = .error "object not sealed" :=
  exists_reachable₃ oneSlot _
    ([registers, registersJob] ++ creates 1 1 1 [1] ++ [seals 2] ++ offloadsDraining 3 2 1 2 [2] ++
      [releases 4 2, restores 5 1, .io 0 .ok, .proceed 6 0]) (by decide +kernel)

/-- The object of a sealed version is being pulled. -/
theorem members_served_pulled :
    ∃ s man o, Reachable oneSlot (exportRules.ok oneSlot) s ∧
      (s.catalog.manifests.lookup theVersion = some man ∧ man.state = .sealed ∧
        1 ∈ man.objectIds ∧ s.catalog.objects.lookup 1 = some o ∧ 0 < o.exportRefcount) ∧
      o.state = .exportInFlight := by
  refine exists_reachable₃_and oneSlot _
    ([registers, registersJob] ++ creates 1 1 1 [1] ++ [seals 2, pulls 3 1]) (by decide +kernel) ?_
  rintro s man o hs ⟨hman, hsealed, hmem, ho, hpos⟩
  exact (members_served hs hman hsealed hmem ho).2.1.2 hpos

end StateSpectre
