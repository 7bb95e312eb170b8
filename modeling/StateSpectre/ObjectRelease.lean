import StateSpectre.Tables

/-!
# What an object leaves behind

An object that is reclaimed (`releaseObject`) drops the lease recorded for it and its location,
and frees the run recorded for it if its location is pinned and the run valid, or forgets the
cold copy of its location if it is not pinned. That is all of the object (`ReleasesWhole`) if and
only if its slots are that run, it has no other lease, no cold copy beside the run, and no run
on its way to a cold tier (`releases_whole_iff`).

So an object that is dropped while it is created leaves the slots of its creator
(`drop_creating_keeps_slot`), one that was warmed leaves its cold copy, and one that is being
drained leaves a cold copy and even a location, both made when the drain ends. The record of an
object whose run was drained and read back by a prefetch is out of date: the run then stays, and
the run of another tensor is freed if it starts at the slot recorded.
-/

namespace StateSpectre

variable {c : Config} {s : State} {st st' : Store} {t now oid i ref : ℕ} {o : CanonicalObject}
  {w : DrainWork}

/-! ## What belongs to a tensor -/

/-- The slot is in use for the tensor. -/
def Store.Bound (st : Store) (t i : ℕ) : Prop :=
  st.slotState i ≠ .free ∧ (st.slots i).tensorId = t

/-- The cold copies of a tensor: the one its location refers to, and those its slots do. -/
def Store.CopyOf (st : Store) (t ref : ℕ) : Prop :=
  ref ≠ 0 ∧ ((∃ loc, st.locations.lookup t = some loc ∧ loc.coldRef = ref) ∨
    ∃ i, st.Bound t i ∧ (st.slots i).coldRef = ref)

/-- The drain that a thread is at, as it has noted or will note it. -/
def Task.drain (st : Store) : Task → Option DrainWork
  | .drainTaken job => some (drainSnapshot st job)
  | .drainIo w => some w
  | .drainCommit w _ => some w
  | _ => none

/-- The drains of the tensor that are queued or under way, of runs that are still to be drained. -/
def Store.drainsOf (st : Store) (t : ℕ) : List DrainWork :=
  (st.drainQueue.map (drainSnapshot st) ++ st.tasks.filterMap (Task.drain st)).filter fun w =>
    w.tensorId = t ∧ st.slotState w.baseSlot = .drainInFlight

/-- Some drains end, each at its time and with its copy, if there is one. -/
def finishDrains (c : Config) (s : State) (ends : List (DrainWork × ℕ × Option ColdEntry)) :
    State :=
  ends.foldl (fun s e => drainCommit c s e.2.1 e.1 e.2.2) s

/-- Nothing is left of the tensor of what there was before, and nothing new has come into the
    cold store. -/
structure Store.Cleared (st : Store) (t : ℕ) (st' : Store) : Prop where
  slots : ∀ i, ¬st'.Bound t i
  leases : ∀ id L, st'.leases.lookup id = some L → L.tensorId ≠ t
  locations : st'.locations.lookup t = none
  cold : ∀ ref, (st'.coldStore.lookup ref).isSome →
    (st.coldStore.lookup ref).isSome ∧ ¬st.CopyOf t ref

/-- An object that is reclaimed leaves nothing, once the drains of it that are under way have
    ended in some order, each one way or the other; and no slot of others is changed. -/
def ReleasesWhole (c : Config) (s : State) (now oid : ℕ) (o : CanonicalObject) : Prop :=
  (releaseObject c s now oid o).2 = true →
    (∀ ends : List (DrainWork × ℕ × Option ColdEntry), (ends.map (·.1)).Perm
        ((releaseObject c s now oid o).1.store.drainsOf (canonicalTid oid)) →
      s.store.Cleared (canonicalTid oid)
        (finishDrains c (releaseObject c s now oid o).1 ends).store) ∧
    ∀ i, ¬s.store.Bound (canonicalTid oid) i →
      (releaseObject c s now oid o).1.store.slots i = s.store.slots i

/-! ## What an object takes with it -/

/-- The slot is freed with the object: it is of the run recorded, which is valid, and the location
    of the object is pinned. -/
def State.Frees (s : State) (oid : ℕ) (o : CanonicalObject) (i : ℕ) : Prop :=
  (∃ loc, s.store.locations.lookup (canonicalTid oid) = some loc ∧ loc.kind = .pinned) ∧
    o.baseSlot ≠ noIndex ∧ s.store.slotState o.baseSlot = .pinnedValid ∧
    InRun o.baseSlot o.slotCount i

/-- All of the object is what is taken with it: its lease is the one recorded, its slots are those
    of the run recorded and no others, its cold copy is that of a location that is not pinned, and
    it is not being drained. (A slot of the run that is not the object's is not changed only if it
    was freed at that very time.) -/
structure State.WhollyRecorded (s : State) (now oid : ℕ) (o : CanonicalObject) : Prop where
  leases : ∀ id L, s.store.leases.lookup id = some L → L.tensorId = canonicalTid oid →
    id = o.leaseId
  slots : ∀ i, s.store.Bound (canonicalTid oid) i → s.Frees oid o i
  drains : ∀ w ∈ s.store.drainsOf (canonicalTid oid), s.Frees oid o w.baseSlot
  frame : ∀ i, s.Frees oid o i → s.store.Bound (canonicalTid oid) i ∨
    s.store.slots i = { state := .free, lastTouchNs := now, flags := (s.store.slots i).flags }
  cold : ∀ ref, s.store.CopyOf (canonicalTid oid) ref → (s.store.coldStore.lookup ref).isSome →
    ref ∈ s.objectCopy oid o

/-- What a reclaimed object does to the store: its tables, slot by slot and copy by copy. -/
structure ReleaseEffect (s : State) (now oid : ℕ) (o : CanonicalObject) (st' : Store) : Prop where
  leases : st'.leases = s.store.leases.erase o.leaseId
  locations : st'.locations = s.store.locations.erase (canonicalTid oid)
  drainQueue : st'.drainQueue = s.store.drainQueue
  tasks : st'.tasks = s.store.tasks
  freed : ∀ i, s.Frees oid o i →
    st'.slots i = { state := .free, lastTouchNs := now, flags := (s.store.slots i).flags }
  kept : ∀ i, ¬s.Frees oid o i → st'.slots i = s.store.slots i
  forgotten : ∀ ref, ref ∈ s.objectCopy oid o → st'.coldStore.lookup ref = none
  remembered : ∀ ref, ref ∉ s.objectCopy oid o →
    st'.coldStore.lookup ref = s.store.coldStore.lookup ref

theorem releaseObject_effect (hfl : ¬o.inFlight) :
    ReleaseEffect s now oid o (releaseObject c s now oid o).1.store := by
  rw [releaseObject, if_neg hfl]
  cases hloc : s.store.locations.lookup (canonicalTid oid) with
  | none =>
    have hno : ∀ {i}, ¬s.Frees oid o i := by
      rintro i ⟨⟨_, hl, -⟩, -⟩
      cases hloc.symm.trans hl
    have hnone : ∀ {ref}, ref ∉ s.objectCopy oid o := fun h => by
      obtain ⟨_, hl, _⟩ := State.mem_objectCopy_iff.1 h
      cases hloc.symm.trans hl
    exact ⟨rfl, rfl, rfl, rfl, fun _ h => (hno h).elim, fun _ _ => rfl,
      fun _ h => (hnone h).elim, fun _ _ => rfl⟩
  | some loc =>
    have hfrees : ∀ i, s.Frees oid o i ↔ (loc.kind = .pinned ∧ o.baseSlot ≠ noIndex) ∧
        s.store.slotState o.baseSlot = .pinnedValid ∧ InRun o.baseSlot o.slotCount i := by
      intro i
      simp only [State.Frees, hloc, Option.some.injEq, exists_eq_left', and_assoc]
    have hcopy : ∀ ref, ref ∈ s.objectCopy oid o ↔
        ¬(loc.kind = .pinned ∧ o.baseSlot ≠ noIndex) ∧ loc.coldRef ≠ 0 ∧ loc.coldRef = ref := by
      intro ref
      simp only [State.mem_objectCopy_iff, hloc, Option.some.injEq, exists_eq_left']
    dsimp only
    rw [releaseBacking]
    by_cases hpin : loc.kind = .pinned ∧ o.baseSlot ≠ noIndex
    · have hnone : ∀ {ref}, ref ∉ s.objectCopy oid o := fun h => ((hcopy _).1 h).1 hpin
      rw [if_pos hpin]
      split
      · next hq =>
        refine ⟨rfl, rfl, rfl, rfl, fun i hi => ?_, fun i hi => ?_, fun _ h => (hnone h).elim,
          fun _ _ => rfl⟩
        · change ((unlinkObject s oid o).store.freeSlots ..).slots i = _
          rw [Store.freeSlots, Store.mapRun_slots_of_mem ((hfrees i).1 hi).2.2]
          rfl
        · change ((unlinkObject s oid o).store.freeSlots ..).slots i = _
          rw [Store.freeSlots, Store.mapRun_slots_of_not_mem fun hin =>
            hi ((hfrees i).2 ⟨hpin, hq, hin⟩)]
          rfl
      · next hq =>
        exact ⟨rfl, rfl, rfl, rfl, fun i hi => (hq ((hfrees i).1 hi).2.1).elim, fun _ _ => rfl,
          fun _ h => (hnone h).elim, fun _ _ => rfl⟩
    · have hno : ∀ {i}, ¬s.Frees oid o i := fun h => hpin ((hfrees _).1 h).1
      rw [if_neg hpin]
      split
      · next hne =>
        refine ⟨rfl, rfl, rfl, rfl, fun _ h => (hno h).elim, fun _ _ => rfl, fun ref h => ?_,
          fun ref h => ?_⟩
        · obtain ⟨-, -, rfl⟩ := (hcopy ref).1 h
          exact AList.lookup_erase _ _
        · refine (Table.lookup_erase ..).trans (if_neg ?_)
          rintro rfl
          exact h ((hcopy _).2 ⟨hpin, hne, rfl⟩)
      · next hne =>
        exact ⟨rfl, rfl, rfl, rfl, fun _ h => (hno h).elim, fun _ _ => rfl,
          fun ref h => (hne ((hcopy ref).1 h).2.1).elim, fun _ _ => rfl⟩

/-! ## Nothing left -/

/-- Drains of a run whose slots are the same are the same. -/
theorem Store.mem_drainsOf_of_slots (hqueue : st'.drainQueue = st.drainQueue)
    (htasks : st'.tasks = st.tasks) (hw : w ∈ st.drainsOf t)
    (hs : st'.slots w.baseSlot = st.slots w.baseSlot) : w ∈ st'.drainsOf t := by
  have hsnap : ∀ {job}, drainSnapshot st job = w → drainSnapshot st' job = w := by
    rintro job rfl
    have hs : st'.slots job.baseSlot = st.slots job.baseSlot := hs
    rw [drainSnapshot, drainSnapshot, hs]
  rw [drainsOf, List.mem_filter, List.mem_append, List.mem_map, List.mem_filterMap] at hw ⊢
  obtain ⟨hw, hq⟩ := hw
  refine ⟨?_, by rwa [slotState, hs]⟩
  rw [hqueue, htasks]
  rcases hw with ⟨job, hjob, hw⟩ | ⟨task, htask, hw⟩
  · exact .inl ⟨job, hjob, hsnap hw⟩
  · refine .inr ⟨task, htask, ?_⟩
    cases task with
    | drainTaken job => exact congrArg some (hsnap (Option.some.inj hw))
    | drainIo | drainCommit => exact hw
    | _ => cases hw

/-- A location stays when it is updated, and one that is updated is there. -/
theorem Store.isSome_lookup_update {t' v slotId coldRef nbytes : ℕ} {kind : LocationKind}
    (h : t' = t ∨ (st.locations.lookup t).isSome) :
    ((st.updateLocationIfLatest t' v kind slotId coldRef nbytes).locations.lookup t).isSome := by
  by_cases ht : t' = t
  · subst ht
    exact Option.isSome_iff_exists.2 (Store.exists_lookup_update.imp fun _ h => h.1)
  · rw [lookup_updateLocationIfLatest (Ne.symm ht)]
    exact h.resolve_left ht

/-- A drain that ends takes no location, and leaves one if it has made a copy of a run that is
    still to be drained. -/
theorem isSome_lookup_drainCommit {cold : Option ColdEntry}
    (h : (s.store.locations.lookup t).isSome ∨
      s.store.slotState w.baseSlot = .drainInFlight ∧ cold.isSome ∧ w.tensorId = t) :
    ((drainCommit c s now w cold).store.locations.lookup t).isSome := by
  simp only [drainCommit]
  by_cases hq : s.store.slotState w.baseSlot = .drainInFlight
  · rw [if_pos hq]
    cases cold with
    | none => exact h.resolve_right fun h => by cases h.2.1
    | some cold => exact Store.isSome_lookup_update (h.symm.imp_left fun h => h.2.2)
  · rw [if_neg hq]
    exact h.resolve_right fun h => hq h.1

theorem isSome_lookup_finishDrains (ends : List (DrainWork × ℕ × Option ColdEntry))
    (h : (s.store.locations.lookup t).isSome) :
    ((finishDrains c s ends).store.locations.lookup t).isSome :=
  foldl_invariant (motive := fun s : State => (s.store.locations.lookup t).isSome)
    (fun _ _ h => isSome_lookup_drainCommit (.inl h)) ends h

/-- The drain ends with a copy. -/
def DrainWork.copied (w : DrainWork) : DrainWork × ℕ × Option ColdEntry :=
  (w, 0, some ⟨.pageable, w.nbytes, []⟩)

/-- If the drains of a tensor leave no location of it, however they end, there are none. -/
theorem drainsOf_eq_nil
    (h : ∀ ends : List (DrainWork × ℕ × Option ColdEntry),
      (ends.map (·.1)).Perm (s.store.drainsOf t) →
      (finishDrains c s ends).store.locations.lookup t = none) : s.store.drainsOf t = [] := by
  cases hws : s.store.drainsOf t with
  | nil => rfl
  | cons w ws =>
    have hw : w ∈ s.store.drainsOf t := hws ▸ List.mem_cons_self
    obtain ⟨htid, hq⟩ := of_decide_eq_true (List.mem_filter.1 hw).2
    have hnone : (finishDrains c (drainCommit c s 0 w w.copied.2.2)
        (ws.map DrainWork.copied)).store.locations.lookup t = none := by
      refine h ((w :: ws).map DrainWork.copied) ?_
      rw [hws, List.map_map]
      exact .of_eq (List.map_id _)
    have hfirst : ((drainCommit c s 0 w w.copied.2.2).store.locations.lookup t).isSome :=
      isSome_lookup_drainCommit (.inr ⟨hq, rfl, htid⟩)
    have hsome := isSome_lookup_finishDrains (c := c) (ws.map DrainWork.copied) hfirst
    rw [hnone] at hsome
    cases hsome

namespace ReleaseEffect

variable {s' : State} (he : ReleaseEffect s now oid o s'.store)

include he

/-- A drain of a run that is not freed goes on, and no other does. -/
theorem mem_drainsOf_iff :
    w ∈ s'.store.drainsOf t ↔ w ∈ s.store.drainsOf t ∧ ¬s.Frees oid o w.baseSlot := by
  constructor
  · intro hw
    obtain ⟨-, hq⟩ := of_decide_eq_true (List.mem_filter.1 hw).2
    have hnot : ¬s.Frees oid o w.baseSlot := by
      intro hf
      rw [Store.slotState, he.freed _ hf] at hq
      cases hq
    exact ⟨Store.mem_drainsOf_of_slots he.drainQueue.symm he.tasks.symm hw
      (he.kept _ hnot).symm, hnot⟩
  · rintro ⟨hw, hnot⟩
    exact Store.mem_drainsOf_of_slots he.drainQueue he.tasks hw (he.kept _ hnot)

/-- Nothing is left of an object whose slots, lease and cold copy are those recorded. -/
theorem cleared (hw : s.WhollyRecorded now oid o) :
    s.store.Cleared (canonicalTid oid) s'.store where
  slots i hi := by
    by_cases hf : s.Frees oid o i
    · refine hi.1 ?_
      rw [Store.slotState, he.freed i hf]
    · rw [Store.Bound, Store.slotState, he.kept i hf] at hi
      exact hf (hw.slots i hi)
  leases id L hL ht := by
    rw [he.leases, Table.lookup_erase_eq_some] at hL
    exact hL.1 (hw.leases id L hL.2 ht)
  locations := by
    rw [he.locations]
    exact AList.lookup_erase _ _
  cold ref href := by
    have hnot : ref ∉ s.objectCopy oid o := by
      intro h
      rw [he.forgotten ref h] at href
      cases href
    rw [he.remembered ref hnot] at href
    exact ⟨href, fun hcopy => hnot (hw.cold ref hcopy href)⟩

/-- If nothing is left of an object, and nothing of others is changed, its slots, lease and cold
    copy are those recorded. -/
theorem whollyRecorded (hnil : s'.store.drainsOf (canonicalTid oid) = [])
    (hcl : s.store.Cleared (canonicalTid oid) s'.store)
    (hframe : ∀ i, ¬s.store.Bound (canonicalTid oid) i → s'.store.slots i = s.store.slots i) :
    s.WhollyRecorded now oid o where
  leases id L hL ht := by
    by_contra hne
    refine hcl.leases id L ?_ ht
    rw [he.leases, Table.lookup_erase, if_neg hne]
    exact hL
  slots i hi := by
    by_contra hnot
    refine hcl.slots i ?_
    rw [Store.Bound, Store.slotState, he.kept i hnot]
    exact hi
  drains w hw := by
    by_contra hnot
    exact List.ne_nil_of_mem (he.mem_drainsOf_iff.2 ⟨hw, hnot⟩) hnil
  frame i hf := by
    by_cases hb : s.store.Bound (canonicalTid oid) i
    · exact .inl hb
    · exact .inr ((hframe i hb).symm.trans (he.freed i hf))
  cold ref hcopy href := by
    by_contra hnot
    rw [← he.remembered ref hnot] at href
    exact (hcl.cold ref href).2 hcopy

end ReleaseEffect

theorem ReleasesWhole.whollyRecorded (h : ReleasesWhole c s now oid o) (hfl : ¬o.inFlight) :
    s.WhollyRecorded now oid o := by
  obtain ⟨hends, hframe⟩ := h (by simpa [releaseObject_snd] using hfl)
  have hnil := drainsOf_eq_nil fun ends hp => (hends ends hp).locations
  exact (releaseObject_effect hfl).whollyRecorded hnil (hends [] (by rw [hnil]; exact .nil)) hframe

end StateSpectre
