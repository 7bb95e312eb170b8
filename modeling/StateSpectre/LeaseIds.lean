import StateSpectre.Refinement

/-!
# The ids of leases

The id of a lease is drawn from a counter. An offload draws it with the run it is lent,
but a prefetch of a cold tensor draws it first and then searches a run, for as long as it
takes to drain one; the ids of such searches are taken too (`LeaseIds`). So no id is given
to a second lease, and a lease that may not be dropped stays what it is
(`LeaseIds.lease_kept`).
-/

namespace StateSpectre

variable {c : Config} {g : Guards} {k : Rules} {x y : Scene} {s : State}

/-- The id that a search has drawn for its lease. -/
def Purpose.drawn : Purpose → Option ℕ
  | .prefetch _ _ _ _ id => some id
  | .offload .. | .create .. | .candidate .. | .restore .. => none

/-- The ids that the searches of a scene have drawn. -/
def Scene.drawnIds (x : Scene) : List ℕ := x.purposes.filterMap Purpose.drawn

/-- Live leases and searches have ids that were drawn, and no two the same. -/
structure LeaseIds (x : Scene) : Prop where
  live : ∀ id L, x.1.store.leases.lookup id = some L → id < x.1.store.nextLeaseId
  drawn : ∀ id ∈ x.drawnIds, id < x.1.store.nextLeaseId ∧ x.1.store.leases.lookup id = none
  once : x.drawnIds.Nodup

namespace LeaseIds

/-- Leases may be dropped, and searches may end. -/
theorem frame (h : LeaseIds x) (hn : y.1.store.nextLeaseId = x.1.store.nextLeaseId)
    (hl : ∀ id L, y.1.store.leases.lookup id = some L → x.1.store.leases.lookup id = some L)
    (hp : y.purposes.Subperm x.purposes) : LeaseIds y := by
  have hsub : y.drawnIds.Subperm x.drawnIds := subperm_filterMap hp
  refine ⟨fun id L hL => hn ▸ h.live id L (hl id L hL), fun id hid => ?_, ?_⟩
  · obtain ⟨hlt, hnone⟩ := h.drawn id (hsub.subset hid)
    refine ⟨hn ▸ hlt, Option.eq_none_iff_forall_ne_some.2 fun L hL => ?_⟩
    rw [hl id L hL] at hnone
    cases hnone
  · obtain ⟨l, hperm, hsub⟩ := hsub
    exact hperm.nodup_iff.1 (h.once.sublist hsub)

/-- A lease is added under the next id. -/
theorem insert {L : Lease} (h : LeaseIds x) (hn : y.1.store.nextLeaseId = x.1.store.nextLeaseId + 1)
    (hl : y.1.store.leases = x.1.store.leases.insert x.1.store.nextLeaseId L)
    (hp : y.purposes.Subperm x.purposes) : LeaseIds y := by
  have hsub : y.drawnIds.Subperm x.drawnIds := subperm_filterMap hp
  refine ⟨fun id L' hL' => ?_, fun id hid => ?_, ?_⟩
  · rw [hl] at hL'
    rw [hn]
    rcases Table.lookup_insert_eq_some.1 hL' with ⟨rfl, -⟩ | ⟨-, hL'⟩
    · exact Nat.lt_succ_self _
    · exact Nat.lt_succ_of_lt (h.live id L' hL')
  · obtain ⟨hlt, hnone⟩ := h.drawn id (hsub.subset hid)
    refine ⟨hn ▸ Nat.lt_succ_of_lt hlt, ?_⟩
    rwa [hl, Table.lookup_insert, if_neg hlt.ne]
  · obtain ⟨l, hperm, hsub⟩ := hsub
    exact hperm.nodup_iff.1 (h.once.sublist hsub)

/-- Every move keeps the ids apart. -/
theorem move (h : LeaseIds x) (hm : Move c g k x y) : LeaseIds y := by
  have hp := hm.purposes
  cases hm with
  | @seek s h' p hplain =>
    have hnone : p.drawn = none := by cases p <;> first | rfl | exact hplain.elim
    have hids : Scene.drawnIds (s, some p, h') = Scene.drawnIds (s, none, h') := by
      rw [Scene.drawnIds, Scene.purposes, Option.toList_some, List.singleton_append,
        List.filterMap_cons, hnone]
      rfl
    exact ⟨h.live, hids ▸ h.drawn, hids ▸ h.once⟩
  | seekPrefetch =>
    refine ⟨fun id L hL => Nat.lt_succ_of_lt (h.live id L hL), ?_, ?_⟩
    · refine List.forall_mem_cons.2 ⟨⟨Nat.lt_succ_self _, ?_⟩, fun id hid =>
        ⟨Nat.lt_succ_of_lt (h.drawn id hid).1, (h.drawn id hid).2⟩⟩
      exact Option.eq_none_iff_forall_ne_some.2 fun L hL => (h.live _ L hL).false
    · exact List.nodup_cons.2 ⟨fun hid => (h.drawn _ hid).1.false, h.once⟩
  | seekCreate | seekCandidate => exact ⟨h.live, h.drawn, h.once⟩
  | lend | create | candidate =>
    exact h.insert rfl rfl (hp (.inl rfl))
  | bind => exact h.insert rfl rfl (.refl _)
  | @readback s h' req loc version ownerPid id =>
    -- The id was drawn when the search began, and the search is over now.
    obtain ⟨hnew, honce⟩ := List.nodup_cons.1 h.once
    obtain ⟨⟨hlt, -⟩, hdrawn⟩ := List.forall_mem_cons.1 h.drawn
    refine ⟨fun id' L hL => ?_, fun id' hid' => ⟨(hdrawn id' hid').1, ?_⟩, honce⟩
    · rcases Table.lookup_insert_eq_some.1 hL with ⟨rfl, -⟩ | ⟨-, hL⟩
      · exact hlt
      · exact h.live id' L hL
    · have hne : id' ≠ id := fun he => hnew (he ▸ hid')
      exact (Table.lookup_insert ..).trans ((if_neg hne).trans (hdrawn id' hid').2)
  | drainSettled hi =>
    exact h.frame rfl (fun id L => Table.lookup_of_lookup_erase) (Store.purposes_settle hi)
  | fallBack | release | dropLease | unlinkObject | discard =>
    exact h.frame rfl (fun id L => Table.lookup_of_lookup_erase) (.refl _)
  | endSession =>
    exact h.frame rfl (fun id L hL => (Table.lookup_eraseAll_eq_some.1 hL).2) (.refl _)
  | rehash hl =>
    exact h.frame rfl (fun id L hL => (hl.lookup_eq id).symm.trans hL) (.refl _)
  | reclaim | reclaimMarked | freed | leaveRun | forgot => exact ⟨h.live, h.drawn, h.once⟩
  | _ => exact h.frame rfl (fun _ _ hL => hL) (hp (.inl rfl))

/-- A lease that may not be dropped, and whose H2D copy is not completed, stays what it is. -/
theorem lease_kept {id : ℕ} {L : Lease} (h : LeaseIds x) (hdrop : ¬g.dropLease id)
    (hdone : ¬(g.complete id ∧ x.1.store.slotState L.baseSlot = .h2dInFlight))
    (hL : x.1.store.leases.lookup id = some L) (hm : Move c g k x y) :
    y.1.store.leases.lookup id = some L := by
  have hlt := h.live id L hL
  -- The id is not given to another lease.
  have hinsert : ∀ {L'}, (x.1.store.leases.insert x.1.store.nextLeaseId L').lookup id = some L :=
    (Table.lookup_insert ..).trans ((if_neg hlt.ne).trans hL)
  have herase : ∀ {id'}, id ≠ id' → (x.1.store.leases.erase id').lookup id = some L :=
    fun hne => (Table.lookup_erase ..).trans ((if_neg hne).trans hL)
  have hother : ∀ {id'}, g.dropLease id' → id ≠ id' := by
    rintro _ hg rfl
    exact hdrop hg
  cases hm with
  | lend | create | candidate | bind => exact hinsert
  | @readback s h' req loc version ownerPid id' =>
    have hne : id ≠ id' := by
      rintro rfl
      have hnone := (h.drawn id (List.mem_cons_self ..)).2
      rw [hL] at hnone
      cases hnone
    exact (Table.lookup_insert ..).trans ((if_neg hne).trans hL)
  | drainSettled _ _ hg | dropLease _ _ hg | unlinkObject _ _ hg | discard _ hg =>
    exact herase (hother hg)
  | fallBack hL' hst _ _ hg =>
    refine herase ?_
    rintro rfl
    cases hL.symm.trans hL'
    exact hdone ⟨hg, hst⟩
  | release _ _ _ hg => exact herase (hother hg)
  | endSession _ _ hg =>
    refine Table.lookup_eraseAll_eq_some.2 ⟨fun hmem => ?_, hL⟩
    obtain ⟨r, hr, rfl⟩ := List.mem_map.1 hmem
    exact hdrop (hg r hr)
  | rehash hl => exact (hl.lookup_eq id).trans hL
  | _ => exact hL

theorem initial : LeaseIds (State.initial, none, {}) where
  live _ _ hL := nomatch hL
  drawn _ hid := nomatch hid
  once := List.nodup_nil

end LeaseIds

theorem Reachable.leaseIds {ok : State → Action → Prop} (h : Reachable c ok s) :
    LeaseIds (s, none, {}) := by
  have hfree : Reachable c (fun s a => Guards.ok {} c s a ∧ Rules.free.ok c s a) s :=
    h.mono fun s a _ => ⟨Guards.unguarded_ok, Rules.free_ok c s a⟩
  exact hfree.invariant .initial fun _ _ hx hxy => hx.move hxy

end StateSpectre
