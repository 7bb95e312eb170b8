import StateSpectre.Export

/-!
# What a commit throws away

A rank that is handed a candidate, to verify an object or because it will not wait for
its creator, commits it to have it compared with the object and thrown away. What a
commit frees should be such a candidate, granted to that rank for that object
(`CommitFrame`).

The handler takes any lease for a candidate that is not the one of an object still
being created. So a creator that repeats its commit has the run and the location of
its object freed (`commit_twice_frees_object`). A commit keeps to the candidates if
and only if the lease it throws away is one, and its run still carries it
(`commit_frame_iff`).
-/

namespace StateSpectre

variable {c : Config} {s s' : State} {req : CommitCanonicalObjectRequest} {now : ℕ} {L : Lease}
  {o : CanonicalObject}

/-- The lease of the request is one on a candidate, granted to its rank for its object. -/
structure GrantedCandidate (s : State) (req : CommitCanonicalObjectRequest) (L : Lease) :
    Prop where
  live : s.store.leases.lookup req.leaseId = some L
  granted : s.store.history.grants.lookup req.leaseId = some (req.rankId, req.objectId)
  candidate : ∃ seq, L.tensorId = candidateTid seq

/-- What has been freed and erased belongs to a candidate granted to the rank for the
    object. -/
structure CommitFrame (s : State) (req : CommitCanonicalObjectRequest) (s' : State) : Prop where
  leases : ∀ id, (s.store.leases.lookup id).isSome → s'.store.leases.lookup id = none →
    id = req.leaseId ∧ ∃ L, GrantedCandidate s req L
  locations : ∀ t, (s.store.locations.lookup t).isSome → s'.store.locations.lookup t = none →
    ∃ L, GrantedCandidate s req L ∧ t = L.tensorId
  slots : ∀ i, s.store.slotState i ≠ .free → s'.store.slotState i = .free →
    ∃ L, GrantedCandidate s req L ∧ InRun L.baseSlot L.slotCount i ∧
      (s.store.slots i).tensorId = L.tensorId

/-- A commit gets to throw away the lease `L`. -/
def Discards (c : Config) (s : State) (req : CommitCanonicalObjectRequest) (o : CanonicalObject)
    (L : Lease) : Prop :=
  c.enableCanonicalStore ∧ s.epochValid req.rankId req.rankEpoch ∧
    s.catalog.objects.lookup req.objectId = some o ∧ o.createdBy req.leaseId = false ∧
    s.store.leases.lookup req.leaseId = some L

/-- If the commit gets to throw away a lease, that is one on a candidate, granted to the
    rank for the object, and whose run carries it if it is freed. -/
def CommitSafe (c : Config) (s : State) (req : CommitCanonicalObjectRequest) : Prop :=
  ∀ o L, Discards c s req o L →
    GrantedCandidate s req L ∧ (candidateFrees (s.store.slotState L.baseSlot) →
      ∀ i, InRun L.baseSlot L.slotCount i → s.store.slotState i ≠ .free →
        (s.store.slots i).tensorId = L.tensorId)

/-- A commit that leaves the store as it is frees nothing. -/
theorem CommitFrame.of_store_eq (h : s'.store = s.store) : CommitFrame s req s' where
  leases id hsome hnone := by
    rw [h] at hnone
    rw [hnone] at hsome
    cases hsome
  locations t hsome hnone := by
    rw [h] at hnone
    rw [hnone] at hsome
    cases hsome
  slots i hlive hfree := by
    rw [h] at hfree
    exact absurd hfree hlive

theorem commitCreator_store : (commitCreator s req).1.store = s.store := by
  unfold commitCreator
  split
  · rfl
  · split <;> rfl

theorem commitCandidate_store :
    (commitCandidate c s now req o).1.store = match s.store.leases.lookup req.leaseId with
      | some L => (discardCandidate c s now req.leaseId L o).store
      | none => s.store := by
  simp only [commitCandidate]
  cases s.store.leases.lookup req.leaseId with
  | none | some =>
    dsimp only
    split
    · rfl
    · split <;> rfl

/-- A commit leaves the store as it is, unless it throws away a lease. -/
theorem handleCommit_store :
    ((handleCommitCanonicalObject c s now req).1.store = s.store ∧ ∀ o L, ¬Discards c s req o L) ∨
      ∃ o L, Discards c s req o L ∧ (handleCommitCanonicalObject c s now req).1.store =
        (discardCandidate c s now req.leaseId L o).store := by
  unfold handleCommitCanonicalObject
  split
  · next h => exact .inl ⟨rfl, fun o L hd => by simp [hd.1] at h⟩
  next hen =>
  split
  · next h => exact .inl ⟨rfl, fun o L hd => by simp [hd.2.1] at h⟩
  next hval =>
  split
  · next h => exact .inl ⟨rfl, fun o L hd => nomatch h.symm.trans hd.2.2.1⟩
  next o ho =>
  split
  · next hc =>
    refine .inl ⟨commitCreator_store, fun o' L hd => ?_⟩
    cases ho.symm.trans hd.2.2.1
    exact Bool.false_ne_true (hd.2.2.2.1.symm.trans hc)
  next hc =>
  rw [commitCandidate_store]
  cases hL : s.store.leases.lookup req.leaseId with
  | none => exact .inl ⟨rfl, fun o L hd => nomatch hL.symm.trans hd.2.2.2.2⟩
  | some L =>
    exact .inr ⟨o, L, ⟨by simpa using hen, by simpa using hval, ho, by simpa using hc, hL⟩, rfl⟩

/-- What throwing away a lease does to the slots. -/
theorem discardCandidate_free {id i : ℕ} : s.store.slotState i ≠ .free ∧
        (discardCandidate c s now id L o).store.slotState i = .free ↔
      s.store.slotState i ≠ .free ∧ candidateFrees (s.store.slotState L.baseSlot) ∧
        InRun L.baseSlot L.slotCount i := by
  refine and_congr_right fun hlive => ?_
  simp only [discardCandidate]
  split
  · next hf =>
    by_cases hi : InRun L.baseSlot L.slotCount i
    · refine iff_of_true ?_ ⟨hf, hi⟩
      simp only [State.freeSlots, Store.freeSlots, Store.mapRun, Store.slotState, onRun_of_mem hi]
    · refine iff_of_false (fun h => hlive ?_) fun h => hi h.2
      simp only [State.freeSlots, Store.freeSlots, Store.mapRun, Store.slotState,
        onRun_of_not_mem hi] at h
      exact h
  · next hf => exact iff_of_false hlive fun h => hf h.1

theorem discardCandidate_leases {id : ℕ} :
    (discardCandidate c s now id L o).store.leases = s.store.leases.erase id := by
  simp only [discardCandidate]
  split <;> rfl

theorem discardCandidate_locations {id : ℕ} :
    (discardCandidate c s now id L o).store.locations = s.store.locations.erase L.tensorId := by
  simp only [discardCandidate]
  split <;> rfl

/-- A commit frees only what belongs to a candidate granted to its rank for its object, if
    and only if the lease that it throws away is one, and its run carries it. -/
theorem commit_frame_iff :
    CommitFrame s req (handleCommitCanonicalObject c s now req).1 ↔ CommitSafe c s req := by
  have hcases : ((handleCommitCanonicalObject c s now req).1.store = s.store ∧
      ∀ o L, ¬Discards c s req o L) ∨ ∃ o L, Discards c s req o L ∧
        (handleCommitCanonicalObject c s now req).1.store =
          (discardCandidate c s now req.leaseId L o).store := handleCommit_store
  obtain ⟨hstore, hnot⟩ | ⟨o, L, hd, hstore⟩ := hcases
  · exact iff_of_true (.of_store_eq hstore) fun o L hd => absurd hd (hnot o L)
  have hL := hd.2.2.2.2
  have hgone :
      (handleCommitCanonicalObject c s now req).1.store.leases.lookup req.leaseId = none := by
    rw [hstore, discardCandidate_leases, Table.lookup_erase, if_pos rfl]
  constructor
  · intro h o' L' hd'
    cases hL.symm.trans hd'.2.2.2.2
    obtain ⟨-, L', hgrant⟩ := h.leases _ (Option.isSome_of_eq_some hL) hgone
    cases hL.symm.trans hgrant.live
    refine ⟨hgrant, fun hf i hi hlive => ?_⟩
    obtain ⟨L', hgrant', -, htid⟩ := h.slots i hlive (by
      rw [hstore]
      exact (discardCandidate_free.2 ⟨hlive, hf, hi⟩).2)
    cases hL.symm.trans hgrant'.live
    exact htid
  · intro h
    obtain ⟨hgrant, hrun⟩ := h o L hd
    refine ⟨fun id hsome hnone => ⟨?_, L, hgrant⟩, fun t hsome hnone => ⟨L, hgrant, ?_⟩,
      fun i hlive hfree => ?_⟩
    · rw [hstore, discardCandidate_leases, Table.lookup_erase] at hnone
      split at hnone
      · assumption
      · rw [hnone] at hsome
        cases hsome
    · rw [hstore, discardCandidate_locations, Table.lookup_erase] at hnone
      split at hnone
      · assumption
      · rw [hnone] at hsome
        cases hsome
    · rw [hstore] at hfree
      obtain ⟨-, hf, hi⟩ := discardCandidate_free.1 ⟨hlive, hfree⟩
      exact ⟨L, hgrant, hi, hrun hf i hi hlive⟩

/-- A creator commits its object twice: the second commit takes the lease of the object
    for a candidate, and frees its run and its location. -/
theorem commit_twice_frees_object :
    ∃ s s' r, Reached oneSlot s ∧
      (step oneSlot s (commits 2 1 1) = some (s', r) ∧
        (s.store.locations.lookup (canonicalTid 1)).isSome ∧
        s.store.history.grants.lookup 1 = none ∧ (s'.catalog.objects.lookup 1).isSome ∧
        s'.store.locations.lookup (canonicalTid 1) = none ∧
        s.store.slotState 0 = .pinnedValid ∧ s'.store.slotState 0 = .free) ∧
      ¬CommitFrame s ⟨0, 1, 1, 1, 0, 0⟩ s' := by
  refine exists_reachable₃_and oneSlot _ (registers :: registersJob :: creates 1 1 1 [1])
    (by decide +kernel) ?_
  rintro s s' r - ⟨-, hloc, hgrants, -, hgone, -⟩ h
  obtain ⟨L, hgrant, -⟩ := h.locations _ hloc hgone
  cases hgrants.symm.trans hgrant.granted

end StateSpectre
