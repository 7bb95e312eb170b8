import StateSpectre.Occasions
import StateSpectre.Refinement.Catalog

/-!
# The versions of locations only grow

The location of a tensor is written when a D2H copy is complete, when a run has been drained or
read back, and when an H2D copy is complete; all of them go by the version
(`Store.updateLocationIfLatest`), so that it never decreases (`Store.Later`). Only the canonical
store drops locations, and warms them again. In a run of v1 operations (`Action.v1`) there are no
canonical objects (`Plain`), and the locations only grow.
-/

namespace StateSpectre

variable {c : Config} {g : Guards} {x y : Scene} {s s' : State} {st st' st'' : Store}
  {loc : Location} {slotId cref nbytes : ℕ} {kind : LocationKind} {cold : ColdEntry} {w : DrainWork}
  {now t v : ℕ}

/-! ## Locations -/

/-- The tensors with a location still have one, of the same or a later version. -/
def Store.Later (st st' : Store) : Prop :=
  ∀ t loc, st.locations.lookup t = some loc →
    ∃ loc', st'.locations.lookup t = some loc' ∧ loc.version ≤ loc'.version

namespace Store

theorem Later.of_eq (h : st'.locations = st.locations) : st.Later st' := fun _ loc hloc =>
  ⟨loc, h ▸ hloc, le_rfl⟩

theorem Later.trans (h : st.Later st') (h' : st'.Later st'') : st.Later st'' := by
  intro t loc hloc
  obtain ⟨loc', hloc', hle⟩ := h t loc hloc
  obtain ⟨loc'', hloc'', hle'⟩ := h' t loc' hloc'
  exact ⟨loc'', hloc'', hle.trans hle'⟩

/-- An update for an earlier version changes nothing. -/
theorem updateLocationIfLatest_of_lt
    (hloc : st.locations.lookup t = some loc) (hv : v < loc.version) :
    st.updateLocationIfLatest t v kind slotId cref nbytes = st := by
  rw [updateLocationIfLatest, isLatest, hloc]
  simp [hv]

theorem locations_update_of_lt (hloc : st.locations.lookup t = some loc) (hv : v < loc.version) :
    (st.updateLocationIfLatest t v kind slotId cref nbytes).locations = st.locations := by
  rw [updateLocationIfLatest_of_lt hloc hv]

theorem later_update : st.Later (st.updateLocationIfLatest t v kind slotId cref nbytes) := by
  intro t' loc hloc
  by_cases hlt : t' = t ∧ v < loc.version
  · obtain ⟨rfl, hv⟩ := hlt
    rw [updateLocationIfLatest_of_lt hloc hv]
    exact ⟨loc, hloc, le_rfl⟩
  · rw [updateLocationIfLatest]
    split
    · rw [Table.lookup_insert]
      split
      · next ht => exact ⟨_, rfl, not_lt.1 fun hv => hlt ⟨ht, hv⟩⟩
      · exact ⟨loc, hloc, le_rfl⟩
    · exact ⟨loc, hloc, le_rfl⟩

/-- A location changes, but not its version. -/
theorem later_modify {f : Location → Location} (hf : ∀ loc, (f loc).version = loc.version)
    (h : st'.locations = st.locations.modify t f) : st.Later st' := by
  intro t' loc hloc
  rw [h, Table.lookup_modify_of_lookup hloc]
  split
  · exact ⟨_, rfl, (hf loc).ge⟩
  · exact ⟨_, rfl, le_rfl⟩

theorem later_bindWarm {tid base count nbytes : ℕ} :
    st.Later (st.bindWarm now tid base count nbytes) := by
  intro t loc hloc
  rw [bindWarm, Table.lookup_insert]
  split
  · next ht =>
    subst ht
    refine ⟨_, rfl, ?_⟩
    rw [hloc, Option.getD_some]
  · exact ⟨loc, hloc, le_rfl⟩

end Store

/-! ## Operations of v1 -/

/-- The requests of the first version of the protocol. -/
def Request.v1 : Request → Bool
  | .register _ | .heartbeat _ | .offload _ | .d2hSubmitted _ | .d2hComplete _ | .prefetch _
  | .h2dSubmitted _ | .h2dComplete _ | .releaseLease _ | .queryLocation _ | .batchComplete _ => true
  | _ => false

/-- The actions of a daemon without a canonical store: its requests are of v1. -/
def Action.v1 : Action → Bool
  | .rpc _ req => req.v1
  | _ => true

/-- No search creates an object, and no candidate is thrown away. -/
def v1Rules : Rules := fun _ e =>
  match e with
  | .seek (.create ..) | .discard .. => False
  | _ => True

theorem v1Rules_of_routine {e : Event} (h : e.isRoutine) : v1Rules s e := by
  cases e with
  | seek | discard => cases h
  | _ => trivial

theorem v1Rules_met {es : List Moment} (h : AllRoutine es) : v1Rules.Met es := fun m hm =>
  v1Rules_of_routine (h m hm)

/-- The operations of v1 do neither. -/
theorem v1Rules_ok {a : Action} (ha : a.v1) : v1Rules.ok c s a := by
  cases a with
  | rpc now req =>
    cases req with
    | register =>
      exact Rules.met_append.2 ⟨v1Rules_met (.along (fun _ _ => invalidateEvents_routine) _ _),
        Rules.met_singleton.2 trivial⟩
    | heartbeat | offload =>
      simp only [Rules.ok, events, requestEvents]
      split
      · exact Rules.met_singleton.2 trivial
      · exact v1Rules_met .nil
    | prefetch =>
      simp only [Rules.ok, events, requestEvents, prefetchEvents]
      split
      · exact v1Rules_met .nil
      · split
        · exact Rules.met_cons.2 ⟨trivial, v1Rules_met (findEvents_routine _)⟩
        · exact v1Rules_met .nil
    | releaseLease => exact v1Rules_met releaseLeaseEvents_routine
    | d2hSubmitted | d2hComplete | h2dSubmitted | h2dComplete | queryLocation | batchComplete =>
      exact v1Rules_met .nil
    | _ => cases ha
  | proceed => exact v1Rules_met (.flatMap fun _ => resumeEvents_routine _)
  | heartbeatSweep => exact v1Rules_met (.along (fun _ _ => expireEvents_routine) _ _)
  | _ => exact v1Rules_met .nil

/-- There are no objects, and none is to be created. -/
structure Plain (x : Scene) : Prop where
  orderly : x.Orderly
  objects : ∀ oid, x.1.catalog.objects.lookup oid = none
  searches : ∀ req oid, .create req oid ∉ x.purposes

theorem Plain.move (h : Plain x) (hm : Move c g v1Rules x y) : Plain y where
  orderly := h.orderly.move hm
  objects oid := by
    by_contra hne
    obtain ⟨o', ho'⟩ := Option.ne_none_iff_exists'.1 hne
    obtain ⟨o, ho, -⟩ | ⟨req, _, _, hp, -⟩ := hm.object_origin h.orderly.pulls ho'
    · cases (h.objects oid).symm.trans ho
    · refine h.searches req oid (List.mem_append_left _ ?_)
      rw [hp]
      exact List.mem_singleton_self _
  searches req oid hp := by
    obtain hp | ⟨⟨-, -, hk⟩, -⟩ := hm.mem_purposes hp
    · exact h.searches req oid hp
    · exact hk

/-- Without objects, the locations only grow. -/
theorem Plain.later (h : Plain x) (hm : Move c g v1Rules x y) : x.1.store.Later y.1.store := by
  cases hm with
  | publish | drainSettled => exact Store.later_update.trans (.of_eq rfl)
  | readbackDone | keepPinned => exact Store.later_update
  | @warmDone s h i req base count nbytes now =>
    have hbind : (s.store.dropTask i).Later ((s.store.dropTask i).bindWarm now
      (canonicalTid req.objectId) base count nbytes) := Store.later_bindWarm
    exact fun t loc hloc => hbind t loc hloc
  | fallBack =>
    refine Store.later_modify (fun loc => ?_) rfl
    rw [Location.fallBack]
    split <;> rfl
  | release =>
    refine Store.later_modify (fun loc => ?_) rfl
    rw [Location.forget]
    split <;> rfl
  | unlinkObject ho => cases (h.objects _).symm.trans ho
  | discard _ _ _ hk => exact hk.elim
  | _ => exact .of_eq rfl

/-! ## Commits of earlier versions -/

/-- A D2H copy of an earlier version changes no location. -/
theorem completeD2H_locations_of_lt {id seq : ℕ} {L : Lease}
    (hloc : s.store.locations.lookup L.tensorId = some loc) (hv : L.version < loc.version) :
    (completeD2H c s now id L seq).store.locations = s.store.locations := by
  have hpublish : (s.store.publishD2H c now id L seq).locations = s.store.locations :=
    Store.locations_update_of_lt hloc hv
  rw [completeD2H]
  split <;> exact hpublish

/-- Neither does a drain, -/
theorem finishDrain_locations_of_lt (hloc : s.store.locations.lookup w.tensorId = some loc)
    (hv : w.version < loc.version) :
    (finishDrain c s now w cold).store.locations = s.store.locations := by
  have hsettle : (s.store.settleDrain w cold).locations = s.store.locations :=
    Store.locations_update_of_lt hloc hv
  exact hsettle

/-- A search for a run changes no location. -/
theorem acquire_locations {p : Purpose} {attempt : ℕ} :
    (acquire c s now p attempt).1.store.locations = s.store.locations := by
  rw [acquire]
  split
  · cases p with
    | offload =>
      simp only [grant, grantOffload]
      split <;> rfl
    | _ => rfl
  · split <;> rfl

/-- whether it was done by a worker or forced by a search that goes on, -/
theorem resume_drain_locations_of_lt {z : State × Response}
    (h : resume c s now (.drainCommit w (some cold)) = some z)
    (hloc : s.store.locations.lookup w.tensorId = some loc) (hv : w.version < loc.version) :
    z.1.store.locations = s.store.locations := by
  have hfinish : (finishDrain c (s.drainDone w.nbytes) now w cold).store.locations =
    s.store.locations := finishDrain_locations_of_lt (s := s.drainDone w.nbytes) hloc hv
  simp only [resume] at h
  split at h
  · cases h
    simp only [forceDrainCommit]
    split
    · exact acquire_locations.trans hfinish
    · exact hfinish
  · cases h
    simp only [drainCommit]
    split
    · exact hfinish
    · rfl

/-- nor a readback. -/
theorem readbackCommit_locations_of_lt {job : ReadbackJob} {ok : Bool}
    (hloc : s.store.locations.lookup (s.store.slots job.baseSlot).tensorId = some loc)
    (hv : (s.store.slots job.baseSlot).version < loc.version) :
    (readbackCommit s now job ok).store.locations = s.store.locations := by
  rw [readbackCommit]
  split
  · split
    · exact Store.locations_update_of_lt hloc hv
    · rfl
  · rfl

/-! ## Runs -/

/-- A run of v1 operations has no objects. -/
theorem plain_of_reachable (h : Reachable c (fun _ a => a.v1) s) : Plain (s, none, {}) := by
  have hrules : Reachable c (v1Rules.ok c) s := h.mono fun _ _ => v1Rules_ok
  refine hrules.invariant_of_rules ⟨.initial, ?_, ?_⟩
    fun _ _ hx hxy => hx.move hxy
  · exact fun _ => rfl
  · exact fun _ _ => List.not_mem_nil

/-- In every run of v1 operations the versions of the locations never decrease. A D2H copy, a
    drain or a readback that commits for an earlier version than that of the location leaves all
    locations as they are. -/
theorem versions_never_decrease (c : Config) :
    (∀ s s', Reachable c (fun _ a => a.v1) s → Reach (· = s) (fun _ a => a.v1) (step c) s' →
      s.store.Later s'.store) ∧
    (∀ (s : State) now id (L : Lease) seq loc,
      s.store.locations.lookup L.tensorId = some loc → L.version < loc.version →
      (completeD2H c s now id L seq).store.locations = s.store.locations) ∧
    (∀ (s : State) now (w : DrainWork) cold loc z,
      s.store.locations.lookup w.tensorId = some loc → w.version < loc.version →
      resume c s now (.drainCommit w (some cold)) = some z →
      z.1.store.locations = s.store.locations) ∧
    ∀ (s : State) now (job : ReadbackJob) ok loc z,
      s.store.locations.lookup (s.store.slots job.baseSlot).tensorId = some loc →
      (s.store.slots job.baseSlot).version < loc.version →
      resume c s now (.readbackCommit job ok) = some z →
      z.1.store.locations = s.store.locations := by
  refine ⟨fun s s' hs hs' => ?_, fun _ _ _ _ _ _ => completeD2H_locations_of_lt,
    fun _ _ _ _ _ _ hloc hv h => resume_drain_locations_of_lt h hloc hv, ?_⟩
  · induction hs' with
    | init heq => exact heq ▸ .of_eq rfl
    | @step s₁ s₂ a r hs₁ ha hstep ih =>
      have hplain := plain_of_reachable (hs.trans hs₁)
      have hmoves := step_moves Guards.unguarded_ok (v1Rules_ok ha) hstep
      refine ih.trans (hmoves.invariant
        (motive := fun x => Plain x ∧ s₁.store.Later x.1.store) ?_ ⟨hplain, .of_eq rfl⟩).2
      exact fun x y hx hxy => ⟨hx.1.move hxy, hx.2.trans (hx.1.later hxy)⟩
  · intro s now job ok loc z hloc hv h
    cases h
    exact readbackCommit_locations_of_lt hloc hv

/-- A tensor is offloaded in its second version, and then in its first: the location stays that
    of the second, and so it does for whatever else would commit the first. -/
theorem versions_never_decrease_late :
    ∃ s s', Reachable oneSlot (fun _ a => a.v1) s ∧
      Reach (· = s) (fun _ a => a.v1) (step oneSlot) s' ∧
      ((s.store.locations.lookup 1).map (·.version) = some 2 ∧
        (s'.store.slots 0).tensorId = 1 ∧ (s'.store.slots 0).version = 1) ∧
      ∃ loc', s'.store.locations.lookup 1 = some loc' ∧ 2 ≤ loc'.version ∧
        (∀ L : Lease, L.tensorId = 1 → L.version = 1 →
          (completeD2H oneSlot s' 3 2 L 0).store.locations = s'.store.locations) ∧
        (∀ w : DrainWork, w.tensorId = 1 → w.version = 1 → ∀ cold z,
          resume oneSlot s' 3 (.drainCommit w (some cold)) = some z →
          z.1.store.locations = s'.store.locations) ∧
        (readbackCommit s' 3 ⟨0, 1, 1, 4⟩ true).store.locations = s'.store.locations := by
  refine exists_reach_and oneSlot _ _ (registers :: offloads 1 1 2 1 [1])
    (offloadsDraining 2 1 1 2 [2]) (by decide +kernel) ?_
  rintro s s' hs hs' ⟨hv, ht, hslot⟩
  obtain ⟨loc, hloc, hv⟩ := Option.map_eq_some_iff.1 hv
  obtain ⟨hlater, hd2h, hdrain, hread⟩ := versions_never_decrease oneSlot
  obtain ⟨loc', hloc', hle⟩ := hlater s s' hs hs' 1 loc hloc
  rw [hv] at hle
  refine ⟨loc', hloc', hle, fun L hL hLv => ?_, fun w hw hwv cold z hz => ?_, ?_⟩
  · exact hd2h s' 3 2 L 0 loc' (hL ▸ hloc') (by omega)
  · exact hdrain s' 3 w cold loc' z (hw ▸ hloc') (by omega) hz
  · exact hread s' 3 ⟨0, 1, 1, 4⟩ true loc' _ (ht ▸ hloc') (by rw [hslot]; omega) rfl

end StateSpectre
