import StateSpectre.Locations

/-!
# The completion of an H2D copy

A rank that has copied the run of a prefetch to its GPU says so with a message that names the
lease, and the tensor and the version too. The lease is checked; the tensor and the version are
not (`h2dLease`), and they are what the daemon goes by. Whether the run can be given up is
decided by the cold reference of the tensor in the message, and its location is changed: it
falls back to the cold copy if the run is given up, and is the run with the version of the
message if it is kept.

So the location of a tensor that the lease is not for can be changed, a version be recorded that
nobody offloaded, and a run be freed that has no cold copy. `h2d_frame` says when this does not
happen.
-/

namespace StateSpectre

variable {st : Store} {L : Lease} {t v now id : ℕ}

/-! ## What may change -/

/-- A version of a tensor has a cold copy: one that is stored, which the location of the tensor
    or a slot refers to. -/
def Store.HasCold (st : Store) (t v : ℕ) : Prop :=
  ∃ ref, ref ≠ 0 ∧ (st.coldStore.lookup ref).isSome ∧
    ((∃ loc, st.locations.lookup t = some loc ∧ loc.version = v ∧ loc.coldRef = ref) ∨
      ∃ i, (st.slots i).tensorId = t ∧ (st.slots i).version = v ∧ (st.slots i).coldRef = ref)

/-- What the completion of a copy may change: the location of the tensor of the lease, but not its
    version; and the run is freed only if there is a cold copy. -/
structure H2DFrame (st st' : Store) (L : Lease) : Prop where
  others : ∀ t ≠ L.tensorId, st'.locations.lookup t = st.locations.lookup t
  versions : ∀ t, (st'.locations.lookup t).map (·.version) =
    (st.locations.lookup t).map (·.version)
  freed : (∃ i, InRun L.baseSlot L.slotCount i ∧ st'.slotState i = .free) →
    st.HasCold L.tensorId L.version

/-- The message of a completion is harmless. If the run is given up, for the cold copy that is
    found: there is one of the tensor and version of the lease, and another tensor that the message
    names is not located at the run in that version. If the run is kept: no earlier version is
    known of the tensor in the message, and if it is another tensor, a later one is. -/
def Store.Harmless (st : Store) (L : Lease) (t v : ℕ) (keep : Bool) : Prop :=
  match keep, st.h2dCold t L.baseSlot with
  | false, some cold =>
    (0 < L.slotCount → st.HasCold L.tensorId L.version) ∧
      (t = L.tensorId ∨ ∀ loc, st.locations.lookup t = some loc →
        loc.fallBack L.baseSlot v cold.kind = loc)
  | _, _ =>
    ∃ loc, st.locations.lookup t = some loc ∧ v ≤ loc.version ∧
      (t = L.tensorId ∨ v < loc.version ∨
        loc = ⟨v, .pinned, L.baseSlot, st.h2dColdRef t L.baseSlot, L.nbytes⟩)

/-! ## The run is given up -/

theorem Location.fallBack_version (loc : Location) {base : ℕ} {kind : LocationKind} :
    (loc.fallBack base v kind).version = loc.version := by
  rw [Location.fallBack]
  split
  · rfl
  · rfl

theorem h2dFrame_giveUp {cold : ColdEntry} :
    H2DFrame st ((st.unlink id t (Location.fallBack L.baseSlot v cold.kind)).freeSlots now
      L.baseSlot L.slotCount) L ↔
    (0 < L.slotCount → st.HasCold L.tensorId L.version) ∧
      (t = L.tensorId ∨ ∀ loc, st.locations.lookup t = some loc →
        loc.fallBack L.baseSlot v cold.kind = loc) := by
  have hlookup : ∀ t', ((st.unlink id t (Location.fallBack L.baseSlot v cold.kind)).freeSlots now
      L.baseSlot L.slotCount).locations.lookup t' =
      if t' = t then (st.locations.lookup t).map (Location.fallBack L.baseSlot v cold.kind)
      else st.locations.lookup t' := fun t' => Table.lookup_modify ..
  constructor
  · rintro ⟨hothers, -, hfreed⟩
    refine ⟨fun hpos => hfreed ⟨L.baseSlot, ⟨le_rfl, by omega⟩, ?_⟩, ?_⟩
    · rw [Store.slotState, Store.freeSlots, Store.mapRun_slots_of_mem ⟨le_rfl, by omega⟩]
    · refine or_iff_not_imp_left.2 fun hne loc hloc => ?_
      have hsame := hothers t hne
      rw [hlookup, if_pos rfl, hloc] at hsame
      exact Option.some.inj hsame
  · rintro ⟨hcold, hloc⟩
    refine ⟨fun t' hne => ?_, fun t' => ?_, ?_⟩
    · rw [hlookup]
      split
      · next h =>
        subst h
        cases hloc' : st.locations.lookup t' with
        | none => rfl
        | some loc => exact congrArg some (hloc.resolve_left hne loc hloc')
      · rfl
    · rw [hlookup]
      split
      · next h =>
        subst h
        cases st.locations.lookup t' with
        | none => rfl
        | some loc => exact congrArg some loc.fallBack_version
      · rfl
    · rintro ⟨i, hi, -⟩
      exact hcold (by have := hi.1; have := hi.2; omega)

/-! ## The run is kept -/

theorem h2dFrame_keep {completeSeq : ℕ} :
    H2DFrame st (st.keepPinned now L t v completeSeq) L ↔
      ∃ loc, st.locations.lookup t = some loc ∧ v ≤ loc.version ∧
        (t = L.tensorId ∨ v < loc.version ∨
          loc = ⟨v, .pinned, L.baseSlot, st.h2dColdRef t L.baseSlot, L.nbytes⟩) := by
  have hother : ∀ t' ≠ t, (st.keepPinned now L t v completeSeq).locations.lookup t' =
      st.locations.lookup t' := fun t' hne => Store.lookup_updateLocationIfLatest hne
  have hself : (st.keepPinned now L t v completeSeq).locations.lookup t =
      if st.isLatest t v then
        some ⟨v, .pinned, L.baseSlot, st.h2dColdRef t L.baseSlot, L.nbytes⟩
      else st.locations.lookup t := by
    simp only [Store.keepPinned, Store.updateLocationIfLatest]
    exact (apply_ite (AList.lookup t) ..).trans (by rw [AList.lookup_insert]; rfl)
  have hfreed : ∀ i, InRun L.baseSlot L.slotCount i →
      (st.keepPinned now L t v completeSeq).slotState i ≠ .free := by
    intro i hi
    simp [Store.slotState, Store.keepPinned, Store.updateLocationIfLatest,
      Store.mapRun_slots_of_mem hi]
  cases hloc : st.locations.lookup t with
  | none =>
    -- A version is recorded where there was none.
    refine iff_of_false (fun h => ?_) (by rintro ⟨_, h, -⟩; cases h)
    have hv := h.versions t
    rw [hself, hloc, if_pos (by simp [Store.isLatest, hloc])] at hv
    cases hv
  | some loc =>
  simp only [Store.isLatest, hloc, Bool.not_eq_true', decide_eq_false_iff_not] at hself
  by_cases hlt : v < loc.version
  · -- The version of the message is not the latest, and nothing is recorded.
    rw [if_neg (not_not.2 hlt)] at hself
    have hsame : ∀ t', (st.keepPinned now L t v completeSeq).locations.lookup t' =
        st.locations.lookup t' := by
      intro t'
      by_cases ht' : t' = t
      · rw [ht', hself, hloc]
      · exact hother t' ht'
    refine iff_of_true ⟨fun t' _ => hsame t', fun t' => by rw [hsame], ?_⟩
      ⟨loc, rfl, hlt.le, .inr (.inl hlt)⟩
    rintro ⟨i, hi, hfree⟩
    exact absurd hfree (hfreed i hi)
  · rw [if_pos hlt] at hself
    constructor
    · intro h
      have hv := h.versions t
      rw [hself, hloc] at hv
      refine ⟨loc, rfl, (Option.some.inj hv).le, or_iff_not_imp_left.2 fun hne => .inr ?_⟩
      have hsame := h.others t hne
      rw [hself, hloc] at hsame
      exact (Option.some.inj hsame).symm
    · rintro ⟨loc', hloc', hle, hown⟩
      cases hloc'
      have hversion : loc.version = v := le_antisymm (not_lt.1 hlt) hle
      refine ⟨fun t' hne => ?_, fun t' => ?_, ?_⟩
      · by_cases ht' : t' = t
        · rw [ht'] at hne ⊢
          rw [hself, hloc, (hown.resolve_left hne).resolve_left hlt]
        · exact hother t' ht'
      · by_cases ht' : t' = t
        · rw [ht', hself, hloc]
          exact congrArg some hversion.symm
        · rw [hother t' ht']
      · rintro ⟨i, hi, hfree⟩
        exact absurd hfree (hfreed i hi)

/-! ## Both -/

/-- The completion of an H2D copy that is accepted changes only what it may, if and only if its
    message is harmless. -/
theorem h2d_frame (c : Config) (s s' : State)
    (now rankId rankEpoch id t v slotId completeSeq : ℕ) (keep : Bool)
    (h : applyH2DComplete c s now rankId rankEpoch id t v slotId keep completeSeq = (s', true)) :
    ∃ L, s.store.ownedLease rankId id slotId = some L ∧
      (H2DFrame s.store s'.store L ↔ s.store.Harmless L t v keep) := by
  rw [applyH2DComplete] at h
  split at h
  · cases h
  next L hL =>
  cases h
  refine ⟨L, ?_, ?_⟩
  · rw [h2dLease] at hL
    split at hL
    · cases hL
    · exact (Option.filter_eq_some_iff.1 hL).1
  · unfold completeH2D Store.Harmless
    cases hcold : s.store.h2dCold t L.baseSlot with
    | none => cases keep <;> exact h2dFrame_keep
    | some cold =>
      cases keep with
      | false =>
        simp only [Bool.false_eq_true, if_false]
        exact h2dFrame_giveUp
      | true => exact h2dFrame_keep

/-- A message names the tensor 2, which nobody ever offloaded, in the version 9, for a lease of the
    tensor 1: the tensor 2 is located at the run of the lease. -/
theorem h2d_records_unknown_tensor :
    ∃ s L, Reached oneSlot s ∧
      (applyH2DComplete oneSlot s 7 0 1 2 2 9 0 true 0).2 ∧
      s.store.leases.lookup 2 = some L ∧ L.tensorId = 1 ∧ L.version = 1 ∧
      s.store.locations.lookup 2 = none ∧
      ((applyH2DComplete oneSlot s 7 0 1 2 2 9 0 true 0).1.store.locations.lookup 2).map
        (fun loc => (loc.version, loc.kind)) = some (9, .pinned) :=
  exists_reachable₂ oneSlot _
    (registers :: offloads 1 1 1 1 [1] ++ [prefetches 5 1 1, submitsH2D 6 2]) (by decide +kernel)

/-- A message names the tensor and the version of the lease, which is the latest. -/
theorem h2d_frame_latest :
    ∃ s loc, Reached oneSlot s ∧
      ((applyH2DComplete oneSlot s 7 0 1 2 1 1 0 true 0).2 ∧
        (∀ L, s.store.ownedLease 0 2 0 = some L → L.tensorId = 1) ∧
        s.store.locations.lookup 1 = some loc ∧ loc.version = 1) ∧
      ∃ L, H2DFrame s.store (applyH2DComplete oneSlot s 7 0 1 2 1 1 0 true 0).1.store L := by
  refine exists_reachable₂_and oneSlot _
    (registers :: offloads 1 1 1 1 [1] ++ [prefetches 5 1 1, submitsH2D 6 2]) (by decide +kernel) ?_
  rintro s loc - ⟨hok, hL, hloc, hv⟩
  obtain ⟨L, hown, hiff⟩ := h2d_frame oneSlot s _ 7 0 1 2 1 1 0 0 true (Prod.ext rfl hok)
  exact ⟨L, hiff.2 ⟨loc, hloc, hv.ge, .inl (hL L hown).symm⟩⟩

end StateSpectre
