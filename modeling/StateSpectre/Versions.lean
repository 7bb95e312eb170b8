import StateSpectre.Contents.Step

/-!
# Versions of locations

The location of a tensor only moves on to the same or a later version, so that it
is of the highest version of which a copy was accepted (`Versions`). For that it
must not be dropped: only those of canonical objects may, all of whose copies are of
the same version. A location that is not `NONE` then leads to the bytes of a copy
accepted for its tensor and version, in the pinned memory or in the cold store
(`Sound.bytesAt`).
-/

namespace StateSpectre

variable {c : Config} {st st' : Store} {t v : ℕ} {loc : Location}
  {slotId cref nbytes : ℕ} {kind : LocationKind} {e : AcceptedD2H}

/-! ## The versions accepted -/

/-- What the daemon does not check about versions: that a synthetic tensor is of the
    version of all, and that only the locations of such tensors are dropped. -/
abbrev versionGuards : Guards where
  publish _ L := isCanonicalTid L.tensorId → L.version = canonicalVersion
  dropLocation _ t := isCanonicalTid t

/-- The tiers of the locations, and how their versions compare with those of the
    copies accepted. -/
structure Versions (st : Store) : Prop where
  kinds : ∀ t loc, st.locations.lookup t = some loc →
    loc.kind = .none ∨ loc.kind = .pinned ∨ loc.kind.IsCold
  synthetic : ∀ e ∈ st.history.accepted, isCanonicalTid e.tensorId → e.version = canonicalVersion
  present : ∀ e ∈ st.history.accepted, ¬isCanonicalTid e.tensorId →
    (st.locations.lookup e.tensorId).isSome
  latest : ∀ e ∈ st.history.accepted, ∀ loc, st.locations.lookup e.tensorId = some loc →
    e.version ≤ loc.version

/-- After an update, the location is of that version or a later one. -/
theorem Store.exists_lookup_update :
    ∃ loc, (st.updateLocationIfLatest t v kind slotId cref nbytes).locations.lookup t = some loc ∧
      v ≤ loc.version := by
  unfold Store.updateLocationIfLatest
  split
  · exact ⟨_, AList.lookup_insert _, le_rfl⟩
  · next hlate =>
    unfold Store.isLatest at hlate
    split at hlate
    · next loc hloc =>
      have hlt : v < loc.version := by simpa using hlate
      exact ⟨loc, hloc, hlt.le⟩
    · exact absurd rfl hlate

namespace Versions

/-- Only the locations and the copies accepted count. -/
theorem congr (h : Versions st) (hl : st'.locations = st.locations)
    (ha : st'.history.accepted = st.history.accepted) : Versions st' := by
  refine ⟨?_, ?_, ?_, ?_⟩ <;> simp only [hl, ha]
  exacts [h.kinds, h.synthetic, h.present, h.latest]

/-- A version that is good enough for the location is the highest one accepted. -/
theorem le_of_isLatest (h : Versions st) (he : e ∈ st.history.accepted)
    (hv : isCanonicalTid e.tensorId → v = canonicalVersion) (hlate : st.isLatest e.tensorId v) :
    e.version ≤ v := by
  cases hloc : st.locations.lookup e.tensorId with
  | some loc =>
    have hle : loc.version ≤ v := by simpa [Store.isLatest, hloc] using hlate
    exact (h.latest e he loc hloc).trans hle
  | none =>
    by_cases hcan : isCanonicalTid e.tensorId
    · rw [h.synthetic e he hcan, hv hcan]
    · have hsome := h.present e he hcan
      rw [hloc] at hsome
      cases hsome

theorem updateLocationIfLatest (h : Versions st) (hk : kind = .none ∨ kind = .pinned ∨ kind.IsCold)
    (hv : isCanonicalTid t → v = canonicalVersion) :
    Versions (st.updateLocationIfLatest t v kind slotId cref nbytes) := by
  unfold Store.updateLocationIfLatest
  split
  · next hlate =>
    refine ⟨fun t' loc' hloc => ?_, h.synthetic, fun e he hcan => ?_, fun e he loc' hloc => ?_⟩
    · rcases Table.lookup_insert_eq_some.1 hloc with ⟨-, rfl⟩ | ⟨-, hloc⟩
      · exact hk
      · exact h.kinds t' loc' hloc
    · rw [Table.lookup_insert]
      split
      · rfl
      · exact h.present e he hcan
    · rcases Table.lookup_insert_eq_some.1 hloc with ⟨ht, rfl⟩ | ⟨-, hloc⟩
      · exact h.le_of_isLatest he (ht ▸ hv) (ht ▸ hlate)
      · exact h.latest e he loc' hloc
  · exact ⟨h.kinds, h.synthetic, h.present, h.latest⟩

/-- A location changes, but not its version. -/
theorem modifyLocation {f : Location → Location} (h : Versions st)
    (hf : ∀ loc, f loc = loc ∨ (f loc).version = loc.version ∧
      ((f loc).kind = .none ∨ (f loc).kind.IsCold)) :
    Versions { st with locations := st.locations.modify t f } where
  kinds t' loc' hloc := by
    obtain ⟨rfl, old, hold, rfl⟩ | ⟨-, hloc⟩ := Table.lookup_modify_eq_some.1 hloc
    · obtain hsame | ⟨-, hk⟩ := hf old
      · exact hsame.symm ▸ h.kinds t' old hold
      · exact hk.imp_right .inr
    · exact h.kinds t' loc' hloc
  synthetic := h.synthetic
  present e he hcan := by
    rw [Table.lookup_modify]
    have hsome := h.present e he hcan
    split
    · next ht =>
      rw [← ht, Option.isSome_map]
      exact hsome
    · exact hsome
  latest e he loc' hloc := by
    obtain ⟨ht, old, hold, rfl⟩ | ⟨-, hloc⟩ := Table.lookup_modify_eq_some.1 hloc
    · have hle := h.latest e he old (ht ▸ hold)
      obtain hsame | ⟨hv, -⟩ := hf old
      · rwa [hsame]
      · rwa [hv]
    · exact h.latest e he loc' hloc

/-- A copy is accepted, and the location is of its version or a later one. -/
theorem accept (h : Versions st) (hv : isCanonicalTid e.tensorId → e.version = canonicalVersion)
    (hloc : ∃ loc, st.locations.lookup e.tensorId = some loc ∧ e.version ≤ loc.version) :
    Versions (st.accept e) := by
  obtain ⟨loc, hloc, hle⟩ := hloc
  refine ⟨h.kinds, fun e' he' hcan => ?_, fun e' he' hcan => ?_, fun e' he' loc' hloc' => ?_⟩
  all_goals rcases List.mem_cons.1 he' with rfl | he'
  · exact hv hcan
  · exact h.synthetic e' he' hcan
  · exact Option.isSome_of_eq_some hloc
  · exact h.present e' he' hcan
  · cases hloc.symm.trans hloc'
    exact hle
  · exact h.latest e' he' loc' hloc'

/-- Bytes that are good for a synthetic tensor are of the version of all. -/
theorem of_good {data : List Bytes} (h : Versions st)
    (hg : Provenance.any.good st.history.accepted t v data) (hcan : isCanonicalTid t) :
    v = canonicalVersion := by
  obtain ⟨e, he, hd⟩ := List.mem_map.1 hg
  obtain ⟨rfl, rfl, -⟩ := Prod.mk.inj hd |>.imp_right Prod.mk.inj
  exact h.synthetic e he hcan

/-- Every transition keeps the versions, if it meets the guards. -/
theorem step {g : Guards} {p p' : Option Purpose} (h : Versions st)
    (hs : Sound c Provenance.any st p) (hg : g.Implies (contentGuards c Provenance.any))
    (hv : g.Implies versionGuards) (hstep : StoreStep c g (st, p) (st', p')) : Versions st' := by
  cases hstep with
  | @drainSettled _ i w cold hi =>
    obtain ⟨h₀, hok, -⟩ := hs.contents.finish hi rfl
    obtain ⟨ht, hversion⟩ := Prod.mk.inj (hok.tags _ rfl)
    have hkind := hs.kinds.drained _ (List.mem_of_getElem? hi) _ rfl
    have hcan := h.of_good (h₀.run.data (hok.hasData rfl))
    rw [← ht, ← hversion] at hcan
    have h₁ : Versions (((st.dropTask i).addCold cold).mapRun w.baseSlot w.slotCount fun _ e =>
      { e with coldRef := st.nextColdRef }) := h.congr rfl rfl
    exact (h₁.updateLocationIfLatest (.inr (.inr hkind)) hcan).congr rfl rfl
  | @readbackDone _ i job now hi =>
    obtain ⟨h₀, hok, -⟩ := hs.contents.finish hi rfl
    have h₁ : Versions ((st.dropTask i).setRunState now job.baseSlot job.slotCount .pinnedValid) :=
      h.congr rfl rfl
    exact h₁.updateLocationIfLatest (.inr (.inl rfl)) (h.of_good (hok.read rfl))
  | @warmDone _ i req base count nbytes now hi hb =>
    have h₁ : Versions ((st.dropTask i).setRunState now base count .pinnedValid) := h.congr rfl rfl
    obtain ⟨hversion, -⟩ := hg.bindWarm hb
    cases hloc : st.locations.lookup (canonicalTid req.objectId) with
    | none =>
      rw [show (st.dropTask i).locations.lookup _ = _ from hloc] at hversion
      cases hversion
    | some loc =>
      rw [show (st.dropTask i).locations.lookup _ = _ from hloc] at hversion
      have h₂ : Versions (((st.dropTask i).setRunState now base count .pinnedValid
          ).updateLocationIfLatest (canonicalTid req.objectId) loc.version .pinned base loc.coldRef
            nbytes) := h₁.updateLocationIfLatest (.inr (.inl rfl)) fun _ => hversion
      refine h₂.congr ?_ rfl
      have hlate : ((st.dropTask i).setRunState now base count .pinnedValid).isLatest
          (canonicalTid req.objectId) loc.version := by
        simp [Store.isLatest, Store.setRunState, Store.mapRun, Store.dropTask, hloc]
      simp only [Store.updateLocationIfLatest, if_pos hlate]
      simp [Store.bindWarm, Store.dropTask, Store.setRunState, Store.mapRun, hloc]
  | @publish _ id L now seq hL hst hp =>
    have h₁ : Versions (st.mapRun L.baseSlot L.slotCount fun _ e =>
      { e with completeSeq := seq, state := .pinnedValid, lastTouchNs := now }) := h.congr rfl rfl
    exact (h₁.updateLocationIfLatest (.inr (.inl rfl)) (hv.publish hp)).accept (hv.publish hp)
      Store.exists_lookup_update
  | @keepPinned _ id L now t v seq hL hst hh =>
    have hinv := hs.contents.runs _ (Store.used_of_lease hL)
    have hst : (st.slots L.baseSlot).state = .h2dInFlight := hst
    have hcan := h.of_good (hinv.run.data (by rw [hst]; rfl))
    obtain ⟨ht, hversion⟩ := Prod.mk.inj ((hg.h2d hh).1.trans (hinv.lease id L hL rfl).tags)
    rw [← ht, ← hversion] at hcan
    have h₁ : Versions (st.mapRun L.baseSlot L.slotCount fun _ e =>
      { e with completeSeq := seq, state := .pinnedValid, lastTouchNs := now }) := h.congr rfl rfl
    exact h₁.updateLocationIfLatest (.inr (.inl rfl)) hcan
  | fallBack _ _ hcold =>
    refine (h.modifyLocation fun loc => ?_).congr rfl rfl
    unfold Location.fallBack
    split
    · exact .inr ⟨rfl, .inr (hs.kinds.stored _ _ (Store.h2dCold_eq_some hcold).2)⟩
    · exact .inl rfl
  | release =>
    refine (h.modifyLocation fun loc => ?_).congr rfl rfl
    unfold Location.forget
    split
    · exact .inr ⟨rfl, .inl rfl⟩
    · exact .inl rfl
  | @dropLocation _ t ht =>
    refine ⟨fun t' loc hloc => h.kinds t' loc (Table.lookup_of_lookup_erase hloc), h.synthetic,
      fun e he hcan => ?_,
      fun e he loc hloc => h.latest e he loc (Table.lookup_of_lookup_erase hloc)⟩
    have hne : e.tensorId ≠ t := fun hne => hcan (hne ▸ hv.dropLocation ht)
    rw [Store.dropLocation, Table.lookup_erase, if_neg hne]
    exact h.present e he hcan
  | _ => exact h.congr rfl rfl

end Versions

end StateSpectre
