import Mathlib.Data.Set.Card
import StateSpectre.Latest
import StateSpectre.Pulls

/-!
# Promotion and retention

A version that is sealed with `promote` becomes the latest one of its role, and the sealed
versions beyond the newest `retain_sealed_versions` are retired: their objects are reclaimed one
by one, except those in flight, and the manifest of a version goes if none was in flight.

Two things are promised of this and do not hold. A version that is sealed already is not
promoted any more, though the request is answered ok (`seal_promotes_iff`, `reseal_not_promoted`).
And a version with an object in flight loses the other ones, while its manifest stays and lists
them (`retention_exact_iff`, `retention_halves_version`).
-/

namespace StateSpectre

variable {c : Config} {s s' s'' : State} {vk : VersionKey} {now : ℕ} {req : SealModelVersionRequest}
  {uid : JobUID} {role latest : ℕ} {vk' : VersionKey}

/-! ## The newest of a list -/

/-- In a list that goes down, the items after the first `k` are those with at least `k` above
    them. -/
theorem mem_drop_iff_of_pairwise_gt {α : Type*} [LinearOrder α] {l : List α}
    (h : l.Pairwise (· > ·)) {k : ℕ} {v : α} :
    v ∈ l.drop k ↔ v ∈ l ∧ k ≤ (l.filter (v < ·)).length := by
  induction l generalizing k with
  | nil => simp
  | cons a l ih =>
    obtain ⟨ha, hl⟩ := List.pairwise_cons.1 h
    cases k with
    | zero => simp
    | succ k =>
      rw [List.drop_succ_cons, ih hl]
      constructor
      · rintro ⟨hv, hk⟩
        refine ⟨List.mem_cons_of_mem _ hv, ?_⟩
        rw [List.filter_cons_of_pos (by simpa using ha v hv)]
        exact Nat.succ_le_succ hk
      · rintro ⟨hv, hk⟩
        have hlt : v < a := by
          refine lt_of_not_ge fun hge => ?_
          have hnil : (a :: l).filter (v < ·) = [] := by
            refine List.filter_eq_nil_iff.2 fun b hb => ?_
            rcases List.mem_cons.1 hb with rfl | hb
            · simpa using hge
            · simpa using ((ha b hb).le.trans hge)
          rw [hnil] at hk
          exact absurd hk (Nat.not_succ_le_zero k)
        rw [List.filter_cons_of_pos (by simpa using hlt)] at hk
        exact ⟨(List.mem_cons.1 hv).resolve_left hlt.ne, Nat.le_of_succ_le_succ hk⟩

/-- The sealed versions of a role are listed. -/
theorem mem_sealedVersions {role v : ℕ} :
    v ∈ sealedVersions s uid role ↔ versionSealed s ⟨uid, role, v⟩ := by
  simp only [sealedVersions, List.mem_insertionSort, List.mem_map, List.mem_filter,
    decide_eq_true_eq, Prod.exists, Table.mem_rows, versionSealed_iff]
  constructor
  · rintro ⟨⟨_, _, _⟩, man, ⟨hman, rfl, rfl, hsealed⟩, rfl⟩
    exact ⟨man, hman, hsealed⟩
  · rintro ⟨man, hman, hsealed⟩
    exact ⟨_, man, ⟨hman, rfl, rfl, hsealed⟩, rfl⟩

/-- They are listed once, the newest first. -/
theorem pairwise_sealedVersions (uid : JobUID) (role : ℕ) :
    (sealedVersions s uid role).Pairwise (· > ·) := by
  have hrows := Table.nodup_keys_rows s.catalog.manifests
  have hnodup : ((s.catalog.manifests.rows.filter fun r => r.1.job = uid ∧ r.1.modelRole = role ∧
      r.2.state = .sealed).map (·.1.modelVersion)).Nodup := by
    refine List.Nodup.map_on ?_ ((List.Nodup.of_map _ hrows).filter _)
    rintro ⟨⟨_, _, v⟩, man⟩ hr ⟨⟨_, _, _⟩, man'⟩ hr' rfl
    simp only [List.mem_filter, decide_eq_true_eq] at hr hr'
    obtain ⟨hr, rfl, rfl, -⟩ := hr
    obtain ⟨hr', rfl, rfl, -⟩ := hr'
    exact List.inj_on_of_nodup_map hrows hr hr' rfl
  refine ((List.pairwise_insertionSort _ _).and ((List.perm_insertionSort _ _).nodup_iff.2
    hnodup)).imp ?_
  rintro a b ⟨hge, hne⟩
  exact lt_of_le_of_ne hge (Ne.symm hne)

/-- A version is sealed: it is sealed then, and so are those that were. -/
theorem versionSealed_sealVersion_iff :
    versionSealed (sealVersion s vk) vk' ↔ versionSealed s vk' ∨ vk' = vk := by
  by_cases heq : vk' = vk
  · rw [heq]
    exact iff_of_true (versionSealed_sealVersion s vk) (.inr rfl)
  · rw [or_iff_left heq, versionSealed_iff, versionSealed_iff, sealVersion_eq,
      Table.lookup_insert, if_neg heq]

/-- The versions of a role that are newer than one, once another one is sealed. -/
def State.newer (s : State) (vk : VersionKey) (v : ℕ) : Set ℕ :=
  { u | v < u ∧ (versionSealed s ⟨vk.job, vk.modelRole, u⟩ ∨ u = vk.modelVersion) }

/-- A version that is retired when another one is sealed and promoted: there are `keep` newer
    ones. -/
structure State.Old (s : State) (keep : ℕ) (vk : VersionKey) (v : ℕ) : Prop where
  sealed : versionSealed s ⟨vk.job, vk.modelRole, v⟩
  ne : v ≠ vk.modelVersion
  newer : keep ≤ (s.newer vk v).ncard

/-- The versions that retention goes over, except the promoted one, are those that are old. -/
theorem mem_drop_sealedVersions_iff {keep v : ℕ} (hv : v ≠ vk.modelVersion) :
    v ∈ (sealedVersions (markLatest (sealVersion s vk) vk) vk.job vk.modelRole).drop keep ↔
      s.Old keep vk v := by
  have hmem : ∀ u, u ∈ sealedVersions (markLatest (sealVersion s vk) vk) vk.job vk.modelRole ↔
      versionSealed s ⟨vk.job, vk.modelRole, u⟩ ∨ u = vk.modelVersion := by
    intro u
    have heq : (⟨vk.job, vk.modelRole, u⟩ : VersionKey) = vk ↔ u = vk.modelVersion :=
      ⟨fun h => congrArg VersionKey.modelVersion h, fun h => h ▸ rfl⟩
    rw [mem_sealedVersions, ← heq]
    exact versionSealed_sealVersion_iff
  have hsorted := pairwise_sealedVersions (s := markLatest (sealVersion s vk) vk) vk.job
    vk.modelRole
  have hcount : ((sealedVersions (markLatest (sealVersion s vk) vk) vk.job vk.modelRole).filter
      (v < ·)).length = (s.newer vk v).ncard := by
    rw [← List.toFinset_card_of_nodup ((hsorted.imp ne_of_gt).filter _), ← Set.ncard_coe_finset]
    congr 1
    ext u
    simp [State.newer, hmem, and_comm]
  rw [mem_drop_iff_of_pairwise_gt hsorted, hmem, hcount]
  exact ⟨fun ⟨hs, hk⟩ => ⟨hs.resolve_right hv, hv, hk⟩, fun h => ⟨.inl h.sealed, h.newer⟩⟩

/-! ## What is reclaimed -/

/-- The objects meeting `D` are reclaimed, except those in flight, and no other one. -/
structure Cleared (D : ℕ → CanonicalObject → Prop) (s s' : State) : Prop where
  object_kept : ∀ oid o, s.catalog.objects.lookup oid = some o → (D oid o → o.inFlight) →
    s'.catalog.objects.lookup oid = some o
  object_gone : ∀ oid o, s'.catalog.objects.lookup oid = some o →
    s.catalog.objects.lookup oid = some o ∧ (D oid o → o.inFlight)

namespace Cleared

variable {D D' p : ℕ → CanonicalObject → Prop}

theorem refl (hD : ∀ oid o, s.catalog.objects.lookup oid = some o → D oid o → o.inFlight) :
    Cleared D s s :=
  ⟨fun _ _ ho _ => ho, fun oid o ho => ⟨ho, hD oid o ho⟩⟩

theorem trans (h : Cleared D s s') (h' : Cleared D' s' s'') :
    Cleared (fun oid o => D oid o ∨ D' oid o) s s'' where
  object_kept oid o ho hfl :=
    h'.object_kept oid o (h.object_kept oid o ho fun hd => hfl (.inl hd)) fun hd => hfl (.inr hd)
  object_gone oid o ho := by
    obtain ⟨ho', hd'⟩ := h'.object_gone oid o ho
    obtain ⟨ho, hd⟩ := h.object_gone oid o ho'
    exact ⟨ho, Or.rec hd hd'⟩

/-- What is in flight stays, so that some objects are idle if they were. -/
theorem idle_iff (h : Cleared D s s') :
    (∀ oid o, s'.catalog.objects.lookup oid = some o → p oid o → o.inFlight = false) ↔
      ∀ oid o, s.catalog.objects.lookup oid = some o → p oid o → o.inFlight = false := by
  constructor
  · intro hidle oid o ho hp
    by_contra hfl
    exact hfl (hidle oid o (h.object_kept oid o ho fun _ => by simpa using hfl) hp)
  · exact fun hidle oid o ho hp => hidle oid o (h.object_gone oid o ho).1 hp

theorem congr (h : Cleared D s s')
    (hD : ∀ oid o, s.catalog.objects.lookup oid = some o → (D oid o ↔ D' oid o)) :
    Cleared D' s s' where
  object_kept oid o ho hfl := h.object_kept oid o ho fun hd => hfl ((hD oid o ho).1 hd)
  object_gone oid o ho :=
    have ho' := h.object_gone oid o ho
    ⟨ho'.1, fun hd => ho'.2 ((hD oid o ho'.1).2 hd)⟩

end Cleared

/-- One object of an old version is reclaimed, unless it is in flight. -/
theorem retireObject_cleared (c : Config) (now : ℕ) (r : State × Bool) (oid : ℕ) :
    Cleared (fun oid' _ => oid' = oid) r.1 (retireObject c now r oid).1 := by
  rw [retireObject]
  split
  · next hnone =>
    refine .refl fun oid' o ho heq => ?_
    rw [heq, hnone] at ho
    cases ho
  next o ho =>
  dsimp only
  by_cases hfl : o.inFlight
  · have hsame : (releaseObject c r.1 now oid o).1.catalog = r.1.catalog :=
      releaseObject_catalog.trans (if_pos hfl)
    refine ⟨fun oid' o' ho' _ => hsame ▸ ho', fun oid' o' ho' => ?_⟩
    rw [hsame] at ho'
    refine ⟨ho', ?_⟩
    rintro rfl
    exact Option.some.inj (ho.symm.trans ho') ▸ hfl
  · have herase :
        (releaseObject c r.1 now oid o).1.catalog.objects = r.1.catalog.objects.erase oid := by
      rw [releaseObject_catalog, if_neg hfl]
      rfl
    refine ⟨fun oid' o' ho' hkeep => ?_, fun oid' o' ho' => ?_⟩
    · rw [herase, Table.lookup_erase, if_neg]
      · exact ho'
      · rintro rfl
        exact hfl (Option.some.inj (ho.symm.trans ho') ▸ hkeep rfl)
    · rw [herase, Table.lookup_erase_eq_some] at ho'
      exact ⟨ho'.2, fun heq => absurd heq ho'.1⟩

theorem retireObject_snd (r : State × Bool) (oid : ℕ) : (retireObject c now r oid).2 ↔
    r.2 ∧ ∀ o, r.1.catalog.objects.lookup oid = some o → o.inFlight = false := by
  rw [retireObject]
  split
  · next hnone => simp [hnone]
  · next o ho => simp [ho, releaseObject_snd]

/-- Objects are reclaimed one by one; the manifests stay, and it is known whether one was in
    flight. -/
theorem retireObjects_cleared (c : Config) (now : ℕ) (oids : List ℕ) (r : State × Bool) :
    Cleared (fun oid _ => oid ∈ oids) r.1 (oids.foldl (retireObject c now) r).1 ∧
    (oids.foldl (retireObject c now) r).1.catalog.manifests = r.1.catalog.manifests ∧
    ((oids.foldl (retireObject c now) r).2 ↔ r.2 ∧ ∀ oid o,
      r.1.catalog.objects.lookup oid = some o → oid ∈ oids → o.inFlight = false) := by
  induction oids generalizing r with
  | nil => exact ⟨.refl nofun, rfl, by simp⟩
  | cons oid oids ih =>
    obtain ⟨hclear, hman, hall⟩ := ih (retireObject c now r oid)
    have hone := retireObject_cleared c now r oid
    refine ⟨(hone.trans hclear).congr fun oid' o _ => List.mem_cons.symm,
      hman.trans (retireObject_frame c now r oid).1, ?_⟩
    rw [List.foldl_cons, hall, hone.idle_iff, retireObject_snd, and_assoc]
    refine and_congr_right fun _ => ⟨fun h oid' o ho hmem => ?_, fun h => ⟨?_, ?_⟩⟩
    · rcases List.mem_cons.1 hmem with rfl | hmem
      · exact h.1 o ho
      · exact h.2 oid' o ho hmem
    · exact fun o ho => h oid o ho List.mem_cons_self
    · exact fun oid' o ho hmem => h oid' o ho (List.mem_cons_of_mem _ hmem)

/-! ## What is retired -/

/-- No object of a version is exported or restored. -/
def State.Idle (s : State) (vk : VersionKey) : Prop :=
  ∀ oid o, s.catalog.objects.lookup oid = some o → o.key.versionKey = vk → o.inFlight = false

/-- The versions meeting `P` are retired: their objects go unless they are in flight, and their
    manifests if none is. Nothing else changes. -/
structure Retired (P : VersionKey → Prop) (s s' : State) : Prop
    extends Cleared (fun _ o => P o.key.versionKey) s s' where
  manifest_kept : ∀ vk, ¬(P vk ∧ s.Idle vk) →
    s'.catalog.manifests.lookup vk = s.catalog.manifests.lookup vk
  manifest_gone : ∀ vk, P vk → s.Idle vk → s'.catalog.manifests.lookup vk = none

namespace Retired

variable {P Q : VersionKey → Prop}

theorem refl (hP : ∀ vk, ¬P vk) : Retired P s s where
  toCleared := .refl fun _ _ _ hp => absurd hp (hP _)
  manifest_kept _ _ := rfl
  manifest_gone vk hp := absurd hp (hP vk)

theorem idle_iff (h : Retired P s s') (vk : VersionKey) : s'.Idle vk ↔ s.Idle vk :=
  h.toCleared.idle_iff (p := fun _ o => o.key.versionKey = vk)

/-- Versions are retired one after the other. -/
theorem trans (h : Retired P s s') (h' : Retired Q s' s'') :
    Retired (fun vk => P vk ∨ Q vk) s s'' where
  toCleared := h.toCleared.trans h'.toCleared
  manifest_kept vk hnot := by
    rw [h'.manifest_kept vk fun ⟨hq, hidle⟩ => hnot ⟨.inr hq, (h.idle_iff vk).1 hidle⟩]
    exact h.manifest_kept vk fun ⟨hp, hidle⟩ => hnot ⟨.inl hp, hidle⟩
  manifest_gone vk hpq hidle := by
    by_cases hq : Q vk
    · exact h'.manifest_gone vk hq ((h.idle_iff vk).2 hidle)
    · rw [h'.manifest_kept vk fun ⟨hq', _⟩ => hq hq']
      exact h.manifest_gone vk (hpq.resolve_right hq) hidle

theorem congr (h : Retired P s s') (hPQ : ∀ vk, P vk ↔ Q vk) : Retired Q s s' :=
  (funext fun vk => propext (hPQ vk) : P = Q) ▸ h

end Retired

theorem mem_versionObjects {oid : ℕ} : oid ∈ versionObjects s vk ↔
    ∃ o, s.catalog.objects.lookup oid = some o ∧ o.key.versionKey = vk := by
  simp only [versionObjects, List.mem_map, Prod.exists, mem_versionRows]
  constructor
  · rintro ⟨_, o, ho, rfl⟩
    exact ⟨o, ho⟩
  · rintro ⟨o, ho⟩
    exact ⟨oid, o, ho, rfl⟩

/-- An old version is retired, unless it is the latest one. -/
theorem retireVersion_retired (v : ℕ) : Retired (fun vk => v ≠ latest ∧ vk = ⟨uid, role, v⟩) s
      (retireVersion c now uid role latest s v) := by
  rw [retireVersion]
  split
  · next hv => exact .refl fun vk h => h.1 hv
  next hv =>
  obtain ⟨hclear, hman, hall⟩ := retireObjects_cleared c now
    (versionObjects s ⟨uid, role, v⟩) (s, true)
  have hmem : ∀ oid o, s.catalog.objects.lookup oid = some o →
      (oid ∈ versionObjects s ⟨uid, role, v⟩ ↔ o.key.versionKey = ⟨uid, role, v⟩) := by
    intro oid o ho
    rw [mem_versionObjects]
    refine ⟨?_, fun hvk => ⟨o, ho, hvk⟩⟩
    rintro ⟨o', ho', hvk⟩
    exact Option.some.inj (ho.symm.trans ho') ▸ hvk
  have hclear : Cleared (fun _ o => v ≠ latest ∧ o.key.versionKey = ⟨uid, role, v⟩) s
      (List.foldl (retireObject c now) (s, true) (versionObjects s ⟨uid, role, v⟩)).1 :=
    hclear.congr fun oid o ho => (hmem oid o ho).trans (and_iff_right hv).symm
  have hidle : (List.foldl (retireObject c now) (s, true) (versionObjects s ⟨uid, role, v⟩)).2 ↔
      s.Idle ⟨uid, role, v⟩ := by
    rw [hall, and_iff_right rfl]
    refine forall₂_congr fun oid o => ⟨fun h ho hvk => ?_, fun h ho hm => ?_⟩
    · exact h ho ((hmem oid o ho).2 hvk)
    · exact h ho ((hmem oid o ho).1 hm)
  dsimp only
  split
  · next hfreed =>
    refine ⟨⟨hclear.object_kept, hclear.object_gone⟩, fun vk hnot => ?_, fun vk hvk _ => ?_⟩
    · rw [hman, Table.lookup_erase, if_neg]
      rintro rfl
      exact hnot ⟨⟨hv, rfl⟩, hidle.1 hfreed⟩
    · rw [hvk.2]
      exact AList.lookup_erase _ _
  · next hfreed =>
    refine ⟨hclear, fun vk _ => by rw [hman], fun vk hvk hi => ?_⟩
    rw [hvk.2] at hi
    exact absurd (hidle.2 hi) hfreed

/-- The versions beyond the newest ones are retired, except the latest one. -/
theorem retention_retired (vs : List ℕ) :
    Retired (fun vk => ∃ v ∈ vs, v ≠ latest ∧ vk = ⟨uid, role, v⟩) s
      (vs.foldl (retireVersion c now uid role latest) s) := by
  induction vs generalizing s with
  | nil => exact .refl fun _ ⟨_, h, _⟩ => nomatch h
  | cons v vs ih => exact ((retireVersion_retired v).trans ih).congr fun vk => by simp

/-! ## Exactness -/

/-- The manifest and the objects of a version are as they were. -/
structure VersionKept (s s' : State) (vk : VersionKey) : Prop where
  manifest : s'.catalog.manifests.lookup vk = s.catalog.manifests.lookup vk
  objects : ∀ oid o, o.key.versionKey = vk →
    (s'.catalog.objects.lookup oid = some o ↔ s.catalog.objects.lookup oid = some o)

/-- The manifest and the objects of a version are gone. -/
structure VersionGone (s : State) (vk : VersionKey) : Prop where
  manifest : s.catalog.manifests.lookup vk = none
  objects : ∀ oid o, s.catalog.objects.lookup oid = some o → o.key.versionKey ≠ vk

theorem VersionKept.trans (h : VersionKept s s' vk) (h' : VersionKept s' s'' vk) :
    VersionKept s s'' vk :=
  ⟨h'.manifest.trans h.manifest,
    fun oid o hvk => (h'.objects oid o hvk).trans (h.objects oid o hvk)⟩

theorem VersionKept.idle_iff (h : VersionKept s s' vk) : s'.Idle vk ↔ s.Idle vk :=
  forall₂_congr fun oid o =>
    ⟨fun hi ho hvk => hi ((h.objects oid o hvk).2 ho) hvk,
      fun hi ho hvk => hi ((h.objects oid o hvk).1 ho) hvk⟩

/-- Versions that are not retired are kept, and so are those with all objects in flight. -/
theorem Retired.kept {P : VersionKey → Prop} (h : Retired P s s') (hman : ¬(P vk ∧ s.Idle vk))
    (hobj : P vk → ∀ oid o, s.catalog.objects.lookup oid = some o → o.key.versionKey = vk →
      o.inFlight) : VersionKept s s' vk where
  manifest := h.manifest_kept vk hman
  objects oid o hvk :=
    ⟨fun ho => (h.object_gone oid o ho).1,
      fun ho => h.object_kept oid o ho fun hp => hobj (hvk ▸ hp) oid o ho hvk⟩

theorem Retired.gone {P : VersionKey → Prop} (h : Retired P s s') (hP : P vk) (hi : s.Idle vk) :
    VersionGone s' vk where
  manifest := h.manifest_gone vk hP hi
  objects oid o ho hvk := by
    obtain ⟨ho, hfl⟩ := h.object_gone oid o ho
    exact nomatch (hfl (hvk ▸ hP)).symm.trans (hi oid o ho hvk)

/-- A seal changes no other version. -/
theorem sealVersion_kept (hne : vk' ≠ vk) : VersionKept s (sealVersion s vk) vk' where
  manifest := by
    rw [sealVersion_eq, Table.lookup_insert, if_neg hne]
  objects oid o hvk := by
    rw [lookup_sealVersion]
    by_cases hmem : oid ∈ (sealManifest s vk).objectIds
    · obtain ⟨o', ho', hvk', -⟩ := mem_sealManifest_iff.1 hmem
      rw [ho']
      refine iff_of_false (fun h => hne ?_) fun h => hne ?_
      · rw [Option.map_some, if_pos hmem] at h
        rw [← hvk, ← Option.some.inj h, ← hvk']
      · rw [← hvk, ← Option.some.inj h, hvk']
    · simp [hmem]

/-- After a version was sealed and promoted: it is there as sealed; every other sealed version
    of the role is as before if it is among the newest `keep`, or has an object in flight, and
    gone else; and other roles and jobs are as before. -/
structure RetentionExact (keep : ℕ) (vk : VersionKey) (s s' : State) : Prop where
  promoted : VersionKept (sealVersion s vk) s' vk
  kept : ∀ v, versionSealed s ⟨vk.job, vk.modelRole, v⟩ → v ≠ vk.modelVersion →
    (s.newer vk v).ncard < keep ∨ ¬s.Idle ⟨vk.job, vk.modelRole, v⟩ →
    VersionKept s s' ⟨vk.job, vk.modelRole, v⟩
  gone : ∀ v, versionSealed s ⟨vk.job, vk.modelRole, v⟩ → v ≠ vk.modelVersion →
    keep ≤ (s.newer vk v).ncard → s.Idle ⟨vk.job, vk.modelRole, v⟩ →
    VersionGone s' ⟨vk.job, vk.modelRole, v⟩
  other : ∀ vk' : VersionKey, ¬(vk'.job = vk.job ∧ vk'.modelRole = vk.modelRole) →
    VersionKept s s' vk'

/-- What the promotion of a version that was just sealed retires. -/
theorem promoteVersion_retired (s : State) (vk : VersionKey) (now : ℕ)
    (hkeep : c.retainSealedVersions ≠ 0) :
    Retired (fun vk' => ∃ v, s.Old c.retainSealedVersions vk v ∧ vk' = ⟨vk.job, vk.modelRole, v⟩)
      (markLatest (sealVersion s vk) vk) (promoteVersion c (sealVersion s vk) now vk) := by
  rw [promoteVersion, enforceSealedRetention, if_neg hkeep, lookup_markLatest, Option.getD_some]
  refine (retention_retired _).congr fun vk' => exists_congr fun v => ?_
  constructor
  · rintro ⟨hmem, hne, rfl⟩
    exact ⟨(mem_drop_sealedVersions_iff hne).1 hmem, rfl⟩
  · rintro ⟨hold, rfl⟩
    exact ⟨(mem_drop_sealedVersions_iff hold.ne).2 hold, hold.ne, rfl⟩

/-- The promoted version stays as it was sealed. -/
theorem promoteVersion_kept :
    VersionKept (sealVersion s vk) (promoteVersion c (sealVersion s vk) now vk) vk := by
  by_cases hkeep : c.retainSealedVersions = 0
  · rw [promoteVersion, enforceSealedRetention, if_pos hkeep]
    exact ⟨rfl, fun _ _ _ => .rfl⟩
  have hnot : ¬∃ v, s.Old c.retainSealedVersions vk v ∧ vk = ⟨vk.job, vk.modelRole, v⟩ := by
    rintro ⟨v, hold, heq⟩
    exact hold.ne (congrArg VersionKey.modelVersion heq).symm
  have hk := (promoteVersion_retired s vk now hkeep).kept (fun h => hnot h.1)
    fun h => absurd h hnot
  exact ⟨hk.manifest, hk.objects⟩

/-- A seal that is not refused. -/
structure SealsNow (c : Config) (s : State) (req : SealModelVersionRequest) : Prop where
  fresh : sealCheck c s req = none
  complete : sealFails c s req = false

theorem SealsNow.promotes (h : SealsNow c s req) (hp : req.promote) (now : ℕ) :
    (handleSealModelVersion c s now req).1 =
      promoteVersion c (sealVersion s req.versionKey) now req.versionKey := by
  rw [handleSealModelVersion, h.fresh]
  dsimp only
  rw [if_neg (by simp [h.complete])]
  exact if_pos hp

/-- A seal that promotes its version retires exactly what it should if and only if no old
    version has both an object in flight and one that is not. -/
theorem retention_exact_iff {req : SealModelVersionRequest} (h : SealsNow c s req)
    (hp : req.promote) (hkeep : 0 < c.retainSealedVersions) :
    RetentionExact c.retainSealedVersions req.versionKey s (handleSealModelVersion c s now req).1 ↔
      ∀ v, s.Old c.retainSealedVersions req.versionKey v →
        ¬s.Idle ⟨req.job, req.modelRole, v⟩ → ∀ oid o, s.catalog.objects.lookup oid = some o →
        o.key.versionKey = ⟨req.job, req.modelRole, v⟩ → o.inFlight := by
  rw [h.promotes hp now]
  generalize hvk : req.versionKey = vk
  have hjob : req.job = vk.job := hvk ▸ rfl
  have hrole : req.modelRole = vk.modelRole := hvk ▸ rfl
  rw [hjob, hrole]
  have hret := promoteVersion_retired s vk now hkeep.ne'
  have hseal : ∀ {v}, v ≠ vk.modelVersion → VersionKept s (markLatest (sealVersion s vk) vk)
      ⟨vk.job, vk.modelRole, v⟩ := fun hv =>
    let hk := sealVersion_kept (s := s) fun heq => hv (congrArg VersionKey.modelVersion heq)
    ⟨hk.manifest, hk.objects⟩
  constructor
  · intro hexact v hold hfl oid o ho hvk
    have hkept := hexact.kept v hold.sealed hold.ne (.inr hfl)
    exact (hret.object_gone oid o ((hkept.objects oid o hvk).2 ho)).2 ⟨v, hold, hvk⟩
  · intro hall
    refine ⟨?_, fun v hv hne hor => ?_, fun v hv hne hn hi => ?_, fun vk' hvk' => ?_⟩
    · exact promoteVersion_kept
    · have hk := hseal hne
      refine hk.trans (hret.kept ?_ ?_)
      · rintro ⟨⟨v', hold, heq⟩, hi⟩
        cases heq
        exact hor.elim (fun hlt => absurd hold.newer hlt.not_ge) fun hfl => hfl (hk.idle_iff.1 hi)
      · rintro ⟨v', hold, heq⟩ oid o ho hvk'
        cases heq
        have hfl := hor.resolve_left fun hlt => absurd hold.newer hlt.not_ge
        exact hall v hold hfl oid o ((hk.objects oid o hvk').1 ho) hvk'
    · exact hret.gone ⟨v, ⟨hv, hne, hn⟩, rfl⟩ ((hseal hne).idle_iff.2 hi)
    · have hne : vk' ≠ vk := fun heq => hvk' ⟨heq ▸ rfl, heq ▸ rfl⟩
      have hnot : ¬∃ v, s.Old c.retainSealedVersions vk v ∧ vk' = ⟨vk.job, vk.modelRole, v⟩ :=
        fun ⟨v, _, heq⟩ => hvk' ⟨heq ▸ rfl, heq ▸ rfl⟩
      have hk := sealVersion_kept (s := s) hne
      have hk' : VersionKept _ _ vk' := hret.kept (fun h => hnot h.1) fun h => absurd h hnot
      exact hk.trans ⟨hk'.manifest, hk'.objects⟩

/-- A daemon with one slot that keeps one sealed version. -/
def keepsOne : Config := { oneSlot with retainSealedVersions := 1 }

/-- The request to seal and promote the version 2, which may have no objects. -/
def promoteSecond : SealModelVersionRequest :=
  { sealRequest with modelVersion := 2, promote := true }

/-- Two objects of the version 1 are created, the first one drained for the second, and the
    version is sealed. -/
def sealsTwo : List Action :=
  [registers, registersJob] ++ creates 1 1 1 [1] ++ (creates 2 2 2 [2]).take 1 ++
    [.io 0 .ok, .proceed 2 0] ++ (creates 2 2 2 [2]).drop 1 ++ [seals 4]

/-- Two objects of a version are sealed, and one of them is being restored when another version
    is promoted: the other object is gone, though the manifest still lists it. -/
theorem retention_halves_version :
    ∃ s s' r, Reached keepsOne s ∧
      (step keepsOne s (.rpc 6 (.seal promoteSecond)) = some (s', .seal r) ∧
        (sealCheck keepsOne s promoteSecond = none ∧ sealFails keepsOne s promoteSecond = false ∧
          versionSealed s theVersion) ∧
        (∃ man, s'.catalog.manifests.lookup theVersion = some man ∧ man.objectIds = [1, 2]) ∧
        (∃ o, s.catalog.objects.lookup 1 = some o ∧ o.key.versionKey = theVersion) ∧
        (∃ o, s.catalog.objects.lookup 2 = some o ∧ o.key.versionKey = theVersion ∧ o.inFlight) ∧
        s'.catalog.objects.lookup 1 = none ∧ (s'.catalog.objects.lookup 2).isSome) ∧
      ¬RetentionExact keepsOne.retainSealedVersions promoteSecond.versionKey s s' := by
  refine exists_reachable₃_and keepsOne _ (sealsTwo ++ [restores 5 2]) (by decide +kernel) ?_
  rintro s s' r - ⟨-, ⟨-, -, hsealed⟩, -, ⟨o₁, ho₁, hvk₁⟩, ⟨o₂, ho₂, hvk₂, hfl⟩, hgone, -⟩ hexact
  have hkept := hexact.kept 1 hsealed (by decide) (.inr fun hidle => ?_)
  · exact nomatch hgone.symm.trans ((hkept.objects 1 o₁ hvk₁).2 ho₁)
  · exact nomatch hfl.symm.trans (hidle 2 o₂ ho₂ hvk₂)

/-- The same without the restore: the version is gone. -/
theorem retention_exact_idle :
    ∃ s, Reached keepsOne s ∧
      (sealCheck keepsOne s promoteSecond = none ∧ sealFails keepsOne s promoteSecond = false ∧
        (∀ oid o, s.catalog.objects.lookup oid = some o → o.inFlight = false) ∧
        versionSealed s theVersion ∧
        ¬versionSealed (handleSealModelVersion keepsOne s 6 promoteSecond).1 theVersion) ∧
      RetentionExact keepsOne.retainSealedVersions promoteSecond.versionKey s
        (handleSealModelVersion keepsOne s 6 promoteSecond).1 := by
  refine exists_reachable_and keepsOne _ sealsTwo (by decide +kernel) ?_
  rintro s - ⟨hfresh, hpass, hidle, -⟩
  refine (retention_exact_iff ⟨hfresh, hpass⟩ rfl (by decide)).2 fun v _ hfl => ?_
  exact absurd (fun oid o ho _ => hidle oid o ho) hfl

/-! ## Promotion -/

/-- A version is the latest one of its role, and is there with its objects. -/
structure PromotionTakesEffect (vk : VersionKey) (s s' : State) : Prop where
  latest : s'.catalog.latestSealed.lookup ⟨vk.job, vk.modelRole⟩ = some vk.modelVersion
  manifest : versionSealed s' vk
  objects : ∀ oid o, s.catalog.objects.lookup oid = some o → o.key.versionKey = vk →
    (s'.catalog.objects.lookup oid).isSome

/-- Retention leaves the latest version as it is. -/
theorem promoteVersion_latestSealed :
    (promoteVersion c s now vk).catalog.latestSealed = (markLatest s vk).catalog.latestSealed := by
  rw [promoteVersion, enforceSealedRetention]
  split
  · rfl
  · exact foldl_invariant
      (motive := fun s' : State =>
        s'.catalog.latestSealed = (markLatest s vk).catalog.latestSealed)
      (fun _ _ hs' => retireVersion_latestSealed.trans hs') _ rfl

/-- A version that was just sealed is promoted. -/
theorem promoteVersion_takesEffect :
    PromotionTakesEffect vk s (promoteVersion c (sealVersion s vk) now vk) where
  latest := by rw [promoteVersion_latestSealed, lookup_markLatest]
  manifest := by
    rw [versionSealed, promoteVersion_kept.manifest]
    exact versionSealed_sealVersion s vk
  objects oid o ho hvk := by
    obtain ⟨o', ho', hvk'⟩ : ∃ o', (sealVersion s vk).catalog.objects.lookup oid = some o' ∧
        o'.key.versionKey = vk := by
      rw [lookup_sealVersion, ho]
      refine ⟨_, rfl, ?_⟩
      split <;> exact hvk
    rw [(promoteVersion_kept.objects oid o' hvk').2 ho']
    rfl

/-- A seal that is answered ok at once is of a version that is sealed already. -/
theorem versionSealed_of_sealCheck {resp : SealModelVersionResponse}
    (h : sealCheck c s req = some resp) (hok : resp.ok) : versionSealed s req.versionKey := by
  rw [sealCheck] at h
  split at h
  · cases h
    cases hok
  split at h
  · cases h
    cases hok
  · obtain ⟨man, hman, -⟩ := Option.map_eq_some_iff.1 h
    obtain ⟨hman, hsealed⟩ := Option.filter_eq_some_iff.1 hman
    exact versionSealed_iff.2 ⟨man, hman, of_decide_eq_true hsealed⟩

/-- A request to seal and promote a version that is answered ok takes effect if and only if the
    version was not sealed before, or is the latest one already. -/
theorem seal_promotes_iff {req : SealModelVersionRequest} {resp : SealModelVersionResponse}
    (h : handleSealModelVersion c s now req = (s', .seal resp)) (hok : resp.ok)
    (hp : req.promote) :
    PromotionTakesEffect req.versionKey s s' ↔
      versionSealed s req.versionKey = false ∨
        s.catalog.latestSealed.lookup ⟨req.job, req.modelRole⟩ = some req.modelVersion := by
  rcases hcheck : sealCheck c s req with _ | resp'
  · by_cases hfails : sealFails c s req
    · rw [handleSealModelVersion, hcheck] at h
      dsimp only at h
      rw [if_pos hfails] at h
      cases h
      cases hok
    · have hs' := SealsNow.promotes ⟨hcheck, by simpa using hfails⟩ hp now
      rw [h] at hs'
      dsimp only at hs'
      rw [hs']
      exact iff_of_true promoteVersion_takesEffect (.inl (sealCheck_eq_none hcheck).2)
  · rw [handleSealModelVersion, hcheck] at h
    cases h
    have hsealed := versionSealed_of_sealCheck hcheck hok
    constructor
    · exact fun heff => .inr heff.latest
    · rintro (hopen | hlatest)
      · cases hopen.symm.trans hsealed
      · exact ⟨hlatest, hsealed, fun oid o ho _ => by rw [ho]; rfl⟩

/-- A version is sealed, and then sealed again with `promote`: the answer is ok, and the role
    has no latest version. -/
theorem reseal_not_promoted :
    ∃ s s' r, Reached oneSlot s ∧
      step oneSlot s (.rpc 4 (.seal { sealRequest with promote := true })) = some (s', .seal r) ∧
      r.ok ∧ s'.catalog.latestSealed.lookup ⟨theJob, 0⟩ = none :=
  exists_reachable₃ oneSlot _ ([registers, registersJob] ++ creates 1 1 1 [1] ++ [seals 3])
    (by decide +kernel)

/-- A version is promoted, and then sealed again with `promote`: it is still the latest one. -/
theorem seal_promotes_again :
    ∃ s s' r, Reached oneSlot s ∧
      (handleSealModelVersion oneSlot s 4 { sealRequest with promote := true } = (s', .seal r) ∧
        r.ok ∧ versionSealed s theVersion ∧
        s.catalog.latestSealed.lookup ⟨theJob, 0⟩ = some 1) ∧
      PromotionTakesEffect theVersion s s' := by
  refine exists_reachable₃_and oneSlot _ ([registers, registersJob] ++ creates 1 1 1 [1] ++
    [.rpc 3 (.seal { sealRequest with promote := true })]) (by decide +kernel) ?_
  rintro s s' r - ⟨hans, hok, -, hlatest⟩
  exact (seal_promotes_iff hans hok rfl).2 (.inr hlatest)

end StateSpectre
