import StateSpectre.Refinement.Objects

/-!
# Sealed versions, exports and restores as moves

The handlers of the rollout side as sequences of moves: a version is sealed and old ones
are retired, a version is dropped, an object is exported or restored.
-/

namespace StateSpectre

variable {c : Config} {g : Guards} {k : Rules} {s : State} {now : ℕ} {h : Hand}
  {req : PullTensorRequest} {o : CanonicalObject} {role latest version : ℕ} {uid : JobUID}

/-! ## Sealed versions -/

/-- An object of a version is dropped. -/
theorem drop_moves {oid : ℕ} (hg : g.okDrop s oid) (hk : k.Met (dropEvents c s now oid)) {o}
    (ho : s.catalog.objects.lookup oid = some o) :
    Turns c g k s (releaseObject c s now oid o).1 := by
  rw [dropEvents, ho] at hk
  exact releaseObject_moves ho (hg o ho) hk

theorem handleDropCanonicalVersion_moves {req : DropCanonicalVersionRequest}
    (hg : g.okDropVersion c s now req) (hk : k.Met (requestEvents c s now (.drop req))) :
    Turns c g k s (handleDropCanonicalVersion c s now req).1 := by
  rw [handleDropCanonicalVersion]
  split
  · exact .refl _
  split
  · exact .refl _
  next j hj =>
    have hone : ∀ (r : State × DropCanonicalVersionResponse) oid,
        g.okDrop r.1 oid ∧ k.Met (dropEvents c r.1 now oid) →
        Turns c g k r.1 (dropObject c now r oid).1 := by
      rintro r oid ⟨hr, hkr⟩
      rw [dropObject]
      split
      · exact .refl _
      · next o ho => exact drop_moves hr hkr ho
    rw [requestEvents, dropVersionEvents, Rules.met_append, Rules.met_singleton] at hk
    have hall := Turns.foldl (p := fun r : State × DropCanonicalVersionResponse => r.1) hone
      ((hg (by rw [hj]; rfl)).and hk.1.along)
    exact hall.tail fun _ => .forgetVersion hk.2

/-- Reclaiming an object of an old version leaves the manifests and the latest versions as they
    are. -/
theorem retireObject_frame (c : Config) (now : ℕ) (r : State × Bool) (oid : ℕ) :
    (retireObject c now r oid).1.catalog.manifests = r.1.catalog.manifests ∧
      (retireObject c now r oid).1.catalog.latestSealed = r.1.catalog.latestSealed := by
  rw [retireObject]
  split
  · exact ⟨rfl, rfl⟩
  · dsimp only
    rw [releaseObject_catalog]
    split <;> exact ⟨rfl, rfl⟩

theorem retireObjects_latestSealed (oids : List ℕ) :
    (oids.foldl (retireObject c now) (s, true)).1.catalog.latestSealed = s.catalog.latestSealed :=
  foldl_invariant
    (motive := fun r : State × Bool => r.1.catalog.latestSealed = s.catalog.latestSealed)
    (fun r oid hr => (retireObject_frame c now r oid).2.trans hr) oids rfl

theorem retireVersion_latestSealed :
    (retireVersion c now uid role latest s version).catalog.latestSealed =
      s.catalog.latestSealed := by
  rw [retireVersion]
  split
  · rfl
  dsimp only
  split
  · exact retireObjects_latestSealed _
  · exact retireObjects_latestSealed _

theorem retireVersion_moves (hlatest : s.catalog.latestSealed.lookup ⟨uid, role⟩ = some latest)
    (hg : g.okRetire c now uid role latest s version)
    (hk : k.Met (retireEvents c now uid role latest s version)) :
    Turns c g k s (retireVersion c now uid role latest s version) := by
  by_cases hv : version = latest
  · rw [retireVersion, if_pos hv]
  have hone : ∀ (r : State × Bool) oid, g.okDrop r.1 oid ∧ k.Met (dropEvents c r.1 now oid) →
      Turns c g k r.1 (retireObject c now r oid).1 := by
    rintro r oid ⟨hr, hkr⟩
    rw [retireObject]
    split
    · exact .refl _
    · next o ho => exact drop_moves hr hkr ho
  rw [retireEvents, if_neg hv] at hk
  have hall := Turns.foldl (p := fun r : State × Bool => r.1) hone ((hg hv).and hk.along)
  rw [retireVersion, if_neg hv]
  dsimp only
  split
  · refine hall.tail fun _ => .retire fun hv' => hv ?_
    rw [retireObjects_latestSealed, hlatest] at hv'
    exact (Option.some.inj hv').symm
  · exact hall

/-- Old versions are retired once a version is the latest one. -/
theorem promoted_moves {vk : VersionKey}
    (hg : g.okRetention c (markLatest s vk) now vk.job vk.modelRole)
    (hk : k.Met (retentionEvents c (markLatest s vk) now vk.job vk.modelRole)) :
    Turns c g k (markLatest s vk) (promoteVersion c s now vk) := by
  by_cases hr : c.retainSealedVersions = 0
  · rw [promoteVersion, enforceSealedRetention, if_pos hr]
  rw [retentionEvents, if_neg hr] at hk
  rw [promoteVersion, enforceSealedRetention, if_neg hr]
  -- The latest version stays what it is while the others are retired.
  refine (((hg hr).and hk.along).foldl_invariant (motive := fun s' =>
    s'.catalog.latestSealed = (markLatest s vk).catalog.latestSealed ∧
      Turns c g k (markLatest s vk) s') ?_ ⟨rfl, .refl _⟩).2
  rintro s' version ⟨hsame, hmoves⟩ ⟨hg', hk'⟩
  refine ⟨retireVersion_latestSealed.trans hsame, hmoves.trans (retireVersion_moves ?_ hg' hk')⟩
  rw [hsame, lookup_markLatest]
  rfl

/-- A job and no sealed version is what a seal that goes on has found. -/
theorem sealCheck_eq_none {req : SealModelVersionRequest} (h : sealCheck c s req = none) :
    (s.catalog.jobs.lookup req.job).isSome ∧
      versionSealed s ⟨req.job, req.modelRole, req.modelVersion⟩ = false := by
  rw [sealCheck] at h
  split at h
  · cases h
  split at h
  · cases h
  next j hj =>
    refine ⟨by rw [hj]; rfl, ?_⟩
    rw [Option.map_eq_none_iff, Option.filter_eq_none_iff] at h
    rw [versionSealed]
    split
    · next m hm => simpa using h m hm
    · rfl

theorem handleSealModelVersion_moves {req : SealModelVersionRequest} (hg : g.okSeal c s now req)
    (hk : k.Met (sealEvents c s now req)) :
    Turns c g k s (handleSealModelVersion c s now req).1 := by
  rw [handleSealModelVersion]
  dsimp only
  split
  · exact .refl _
  next hc =>
  obtain ⟨hjob, hopen⟩ := sealCheck_eq_none hc
  split
  · exact .single fun _ => .failSeal hopen rfl
  next hf =>
    have hf : sealFails c s req = false := by simpa using hf
    rw [sealEvents, hc] at hk
    dsimp only at hk
    rw [if_neg (by simp [hf]), Rules.met_cons] at hk
    obtain ⟨hkseal, hkret⟩ := hk
    have hseal : Turns c g k s (sealVersion s ⟨req.job, req.modelRole, req.modelVersion⟩) := by
      rw [sealVersion_frame]
      exact .single fun _ => .sealVersion hjob hopen hkseal
    split
    · next hp =>
      rw [if_pos hp, Rules.met_cons] at hkret
      have hmark := hseal.tail fun h =>
        Move.markLatest (h := h) (versionSealed_sealVersion s _) hkret.1
      exact hmark.trans (promoted_moves (fun hr => hg hc hf hp hr) hkret.2)
    · exact hseal

/-! ## Exports and restores -/

/-- The objects after a pull that began and failed at once. -/
theorem failStaging_startExport :
    (failStaging (startExport s req o) (o.pullLocals req)).1.catalog.objects =
      s.catalog.objects.modify req.objectId fun o' =>
        { o' with exportRefcount := decU32 (o'.exportRefcount + 1), state := o.state } :=
  Table.modify_modify ..

/-- What a pull that is not refused has found. -/
theorem pullCheck_eq_ok (h : pullCheck c s req = .ok o) :
    ∃ j man, s.catalog.jobs.lookup req.job = some j ∧
      s.catalog.manifests.lookup ⟨req.job, req.modelRole, req.modelVersion⟩ = some man ∧
      man.state = .sealed ∧ s.catalog.objects.lookup req.objectId = some o ∧ o.state = .sealed ∧
      req.objectId ∈ man.objectIds ∧
      ¬(0 < c.maxConcurrentExportsPerJob ∧ 0 < j.inflightExportBytes ∧
        0 < j.maxInflightExportBytes ∧
        j.maxInflightExportBytes < addU64 j.inflightExportBytes o.nbytes) := by
  rw [pullCheck] at h
  split at h
  · cases h
  split at h
  · cases h
  next j hj =>
  split at h
  · cases h
  next man hman =>
  obtain ⟨hman, hsealed⟩ := Option.filter_eq_some_iff.1 hman
  split at h
  · cases h
  next o' ho =>
  split at h
  · cases h
  next hst =>
  split at h
  · cases h
  next hmem =>
  split at h
  · cases h
  next hlimit =>
    cases h
    exact ⟨j, man, hj, hman, of_decide_eq_true hsealed, ho, not_not.1 hst, not_not.1 hmem, hlimit⟩

/-- Only sealed objects are pulled. -/
theorem pullCheck_sealed (h : pullCheck c s req = .ok o) :
    o.state = .sealed ∧ s.catalog.objects.lookup req.objectId = some o := by
  obtain ⟨-, -, -, -, -, ho, hst, -⟩ := pullCheck_eq_ok h
  exact ⟨hst, ho⟩

/-- A pull that finds its object starts an export, unless there is nothing to stage. -/
theorem handlePullTensor_moves (hk : k.Met (pullEvents c s req)) :
    Turns c g k s (handlePullTensor c s req).1 := by
  rw [handlePullTensor]
  split
  · exact .refl _
  next o ho =>
    rw [pullEvents, ho] at hk
    obtain ⟨hpull, hk⟩ := Rules.met_cons.1 hk
    have hfail : stageFails (startExport s req o) (o.pullLocals req) →
        Turns c g k s (failStaging (startExport s req o) (o.pullLocals req)).1 := by
      intro hf
      rw [if_pos hf, Rules.met_singleton] at hk
      exact .single fun _ => .refusePull ho hk
    rw [stageForExport]
    split
    · next hloc =>
      refine hfail ?_
      rw [stageFails]
      simp only [CanonicalObject.pullLocals, hloc]
    next loc hloc =>
      have hfails : loc.kind ≠ .pinned → ((loc.kind ≠ .pageable ∧ loc.kind ≠ .nvme) ∨
          s.store.coldStore.lookup loc.coldRef = none) →
          stageFails (startExport s req o) (o.pullLocals req) := by
        intro h₁ h₂
        rw [stageFails]
        simp only [CanonicalObject.pullLocals, hloc]
        exact decide_eq_true ⟨h₁, h₂⟩
      split
      · next hpin =>
        exact .single fun _ => .startPull ho rfl hpull fun _ h => ⟨loc, hloc, .inl ⟨hpin, h⟩⟩
      next hpin =>
      split
      · split
        · next hcold => exact hfail (hfails hpin (.inr hcold))
        · next cold hcold =>
          exact .single fun _ => .startPull ho rfl hpull fun _ h =>
            ⟨loc, hloc, .inr ⟨cold, hcold, h⟩⟩
      · next hkind => exact hfail (hfails hpin (.inl (not_or.1 hkind)))

theorem handleRequestCanonicalRestore_moves {req : RequestCanonicalRestoreRequest}
    (hg : g.okRestore s req) (hk : k.Met (restoreEvents c s req)) :
    Turns c g k s (handleRequestCanonicalRestore c s now req).1 := by
  intro h
  rw [handleRequestCanonicalRestore]
  dsimp only
  split
  · exact .refl
  split
  · exact .refl
  next he =>
  have he : s.epochValid req.rankId req.rankEpoch = true := by simpa using he
  split
  · exact .refl
  next o ho =>
  split
  · exact .refl
  next hread =>
  have hread : o.state.readable = true := by simpa using hread
  split
  · exact .refl
  next loc hloc =>
  split
  · exact .refl
  simp only [restoreEvents, ho, hloc, he, Bool.not_true, if_neg Bool.false_ne_true] at hk
  rw [restoreFrom]
  split
  · next hp =>
    rw [if_pos hp, Rules.met_singleton] at hk
    exact .single (.restore he ho hread hloc hp.1 hp.2 hk)
  next hp =>
  rw [if_neg hp] at hk
  split
  · next hkind =>
    split
    · exact .refl
    next cold hcold =>
      split at hcold
      · cases hcold
      next href =>
        simp only [hcold, Option.toList_some, List.flatMap_cons, List.flatMap_nil, List.append_nil,
          Rules.met_cons] at hk
        refine .head (.seek (p := .restore req cold o.nbytes) trivial
          ⟨loc, hloc, href, hcold, hg o ho loc hloc hkind⟩ he ?_ hk.1) (acquire_moves trivial hk.2)
        rintro _ _ _ ⟨⟩
        exact ⟨o, ho, hread, rfl⟩
  · exact .refl

theorem handleReleaseCanonicalRestore_moves {req : ReleaseCanonicalRestoreRequest}
    (hg : g.okRequest c s now (.releaseRestore req))
    (hk : k.Met (requestEvents c s now (.releaseRestore req))) :
    Turns c g k s (handleReleaseCanonicalRestore c s now req).1 := by
  intro h
  rw [handleReleaseCanonicalRestore]
  split
  · exact .refl
  next he =>
    have he : s.epochValid req.rankId req.rankEpoch = true := by simpa using he
    rw [requestEvents, if_pos he, Rules.met_cons] at hk
    exact .head (.endRestore he hk.1) (maybeFreeObject_moves [] _ (hg he) hk.2)

end StateSpectre
