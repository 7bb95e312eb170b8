import StateSpectre.Retention

/-!
# What a seal computes

A seal goes over the objects in the order of a hash table, and the hash of a manifest depends on
the order of the members. But the members are sorted by their ids before they are hashed, and the
other things that are gathered, a sum and whether something is missing, do not depend on the
order. So what a seal answers and records is a function of the set of objects
(`seal_computes`); only the manifest of a failed seal, which nobody reads, has its members in the
order in which they were found.
-/

namespace StateSpectre

variable {c : Config} {s s' : State} {vk : VersionKey} {now : ℕ} {req : SealModelVersionRequest}
  {resp : SealModelVersionResponse} {objects : Table ℕ CanonicalObject} {expected : List ℕ}

/-! ## The order of the objects -/

/-- The objects in another order, or other objects. -/
def State.withObjects (s : State) (objects : Table ℕ CanonicalObject) : State :=
  { s with catalog := { s.catalog with objects := objects } }

section Reordered

variable (h : s.catalog.objects.Reordered objects)

include h

theorem versionRows_perm : (versionRows (s.withObjects objects) vk).Perm (versionRows s vk) :=
  h.rows_perm.filter _

theorem sealMembers_perm : (sealMembers (s.withObjects objects) vk).Perm (sealMembers s vk) :=
  (versionRows_perm h).filter _

theorem sealIncomplete_reordered :
    sealIncomplete (s.withObjects objects) vk expected = sealIncomplete s vk expected := by
  rw [sealIncomplete, sealIncomplete, (versionRows_perm h).any_eq]
  congr 2
  funext pid
  exact (sealMembers_perm h).all_eq

theorem sealFails_reordered : sealFails c (s.withObjects objects) req = sealFails c s req := by
  rw [sealFails, sealFails, sealIncomplete_reordered h]

theorem manifestHash_reordered {ids : List ℕ} :
    manifestHash (s.withObjects objects) ids = manifestHash s ids := by
  have hlookup : ∀ oid, (s.withObjects objects).catalog.objects.lookup oid =
      s.catalog.objects.lookup oid := h.lookup_eq
  simp only [manifestHash, hlookup]

theorem totalNbytes_reordered :
    ((sealMembers (s.withObjects objects) vk).map (·.2.nbytes)).sum =
      ((sealMembers s vk).map (·.2.nbytes)).sum := ((sealMembers_perm h).map _).sum_eq

/-- The manifest of a version does not depend on the order of the objects. -/
theorem sealManifest_reordered : sealManifest (s.withObjects objects) vk = sealManifest s vk := by
  have hids : ((sealMembers (s.withObjects objects) vk).map (·.1)).insertionSort (· ≤ ·) =
      ((sealMembers s vk).map (·.1)).insertionSort (· ≤ ·) := by
    refine List.Perm.eq_of_pairwise (fun _ _ _ _ => le_antisymm) (List.pairwise_insertionSort ..)
      (List.pairwise_insertionSort ..) ?_
    calc ((sealMembers (s.withObjects objects) vk).map (·.1)).insertionSort (· ≤ ·)
      _ |>.Perm ((sealMembers (s.withObjects objects) vk).map (·.1)) := List.perm_insertionSort ..
      _ |>.Perm ((sealMembers s vk).map (·.1)) := (sealMembers_perm h).map _
      _ |>.Perm (((sealMembers s vk).map (·.1)).insertionSort (· ≤ ·)) :=
        (List.perm_insertionSort ..).symm
  simp only [sealManifest, hids, manifestHash_reordered h, totalNbytes_reordered h]

end Reordered

/-! ## The members -/

/-- The members of a version are in the order of their ids, each of them once. -/
theorem pairwise_sealManifest : (sealManifest s vk).objectIds.Pairwise (· < ·) := by
  have hsub : (sealMembers s vk).Sublist s.catalog.objects.rows :=
    List.filter_sublist.trans List.filter_sublist
  have hnodup : ((sealMembers s vk).map (·.1)).Nodup :=
    (Table.nodup_keys_rows s.catalog.objects).sublist (hsub.map _)
  have hsorted : (sealManifest s vk).objectIds.Pairwise (· ≤ ·) := List.pairwise_insertionSort ..
  have hne : (sealManifest s vk).objectIds.Pairwise (· ≠ ·) :=
    (List.perm_insertionSort ..).nodup_iff.2 hnodup
  exact (hsorted.and hne).imp fun h => lt_of_le_of_ne h.1 h.2

/-- Nothing is missing if all objects of the version can be read, and every parameter that is
    expected is among them. -/
theorem sealIncomplete_eq_false (h : sealIncomplete s vk expected = false) :
    (∀ oid o, s.catalog.objects.lookup oid = some o → o.key.versionKey = vk → o.state.readable) ∧
      ∀ pid ∈ expected, ∃ oid ∈ (sealManifest s vk).objectIds, ∃ o,
        s.catalog.objects.lookup oid = some o ∧ o.key.paramId = pid := by
  simp only [sealIncomplete, Bool.or_eq_false_iff, List.any_eq_false, Bool.not_eq_true,
    Bool.not_eq_false'] at h
  refine ⟨fun oid o ho hvk => ?_, fun pid hpid => ?_⟩
  · exact h.1 (oid, o) (mem_versionRows.2 ⟨ho, hvk⟩)
  · have hsome := h.2 pid hpid
    simp only [List.all_eq_false, bne_iff_ne, not_not] at hsome
    obtain ⟨⟨oid, o⟩, hmem, hparam⟩ := hsome
    obtain ⟨hrow, hread⟩ := List.mem_filter.1 hmem
    obtain ⟨ho, hvk⟩ := mem_versionRows.1 hrow
    exact ⟨oid, mem_sealManifest_iff.2 ⟨o, ho, hvk, hread⟩, o, ho, hparam⟩

/-! ## The outcomes -/

/-- What a request to seal comes to: an answer at once, a failure, or a seal. -/
inductive SealOutcome (c : Config) (s : State) (now : ℕ) (req : SealModelVersionRequest) :
    State → SealModelVersionResponse → Prop
  | answered (resp : SealModelVersionResponse) (h : sealCheck c s req = some resp) :
    SealOutcome c s now req s resp
  | failed (man : Manifest) (hcheck : sealCheck c s req = none) (hfails : sealFails c s req)
      (hman : man =
        { state := .error, objectIds := (sealMembers s req.versionKey).map (·.1)
          totalNbytes := ((sealMembers s req.versionKey).map (·.2.nbytes)).sum % 2 ^ 64 }) :
    SealOutcome c s now req
      { s with
        catalog :=
          { s.catalog with manifests := s.catalog.manifests.insert req.versionKey man } }
      { message := "seal failed: required objects missing/invalid" }
  | seals (s' : State) (h : SealsNow c s req)
      (hs' : s' =
        if req.promote then promoteVersion c (sealVersion s req.versionKey) now req.versionKey
        else sealVersion s req.versionKey) :
    SealOutcome c s now req s' (sealResponse (sealManifest s req.versionKey) "sealed")

theorem handleSealModelVersion_iff :
    handleSealModelVersion c s now req = (s', .seal resp) ↔ SealOutcome c s now req s' resp := by
  constructor
  · intro h
    rw [handleSealModelVersion] at h
    split at h
    · next hcheck =>
      cases h
      exact .answered resp hcheck
    · next hcheck =>
      split at h
      · next hfails =>
        cases h
        exact .failed _ hcheck hfails rfl
      · next hfails =>
        cases h
        exact .seals _ ⟨hcheck, by simpa using hfails⟩ rfl
  · rintro (⟨_, hcheck⟩ | ⟨_, hcheck, hfails, rfl⟩ | ⟨_, ⟨hcheck, hfails⟩, rfl⟩)
    · simp only [handleSealModelVersion, hcheck]
    · simp only [handleSealModelVersion, hcheck, hfails, if_true]
      rfl
    · simp only [handleSealModelVersion, hcheck, hfails, Bool.false_eq_true, if_false]
      rfl

/-- Manifests that are the same but for the order of the members, which counts if they are
    sealed. -/
structure Manifest.Same (man man' : Manifest) : Prop where
  members : man.objectIds.Perm man'.objectIds
  rest : { man with objectIds := man'.objectIds } = man'
  sealed : man.state = .sealed → man = man'

theorem Manifest.Same.refl (man : Manifest) : man.Same man := ⟨.rfl, rfl, fun _ => rfl⟩

/-- What a seal records under the version. -/
theorem lookup_seals (promote : Bool) :
    (if promote then promoteVersion c (sealVersion s vk) now vk else sealVersion s vk
      ).catalog.manifests.lookup vk = some (sealManifest s vk) := by
  have hsealed : (sealVersion s vk).catalog.manifests.lookup vk = some (sealManifest s vk) := by
    rw [sealVersion_eq, Table.lookup_insert, if_pos rfl]
  split
  · rw [promoteVersion_kept.manifest, hsealed]
  · exact hsealed

/-- The outcome does not depend on the order of the objects. -/
theorem SealOutcome.reordered (h : SealOutcome c s now req s' resp)
    (hobj : s.catalog.objects.Reordered objects) :
    ∃ s₂, SealOutcome c (s.withObjects objects) now req s₂ resp ∧
      Option.Rel Manifest.Same (s'.catalog.manifests.lookup req.versionKey)
        (s₂.catalog.manifests.lookup req.versionKey) := by
  cases h with
  | answered _ hcheck =>
    refine ⟨_, .answered resp hcheck, ?_⟩
    change Option.Rel _ _ (s.catalog.manifests.lookup req.versionKey)
    cases s.catalog.manifests.lookup req.versionKey with
    | none => exact .none
    | some man => exact .some (.refl man)
  | failed man hcheck hfails hman =>
    refine ⟨_, .failed _ hcheck ((sealFails_reordered hobj).trans hfails) rfl, ?_⟩
    simp only [Table.lookup_insert, if_true]
    subst hman
    refine .some ⟨((sealMembers_perm hobj).map _).symm, ?_, nofun⟩
    rw [totalNbytes_reordered hobj]
  | seals _ hnow hs' =>
    have hnow' : SealsNow c (s.withObjects objects) req :=
      ⟨hnow.fresh, (sealFails_reordered hobj).trans hnow.complete⟩
    have hseals : SealOutcome c (s.withObjects objects) now req _ _ := .seals _ hnow' rfl
    rw [sealManifest_reordered hobj] at hseals
    refine ⟨_, hseals, ?_⟩
    rw [hs', lookup_seals, lookup_seals, sealManifest_reordered hobj]
    exact .some (.refl _)

/-! ## All of it -/

/-- A version has been sealed with this manifest: its members are all objects of the version that
    can be read, in the order of their ids; the answer is about them; and if it has to be complete,
    nothing is missing. -/
structure SealedWith (c : Config) (s s' : State) (req : SealModelVersionRequest)
    (resp : SealModelVersionResponse) (man : Manifest) : Prop where
  recorded : s'.catalog.manifests.lookup req.versionKey = some man
  ordered : man.objectIds.Pairwise (· < ·)
  members : ∀ oid, oid ∈ man.objectIds ↔ ∃ o, s.catalog.objects.lookup oid = some o ∧
    o.key.versionKey = req.versionKey ∧ o.state.readable
  answer : resp = sealResponse man "sealed"
  complete : c.sealRequiresAllObjectsValid → req.failIfMissing →
    (∀ oid o, s.catalog.objects.lookup oid = some o → o.key.versionKey = req.versionKey →
      o.state.readable) ∧
    ∀ pid ∈ req.expectedParamIds, ∃ oid ∈ man.objectIds, ∃ o,
      s.catalog.objects.lookup oid = some o ∧ o.key.paramId = pid

/-- The objects, the sealed manifests and the latest versions are as they were. -/
structure SealChangesNothing (s s' : State) : Prop where
  objects : s'.catalog.objects = s.catalog.objects
  manifests : ∀ vk man, man.state = .sealed →
    (s'.catalog.manifests.lookup vk = some man ↔ s.catalog.manifests.lookup vk = some man)
  latest : s'.catalog.latestSealed = s.catalog.latestSealed

theorem SealOutcome.sealedWith (h : SealOutcome c s now req s' resp) (hok : resp.ok)
    (hopen : versionSealed s req.versionKey = false) : ∃ man, SealedWith c s s' req resp man := by
  cases h with
  | answered _ hcheck => cases hopen.symm.trans (versionSealed_of_sealCheck hcheck hok)
  | failed man hcheck hfails hman => cases hok
  | seals _ hnow hs' =>
    refine ⟨sealManifest s req.versionKey, hs' ▸ lookup_seals _, pairwise_sealManifest,
      fun oid => mem_sealManifest_iff, rfl, fun hconfig hmissing => ?_⟩
    have hcomplete := hnow.complete
    rw [sealFails, hconfig, hmissing] at hcomplete
    exact sealIncomplete_eq_false hcomplete

theorem SealOutcome.changesNothing (h : SealOutcome c s now req s' resp)
    (hfailed : resp.ok = false) : SealChangesNothing s s' := by
  cases h with
  | answered _ hcheck => exact ⟨rfl, fun _ _ _ => .rfl, rfl⟩
  | failed man hcheck hfails hman =>
    refine ⟨rfl, fun vk man' hsealed => ?_, rfl⟩
    change (s.catalog.manifests.insert _ man).lookup vk = _ ↔ _
    rw [Table.lookup_insert]
    split
    · next hvk =>
      -- What is overwritten was not sealed, or it would have been answered at once.
      subst hvk
      refine iff_of_false (fun h => ?_) fun h => ?_
      · rw [← Option.some.inj h, hman] at hsealed
        cases hsealed
      · cases (sealCheck_eq_none hcheck).2.symm.trans (versionSealed_iff.2 ⟨man', h, hsealed⟩)
    · exact .rfl
  | seals _ hnow hs' => cases hfailed

/-- What a request to seal comes to does not depend on the order of the objects. If it seals the
    version, its members are what they should be; if it fails, nothing changes. -/
theorem seal_computes (h : handleSealModelVersion c s now req = (s', .seal resp)) :
    (∀ objects, s.catalog.objects.Reordered objects →
      ∃ s₂, handleSealModelVersion c (s.withObjects objects) now req = (s₂, .seal resp) ∧
        Option.Rel Manifest.Same (s'.catalog.manifests.lookup req.versionKey)
          (s₂.catalog.manifests.lookup req.versionKey)) ∧
    (resp.ok → versionSealed s req.versionKey = false → ∃ man, SealedWith c s s' req resp man) ∧
    (resp.ok = false → SealChangesNothing s s') := by
  have h := handleSealModelVersion_iff.1 h
  refine ⟨fun objects hobj => ?_, h.sealedWith, h.changesNothing⟩
  obtain ⟨s₂, hs₂, hsame⟩ := h.reordered hobj
  exact ⟨s₂, handleSealModelVersion_iff.2 hs₂, hsame⟩

/-- A version with two objects is sealed, which are not found in the order of their ids. -/
theorem seal_computes_two :
    ∃ s s' resp, Reached oneSlot s ∧
      (handleSealModelVersion oneSlot s 3 sealRequest = (s', .seal resp) ∧
        s.catalog.objects.rows.map Prod.fst = [2, 1] ∧ resp.ok ∧
        versionSealed s sealRequest.versionKey = false ∧
        (s'.catalog.manifests.lookup sealRequest.versionKey).map (·.objectIds) = some [1, 2]) ∧
      ∃ man, man.objectIds = [1, 2] ∧ SealedWith oneSlot s s' sealRequest resp man := by
  refine exists_reachable₃_and oneSlot _ sealsTwo.dropLast (by decide +kernel) ?_
  rintro s s' resp - ⟨h, -, hok, hopen, hids⟩
  obtain ⟨man, hman⟩ := (seal_computes h).2.1 hok hopen
  rw [hman.recorded] at hids
  exact ⟨man, Option.some.inj hids, hman⟩

end StateSpectre
