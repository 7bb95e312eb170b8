import StateSpectre.Copies
import StateSpectre.Export
import StateSpectre.Refinement.Catalog

/-!
# Sealed manifests

A sealed version is read by its manifest: the ids of its objects, which the daemon
looks up when it is asked for them, leaving out those it does not find. Nothing
ties the objects to the manifest, though. They live as long as a rank holds them,
so that the last release, or the death of the last holder, reclaims an object of a
sealed version under its manifest (`manifest_loses_object`).

As long as that does not happen, and the locations of the members are left alone,
the manifest stays complete (`manifest_stays_complete`): it lists the same ids,
sizes and hashes as when it was sealed, and every one of them can be read.
-/

namespace StateSpectre

variable {c : Config} {s s₀ s₁ : State} {vk : VersionKey} {ids : List ℕ} {oid : ℕ}

/-! ## Manifests -/

/-- The tensor has a location in the pinned memory or in a cold tier, and what that
    refers to is there. -/
def Store.Readable (st : Store) (t : ℕ) : Prop :=
  ∃ loc, st.locations.lookup t = some loc ∧ (loc.kind = .pinned ∨ loc.kind.IsCold) ∧
    st.Refers t loc

/-- The request for all entries of a manifest. -/
def wholeManifest (vk : VersionKey) : GetManifestRequest where
  job := vk.job
  modelRole := vk.modelRole
  modelVersion := vk.modelVersion

/-- What an entry says about an object: its id, its size and its hash. -/
def TensorManifestEntry.shard (e : TensorManifestEntry) : ℕ × ℕ × ℕ × ℕ :=
  (e.objectId, e.nbytes, e.contentHashLo, e.contentHashHi)

/-- What is listed of the objects `ids`. -/
def listed (s : State) (ids : List ℕ) : List (ℕ × ℕ × ℕ × ℕ) :=
  (ids.filterMap (manifestEntry s {})).map TensorManifestEntry.shard

theorem manifestEntry_eq {o : CanonicalObject} (h : s.catalog.objects.lookup oid = some o) :
    (manifestEntry s {} oid).map TensorManifestEntry.shard =
      some (oid, o.nbytes, o.contentHashLo, o.contentHashHi) := by
  have hall : ManifestFilter.accepts {} o.key = true := rfl
  rw [manifestEntry, h, Option.filter_some, hall]
  rfl

/-- The members of a version are objects of it that are committed. -/
theorem mem_sealManifest (h : oid ∈ (sealManifest s vk).objectIds) :
    ∃ o, s.catalog.objects.lookup oid = some o ∧ o.state ≠ .creating := by
  simp only [sealManifest, List.mem_insertionSort, List.mem_map, Prod.exists,
    exists_and_right, exists_eq_right] at h
  obtain ⟨o, ho⟩ := h
  simp only [sealMembers, List.mem_filter, versionRows, Table.mem_rows] at ho
  refine ⟨o, ho.1.1, fun hc => ?_⟩
  rw [hc] at ho
  cases ho.2

/-! ## Guards -/

/-- The guards under which the objects `ids` are left alone: the locations keep to
    what they refer to; none of the objects is reclaimed, and no lease is released
    whose run is the location of one. -/
abbrev memberGuards (ids : List ℕ) : Guards :=
  { locationGuards with
    release := fun st L => ∀ oid ∈ ids, ¬st.PinnedBy (canonicalTid oid) L
    dropLocation := fun _ t => ∀ oid ∈ ids, canonicalTid oid ≠ t }

instance : DecidableGuards (memberGuards ids) where

theorem memberGuards_implies : (memberGuards ids).Implies locationGuards :=
  { Guards.Implies.refl locationGuards with
    release := fun _ => trivial
    dropLocation := fun _ => trivial }

/-! ## Members that are kept -/

/-- The objects `ids` are as they were in the state `s₀`, and have a location. -/
structure Intact (s₀ : State) (ids : List ℕ) (s : State) : Prop where
  orderly : Orderly s
  refs : Referable s.store
  kept : ∀ oid ∈ ids, ∀ o, s₀.catalog.objects.lookup oid = some o → Kept s.inventory oid o
  located : ∀ oid ∈ ids, s.store.Located (canonicalTid oid)

theorem Intact.step {a : Action} {s' : State} {r : Response} (h : Intact s₀ ids s)
    (hok : (memberGuards ids).ok c s a) (hstep : step c s a = some (s', r)) :
    Intact s₀ ids s' := by
  have hstore := (step_refines hok hstep).invariant
    (motive := fun x => Referable x.1 ∧ ∀ oid ∈ ids, x.1.Located (canonicalTid oid))
    (fun x y hx hxy => ⟨hx.1.step memberGuards_implies hxy, fun oid hm =>
      (hx.2 oid hm).step (g := memberGuards ids) hx.1.kinds (fun _ _ hd => hd oid hm)
        (fun _ _ hr => hr oid hm) hxy⟩)
    ⟨h.refs, h.located⟩
  refine ⟨h.orderly.step hstep, hstore.1, fun oid hm o ho => ?_, hstore.2⟩
  exact (step_catalog h.orderly.pulls hok hstep).invariant (motive := fun x => Kept x oid o)
    (fun _ _ hx hxy => hx.step (g := memberGuards ids) (fun _ hd => hd oid hm rfl) hxy)
    (h.kept oid hm o ho)

/-- The members of a version are intact when they are sealed, if they have a location. -/
theorem Intact.sealed (h : Reachable c (locationGuards.ok c) s)
    (hloc : ∀ oid ∈ (sealManifest s vk).objectIds, s.store.Located (canonicalTid oid)) :
    Intact s (sealManifest s vk).objectIds s := by
  refine ⟨h.orderly, h.referable, fun oid _ o ho => ⟨fun hc => ?_, ?_, o, ho, ?_⟩, hloc⟩
  · exact nomatch ho.symm.trans (h.orderly.indexed.created oid hc).2
  · exact h.orderly.indexed.drawn oid o ho
  · exact ⟨rfl, rfl, rfl, fun hc => ⟨hc, rfl, rfl⟩⟩

theorem Intact.readable (h : Intact s₀ ids s) (hm : oid ∈ ids) :
    s.store.Readable (canonicalTid oid) := by
  obtain ⟨loc, hloc, hk⟩ := h.located oid hm
  exact ⟨loc, hloc, hk, h.refs.valid _ loc hloc⟩

/-- Committed objects that are intact are listed as they were. -/
theorem Intact.listed_eq (h : Intact s₀ ids s)
    (hids : ∀ oid ∈ ids, ∃ o, s₀.catalog.objects.lookup oid = some o ∧ o.state ≠ .creating) :
    listed s ids = listed s₀ ids ∧ (listed s ids).length = ids.length := by
  have hentry : ∀ oid ∈ ids, (manifestEntry s {} oid).map TensorManifestEntry.shard =
      (manifestEntry s₀ {} oid).map TensorManifestEntry.shard ∧
        ((manifestEntry s {} oid).map TensorManifestEntry.shard).isSome := by
    intro oid hm
    obtain ⟨o, ho, hc⟩ := hids oid hm
    obtain ⟨o', ho', hcont⟩ := (h.kept oid hm o ho).object
    obtain ⟨-, hlo, hhi⟩ := hcont.committed hc
    rw [manifestEntry_eq ho, manifestEntry_eq ho', hcont.nbytes, hlo, hhi]
    exact ⟨rfl, rfl⟩
  simp only [listed, List.map_filterMap]
  exact ⟨List.filterMap_congr fun oid hm => (hentry oid hm).1,
    List.filterMap_length_eq_length.2 fun oid hm => (hentry oid hm).2⟩

/-- What is answered about a manifest that is there. -/
theorem handleGetManifest_whole {man : Manifest} (hjob : (s.catalog.jobs.lookup vk.job).isSome)
    (hman : s.catalog.manifests.lookup vk = some man) (hsealed : man.state = .sealed) :
    (handleGetManifest s (wholeManifest vk)).tensors.map TensorManifestEntry.shard =
      listed s man.objectIds := by
  obtain ⟨j, hj⟩ := Option.isSome_iff_exists.1 hjob
  have hlook : s.catalog.manifests.lookup
      ⟨(wholeManifest vk).job, (wholeManifest vk).modelRole, (wholeManifest vk).modelVersion⟩ =
        some man := hman
  have hj' : s.catalog.jobs.lookup (wholeManifest vk).job = some j := hj
  rw [handleGetManifest, hj', hlook, Option.filter_some, if_pos (decide_eq_true hsealed)]
  rfl

/-! ## Complete manifests -/

/-- The version that is to be sealed. -/
def SealModelVersionRequest.versionKey (req : SealModelVersionRequest) : VersionKey :=
  ⟨req.job, req.modelRole, req.modelVersion⟩

/-- The ids in the manifest of the version, if it is sealed now. -/
def sealedIds (s : State) (req : SealModelVersionRequest) : List ℕ :=
  (sealManifest s req.versionKey).objectIds

/-- A version that was not sealed is, when all its members have a location. -/
structure SealsLocated (c : Config) (s : State) (now : ℕ) (req : SealModelVersionRequest)
    (s' : State) (resp : SealModelVersionResponse) : Prop where
  fresh : sealCheck c s req = none
  passes : sealFails c s req = false
  located : ∀ oid ∈ sealedIds s req, s.store.Located (canonicalTid oid)
  alone : (memberGuards (sealedIds s req)).ok c s (.rpc now (.seal req))
  seals : step c s (.rpc now (.seal req)) = some (s', .seal resp)

theorem sealCheck_job {req : SealModelVersionRequest} (h : sealCheck c s req = none) :
    (s.catalog.jobs.lookup req.job).isSome := by
  unfold sealCheck at h
  split at h
  · cases h
  split at h
  · cases h
  · next hj =>
    rw [hj]
    rfl

variable {now : ℕ} {req : SealModelVersionRequest} {resp : SealModelVersionResponse}

theorem SealsLocated.tensorCount (h : SealsLocated c s₀ now req s₁ resp) :
    resp.tensorCount = (sealedIds s₀ req).length := by
  have hr := (Prod.mk.inj (Option.some.inj h.seals)).2
  simp only [h.fresh, h.passes] at hr
  cases hr
  rfl

/-- In every state reached from the seal of a version by steps that leave its members
    alone, every member is there and can be read; and as long as the manifest is there,
    it lists as many entries as the seal counted, with the ids, sizes and hashes they had
    then. -/
theorem manifest_stays_complete (h₀ : Reachable c (locationGuards.ok c) s₀)
    (hseal : SealsLocated c s₀ now req s₁ resp)
    (h : Reach (· = s₁) ((memberGuards (sealedIds s₀ req)).ok c) (step c) s) :
    (∀ oid ∈ sealedIds s₀ req, (s.catalog.objects.lookup oid).isSome ∧
      s.store.Readable (canonicalTid oid)) ∧
    (s.catalog.manifests.lookup req.versionKey = some (sealManifest s₀ req.versionKey) →
      (handleGetManifest s (wholeManifest req.versionKey)).tensors.map TensorManifestEntry.shard =
        listed s₀ (sealedIds s₀ req) ∧
      (handleGetManifest s (wholeManifest req.versionKey)).tensors.length = resp.tensorCount) := by
  -- The members and the job are as they were all along the run.
  have hstep : ∀ s a s' r,
      Intact s₀ (sealedIds s₀ req) s ∧ (s.catalog.jobs.lookup req.job).isSome →
      (memberGuards (sealedIds s₀ req)).ok c s a → step c s a = some (s', r) →
      Intact s₀ (sealedIds s₀ req) s' ∧ (s'.catalog.jobs.lookup req.job).isSome := by
    intro s a s' r hs hok hst
    refine ⟨hs.1.step hok hst, (step_catalog hs.1.orderly.pulls hok hst).invariant
      (motive := fun x => (x.1.jobs.lookup req.job).isSome) (fun _ _ hx hxy => hxy.jobs hx) hs.2⟩
  obtain ⟨hinv, hjob⟩ := Reach.invariant (fun s' (hs' : s' = s₁) => hs' ▸ hstep s₀ _ s₁ _
    ⟨.sealed h₀ hseal.located, sealCheck_job hseal.fresh⟩ hseal.alone hseal.seals) hstep h
  have hids : ∀ oid ∈ sealedIds s₀ req,
      ∃ o, s₀.catalog.objects.lookup oid = some o ∧ o.state ≠ .creating :=
    fun _ hm => mem_sealManifest hm
  refine ⟨fun oid hm => ⟨?_, hinv.readable hm⟩, fun hman => ?_⟩
  · obtain ⟨o, ho, -⟩ := hids oid hm
    obtain ⟨o', ho', -⟩ := (hinv.kept oid hm o ho).object
    exact Option.isSome_iff_exists.2 ⟨o', ho'⟩
  · have hlist : (handleGetManifest s (wholeManifest req.versionKey)).tensors.map
        TensorManifestEntry.shard = listed s (sealedIds s₀ req) :=
      handleGetManifest_whole hjob hman rfl
    have hlen := congrArg List.length hlist
    obtain ⟨heq, hcount⟩ := hinv.listed_eq hids
    rw [List.length_map, hcount] at hlen
    exact ⟨hlist.trans heq, hlen.trans hseal.tensorCount.symm⟩

/-- The rank 0 lets go of the objects of the version 1 of the role 0. -/
def releasesHolds (now : ℕ) : Action :=
  .rpc now (.releaseCanonical
    { rankId := 0, rankEpoch := 1, job := theJob, modelRole := 0, modelVersion := 1,
      objectId := 0 })

/-- The request to seal the version 1 of the role 0. -/
def sealRequest : SealModelVersionRequest := { job := theJob, modelRole := 0, modelVersion := 1 }

instance {st : Store} {t : ℕ} : Decidable (st.Located t) :=
  match h : st.locations.lookup t with
  | none => isFalse fun ⟨_, hloc, _⟩ => nomatch h.symm.trans hloc
  | some loc => decidable_of_iff (loc.kind = .pinned ∨ loc.kind.IsCold)
      ⟨fun hk => ⟨loc, h, hk⟩, fun ⟨_, hloc, hk⟩ => Option.some.inj (h.symm.trans hloc) ▸ hk⟩

/-- The object of a version that two ranks hold is still listed after one of them has let
    go of it. -/
theorem manifest_stays_complete_held :
    ∃ s₀ s₁ s resp, Reachable oneSlot (locationGuards.ok oneSlot) s₀ ∧
      SealsLocated oneSlot s₀ 3 sealRequest s₁ resp ∧ resp.tensorCount = 1 ∧
      (s.catalog.objects.lookup 1).map (·.holders) = some {1} ∧
      (handleGetManifest s (wholeManifest sealRequest.versionKey)).tensors.length =
        resp.tensorCount := by
  obtain ⟨s₀, s₁, resp, hs₀, hstep, hcount, ⟨hfresh, hpass, hloc, hok⟩, hrun⟩ :=
    exists_reachable₃ oneSlot (locationGuards.ok oneSlot)
    (p := fun s₀ s₁ resp => step oneSlot s₀ (.rpc 3 (.seal sealRequest)) = some (s₁, .seal resp) ∧
      resp.tensorCount = 1 ∧
      (sealCheck oneSlot s₀ sealRequest = none ∧ sealFails oneSlot s₀ sealRequest = false ∧
        (∀ oid ∈ sealedIds s₀ sealRequest, s₀.store.Located (canonicalTid oid)) ∧
        (memberGuards (sealedIds s₀ sealRequest)).ok oneSlot s₀ (.rpc 3 (.seal sealRequest))) ∧
      (runActions (fun s a => (memberGuards (sealedIds s₀ sealRequest)).ok oneSlot s a)
        (step oneSlot) s₁ [releasesHolds 4]).any fun s =>
          (s.catalog.objects.lookup 1).map (·.holders) = some {1} ∧
          s.catalog.manifests.lookup sealRequest.versionKey =
            some (sealManifest s₀ sealRequest.versionKey))
    (registers :: .rpc 0 (.register ⟨1, 8⟩) :: registersJob :: creates 1 1 1 [1] ++
      [.rpc 2 (.evict { rankId := 1, rankEpoch := 2, key := shardKey 1 })])
    (by decide +kernel)
  obtain ⟨s, hreach, hheld, hman⟩ := Reach.exists_from hrun
  have hseal : SealsLocated oneSlot s₀ 3 sealRequest s₁ resp := ⟨hfresh, hpass, hloc, hok, hstep⟩
  exact ⟨s₀, s₁, s, resp, hs₀, hseal, hcount, hheld,
    ((manifest_stays_complete hs₀ hseal hreach).2 hman).2⟩

/-- The version 1 of the role 0. -/
def theVersion : VersionKey := ⟨theJob, 0, 1⟩

/-- The creator of the only object of a sealed version lets go of it: the manifest stays,
    without its object. -/
theorem manifest_loses_object :
    ∃ s man, Reached oneSlot s ∧
      s.catalog.manifests.lookup theVersion = some man ∧ man.state = .sealed ∧
      listed s man.objectIds = [(1, 4, 0, 0)] ∧
      ∃ s' r, step oneSlot s (releasesHolds 3) = some (s', r) ∧
        s'.catalog.manifests.lookup theVersion = some man ∧ s'.catalog.objects.lookup 1 = none ∧
        (handleGetManifest s' (wholeManifest theVersion)).tensors = [] :=
  exists_reachable₂ oneSlot _
    (registers :: registersJob :: creates 1 1 1 [1] ++ [seals 2]) (by decide +kernel)

end StateSpectre
