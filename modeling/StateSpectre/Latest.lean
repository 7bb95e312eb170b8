import StateSpectre.Manifests

/-!
# The latest version of a role is sealed

Rollout engines ask for the latest sealed version of a role, and then for its manifest and its
objects. The latest version is named by a table of its own, beside that of the manifests, and
manifests are written and erased by seals that succeed or fail, by drops and by retention. A
seal that fails overwrites no sealed manifest, retention spares the latest version, and a drop
of it forgets that it was the latest one. So the latest version has a sealed manifest in every
state, and keeps it until it is dropped or another version is promoted
(`latest_version_offered`).
-/

namespace StateSpectre

variable {c : Config} {g : Guards} {k : Rules} {x y : Scene} {s : State} {vk : VersionKey}
  {s' : State} {vk' : VersionKey} {rk : RoleKey}

/-! ## Sealed versions -/

def RoleKey.versionKey (rk : RoleKey) (v : ℕ) : VersionKey := ⟨rk.job, rk.modelRole, v⟩

theorem versionSealed_iff : versionSealed s vk ↔
    ∃ man, s.catalog.manifests.lookup vk = some man ∧ man.state = .sealed := by
  rw [versionSealed]
  split
  · next man hman => simp [hman]
  · next hman => simp [hman]

/-- The manifest that requests for a sealed version find. -/
theorem exists_of_versionSealed (h : versionSealed s vk) :
    ∃ man, (s.catalog.manifests.lookup vk).filter (·.state = .sealed) = some man := by
  obtain ⟨man, hman, hsealed⟩ := versionSealed_iff.1 h
  exact ⟨man, Option.filter_eq_some_iff.2 ⟨hman, decide_eq_true hsealed⟩⟩

/-- A manifest is recorded: the version is sealed as the manifest says, the others as before. -/
theorem versionSealed_of_insert {man : Manifest}
    (hs' : s'.catalog.manifests = s.catalog.manifests.insert vk man)
    (hman : vk' = vk → man.state = .sealed) (h : versionSealed s vk') : versionSealed s' vk' := by
  obtain ⟨man', hman', hsealed⟩ := versionSealed_iff.1 h
  refine versionSealed_iff.2 ?_
  rw [hs', Table.lookup_insert]
  split
  · next heq => exact ⟨man, rfl, hman heq⟩
  · exact ⟨man', hman', hsealed⟩

/-- A manifest is erased: the other versions are sealed as before. -/
theorem versionSealed_of_erase (hs' : s'.catalog.manifests = s.catalog.manifests.erase vk)
    (hne : vk' ≠ vk) (h : versionSealed s vk') : versionSealed s' vk' := by
  obtain ⟨man, hman, hsealed⟩ := versionSealed_iff.1 h
  refine versionSealed_iff.2 ⟨man, ?_, hsealed⟩
  rw [hs', Table.lookup_erase, if_neg hne]
  exact hman

/-! ## Moves -/

/-- A version is dropped: the roles whose latest version it is not keep theirs, and the others
    have none. -/
theorem forgetVersion_latestSealed {v : ℕ} :
    (forgetVersion s vk).catalog.latestSealed.lookup rk = some v ↔
      s.catalog.latestSealed.lookup rk = some v ∧ rk.versionKey v ≠ vk := by
  obtain ⟨job, role, version⟩ := vk
  obtain ⟨job', role'⟩ := rk
  simp only [forgetVersion, RoleKey.versionKey, ne_eq, VersionKey.mk.injEq]
  split
  · next hlatest =>
    rw [Table.lookup_erase_eq_some, ne_eq, RoleKey.mk.injEq]
    constructor
    · exact fun ⟨hne, hv⟩ => ⟨hv, fun heq => hne ⟨heq.1, heq.2.1⟩⟩
    · rintro ⟨hv, hne⟩
      refine ⟨fun heq => hne ⟨heq.1, heq.2, ?_⟩, hv⟩
      rw [heq.1, heq.2, hlatest] at hv
      exact (Option.some.inj hv).symm
  · next hlatest =>
    refine ⟨fun hv => ⟨hv, fun heq => hlatest ?_⟩, And.left⟩
    rw [← heq.1, ← heq.2.1, ← heq.2.2]
    exact hv

/-- The latest version of every role is sealed. -/
def LatestSealed (s : State) : Prop :=
  ∀ rk v, s.catalog.latestSealed.lookup rk = some v → versionSealed s (rk.versionKey v)

/-- Every move keeps it that the latest versions are sealed. -/
theorem LatestSealed.move (h : LatestSealed x.1) (hm : Move c g k x y) : LatestSealed y.1 := by
  cases hm with
  | sealVersion =>
    exact fun rk v hv => versionSealed_of_insert rfl (fun _ => rfl) (h rk v hv)
  | failSeal hopen =>
    refine fun rk v hv => versionSealed_of_insert rfl (fun heq => ?_) (h rk v hv)
    rw [← heq] at hopen
    exact absurd (h rk v hv) (Bool.eq_false_iff.1 hopen)
  | markLatest hsealed =>
    intro rk v hv
    rcases Table.lookup_insert_eq_some.1 hv with ⟨rfl, rfl⟩ | ⟨-, hv⟩
    · exact hsealed
    · exact h rk v hv
  | retire hnot =>
    refine fun rk v hv => versionSealed_of_erase rfl (fun heq => hnot ?_) (h rk v hv)
    rw [← heq]
    exact hv
  | forgetVersion =>
    intro rk v hv
    obtain ⟨hv, hne⟩ := forgetVersion_latestSealed.1 hv
    exact versionSealed_of_erase rfl hne (h rk v hv)
  | rehash _ _ _ _ hr =>
    intro rk v hv
    obtain ⟨man, hman, hsealed⟩ := versionSealed_iff.1 (h rk v hv)
    exact versionSealed_iff.2 ⟨man, (hr.lookup_eq _).trans hman, hsealed⟩
  | _ => exact h

/-- No version of a role is promoted, and one of its versions is not dropped. -/
def latestRules (rk : RoleKey) (v : ℕ) : Rules := fun _ e =>
  match e with
  | .promote vk => ⟨vk.job, vk.modelRole⟩ ≠ rk
  | .dropVersion vk => rk.versionKey v ≠ vk
  | _ => True

instance {rk : RoleKey} {v : ℕ} {e : Event} : Decidable (latestRules rk v s e) := by
  induction e using Event.casesOn <;> dsimp only [latestRules] <;> infer_instance

/-- The latest version stays the latest one until it is dropped or another one is promoted. -/
theorem Move.latestSealed_lookup {v : ℕ} (hm : Move c g (latestRules rk v) x y)
    (h : x.1.catalog.latestSealed.lookup rk = some v) :
    y.1.catalog.latestSealed.lookup rk = some v := by
  cases hm with
  | markLatest _ hne => exact (Table.lookup_insert ..).trans ((if_neg (Ne.symm hne)).trans h)
  | forgetVersion hne => exact forgetVersion_latestSealed.2 ⟨h, hne⟩
  | _ => exact h

/-! ## Runs -/

/-- No request for a version is refused for want of a sealed manifest. -/
structure State.Offers (c : Config) (s : State) (vk : VersionKey) : Prop where
  manifest : ∀ filter,
    (handleGetManifest s ⟨vk.job, vk.modelRole, vk.modelVersion, filter⟩).message ≠
      "no sealed manifest for version"
  pull : ∀ oid transport,
    (handlePullTensor c s ⟨vk.job, vk.modelRole, vk.modelVersion, oid, transport⟩).2 ≠
      .pull { message := "version not sealed; refusing pull", objectId := oid }

/-- Why a pull of a sealed version is refused, if it is. -/
theorem pullCheck_of_versionSealed {req : PullTensorRequest}
    (h : versionSealed s ⟨req.job, req.modelRole, req.modelVersion⟩) :
    pullCheck c s req ≠ .error "version not sealed; refusing pull" := by
  obtain ⟨man, hman⟩ := exists_of_versionSealed h
  simp only [pullCheck, hman]
  repeat' split
  all_goals simp

/-- A pull that is not refused is not answered yet, or its staging has failed. -/
theorem stageForExport_answer {l : PullLocals} : (stageForExport c s l).2 = .none ∨
    (stageForExport c s l).2 =
      .pull { message := "staging failed", objectId := l.req.objectId } := by
  rw [stageForExport]
  repeat' split
  all_goals first | exact .inl rfl | exact .inr rfl

/-- A sealed version is offered. -/
theorem State.offers_of_versionSealed (h : versionSealed s vk) : s.Offers c vk where
  manifest filter := by
    obtain ⟨man, hman⟩ := exists_of_versionSealed h
    rw [handleGetManifest]
    split
    · simp
    · simp [hman]
  pull oid transport := by
    have hcheck : pullCheck c s ⟨vk.job, vk.modelRole, vk.modelVersion, oid, transport⟩ ≠
        .error "version not sealed; refusing pull" := pullCheck_of_versionSealed h
    rw [handlePullTensor]
    split
    · next message hm =>
      intro heq
      injection heq with heq
      injection heq with _ heq
      exact hcheck (heq ▸ hm)
    · rcases stageForExport_answer (c := c) with heq | heq <;> rw [heq] <;> simp

/-- The version that is answered is the latest one. -/
theorem latestSealed_of_found {req : GetLatestSealedVersionRequest}
    {resp : GetLatestSealedVersionResponse}
    (h : handleGetLatestSealedVersion s req = .latest resp) (hfound : resp.found) :
    s.catalog.latestSealed.lookup ⟨req.job, req.modelRole⟩ = some resp.modelVersion := by
  rw [handleGetLatestSealedVersion] at h
  split at h
  · cases h
    cases hfound
  split at h
  · cases h
    cases hfound
  · next v hv =>
    cases h
    exact hv

/-- The latest versions are sealed in every state of a run. -/
theorem LatestSealed.step {a : Action} {r : Response} (h : LatestSealed s)
    (hstep : step c s a = some (s', r)) : LatestSealed s' :=
  (step_moves Guards.unguarded_ok (Rules.free_ok c s a) hstep).invariant
    (motive := fun x => LatestSealed x.1) (fun _ _ hx hxy => hx.move hxy) h

/-- In every state reached the latest version of every role is sealed. And once the latest
    version of a role was asked for, no request for it is refused for want of a sealed manifest,
    until it is dropped or a version of the role is promoted. -/
theorem latest_version_offered (h : Reached c s) :
    (∀ rk v, s.catalog.latestSealed.lookup rk = some v → versionSealed s (rk.versionKey v)) ∧
    ∀ req resp s', handleGetLatestSealedVersion s req = .latest resp → resp.found →
      Reach (· = s) ((latestRules ⟨req.job, req.modelRole⟩ resp.modelVersion).ok c) (step c) s' →
      s'.Offers c ⟨req.job, req.modelRole, resp.modelVersion⟩ := by
  have hall : LatestSealed s := by
    refine Reach.invariant (motive := LatestSealed) ?_ ?_ h
    · rintro _ rfl
      exact nofun
    · exact fun _ _ _ _ hs _ hstep => hs.step hstep
  refine ⟨hall, fun req resp s' hans hfound h' => ?_⟩
  have hlatest : s.catalog.latestSealed.lookup ⟨req.job, req.modelRole⟩ =
      some resp.modelVersion := latestSealed_of_found hans hfound
  have hkept : LatestSealed s' ∧
      s'.catalog.latestSealed.lookup ⟨req.job, req.modelRole⟩ = some resp.modelVersion := by
    refine Reach.invariant (motive := fun s' => LatestSealed s' ∧
      s'.catalog.latestSealed.lookup ⟨req.job, req.modelRole⟩ = some resp.modelVersion) ?_ ?_ h'
    · rintro _ rfl
      exact ⟨hall, hlatest⟩
    · rintro s₁ a s₂ r ⟨hs₁, hv⟩ hok hstep
      exact ⟨hs₁.step hstep, (step_moves Guards.unguarded_ok hok hstep).invariant
        (motive := fun x : Scene => x.1.catalog.latestSealed.lookup _ = _)
        (fun _ _ hx hxy => hxy.latestSealed_lookup hx) hv⟩
  exact State.offers_of_versionSealed (hkept.1 _ _ hkept.2)

/-- A version is promoted. Then another one is sealed and dropped: the first one is offered. -/
theorem latest_version_offered_still :
    ∃ s s', Reached oneSlot s ∧
      Reach (· = s) ((latestRules ⟨theJob, 0⟩ 1).ok oneSlot) (step oneSlot) s' ∧
      handleGetLatestSealedVersion s ⟨theJob, 0⟩ =
        .latest { ok := true, message := "ok", found := true, modelVersion := 1 } ∧
      versionSealed s ⟨theJob, 0, 1⟩ ∧ s'.Offers oneSlot ⟨theJob, 0, 1⟩ := by
  refine exists_reach_and oneSlot _ _ ([registers, registersJob] ++ creates 1 1 1 [1] ++
      [.rpc 3 (.seal { sealRequest with promote := true })])
    [.rpc 4 (.seal { sealRequest with modelVersion := 2 }), .rpc 5 (.drop ⟨theJob, 0, 2⟩)]
    (by decide +kernel) ?_
  intro s s' hs hs' hans
  obtain ⟨hsealed, hoffers⟩ := latest_version_offered hs
  exact ⟨hsealed ⟨theJob, 0⟩ 1 (latestSealed_of_found hans rfl),
    hoffers ⟨theJob, 0⟩ _ s' hans rfl hs'⟩

end StateSpectre
