import StateSpectre.Manifests

/-!
# Sealed versions are closed

Once a version is sealed, an evict to it is refused, so that its manifest names all of it. But
an evict looks at the manifest only when it comes in, and goes on after a forced drain without
looking again. And a seal that need not be complete leaves out the objects that are still being
created, whose commits nothing refuses (`commit_after_seal`).

If a version is sealed only when all its objects can be read and no search is to create one of
it (`sealRules`), then it is closed: its objects are members of its manifest, no other is
created, and none is still to be committed (`sealed_version_closed`).
-/

namespace StateSpectre

variable {c : Config} {g : Guards} {k : Rules} {x y : Scene} {s s' : State} {vk : VersionKey}
  {man : Manifest}

/-! ## Members -/

/-- The version that a shard belongs to. -/
def CanonicalTensorKey.versionKey (key : CanonicalTensorKey) : VersionKey :=
  ⟨key.job, key.modelRole, key.modelVersion⟩

theorem mem_versionRows {oid : ℕ} {o : CanonicalObject} : (oid, o) ∈ versionRows s vk ↔
    s.catalog.objects.lookup oid = some o ∧ o.key.versionKey = vk := by
  obtain ⟨job, role, version⟩ := vk
  simp only [versionRows, List.mem_filter, Table.mem_rows, decide_eq_true_eq,
    CanonicalTensorKey.versionKey, VersionKey.mk.injEq]

/-- The members of a version are its objects that can be read. -/
theorem mem_sealManifest_iff {oid : ℕ} : oid ∈ (sealManifest s vk).objectIds ↔
    ∃ o, s.catalog.objects.lookup oid = some o ∧ o.key.versionKey = vk ∧ o.state.readable := by
  simp only [sealManifest, List.mem_insertionSort, List.mem_map, Prod.exists, sealMembers,
    List.mem_filter, mem_versionRows, and_assoc]
  constructor
  · rintro ⟨_, o, ho, hvk, hread, rfl⟩
    exact ⟨o, ho, hvk, hread⟩
  · rintro ⟨o, ho, hvk, hread⟩
    exact ⟨oid, o, ho, hvk, hread, rfl⟩

/-- The version that a search is to create an object of. -/
def Purpose.createsIn : Purpose → Option VersionKey
  | .create req _ => some req.key.versionKey
  | .offload .. | .prefetch .. | .candidate .. | .restore .. => none

/-- A version is sealed only if all its objects can be read and no search is to create one
    of it. -/
def sealRules : Rules := fun s e =>
  match e with
  | .sealVersion vk =>
    (∀ oid o, s.catalog.objects.lookup oid = some o → o.key.versionKey = vk → o.state.readable) ∧
      ∀ p ∈ s.store.tasks.filterMap Task.purpose, p.createsIn ≠ some vk
  | _ => True

instance {e : Event} : Decidable (sealRules s e) := by
  induction e using Event.casesOn <;> dsimp only [sealRules] <;> infer_instance

/-! ## Moves -/

/-- The ids of the members of sealed versions were drawn, and stand for their shards. -/
def MembersNamed (x : Scene) : Prop :=
  ∀ vk man, x.1.catalog.manifests.lookup vk = some man → man.state = .sealed →
    ∀ oid ∈ man.objectIds, ∃ keyStr, Names (x.1.catalog, x.purposes) keyStr oid

theorem MembersNamed.move (h : MembersNamed x) (ho : x.Orderly) (hm : Move c g k x y) :
    MembersNamed y := by
  have hnames : ∀ {oid keyStr}, Names (x.1.catalog, x.purposes) keyStr oid →
      Names (y.1.catalog, y.purposes) keyStr oid := fun {oid keyStr} hn =>
    (hm.catalog ho.pulls).invariant (motive := fun z => Names z keyStr oid)
      (fun _ _ hz hzw => hz.step hzw) hn
  intro vk man hman hsealed oid hoid
  rcases hm.manifest_origin hman hsealed with hman | ⟨-, -, -, rfl, -⟩
  · obtain ⟨keyStr, hn⟩ := h vk man hman hsealed oid hoid
    exact ⟨keyStr, hnames hn⟩
  · obtain ⟨o, hobj, -⟩ := mem_sealManifest_iff.1 hoid
    refine ⟨o.keyStr, hnames ⟨ho.indexed.drawn oid o hobj, fun hc => ?_, fun o' ho' => ?_⟩⟩
    · cases (ho.indexed.created oid hc).2.symm.trans hobj
    · rw [Option.some.inj (hobj.symm.trans ho')]

/-- The objects of sealed versions are members and are committed, and no search is to create
    another one. -/
structure Closed (x : Scene) : Prop where
  members : ∀ vk man, x.1.catalog.manifests.lookup vk = some man → man.state = .sealed →
    ∀ oid o, x.1.catalog.objects.lookup oid = some o → o.key.versionKey = vk →
      oid ∈ man.objectIds ∧ o.state ≠ .creating
  searches : ∀ vk man, x.1.catalog.manifests.lookup vk = some man → man.state = .sealed →
    ∀ req oid, .create req oid ∈ x.purposes → req.key.versionKey ≠ vk

/-- Every move keeps sealed versions closed. -/
theorem Closed.move (h : Closed x) (ho : x.Orderly) (hm : Move c g sealRules x y) : Closed y := by
  refine ⟨fun vk man hman hsealed oid o' ho' hvk => ?_,
    fun vk man hman hsealed req oid hp hvk => ?_⟩
  · rcases hm.manifest_origin hman hsealed with hman | ⟨hy, -, -, rfl, hread, -⟩
    · rcases hm.object_origin ho.pulls ho' with ⟨o, hobj, hcont⟩ | ⟨req, id, base, hp, rfl⟩
      · rw [hcont.key] at hvk
        obtain ⟨hmem, hst⟩ := h.members vk man hman hsealed oid o hobj hvk
        exact ⟨hmem, (hcont.committed hst).1⟩
      · refine absurd hvk (h.searches vk man hman hsealed req oid ?_)
        rw [Scene.purposes, hp]
        exact List.mem_cons_self ..
    · rw [hy, lookup_sealVersion] at ho'
      obtain ⟨o, hobj, rfl⟩ := Option.map_eq_some_iff.1 ho'
      have hmem : oid ∈ (sealManifest x.1 vk).objectIds := by
        have hkey : o.key.versionKey = vk := by
          split at hvk <;> exact hvk
        exact mem_sealManifest_iff.2 ⟨o, hobj, hkey, hread oid o hobj hkey⟩
      rw [if_pos hmem]
      exact ⟨hmem, by rintro ⟨⟩⟩
  · rcases hm.manifest_origin hman hsealed with hman | ⟨hy, hy₂, hx₂, rfl, -, hsearch⟩
    · rcases hm.mem_purposes hp with hp | ⟨⟨-, hopen, -⟩, -⟩
      · exact h.searches vk man hman hsealed req oid hp hvk
      · rw [← CanonicalTensorKey.versionKey, hvk, versionSealed, hman] at hopen
        simp [hsealed] at hopen
    · refine hsearch (.create req oid) ?_ (congrArg some hvk)
      rw [Scene.purposes, hy, hy₂, sealVersion_eq] at hp
      exact hp

/-! ## Runs -/

theorem Reachable.closed (h : Reachable c (sealRules.ok c) s) :
    Orderly s ∧ MembersNamed (s, none, {}) ∧ Closed (s, none, {}) := by
  exact h.invariant_of_rules (motive := fun x => x.Orderly ∧ MembersNamed x ∧ Closed x)
    ⟨.initial, nofun, nofun, nofun⟩
    fun x y hx hxy => ⟨hx.1.move hxy, hx.2.1.move hx.1 hxy, hx.2.2.move hx.1 hxy⟩

/-- In every run in which versions are sealed only when all their objects can be read and
    none is to be created: as long as a version is sealed by the same manifest, no object of it
    is created, and none was still to be committed. -/
theorem sealed_version_closed (h : Reachable c (sealRules.ok c) s)
    (hman : s.catalog.manifests.lookup vk = some man) (hsealed : man.state = .sealed)
    (h' : Reach (· = s) (sealRules.ok c) (step c) s')
    (hman' : s'.catalog.manifests.lookup vk = some man) {oid : ℕ} {o' : CanonicalObject}
    (ho' : s'.catalog.objects.lookup oid = some o') (hvk : o'.key.versionKey = vk) :
    ∃ o, s.catalog.objects.lookup oid = some o ∧ o.key.versionKey = vk ∧
      o.state ≠ .creating ∧ o'.state ≠ .creating := by
  have hr' : Reachable c (sealRules.ok c) s' := h.trans h'
  obtain ⟨-, hnamed, hclosed⟩ := h.closed
  obtain ⟨hmem, hst'⟩ := hr'.closed.2.2.members vk man hman' hsealed oid o' ho' hvk
  obtain ⟨keyStr, hdrawn, hfresh, -⟩ := hnamed vk man hman hsealed oid hmem
  have hdesc := h.orderly.descends hfresh hdrawn h'
  obtain ⟨o, ho, hcont⟩ := hdesc.object o' ho'
  have hkey : o.key.versionKey = vk := by
    rw [← hvk, hcont.key]
  exact ⟨o, ho, hkey, (hclosed.members vk man hman hsealed oid o ho hkey).2, hst'⟩

/-- A version is sealed while its only object is being created, and then the object is
    committed. -/
theorem commit_after_seal :
    ∃ s man, Reached oneSlot s ∧
      s.catalog.manifests.lookup theVersion = some man ∧ man.state = .sealed ∧
      ∃ s' r, step oneSlot s (commits 4 1 1) = some (s', r) ∧
        s'.catalog.manifests.lookup theVersion = some man ∧
        (s.catalog.objects.lookup 1).map (·.state) = some .creating ∧
        (s'.catalog.objects.lookup 1).map (·.state) = some .validPinned :=
  exists_reachable₂ oneSlot _
    ([registers, registersJob] ++ (creates 1 1 1 [1]).take 4 ++
      [.rpc 3 (.seal { sealRequest with failIfMissing := false })]) (by decide +kernel)

/-- A version with one object is sealed and pulled: the object was there all along. -/
theorem sealed_version_closed_pulled :
    ∃ s s', Reachable oneSlot (sealRules.ok oneSlot) s ∧
      Reach (· = s) (sealRules.ok oneSlot) (step oneSlot) s' ∧
      (∃ man o', s.catalog.manifests.lookup theVersion = some man ∧
        s'.catalog.objects.lookup 1 = some o' ∧ man.state = .sealed ∧
        s'.catalog.manifests.lookup theVersion = some man ∧ o'.key.versionKey = theVersion ∧
        o'.state = .exportInFlight) ∧
      ∃ o, s.catalog.objects.lookup 1 = some o ∧ o.key.versionKey = theVersion ∧
        o.state ≠ .creating := by
  refine exists_reach_and oneSlot _ _ ([registers, registersJob] ++ creates 1 1 1 [1] ++ [seals 3])
    [pulls 4 1] (by decide +kernel) ?_
  rintro s s' hs hs' ⟨man, o', hman, ho', hsealed, hman', hvk, -⟩
  obtain ⟨o, ho, hvk', hst, -⟩ := sealed_version_closed hs hman hsealed hs' hman' ho' hvk
  exact ⟨o, ho, hvk', hst⟩

end StateSpectre
