import StateSpectre.Latest
import StateSpectre.Occasions
import StateSpectre.Pulls

/-!
# Rollout engines see one version at a time

A rollout engine names a job, a role and a version, and is answered with ids of objects and
their bytes. What it is answered must be of that version only: the members of a manifest are
kept as ids, which are looked up again at every request, long after the version was sealed, and
when objects of other versions may have come and gone. As ids come from one counter and are
never drawn twice, an id in a sealed manifest leads to an object that was there, of that version
and committed, when the version was sealed, or to nothing (`rollout_isolated`).
-/

namespace StateSpectre

variable {c : Config} {g : Guards} {k : Rules} {x y : Scene} {s s' : State} {vk : VersionKey}
  {oid : ℕ} {resp : PullTensorResponse} {l : PullLocals}

/-! ## Pulls under way -/

/-- The task `t` of a pull goes on with what a task among those does. -/
def Task.GoesOn (c : Config) (t : Task) (l : PullLocals) (tasks : List Task) : Prop :=
  ∃ t' ∈ tasks, t'.pull = some l ∧ ∀ data, t.Sends c data → t'.Sends c data

/-- A pull under way was under way, or it has just begun. It sends what it was to send. -/
theorem Move.pull_origin {t : Task} (h : Move c g k x y) (ht : t ∈ y.1.store.tasks)
    (hl : t.pull = some l) :
    t.GoesOn c l x.1.store.tasks ∨
      ∃ req o, pullCheck c x.1 req = .ok o ∧ l = o.pullLocals req ∧ k x.1 (.pull l) ∧
        ∀ data, t.Sends c data → x.1.Sends c l data := by
  have hsame : t ∈ x.1.store.tasks → t.GoesOn c l x.1.store.tasks :=
    fun ht => ⟨t, ht, hl, fun _ h => h⟩
  have hadd : ∀ {st : Store} {t' : Task}, t ∈ (st.addTask t').tasks →
      (t' = t → t'.pull = some l → t.GoesOn c l x.1.store.tasks) →
      (t ∈ st.tasks → t.GoesOn c l x.1.store.tasks) → t.GoesOn c l x.1.store.tasks := by
    intro st t' ht hnew hold
    rcases List.mem_cons.1 ht with rfl | ht
    · exact hnew rfl hl
    · exact hold ht
  have hdrop : ∀ {st : Store} {i : ℕ}, t ∈ (st.dropTask i).tasks → st.tasks = x.1.store.tasks →
      t.GoesOn c l x.1.store.tasks := fun ht heq => hsame (heq ▸ List.mem_of_mem_eraseIdx ht)
  cases h with
  | warm | force | takeDrain | takeReadback => exact .inl (hadd ht nofun hsame)
  | drainBegin | drainCopied | readbackFound | readbackLost | readbackRead | warmRead =>
    exact .inl (hadd ht nofun fun ht => hdrop ht rfl)
  | drainSettled | drainFailed | readbackMissing | readbackFailed | readbackDone | warmFailed
  | failPull | endPull | dropTask => exact .inl (hdrop ht rfl)
  | warmDone =>
    exact .inl (hdrop ht rfl)
  | startPull hcheck hpull hk hsends =>
    rcases List.mem_cons.1 ht with rfl | ht
    · obtain rfl := Option.some.inj (hpull.symm.trans hl)
      exact .inr ⟨_, _, hcheck, rfl, hk, hsends⟩
    · exact .inl (hsame ht)
  | nextPull hi hpull hpull' hsends =>
    refine .inl (hadd ht (fun heq hl' => ⟨_, List.mem_of_getElem? hi, ?_, ?_⟩)
      fun ht => hdrop ht rfl)
    · exact hpull.trans (hpull'.symm.trans hl')
    · exact heq ▸ hsends
  | stage hi =>
    refine .inl (hadd ht (fun heq hl' => ⟨_, List.mem_of_getElem? hi, hl', ?_⟩)
      fun ht => hdrop ht rfl)
    exact heq ▸ fun _ h => h
  | _ => exact .inl (hsame ht)

/-! ## What an id in a manifest leads to -/

/-- The id `oid` stands for an object that was there and committed in a state `s₀` in which the
    version was sealed, as `sealedIn` tells: what it leads to now, if anything, is that object. -/
def Vouched (sealedIn : VersionKey → State → Prop) (x : Scene) (vk : VersionKey) (oid : ℕ) : Prop :=
  ∃ s₀ o, sealedIn vk s₀ ∧ s₀.catalog.objects.lookup oid = some o ∧ o.key.versionKey = vk ∧
    o.state.readable ∧ Descends s₀.catalog (x.1.catalog, x.purposes) oid

variable {sealedIn sealedIn' : VersionKey → State → Prop}

theorem Vouched.move (h : Vouched sealedIn x vk oid) (ho : x.Orderly) (hm : Move c g k x y) :
    Vouched sealedIn y vk oid := by
  obtain ⟨s₀, o, hin, hobj, hvk, hread, hdesc⟩ := h
  exact ⟨s₀, o, hin, hobj, hvk, hread, hdesc.move ho hm⟩

theorem Vouched.mono (h : Vouched sealedIn x vk oid)
    (hin : ∀ s₀, sealedIn vk s₀ → sealedIn' vk s₀) : Vouched sealedIn' x vk oid := by
  obtain ⟨s₀, o, hs₀, hobj⟩ := h
  exact ⟨s₀, o, hin s₀ hs₀, hobj⟩

/-- The ids in sealed manifests, and those of pulls under way, are vouched for. -/
structure Isolated (sealedIn : VersionKey → State → Prop) (x : Scene) : Prop where
  member : ∀ vk man, x.1.catalog.manifests.lookup vk = some man → man.state = .sealed →
    ∀ oid ∈ man.objectIds, Vouched sealedIn x vk oid
  pull : ∀ t ∈ x.1.store.tasks, ∀ l, t.pull = some l →
    Vouched sealedIn x ⟨l.req.job, l.req.modelRole, l.req.modelVersion⟩ l.req.objectId

/-- The versions are sealed in the states that `sealedIn` tells. -/
def sealedInRules (sealedIn : VersionKey → State → Prop) : Rules := fun s e =>
  ∀ vk, e = .sealVersion vk → sealedIn vk s

theorem Isolated.move (h : Isolated sealedIn x) (ho : x.Orderly)
    (hm : Move c g (sealedInRules sealedIn) x y) : Isolated sealedIn y where
  member vk man hman hsealed oid hoid := by
    rcases hm.manifest_origin hman hsealed with hman | ⟨-, -, -, rfl, hin⟩
    · exact (h.member vk man hman hsealed oid hoid).move ho hm
    -- The version is sealed now, so that its members are those of this state.
    · obtain ⟨o, hobj, hvk, hread⟩ := mem_sealManifest_iff.1 hoid
      have hself : Vouched sealedIn x vk oid :=
        ⟨x.1, o, hin vk rfl, hobj, hvk, hread, ho.descends_self hobj⟩
      exact hself.move ho hm
  pull t ht l hl := by
    rcases hm.pull_origin ht hl with ⟨t', ht', hl', -⟩ | ⟨req, o, hcheck, rfl, -⟩
    · exact (h.pull t' ht' l hl').move ho hm
    · obtain ⟨-, man, -, hman, hsealed, -, -, hmem, -⟩ := pullCheck_eq_ok hcheck
      exact (h.member _ man hman hsealed _ hmem).move ho hm

/-! ## Runs -/

/-- In a run to `s` a request sealed the version in the state `s₀`. -/
def SealedIn (c : Config) (s : State) (vk : VersionKey) (s₀ : State) : Prop :=
  ∃ now req s₁ r, Reached c s₀ ∧ req.versionKey = vk ∧
    sealCheck c s₀ req = none ∧ sealFails c s₀ req = false ∧
    step c s₀ (.rpc now (.seal req)) = some (s₁, r) ∧
    Reach (· = s₁) (fun _ _ => True) (step c) s

theorem SealedIn.step {s₀ : State} {a : Action} {r : Response} (h : SealedIn c s vk s₀)
    (hstep : step c s a = some (s', r)) : SealedIn c s' vk s₀ := by
  obtain ⟨now, req, s₁, r₁, hs₀, hvk, hcheck, hfails, hst, hs⟩ := h
  exact ⟨now, req, s₁, r₁, hs₀, hvk, hcheck, hfails, hst, hs.step trivial hstep⟩

/-- In every state reached, the ids in manifests and pulls are vouched for. -/
theorem Reachable.isolated (h : Reached c s) :
    Isolated (SealedIn c s) (s, none, {}) := by
  induction h with
  | init hs =>
    subst hs
    exact ⟨nofun, fun _ ht => nomatch ht⟩
  | @step s s' a r hs _ hstep ih =>
    have hs : Reached c s := hs
    have hrules : (sealedInRules (SealedIn c s')).ok c s a := by
      rintro ⟨s₀, e⟩ he vk rfl
      cases Occasion.of_mem he rfl with
      | «seal» hcheck hfails => exact ⟨_, _, s', r, hs, rfl, hcheck, hfails, hstep, .init rfl⟩
    have hstart : Isolated (SealedIn c s') (s, none, {}) :=
      ⟨fun vk man hman hsealed oid hoid =>
          (ih.member vk man hman hsealed oid hoid).mono fun _ h => h.step hstep,
        fun t ht l hl => (ih.pull t ht l hl).mono fun _ h => h.step hstep⟩
    exact ((step_moves Guards.unguarded_ok hrules hstep).invariant
      (motive := fun x => x.Orderly ∧ Isolated (SealedIn c s') x)
      (fun x y hx hxy => ⟨hx.1.move hxy, hx.2.move hx.1 hxy⟩) ⟨hs.orderly, hstart⟩).2

/-- The object `oid` with that key is of the version, and was committed when the version was
    sealed. -/
structure CommittedWhenSealed (c : Config) (s : State) (vk : VersionKey) (oid : ℕ)
    (key : CanonicalTensorKey) : Prop where
  version : key.versionKey = vk
  committed : ∃ s₀ o, SealedIn c s vk s₀ ∧ s₀.catalog.objects.lookup oid = some o ∧ o.key = key ∧
    o.state.readable

/-- An id that is vouched for stands for one key. -/
theorem Vouched.committed (h : Vouched (SealedIn c s) (s, none, {}) vk oid) :
    ∃ key, CommittedWhenSealed c s vk oid key ∧
      ∀ o, s.catalog.objects.lookup oid = some o → o.key = key := by
  obtain ⟨s₀, o, hin, hobj, hvk, hread, hdesc⟩ := h
  refine ⟨o.key, ⟨hvk, s₀, o, hin, hobj, rfl, hread⟩, fun o' ho' => ?_⟩
  obtain ⟨o₀, ho₀, hcont⟩ := hdesc.object o' ho'
  rw [Option.some.inj (hobj.symm.trans ho₀)]
  exact hcont.key

/-- A pull is not answered ok at once. -/
theorem handlePullTensor_answer {req : PullTensorRequest}
    (h : (handlePullTensor c s req).2 = .pull resp) : resp.ok = false := by
  rw [handlePullTensor] at h
  split at h
  · cases h
    rfl
  · next o _ =>
    rcases stageForExport_answer (c := c) (s := startExport s req o)
      (l := ⟨req, o.state, o.nbytes, o.contentHashLo, o.contentHashHi⟩) with hnone | hfailed
    · cases hnone.symm.trans h
    · cases hfailed.symm.trans h
      rfl

/-- A pull is answered ok for the object it names. -/
theorem resume_pull {t : Task} {now : ℕ} (ht : t.pull = some l)
    (h : resume c s now t = some (s', .pull resp)) (hok : resp.ok) :
    resp.objectId = l.req.objectId := by
  cases t with
  | pullStaged l' buf =>
    simp only [resume, Option.some.injEq, pullStaged] at h
    split at h
    · cases h
    · cases h
      cases hok
  | pullSent l' error =>
    cases ht
    simp only [resume, Option.some.injEq, pullSent, Prod.mk.injEq] at h
    split at h
    · cases h.2
      cases hok
    · cases h.2
      rfl
  | pullStageIo | pullReadIo | pullSendIo => cases h
  | _ => cases ht

/-- The entries of a manifest are its members that are there. -/
theorem mem_tensors {req : GetManifestRequest} {e : TensorManifestEntry}
    (h : e ∈ (handleGetManifest s req).tensors) :
    ∃ man, s.catalog.manifests.lookup ⟨req.job, req.modelRole, req.modelVersion⟩ = some man ∧
      man.state = .sealed ∧ e.objectId ∈ man.objectIds ∧
      ∃ o, s.catalog.objects.lookup e.objectId = some o ∧ e.key = o.key ∧
        e.shard = (e.objectId, o.nbytes, o.contentHashLo, o.contentHashHi) := by
  rw [handleGetManifest] at h
  split at h
  · cases h
  split at h
  · cases h
  next man hman =>
    obtain ⟨hman, hsealed⟩ := Option.filter_eq_some_iff.1 hman
    obtain ⟨oid, hoid, he⟩ := List.mem_filterMap.1 h
    obtain ⟨o, ho, rfl⟩ := Option.map_eq_some_iff.1 he
    exact ⟨man, hman, of_decide_eq_true hsealed, hoid, o, (Option.filter_eq_some_iff.1 ho).1, rfl,
      rfl⟩

/-- In every state reached: the objects that a manifest lists, and that a pull sends, are of the
    version that was asked for, and were committed when it was sealed. And what an id stands for
    never changes, whatever is dropped and created again. -/
theorem rollout_isolated (h : Reached c s) :
    (∀ req, (handleGetManifest s req).ok → ∀ e ∈ (handleGetManifest s req).tensors,
      CommittedWhenSealed c s ⟨req.job, req.modelRole, req.modelVersion⟩ e.objectId e.key) ∧
    (∀ req resp, (handlePullTensor c s req).2 = .pull resp → resp.ok = false) ∧
    (∀ now i t l s' resp, s.store.tasks[i]? = some t → t.pull = some l →
      step c s (.proceed now i) = some (s', .pull resp) → resp.ok →
      resp.objectId = l.req.objectId ∧
        ∃ key, CommittedWhenSealed c s ⟨l.req.job, l.req.modelRole, l.req.modelVersion⟩
            l.req.objectId key ∧
          ∀ o, s.catalog.objects.lookup l.req.objectId = some o → o.key = key) ∧
    ∀ s', Reach (· = s) (fun _ _ => True) (step c) s' → ∀ oid o o',
      s.catalog.objects.lookup oid = some o → s'.catalog.objects.lookup oid = some o' →
      o'.key = o.key := by
  have hiso := h.isolated
  refine ⟨fun req _ e he => ?_, fun _ _ => handlePullTensor_answer, ?_,
    fun s' h' oid o o' ho ho' => ?_⟩
  · obtain ⟨man, hman, hsealed, hmem, o, ho, hkey, -⟩ := mem_tensors he
    obtain ⟨key, hcommitted, hall⟩ := (hiso.member _ man hman hsealed _ hmem).committed
    rw [hkey, hall o ho]
    exact hcommitted
  · intro now i t l s' resp hi hl hstep hok
    obtain ⟨t', hi', hres⟩ := Option.bind_eq_some_iff.1 hstep
    cases hi.symm.trans hi'
    exact ⟨resume_pull hl hres hok, (hiso.pull t (List.mem_of_getElem? hi) l hl).committed⟩
  · have hord := h.orderly
    obtain ⟨hfresh, hdrawn, -⟩ := hord.descends_self ho
    obtain ⟨o₀, ho₀, hcont⟩ := (hord.descends hfresh hdrawn h').object o' ho'
    rw [Option.some.inj (ho.symm.trans ho₀)]
    exact hcont.key

/-- An object is sealed and pulled: it is listed for its version, and the pull is answered. -/
theorem rollout_isolated_pulled :
    ∃ s s' resp, Reached oneSlot s ∧
      (step oneSlot s (.proceed 5 0) = some (s', .pull resp) ∧ resp.ok ∧
        (handleGetManifest s (wholeManifest theVersion)).ok ∧
        (handleGetManifest s (wholeManifest theVersion)).tensors.length = 1 ∧
        ∃ t, s.store.tasks[0]? = some t ∧ ∃ l, t.pull = some l ∧
          (⟨l.req.job, l.req.modelRole, l.req.modelVersion⟩ : VersionKey) = theVersion) ∧
      (∀ e ∈ (handleGetManifest s (wholeManifest theVersion)).tensors,
        CommittedWhenSealed oneSlot s theVersion e.objectId e.key) ∧
      ∃ key, CommittedWhenSealed oneSlot s theVersion resp.objectId key := by
  refine exists_reachable₃_and oneSlot _ ([registers, registersJob] ++ creates 1 1 1 [1] ++
    [seals 3, pulls 4 1, .io 0 .ok]) (by decide +kernel) ?_
  rintro s s' resp hs ⟨hstep, hrok, hok, -, t, ht, l, hl, hvk⟩
  obtain ⟨hmanifest, -, hpull, -⟩ := rollout_isolated hs
  obtain ⟨hid, key, hkey, -⟩ := hpull 5 0 t l s' resp ht hl hstep hrok
  exact ⟨hmanifest _ hok, key, hid ▸ hvk ▸ hkey⟩

end StateSpectre
