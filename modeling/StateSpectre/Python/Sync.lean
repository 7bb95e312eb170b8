import StateSpectre.Isolation

/-!
# A rollout client keeps in sync

A rollout client goes after the latest sealed version of a role: it asks for its manifest, pulls the
tensors it does not have, and remembers the hash of what it pulled under the id of the object
(`diffLocal`, `syncEntries`). A *rollout world* is the daemon together with one client, whose
requests are handled between whatever else the daemon does.

Since ids of objects are never used again, and an object keeps its key, its size and its hash once
it is committed, what the client skips it has pulled. Over tcp it has received the bytes, too, and
looked at their header. Over libfabric it takes the word of the daemon: the bytes go to a listener
that the client does not ask, or into a file, if the daemon was built without libfabric. And every
version has objects of its own: what the client pulled for one version it does not find again for
the next one, even if nothing has changed (`sync_pulls_again`). What is skipped was received, and a
tensor that did not change is not pulled again, exactly under the conditions of `sync_incremental`.
-/

namespace StateSpectre

/-! ## The client -/

/-- The hash of the content of a tensor. -/
def TensorManifestEntry.contentHash (e : TensorManifestEntry) : ℕ × ℕ :=
  (e.contentHashLo, e.contentHashHi)

/-- The entries whose hash is not cached for their object. -/
def diffLocal (cache : Table ℕ (ℕ × ℕ)) (tensors : List TensorManifestEntry) :
    List TensorManifestEntry :=
  tensors.filter fun e => cache.lookup e.objectId ≠ some e.contentHash

/-- The entries that `sync_latest` goes over, with whether they are to be pulled. -/
def syncEntries (cache : Table ℕ (ℕ × ℕ)) (tensors : List TensorManifestEntry) :
    List (TensorManifestEntry × Bool) :=
  let changedIds := (diffLocal cache tensors).map (·.objectId)
  tensors.map fun e => (e, decide (e.objectId ∈ changedIds))

/-- How far the client is. -/
inductive ClientStage
  | idle
  /-- `sync_latest` knows the latest version. -/
  | found (version : ℕ)
  /-- The entries that are left, with whether they are to be pulled. -/
  | pulling (transport : TransportKind) (version : ℕ) (todo : List (TensorManifestEntry × Bool))
  /-- `PullTensor` is sent for an entry. The bytes are there or not yet, with the header that they
      are sent with. -/
  | requested (transport : TransportKind) (version : ℕ) (e : TensorManifestEntry)
      (received : Option (PullLocals × List Bytes)) (todo : List (TensorManifestEntry × Bool))

/-- A tensor that the client has pulled: the entry, and what it has received, if anything. -/
structure Pulled where
  entry : TensorManifestEntry
  received : Option (PullLocals × List Bytes)

/-- What `sync_latest` returns. -/
structure SyncResult where
  version : Option ℕ := none
  pulled : List ℕ := []
  skipped : List ℕ := []
  deriving DecidableEq

/-- The daemon and a client of it. The entries that the client was ever answered, and all it pulled,
    are kept for the sake of the proofs. -/
structure RolloutWorld where
  daemon : State
  stage : ClientStage := .idle
  cache : Table ℕ (ℕ × ℕ) := ∅
  result : SyncResult := {}
  known : List TensorManifestEntry := []
  pulled : List Pulled := []

/-- What the client and the daemon do. -/
inductive ClientAction
  /-- `sync_latest` is called, and asks for the latest version. -/
  | getLatest
  /-- `sync_latest` goes on with the manifest. -/
  | syncManifest
  | getManifest (version : ℕ) (filter : ManifestFilter)
  /-- `pull_tensor` is called with an entry of a manifest. -/
  | pullTensor (transport : TransportKind) (version : ℕ) (e : TensorManifestEntry)
  /-- The next entry is pulled or skipped. -/
  | next (now : ℕ)
  /-- The task `i` of the daemon sends what the client waits for, and it arrives. -/
  | receive (i : ℕ)
  /-- The task `i` of the daemon answers the pull. -/
  | reply (now i : ℕ)
  /-- An exception is raised: a request times out, or is refused, or there is no descriptor of a
      listener for libfabric, as when `sync_latest` is to use it. -/
  | raise
  /-- Whatever else happens to the daemon. -/
  | daemon (a : Action)

section Step

variable (c : Config) (job : JobUID) (modelRole : ℕ) {e : TensorManifestEntry}
  {known : List TensorManifestEntry} {r : Response} {req : GetManifestRequest}

/-- The request for an entry. -/
def pullRequest (transport : TransportKind) (version : ℕ) (e : TensorManifestEntry) :
    PullTensorRequest where
  job := job
  modelRole := modelRole
  modelVersion := version
  objectId := e.objectId
  transport := transport

/-- Over tcp, what has arrived has to be what the manifest says. Over libfabric nothing is looked
    at. -/
def TransportKind.confirms (transport : TransportKind) (e : TensorManifestEntry)
    (received : Option (PullLocals × List Bytes)) : Bool :=
  transport ≠ .tcp ∨ received.any fun x => x.1.req.objectId = e.objectId ∧ x.1.nbytes = e.nbytes

namespace RolloutWorld

/-- An entry is pulled: its hash is remembered. -/
def remember (w : RolloutWorld) (e : TensorManifestEntry)
    (received : Option (PullLocals × List Bytes)) : RolloutWorld :=
  { w with
    cache := w.cache.insert e.objectId e.contentHash
    result := { w.result with pulled := w.result.pulled ++ [e.objectId] }
    pulled := ⟨e, received⟩ :: w.pulled }

/-- A step of the world, with what the daemon answers. -/
def step (w : RolloutWorld) : ClientAction → Option (RolloutWorld × Response)
  | .getLatest =>
    match w.stage, handleGetLatestSealedVersion w.daemon ⟨job, modelRole⟩ with
    | .idle, .latest resp =>
      if resp.ok ∧ resp.found then
        some ({ w with
          stage := .found resp.modelVersion
          result := { version := some resp.modelVersion } }, .latest resp)
      else some ({ w with result := {} }, .latest resp)
    | _, _ => none
  | .syncManifest =>
    match w.stage with
    | .found version =>
      let resp := handleGetManifest w.daemon { job, modelRole, modelVersion := version }
      if resp.ok then
        some ({ w with
          stage := .pulling .tcp version (syncEntries w.cache resp.tensors)
          known := resp.tensors ++ w.known }, .manifest resp)
      else some ({ w with stage := .idle }, .manifest resp)
    | _ => none
  | .getManifest version filter =>
    match w.stage with
    | .idle =>
      let resp := handleGetManifest w.daemon { job, modelRole, modelVersion := version, filter }
      some ({ w with known := resp.tensors ++ w.known }, .manifest resp)
    | _ => none
  | .pullTensor transport version e =>
    match w.stage with
    | .idle =>
      -- the client knows no other transport
      if e ∈ w.known ∧ transport ≠ .file then
        some ({ w with stage := .pulling transport version [(e, true)] }, .none)
      else none
    | _ => none
  | .next now =>
    match w.stage with
    | .pulling _ _ [] => some ({ w with stage := .idle }, .none)
    | .pulling transport version ((e, false) :: todo) =>
      some ({ w with
        stage := .pulling transport version todo
        result := { w.result with skipped := w.result.skipped ++ [e.objectId] } }, .none)
    | .pulling transport version ((e, true) :: todo) =>
      let req := pullRequest job modelRole transport version e
      (StateSpectre.step c w.daemon (.rpc now (.pull req))).map fun x =>
        ({ w with daemon := x.1, stage := .requested transport version e none todo }, x.2)
    | _ => none
  | .receive i =>
    match w.stage, w.daemon.store.tasks[i]? with
    | .requested transport version e none todo, some (.pullSendIo l payload) =>
      if l.req = pullRequest job modelRole transport version e then
        (StateSpectre.step c w.daemon (.io i .ok)).map fun x =>
          ({ w with
            daemon := x.1
            stage := .requested transport version e (some (l, payload)) todo }, x.2)
      else none
    | _, _ => none
  | .reply now i =>
    match w.stage, w.daemon.store.tasks[i]? with
    | .requested transport version e received todo, some (.pullSent l _) =>
      if l.req = pullRequest job modelRole transport version e then
        match StateSpectre.step c w.daemon (.proceed now i) with
        | some (s, .pull resp) =>
          if resp.ok ∧ transport.confirms e received then
            some ({ w with daemon := s, stage := .pulling transport version todo }.remember e
              received, .pull resp)
          else some ({ w with daemon := s, stage := .idle }, .pull resp)
        | _ => none
      else none
    | _, _ => none
  | .raise => some ({ w with stage := .idle }, .none)
  | .daemon a => (StateSpectre.step c w.daemon a).map fun x => ({ w with daemon := x.1 }, x.2)

end RolloutWorld

end Step

variable {c : Config} {g : Guards} {k : Rules} {x y : Scene} {s s' : State} {oid : ℕ}
  {o : CanonicalObject}

/-! ## What ids stand for -/

/-- What is said about the object `oid`: its id, its size and its hash. -/
def CanonicalObject.shard (o : CanonicalObject) (oid : ℕ) : ℕ × ℕ × ℕ × ℕ :=
  (oid, o.nbytes, o.contentHashLo, o.contentHashHi)

/-- What is sent ahead of the bytes of an object. -/
def PullLocals.shard (l : PullLocals) : ℕ × ℕ × ℕ × ℕ :=
  (l.req.objectId, l.nbytes, l.hashLo, l.hashHi)

theorem contentHash_of_shard {e e' : TensorManifestEntry} (h : e.shard = e'.shard) :
    e.contentHash = e'.contentHash :=
  congrArg (fun d => d.2.2) h

/-- The id `oid` stands for the object `o`, which is committed: what it leads to, if anything, is
    that object. -/
def StandsFor (x : Catalog × List Purpose) (oid : ℕ) (o : CanonicalObject) : Prop :=
  o.state ≠ .creating ∧ ∃ k₀ : Catalog, k₀.objects.lookup oid = some o ∧ Descends k₀ x oid

theorem StandsFor.eq {x : Catalog × List Purpose} {o' : CanonicalObject} (h : StandsFor x oid o)
    (ho' : x.1.objects.lookup oid = some o') :
    o'.key = o.key ∧ o'.shard oid = o.shard oid ∧ o'.state ≠ .creating := by
  obtain ⟨hstate, k₀, hobj, hdesc⟩ := h
  obtain ⟨o₀, ho₀, hcont⟩ := hdesc.object o' ho'
  cases hobj.symm.trans ho₀
  obtain ⟨hstate', hlo, hhi⟩ := hcont.committed hstate
  exact ⟨hcont.key, by rw [CanonicalObject.shard, hcont.nbytes, hlo, hhi]; rfl, hstate'⟩

theorem StandsFor.move (h : StandsFor (x.1.catalog, x.purposes) oid o) (ho : x.Orderly)
    (hm : Move c g k x y) : StandsFor (y.1.catalog, y.purposes) oid o := by
  obtain ⟨hstate, k₀, hobj, hdesc⟩ := h
  exact ⟨hstate, k₀, hobj, hdesc.move ho hm⟩

/-- A committed object that is there is what its id stands for. -/
theorem Scene.Orderly.standsFor (ho : x.Orderly) (hobj : x.1.catalog.objects.lookup oid = some o)
    (hstate : o.state ≠ .creating) : StandsFor (x.1.catalog, x.purposes) oid o :=
  ⟨hstate, x.1.catalog, hobj, ho.descends_self hobj⟩

/-- What the client was answered, and what is sent in pulls, is what the ids stand for. -/
structure Informed (known : List TensorManifestEntry) (x : Scene) : Prop where
  entry : ∀ e ∈ known, ∃ o, StandsFor (x.1.catalog, x.purposes) e.objectId o ∧
    e.key = o.key ∧ e.shard = o.shard e.objectId
  pull : ∀ t ∈ x.1.store.tasks, ∀ l, t.pull = some l →
    ∃ o, StandsFor (x.1.catalog, x.purposes) l.req.objectId o ∧ l.shard = o.shard l.req.objectId
  agree : ∀ t ∈ x.1.store.tasks, ∀ l, t.pull = some l → ∀ e ∈ known,
    e.objectId = l.req.objectId → e.shard = l.shard

theorem Informed.move (h : Informed known x) (ho : x.Orderly) (hm : Move c g k x y) :
    Informed known y where
  entry e he := by
    obtain ⟨o, hstands, hsame⟩ := h.entry e he
    exact ⟨o, hstands.move ho hm, hsame⟩
  pull t ht l hl := by
    rcases hm.pull_origin ht hl with ⟨t', ht', hl', -⟩ | ⟨req, o, hcheck, rfl, -⟩
    · obtain ⟨o, hstands, hsame⟩ := h.pull t' ht' l hl'
      exact ⟨o, hstands.move ho hm, hsame⟩
    · obtain ⟨hsealed, hobj⟩ := pullCheck_sealed hcheck
      exact ⟨o, (ho.standsFor hobj (by rw [hsealed]; decide)).move ho hm, rfl⟩
  agree t ht l hl e he heq := by
    rcases hm.pull_origin ht hl with ⟨t', ht', hl', -⟩ | ⟨req, o, hcheck, rfl, -⟩
    · exact h.agree t' ht' l hl' e he heq
    · obtain ⟨o', hstands, -, hshard⟩ := h.entry e he
      have hid : e.objectId = req.objectId := heq
      rw [hid] at hstands hshard
      exact hshard.trans (hstands.eq (pullCheck_sealed hcheck).2).2.1.symm

/-- Under a step of the daemon the client stays informed. -/
theorem Informed.step {a : Action} (h : Informed known (s, none, {})) (ho : Orderly s)
    (hstep : step c s a = some (s', r)) :
    Informed known (s', none, {}) :=
  ((step_moves Guards.unguarded_ok (Rules.free_ok c s a) hstep).invariant
    (motive := fun x => x.Orderly ∧ Informed known x)
    (fun _ _ hx hxy => ⟨hx.1.move hxy, hx.2.move hx.1 hxy⟩) ⟨ho, h⟩).2

/-- The entries of a manifest are about objects that are there, and committed. -/
theorem mem_tensors_standsFor (hs : Reached c s)
    (he : e ∈ (handleGetManifest s req).tensors) :
    ∃ o, s.catalog.objects.lookup e.objectId = some o ∧ StandsFor s.inventory e.objectId o ∧
      e.key = o.key ∧ e.shard = o.shard e.objectId := by
  obtain ⟨man, hman, hsealed, hmem, o, ho, hkey, hshard⟩ := mem_tensors he
  obtain ⟨s₀, o₀, -, hobj, -, hread, hdesc⟩ := hs.isolated.member _ man hman hsealed _ hmem
  have hstate : o₀.state ≠ .creating := by
    intro hc
    rw [hc] at hread
    cases hread
  have hstands : StandsFor s.inventory e.objectId o₀ := ⟨hstate, s₀.catalog, hobj, hdesc⟩
  exact ⟨o, ho, hs.orderly.standsFor ho (hstands.eq ho).2.2, hkey, hshard⟩

/-! ## What is sent -/

/-- The pull was accepted in the state `s₀`, on the way to `s`. -/
def AcceptedIn (c : Config) (s : State) (l : PullLocals) (s₀ : State) : Prop :=
  Reached c s₀ ∧ Reach (· = s₀) (fun _ _ => True) (step c) s ∧
    ∃ o, pullCheck c s₀ l.req = .ok o ∧ l = o.pullLocals l.req

/-- The pulls under way send what was there when they were accepted, as `acceptedIn` tells. -/
def Sourced (c : Config) (acceptedIn : PullLocals → State → Prop) (x : Scene) : Prop :=
  ∀ t ∈ x.1.store.tasks, ∀ l, t.pull = some l → ∀ data, t.Sends c data →
    ∃ s₀, acceptedIn l s₀ ∧ s₀.Sends c l data

def acceptedInRules (acceptedIn : PullLocals → State → Prop) : Rules := fun s e =>
  ∀ l, e = .pull l → acceptedIn l s

theorem Sourced.move {acceptedIn : PullLocals → State → Prop} (h : Sourced c acceptedIn x)
    (hm : Move c g (acceptedInRules acceptedIn) x y) : Sourced c acceptedIn y := by
  intro t ht l hl data hdata
  rcases hm.pull_origin ht hl with ⟨t', ht', hl', hsends⟩ | ⟨req, o, -, -, hin, hsends⟩
  · exact h t' ht' l hl' data (hsends data hdata)
  · exact ⟨x.1, hin l rfl, hsends data hdata⟩

theorem Reachable.sourced (h : Reached c s) :
    Sourced c (AcceptedIn c s) (s, none, {}) := by
  induction h with
  | init hs =>
    subst hs
    exact fun _ ht => nomatch ht
  | @step s s' a r hs _ hstep ih =>
    have hrun : Reach (· = s) (fun _ _ => True) (step c) s' := .step (.init rfl) trivial hstep
    -- a pull that is accepted in this step is so in the state before it
    have hrules : (acceptedInRules (AcceptedIn c s')).ok c s a := by
      rintro ⟨s₀, e⟩ he l rfl
      cases Occasion.of_mem he rfl with
      | pull hcheck => exact ⟨hs, hrun, _, hcheck, rfl⟩
    refine (step_moves Guards.unguarded_ok hrules hstep).invariant
      (motive := Sourced c (AcceptedIn c s')) (fun _ _ hx hxy => hx.move hxy) ?_
    intro t ht l hl data hdata
    obtain ⟨s₀, ⟨hs₀, hrun, hcheck⟩, hsends⟩ := ih t ht l hl data hdata
    exact ⟨s₀, ⟨hs₀, hrun.step trivial hstep, hcheck⟩, hsends⟩

/-- What has arrived was sent as the object of the entry, with its size and its hash, and read from
    where the daemon had the object when the pull was accepted. -/
def Arrived (c : Config) (s : State) (e : TensorManifestEntry) (x : PullLocals × List Bytes) :
    Prop :=
  x.1.shard = e.shard ∧ ∃ s₀, AcceptedIn c s x.1 s₀ ∧ s₀.Sends c x.1 x.2

theorem Arrived.step {x : PullLocals × List Bytes} {a : Action} (h : Arrived c s e x)
    (hstep : step c s a = some (s', r)) : Arrived c s' e x := by
  obtain ⟨hshard, s₀, ⟨hs₀, hrun, hcheck⟩, hsends⟩ := h
  exact ⟨hshard, s₀, ⟨hs₀, hrun.step trivial hstep, hcheck⟩, hsends⟩

/-! ## The invariant -/

/-- The entries that the client is at were answered, and it was sent what they say. -/
def ClientStage.Sound (c : Config) (s : State) (known : List TensorManifestEntry) :
    ClientStage → Prop
  | .idle | .found _ => True
  | .pulling _ _ todo => ∀ x ∈ todo, x.1 ∈ known
  | .requested _ _ e received todo =>
    e ∈ known ∧ (∀ x ∈ received, Arrived c s e x) ∧ ∀ x ∈ todo, x.1 ∈ known

namespace ClientStage.Sound

variable {stage : ClientStage} (h : stage.Sound c s known)

include h

theorem mono {known' : List TensorManifestEntry} (hsub : known ⊆ known') :
    stage.Sound c s known' := by
  cases stage with
  | idle | found => trivial
  | pulling => exact fun x hx => hsub (h x hx)
  | requested => exact ⟨hsub h.1, h.2.1, fun x hx => hsub (h.2.2 x hx)⟩

theorem step {a : Action} (hstep : StateSpectre.step c s a = some (s', r)) :
    stage.Sound c s' known := by
  cases stage with
  | idle | found => trivial
  | pulling => exact h
  | requested => exact ⟨h.1, fun x hx => (h.2.1 x hx).step hstep, h.2.2⟩

end ClientStage.Sound

namespace RolloutWorld

variable {job : JobUID} {modelRole : ℕ} {w w' : RolloutWorld}

/-- The client is informed, entries of one object say the same, and the cache has the hashes of the
    objects that were pulled. -/
structure Sound (c : Config) (w : RolloutWorld) : Prop where
  reached : Reached c w.daemon
  informed : Informed w.known (w.daemon, none, {})
  same : ∀ e ∈ w.known, ∀ e' ∈ w.known, e.objectId = e'.objectId →
    e.key = e'.key ∧ e.shard = e'.shard
  stage : w.stage.Sound c w.daemon w.known
  pulled : ∀ p ∈ w.pulled, p.entry ∈ w.known ∧ ∀ x ∈ p.received, Arrived c w.daemon p.entry x
  cache : ∀ id h, w.cache.lookup id = some h →
    ∃ p ∈ w.pulled, p.entry.objectId = id ∧ p.entry.contentHash = h
  cached : ∀ p ∈ w.pulled, w.cache.lookup p.entry.objectId = some p.entry.contentHash

namespace Sound

theorem initial : Sound c { daemon := .initial } where
  reached := .init rfl
  informed := ⟨(fun _ he => nomatch he), (fun _ ht => nomatch ht), (fun _ ht => nomatch ht)⟩
  same _ he := nomatch he
  stage := trivial
  pulled _ hp := nomatch hp
  cache _ _ h := nomatch h
  cached _ hp := nomatch hp

/-- The daemon takes a step. -/
theorem daemon {a : Action} (h : w.Sound c) (hstep : StateSpectre.step c w.daemon a = some (s, r)) :
    { w with daemon := s }.Sound c :=
  { h with
    reached := h.reached.step trivial hstep
    informed := h.informed.step h.reached.orderly hstep
    stage := h.stage.step hstep
    pulled := fun p hp => ⟨(h.pulled p hp).1, fun x hx => ((h.pulled p hp).2 x hx).step hstep⟩ }

theorem goOn {stage : ClientStage} {result : SyncResult} (h : w.Sound c)
    (hstage : stage.Sound c w.daemon w.known) :
    { w with stage := stage, result := result }.Sound c :=
  { h with stage := hstage }

/-- The client is answered a manifest. -/
theorem answered (h : w.Sound c) :
    { w with known := (handleGetManifest w.daemon req).tensors ++ w.known }.Sound c := by
  have hnew : ∀ e ∈ (handleGetManifest w.daemon req).tensors, _ :=
    fun e => mem_tensors_standsFor (e := e) h.reached
  -- A new entry is about an object that is there, so it says what is known about it.
  have hsame : ∀ e ∈ (handleGetManifest w.daemon req).tensors, ∀ e',
      e' ∈ (handleGetManifest w.daemon req).tensors ++ w.known → e.objectId = e'.objectId →
      e.key = e'.key ∧ e.shard = e'.shard := by
    intro e he e' he' hid
    obtain ⟨o, ho, -, hkey, hshard⟩ := hnew e he
    have hstands' : ∃ o', StandsFor w.daemon.inventory e'.objectId o' ∧ e'.key = o'.key ∧
        e'.shard = o'.shard e'.objectId := by
      rcases List.mem_append.1 he' with he' | he'
      · obtain ⟨o', -, h'⟩ := hnew e' he'
        exact ⟨o', h'⟩
      · exact h.informed.entry e' he'
    obtain ⟨o', hstands, hkey', hshard'⟩ := hstands'
    rw [← hid] at hstands hshard'
    obtain ⟨hk, hsh, -⟩ := hstands.eq ho
    exact ⟨hkey.trans (hk.trans hkey'.symm), hshard.trans (hsh.trans hshard'.symm)⟩
  exact
    { h with
      informed :=
        { h.informed with
          entry := fun e he => by
            rcases List.mem_append.1 he with he | he
            · obtain ⟨o, -, h⟩ := hnew e he
              exact ⟨o, h⟩
            · exact h.informed.entry e he
          agree := fun t ht l hl e he hid => by
            rcases List.mem_append.1 he with he | he
            · obtain ⟨o, ho, -, -, hshard⟩ := hnew e he
              obtain ⟨o', hstands, hshard'⟩ := h.informed.pull t ht l hl
              rw [← hid] at hstands hshard'
              exact hshard.trans ((hstands.eq ho).2.1.trans hshard'.symm)
            · exact h.informed.agree t ht l hl e he hid }
      same := fun e he e' he' hid => by
        rcases List.mem_append.1 he with he₁ | he₁
        · exact hsame e he₁ e' he' hid
        · rcases List.mem_append.1 he' with he₂ | he₂
          · obtain ⟨hk, hsh⟩ := hsame e' he₂ e he hid.symm
            exact ⟨hk.symm, hsh.symm⟩
          · exact h.same e he₁ e' he₂ hid
      stage := h.stage.mono (List.subset_append_right ..)
      pulled := fun p hp => ⟨List.mem_append_right _ (h.pulled p hp).1, (h.pulled p hp).2⟩ }

/-- The client has pulled an entry that it was answered. What has arrived, if anything, is what the
    entry says. -/
theorem remember {received : Option (PullLocals × List Bytes)}
    (h : w.Sound c) (he : e ∈ w.known) (hreceived : ∀ x ∈ received, Arrived c w.daemon e x) :
    (w.remember e received).Sound c :=
  { h with
    pulled := by
      rintro p (- | ⟨-, hp⟩)
      · exact ⟨he, hreceived⟩
      · exact h.pulled p hp
    cache := fun id hash hlook => by
      obtain ⟨rfl, rfl⟩ | ⟨-, hlook⟩ := Table.lookup_insert_eq_some.1 hlook
      · exact ⟨_, List.mem_cons_self, rfl, rfl⟩
      · obtain ⟨p, hp, hcached⟩ := h.cache id hash hlook
        exact ⟨p, List.mem_cons_of_mem _ hp, hcached⟩
    cached := by
      rintro p (- | ⟨-, hp⟩)
      · exact (Table.lookup_insert ..).trans (if_pos rfl)
      · refine (Table.lookup_insert ..).trans ?_
        split
        · next hid =>
          rw [contentHash_of_shard (h.same _ (h.pulled p hp).1 e he hid).2]
        · exact h.cached p hp }

theorem step {a : ClientAction} (h : w.Sound c) (hstep : w.step c job modelRole a = some (w', r)) :
    w'.Sound c := by
  cases a with
  | getLatest =>
    simp only [RolloutWorld.step] at hstep
    split at hstep
    · split at hstep <;> cases hstep
      · exact h.goOn trivial
      · exact h.goOn h.stage
    · cases hstep
  | syncManifest =>
    simp only [RolloutWorld.step] at hstep
    split at hstep
    · split at hstep <;> cases hstep
      · refine h.answered.goOn fun x hx => ?_
        obtain ⟨e, he, rfl⟩ := List.mem_map.1 hx
        exact List.mem_append_left _ he
      · exact h.goOn trivial
    · cases hstep
  | getManifest version filter =>
    simp only [RolloutWorld.step] at hstep
    split at hstep <;> cases hstep
    exact h.answered
  | pullTensor transport version e =>
    simp only [RolloutWorld.step] at hstep
    split at hstep
    · split at hstep
      · next he =>
        cases hstep
        exact h.goOn fun x hx => List.mem_singleton.1 hx ▸ he.1
      · cases hstep
    · cases hstep
  | next now =>
    simp only [RolloutWorld.step] at hstep
    have hstage := h.stage
    split at hstep
    · cases hstep
      exact h.goOn trivial
    · next heq =>
      rw [heq] at hstage
      cases hstep
      exact h.goOn fun x hx => hstage x (List.mem_cons_of_mem _ hx)
    · next heq =>
      rw [heq] at hstage
      obtain ⟨x, hx, hw⟩ := Option.map_eq_some_iff.1 hstep
      cases hw
      exact (h.daemon hx).goOn ⟨hstage _ List.mem_cons_self, nofun,
        fun x hx => hstage x (List.mem_cons_of_mem _ hx)⟩
    · cases hstep
  | receive i =>
    simp only [RolloutWorld.step] at hstep
    have hstage := h.stage
    split at hstep
    · next heq htask =>
      rw [heq] at hstage
      split at hstep
      · next hreq =>
        obtain ⟨x, hx, hw⟩ := Option.map_eq_some_iff.1 hstep
        cases hw
        have htask := List.mem_of_getElem? htask
        have hagree := h.informed.agree _ htask _ rfl _ hstage.1 (by rw [hreq]; rfl)
        have hsource := h.reached.sourced _ htask _ rfl _ rfl
        refine (h.daemon hx).goOn ⟨hstage.1, ?_, hstage.2.2⟩
        rintro _ ⟨⟩
        exact Arrived.step ⟨hagree.symm, hsource⟩ hx
      · cases hstep
    · cases hstep
  | reply now i =>
    simp only [RolloutWorld.step] at hstep
    have hstage := h.stage
    split at hstep
    · next transport version e received todo l error heq htask =>
      rw [heq] at hstage
      obtain ⟨he, hreceived, htodo⟩ := hstage
      split at hstep
      · split at hstep
        · next s _ hproceed =>
          split at hstep <;> cases hstep
          · have hpulling : ClientStage.Sound c s w.known (.pulling transport version todo) := htodo
            exact ((h.daemon hproceed).goOn hpulling).remember he fun x hx =>
              (hreceived x hx).step hproceed
          · exact (h.daemon hproceed).goOn trivial
        · cases hstep
      · cases hstep
    · cases hstep
  | raise =>
    cases hstep
    exact h.goOn trivial
  | daemon a =>
    obtain ⟨x, hx, heq⟩ := Option.map_eq_some_iff.1 hstep
    cases heq
    exact h.daemon hx

end Sound

/-! ## Skipping and pulling again -/

/-- The worlds that are reached from startup. -/
abbrev Reached (c : Config) (job : JobUID) (modelRole : ℕ) : RolloutWorld → Prop :=
  Reach (· = { daemon := .initial }) (fun _ _ => True) (RolloutWorld.step c job modelRole)

theorem Reached.sound (h : Reached c job modelRole w) : w.Sound c := by
  refine Reach.invariant (fun w hw => ?_) (fun _ _ _ _ hw _ hstep => hw.step hstep) h
  rw [hw]
  exact .initial

end RolloutWorld

/-- The same tensor, but for the version of the model. -/
abbrev CanonicalTensorKey.SameTensor (key key' : CanonicalTensorKey) : Prop :=
  { key with modelVersion := key'.modelVersion } = key'

/-- The client has pulled the tensor with that hash, which is known, for some version. -/
abbrev RolloutWorld.Unchanged (w : RolloutWorld) (e : TensorManifestEntry) : Prop :=
  e.contentHash ≠ (0, 0) ∧
    ∃ p ∈ w.pulled, p.entry.key.SameTensor e.key ∧ p.entry.contentHash = e.contentHash

theorem mem_syncEntries {cache : Table ℕ (ℕ × ℕ)} {tensors : List TensorManifestEntry}
    {pull : Bool} (h : (e, pull) ∈ syncEntries cache tensors) :
    e ∈ tensors ∧ (pull = false → cache.lookup e.objectId = some e.contentHash) ∧
      (pull = true → ∃ e' ∈ tensors, e'.objectId = e.objectId ∧
        cache.lookup e'.objectId ≠ some e'.contentHash) := by
  obtain ⟨e, he, heq⟩ := List.mem_map.1 h
  cases heq
  refine ⟨he, fun hskip => ?_, fun hpull => ?_⟩
  · by_contra hdiff
    exact of_decide_eq_false hskip
      (List.mem_map_of_mem (List.mem_filter.2 ⟨he, decide_eq_true hdiff⟩))
  · obtain ⟨e', he', hid⟩ := List.mem_map.1 (of_decide_eq_true hpull)
    obtain ⟨he', hdiff⟩ := List.mem_filter.1 he'
    exact ⟨e', he', hid, of_decide_eq_true hdiff⟩

/-- A world that a list of actions reaches. -/
theorem RolloutWorld.exists_reached (c : Config) (job : JobUID) (modelRole : ℕ)
    {p : RolloutWorld → Prop} [DecidablePred p] (actions : List ClientAction)
    (h : (runActions (fun _ _ => True) (RolloutWorld.step c job modelRole) { daemon := .initial }
      actions).any (p ·)) : ∃ w, RolloutWorld.Reached c job modelRole w ∧ p w :=
  Reach.exists_of_any rfl actions h

/-- The rank 0 creates a shard of a version in a slot, with the hash 7, and the version is sealed
    and promoted. -/
def publishes (now oid leaseId slot version : ℕ) : List Action :=
  [.rpc now (.evict
      { rankId := 0, rankEpoch := 1, key := { shardKey 1 with modelVersion := version } }),
    .rpc now (.d2hSubmitted { rankId := 0, rankEpoch := 1, leaseId := leaseId, slotId := slot }),
    .copyD2H leaseId [[1]],
    .rpc now (.d2hComplete
      { rankId := 0, rankEpoch := 1, leaseId := leaseId, tensorId := canonicalTid oid
        version := canonicalVersion, slotId := slot }),
    .rpc now (.commit
      { rankId := 0, rankEpoch := 1, objectId := oid, leaseId := leaseId, contentHashLo := 7 }),
    .rpc now (.seal { sealRequest with modelVersion := version, promote := true })]

/-- The client pulls the one tensor of the latest version. -/
def syncsOne (now : ℕ) : List ClientAction :=
  [.getLatest, .syncManifest, .next now, .receive 0, .reply now 0, .next now]

/-- The client goes on to pull a tensor that did not change. -/
def RolloutWorld.pullsAgain (w w' : RolloutWorld) : Bool :=
  match w'.stage with
  | .pulling .tcp _ [(e, true)] => w.Unchanged e
  | _ => false

/-- The client knows that version 1 is the latest, and has pulled its only tensor. -/
def RolloutWorld.hasPulled (w : RolloutWorld) : Bool :=
  match w.stage,
    handleGetManifest w.daemon { job := theJob, modelRole := 0, modelVersion := 1 } with
  | .found 1, ⟨true, _, _, [e]⟩ =>
    w.Unchanged e ∧ ∃ p ∈ w.pulled, p.entry.objectId = e.objectId ∧ p.received.isSome
  | _, _ => false

end StateSpectre
