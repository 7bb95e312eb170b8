import StateSpectre.Lib.System
import StateSpectre.Rollout
import StateSpectre.Sessions

/-!
# The daemon as a system taking steps

A step of the daemon is what happens between taking the mutex and letting go of
it: a request is handled, up to its answer or to the first copy it waits for, a
thread takes the mutex again after its copy, a worker takes a job, the heartbeat
monitor sweeps, the ring poller applies an entry. The copies done without the
mutex are steps of their own, and so are the copies of the ranks into their runs,
and their pushes into the rings. The tables are iterated in an unspecified
order, which can change at any time.

The time, the outcomes of the copies and the order of the tables come with the
action, so that a step is a function of the state and the action.
-/

namespace StateSpectre

/-- The requests of the ranks and the rollout engines. -/
inductive Request
  | register (req : RegisterRankRequest)
  | heartbeat (req : HeartbeatRequest)
  | offload (req : RequestOffloadRequest)
  | d2hSubmitted (req : MarkSubmittedRequest)
  | d2hComplete (req : MarkD2HCompleteRequest)
  | prefetch (req : RequestPrefetchRequest)
  | h2dSubmitted (req : MarkSubmittedRequest)
  | h2dComplete (req : MarkH2DCompleteRequest)
  | releaseLease (req : ReleaseLeaseRequest)
  | queryLocation (req : LocationQueryRequest)
  | batchComplete (req : BatchCompleteRequest)
  | registerJob (req : RegisterJobRequest)
  | evict (req : RequestCanonicalEvictRequest)
  | commit (req : CommitCanonicalObjectRequest)
  | seal (req : SealModelVersionRequest)
  | latestSealed (req : GetLatestSealedVersionRequest)
  | getManifest (req : GetManifestRequest)
  | pull (req : PullTensorRequest)
  | restore (req : RequestCanonicalRestoreRequest)
  | releaseRestore (req : ReleaseCanonicalRestoreRequest)
  | drop (req : DropCanonicalVersionRequest)
  | releaseCanonical (req : ReleaseCanonicalRequest)

/-- What can happen to the daemon. -/
inductive Action
  /-- A request is handled, up to its answer or the first copy it waits for. -/
  | rpc (now : ℕ) (req : Request)
  /-- The copy that the task `i` waits for is done. -/
  | io (i : ℕ) (result : IoResult)
  /-- The task `i` takes the mutex and goes on. -/
  | proceed (now i : ℕ)
  | takeDrain
  | takeReadback
  | heartbeatSweep (now : ℕ)
  | pushRing (i : ℕ) (e : CompletionEntry)
  | pollRing (now i : ℕ)
  /-- The owner of a lease copies into its run. -/
  | copyD2H (leaseId : ℕ) (data : List Bytes)
  /-- The tables that are iterated change their order. -/
  | rehash (leases : Table ℕ Lease) (sessions : Table ℕ Session)
      (objects : Table ℕ CanonicalObject) (jobs : Table JobUID JobRecord)
      (manifests : Table VersionKey Manifest)

variable (c : Config) (s : State)

def handle (now : ℕ) : Request → State × Response
  | .register req => handleRegister c s now req
  | .heartbeat req => handleHeartbeat s now req
  | .offload req => handleRequestOffload c s now req
  | .d2hSubmitted req => handleMarkD2HSubmitted s now req
  | .d2hComplete req => handleMarkD2HComplete c s now req
  | .prefetch req => handleRequestPrefetch c s now req
  | .h2dSubmitted req => handleMarkH2DSubmitted s now req
  | .h2dComplete req => handleMarkH2DComplete c s now req
  | .releaseLease req => handleReleaseLease c s now req
  | .queryLocation req => (s, handleQueryLocation s req)
  | .batchComplete req => handleBatchComplete c s now req
  | .registerJob req => handleRegisterJob c s req
  | .evict req => handleRequestCanonicalEvict c s now req
  | .commit req =>
    let r := handleCommitCanonicalObject c s now req
    (r.1, .commit r.2)
  | .seal req => handleSealModelVersion c s now req
  | .latestSealed req => (s, handleGetLatestSealedVersion s req)
  | .getManifest req => (s, .manifest (handleGetManifest s req))
  | .pull req => handlePullTensor c s req
  | .restore req => handleRequestCanonicalRestore c s now req
  | .releaseRestore req => handleReleaseCanonicalRestore c s now req
  | .drop req => handleDropCanonicalVersion c s now req
  | .releaseCanonical req => handleReleaseCanonical c s now req

/-- The copy a task waits for: what it does to the arenas, and the task after it. -/
def copyOf (st : Store) (result : IoResult) : Task → Option (Store × Task)
  | .drainIo w =>
    let cold := match result with
      | .ok => some (doDrainToCold c st w.baseSlot w.nbytes)
      | _ => none
    some (st, .drainCommit w cold)
  | .readbackIo job cold =>
    (readCold c cold result).map fun r =>
      (doReadbackFromCold c st job.baseSlot job.nbytes r.1, .readbackCommit job r.2)
  | .restoreIo req base count cold nbytes =>
    (readCold c cold result).map fun r =>
      (doReadbackFromCold c st base nbytes r.1, .restoreCommit req base count nbytes r.2)
  -- The readback of an export goes to the slot 0, whatever is there.
  | .pullStageIo l cold =>
    (readCold c cold result).map fun r =>
      (doReadbackFromCold c st 0 l.nbytes r.1, .pullReadIo l cold)
  | .pullReadIo l cold =>
    (readCold c cold result).map fun r => (st, .pullStaged l (if r.2 then some r.1 else none))
  | .pullSendIo l _ =>
    let error := match result with
      | .failed _ message => some message
      | _ => none
    some (st, .pullSent l error)
  | _ => none

/-- A task takes the mutex and goes on. -/
def resume (now : ℕ) : Task → Option (State × Response)
  | .drainTaken job => some (drainBegin s job, .none)
  | .drainCommit w cold =>
    match w.forced with
    | some (p, attempt) => some (forceDrainCommit c s now w p attempt cold)
    | none => some (drainCommit c s now w cold, .none)
  | .readbackTaken job => some (readbackBegin s job, .none)
  | .readbackMissing job => some (readbackMissing s now job, .none)
  | .readbackCommit job ok => some (readbackCommit s now job ok, .none)
  | .restoreCommit req base count nbytes ok => some (restoreCommit c s now req base count nbytes ok)
  | .pullStaged l buf => some (pullStaged s l buf)
  | .pullSent l error => some (pullSent c s now l error)
  | _ => none

/-- A step of the daemon, with what is answered. -/
def step : Action → Option (State × Response)
  | .rpc now req => some (handle c s now req)
  | .io i result =>
    (s.store.tasks[i]?).bind fun t =>
      (copyOf c (s.store.dropTask i) result t).map fun r =>
        ({ s with store := r.1.addTask r.2 }, .none)
  | .proceed now i =>
    (s.store.tasks[i]?).bind fun t => resume c { s with store := s.store.dropTask i } now t
  | .takeDrain => (takeDrain s).map (·, .none)
  | .takeReadback => (takeReadback s).map (·, .none)
  | .heartbeatSweep now => some (heartbeatSweep c s now, .none)
  | .pushRing i e => (pushRing c s i e).map (·, .none)
  | .pollRing now i => (pollRing c s now i).map (·, .none)
  | .copyD2H id data => (copyD2H c s id data).map (·, .none)
  | .rehash leases sessions objects jobs manifests =>
    if s.store.leases.Reordered leases ∧ s.sessions.Reordered sessions ∧
        s.catalog.objects.Reordered objects ∧ s.catalog.jobs.Reordered jobs ∧
        s.catalog.manifests.Reordered manifests then
      some ({ s with
        store := { s.store with leases := leases }
        sessions := sessions
        catalog := { s.catalog with objects := objects, jobs := jobs, manifests := manifests } },
        .none)
    else none

/-- The states the daemon reaches by steps that meet the side condition `ok`. -/
abbrev Reachable (ok : State → Action → Prop) : State → Prop :=
  Reach (· = State.initial) ok (step c)

/-- The states the daemon reaches by any steps. -/
abbrev Reached : State → Prop := Reachable c fun _ _ => True

instance : Recognises Response.prefetch :=
  ⟨fun | .prefetch r => some r | _ => none, by rintro ⟨⟩ <;> simp⟩

instance : Recognises Response.pull := ⟨fun | .pull r => some r | _ => none, by rintro ⟨⟩ <;> simp⟩

instance : Recognises Response.releaseCanonical :=
  ⟨fun | .releaseCanonical r => some r | _ => none, by rintro ⟨⟩ <;> simp⟩

instance : Recognises Response.seal := ⟨fun | .seal r => some r | _ => none, by rintro ⟨⟩ <;> simp⟩

/-- What a list of actions leads to from startup is reachable. -/
theorem exists_reachable (ok : State → Action → Prop) [∀ s a, Decidable (ok s a)]
    {p : State → Prop} [DecidablePred p] (as : List Action)
    (h : (runActions (fun s a => ok s a) (step c) State.initial as).any (p ·)) :
    ∃ s, Reachable c ok s ∧ p s :=
  Reach.exists_of_any rfl as h

theorem exists_reachable₂ {X : Type*} (ok : State → Action → Prop) [∀ s a, Decidable (ok s a)]
    {p : State → X → Prop} [∀ s, Decidable (∃ x, p s x)] (as : List Action)
    (h : (runActions (fun s a => ok s a) (step c) State.initial as).any (∃ x, p · x)) :
    ∃ s x, Reachable c ok s ∧ p s x := by
  obtain ⟨s, hs, x, hp⟩ := exists_reachable c ok as h
  exact ⟨s, x, hs, hp⟩

theorem exists_reachable₃ {X Y : Type*} (ok : State → Action → Prop) [∀ s a, Decidable (ok s a)]
    {p : State → X → Y → Prop} [∀ s, Decidable (∃ x y, p s x y)] (as : List Action)
    (h : (runActions (fun s a => ok s a) (step c) State.initial as).any (∃ x y, p · x y)) :
    ∃ s x y, Reachable c ok s ∧ p s x y := by
  obtain ⟨s, hs, x, y, hp⟩ := exists_reachable c ok as h
  exact ⟨s, x, y, hs, hp⟩

/-- The same, with what is proved of the state. -/
theorem exists_reachable_and (ok : State → Action → Prop) [∀ s a, Decidable (ok s a)]
    {p q : State → Prop} [DecidablePred p] (as : List Action)
    (h : (runActions (fun s a => ok s a) (step c) State.initial as).any (p ·))
    (hq : ∀ s, Reachable c ok s → p s → q s) : ∃ s, Reachable c ok s ∧ p s ∧ q s := by
  obtain ⟨s, hs, hp⟩ := exists_reachable c ok as h
  exact ⟨s, hs, hp, hq s hs hp⟩

theorem exists_reachable₂_and {X : Type*} (ok : State → Action → Prop) [∀ s a, Decidable (ok s a)]
    {p q : State → X → Prop} [∀ s, Decidable (∃ x, p s x)] (as : List Action)
    (h : (runActions (fun s a => ok s a) (step c) State.initial as).any (∃ x, p · x))
    (hq : ∀ s x, Reachable c ok s → p s x → q s x) : ∃ s x, Reachable c ok s ∧ p s x ∧ q s x := by
  obtain ⟨s, x, hs, hp⟩ := exists_reachable₂ c ok as h
  exact ⟨s, x, hs, hp, hq s x hs hp⟩

theorem exists_reachable₃_and {X Y : Type*} (ok : State → Action → Prop)
    [∀ s a, Decidable (ok s a)] {p q : State → X → Y → Prop} [∀ s, Decidable (∃ x y, p s x y)]
    (as : List Action)
    (h : (runActions (fun s a => ok s a) (step c) State.initial as).any (∃ x y, p · x y))
    (hq : ∀ s x y, Reachable c ok s → p s x y → q s x y) :
    ∃ s x y, Reachable c ok s ∧ p s x y ∧ q s x y := by
  obtain ⟨s, x, y, hs, hp⟩ := exists_reachable₃ c ok as h
  exact ⟨s, x, y, hs, hp, hq s x y hs hp⟩

/-- A state that a list of actions reaches, and another one that is reached from it under
    another side condition. -/
theorem exists_reach (ok ok' : State → Action → Prop) [∀ s a, Decidable (ok s a)]
    [∀ s a, Decidable (ok' s a)] {p : State → State → Prop} [∀ s₁, DecidablePred (p s₁)]
    (as as' : List Action)
    (h : (runActions (fun s a => ok s a) (step c) State.initial as).any fun s₁ =>
      (runActions (fun s a => ok' s a) (step c) s₁ as').any (p s₁ ·)) :
    ∃ s₁ s, Reachable c ok s₁ ∧ Reach (· = s₁) ok' (step c) s ∧ p s₁ s := by
  obtain ⟨s₁, hs₁, h₁⟩ := (Option.any_eq_true _ _).1 h
  obtain ⟨s, hs, hp⟩ := Reach.exists_from h₁
  exact ⟨s₁, s, Reach.runActions (fun _ _ => of_decide_eq_true) (.init rfl) hs₁, hs, hp⟩

theorem exists_reach_and (ok ok' : State → Action → Prop) [∀ s a, Decidable (ok s a)]
    [∀ s a, Decidable (ok' s a)] {p q : State → State → Prop} [∀ s₁, DecidablePred (p s₁)]
    (as as' : List Action)
    (h : (runActions (fun s a => ok s a) (step c) State.initial as).any fun s₁ =>
      (runActions (fun s a => ok' s a) (step c) s₁ as').any (p s₁ ·))
    (hq : ∀ s₁ s, Reachable c ok s₁ → Reach (· = s₁) ok' (step c) s → p s₁ s → q s₁ s) :
    ∃ s₁ s, Reachable c ok s₁ ∧ Reach (· = s₁) ok' (step c) s ∧ p s₁ s ∧ q s₁ s := by
  obtain ⟨s₁, s, hs₁, hs, hp⟩ := exists_reach c ok ok' as as' h
  exact ⟨s₁, s, hs₁, hs, hp, hq s₁ s hs₁ hs hp⟩

end StateSpectre
