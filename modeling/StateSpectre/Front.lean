import StateSpectre.Step

/-!
# Sessions and rings

The sessions of the ranks and the completion rings are the *front* of the daemon
(`State.front`). Most of what it does leaves the front alone: a session changes when a rank
registers or sends a heartbeat and when it expires, a ring when its session opens or is
invalidated, and when it is pushed into or polled. What becomes of the front in these steps
(`Front.after`) does not depend on the rest of the state, so that the front is a machine of its
own, which the daemon follows (`step_front`), also over whole runs (`runActions_front`).

The lease protocol and the workers leave both the front and the catalog alone (`step_sides`).
-/

namespace StateSpectre

variable {c : Config} {s s' : State} {now : ℕ} {req : RegisterRankRequest} {rankId : ℕ}
  {o : CanonicalObject} {attempt : ℕ}

/-- The sessions and the rings. -/
structure Front where
  sessions : Table ℕ Session
  nextRankEpoch : ℕ
  rings : ℕ → Ring
  ringOwner : ℕ → ℕ

def State.front (s : State) : Front := ⟨s.sessions, s.nextRankEpoch, s.rings, s.ringOwner⟩

/-- What is beside the slot store and its gauges. -/
def State.sides (s : State) : Front × Catalog := (s.front, s.catalog)

/-! ## The machine of the front -/

namespace Front

variable (c : Config) (f : Front)

def endSession (rankId : ℕ) : Front :=
  { f with sessions := f.sessions.modify rankId fun ses => { ses with alive := false } }

/-- The ring of a session is emptied and given up. -/
def closeRing (ses : Session) : Front :=
  if ses.ringIndex < c.ringMaxRanks then
    let ring := f.rings ses.ringIndex
    { f with
      rings := Function.update f.rings ses.ringIndex
        { ownerRank := noIndex, rankEpoch := 0, head := ring.head + ring.pending.length }
      ringOwner := Function.update f.ringOwner ses.ringIndex noIndex }
  else f

/-- A session that is invalidated gives up its ring. -/
def invalidate (rankId : ℕ) : Front :=
  match f.sessions.lookup rankId with
  | none => f
  | some ses => if ses.alive then (f.endSession rankId).closeRing c ses else f

/-- A session that expires does not. -/
def check (now rankId : ℕ) : Front :=
  match f.sessions.lookup rankId with
  | none => f
  | some ses => if ses.expired c now then f.endSession rankId else f

/-- The sessions of the rank and of its process, before the rank opens a new one. -/
def invalidateAll (req : RegisterRankRequest) : Front :=
  (req.rankId :: (f.sessions.rows.filter fun r =>
    r.1 ≠ req.rankId ∧ r.2.alive ∧ r.2.pid = req.pid).map (·.1)).foldl (invalidate c) f

def freeRing : Option ℕ := (List.range c.ringMaxRanks).find? fun i => f.ringOwner i == noIndex

/-- A session is opened, with the free ring `ring` if there is one. -/
def openSession (now : ℕ) (req : RegisterRankRequest) (ring : Option ℕ) : Front where
  sessions := f.sessions.insert req.rankId
    { rankEpoch := f.nextRankEpoch, pid := req.pid, lastHeartbeatNs := now, alive := true
      ringIndex := ring.getD noIndex }
  nextRankEpoch := f.nextRankEpoch + 1
  rings := match ring with
    | some i => Function.update f.rings i { ownerRank := req.rankId, rankEpoch := f.nextRankEpoch }
    | none => f.rings
  ringOwner := match ring with
    | some i => Function.update f.ringOwner i req.rankId
    | none => f.ringOwner

def register (now : ℕ) (req : RegisterRankRequest) : Front :=
  (f.invalidateAll c req).openSession now req ((f.invalidateAll c req).freeRing c)

/-- A heartbeat is noted, if it is of the session the rank has. -/
def heartbeat (now : ℕ) (req : HeartbeatRequest) : Front :=
  match f.sessions.lookup req.rankId with
  | some ses =>
    if ses.alive && ses.rankEpoch == req.rankEpoch then
      { f with
        sessions := f.sessions.modify req.rankId fun ses => { ses with lastHeartbeatNs := now } }
    else f
  | none => f

def push (i : ℕ) (e : CompletionEntry) : Front :=
  { f with
    rings := Function.update f.rings i { f.rings i with pending := (f.rings i).pending ++ [e] } }

/-- The oldest entry of a ring is taken out. -/
def pop (i : ℕ) : Front :=
  { f with
    rings := Function.update f.rings i
      { f.rings i with head := (f.rings i).head + 1, pending := (f.rings i).pending.tail } }

def after : Action → Front
  | .rpc now (.register req) => f.register c now req
  | .rpc now (.heartbeat req) => f.heartbeat now req
  | .heartbeatSweep now => (f.sessions.rows.map (·.1)).foldl (fun f r => f.check c now r) f
  | .pushRing i e => f.push i e
  | .pollRing _ i => f.pop i
  | .rehash _ sessions .. => { f with sessions := sessions }
  | _ => f

end Front

/-- Going over a list leaves the front alone, if every item does. -/
theorem foldl_front {S X : Type*} {p : S → State} {f : S → X → S} {r : S}
    (hf : ∀ r x, (p (f r x)).front = (p r).front) (xs : List X) :
    (p (xs.foldl f r)).front = (p r).front :=
  foldl_invariant (motive := fun r' => (p r').front = (p r).front)
    (fun r' x h => (hf r' x).trans h) xs rfl

theorem State.front_eq_of_sides (h : s'.sides = s.sides) : s'.front = s.front := congrArg Prod.fst h

theorem State.catalog_eq_of_sides (h : s'.sides = s.sides) : s'.catalog = s.catalog :=
  congrArg Prod.snd h

/-! ## Leases -/

theorem acquire_front {p : Purpose} : (acquire c s now p attempt).1.front = s.front := by
  rw [acquire]
  split
  · cases p with
    | offload req pid =>
      simp only [grant, grantOffload]
      split <;> rfl
    | _ => rfl
  · split <;> rfl

def Purpose.ofTensor : Purpose → Bool
  | .offload .. | .prefetch .. => true
  | _ => false

/-- A search for the run of a tensor does not change the catalog either. -/
theorem acquire_sides {p : Purpose} (hp : p.ofTensor) :
    (acquire c s now p attempt).1.sides = s.sides := by
  refine Prod.ext acquire_front ?_
  rw [acquire]
  split
  · cases p with
    | offload =>
      simp only [grant, grantOffload]
      split <;> rfl
    | prefetch => rfl
    | _ => cases hp
  · split <;> rfl

theorem markSubmitted_sides {req : MarkSubmittedRequest} {source target : SlotState}
    {refusal : String} {gauge : Gauges → ℕ → Gauges} :
    (markSubmitted s now req source target refusal gauge).1.sides = s.sides := by
  rw [markSubmitted]
  repeat' split
  all_goals rfl

theorem completeD2H_sides {id : ℕ} {L : Lease} {seq : ℕ} :
    (completeD2H c s now id L seq).sides = s.sides := by
  rw [completeD2H]
  split <;> rfl

theorem completeH2D_sides {id : ℕ} {L : Lease} {tensorId version : ℕ} {keep : Bool} {seq : ℕ} :
    (completeH2D c s now id L tensorId version keep seq).sides = s.sides := by
  rw [completeH2D]
  repeat' split
  all_goals rfl

theorem applyD2HComplete_sides {rankId rankEpoch id tensorId version slotId seq : ℕ} :
    (applyD2HComplete c s now rankId rankEpoch id tensorId version slotId seq).1.sides =
      s.sides := by
  rw [applyD2HComplete]
  split
  · rfl
  · exact completeD2H_sides

theorem applyH2DComplete_sides {rankId rankEpoch id tensorId version slotId seq : ℕ} {keep : Bool} :
    (applyH2DComplete c s now rankId rankEpoch id tensorId version slotId keep seq).1.sides =
      s.sides := by
  rw [applyH2DComplete]
  split
  · rfl
  · exact completeH2D_sides

theorem applyBatchCompletion_sides {rankId rankEpoch : ℕ} {b : BatchCompletion} :
    (applyBatchCompletion c s now rankId rankEpoch b).1.sides = s.sides := by
  rw [applyBatchCompletion]
  split
  · exact applyD2HComplete_sides
  · exact applyH2DComplete_sides
  · rfl

theorem handleRequestPrefetch_sides {req : RequestPrefetchRequest} :
    (handleRequestPrefetch c s now req).1.sides = s.sides := by
  have hnew : ∀ loc, (newPrefetch c s now req loc).1.sides = s.sides := by
    intro loc
    simp only [newPrefetch]
    split
    · rfl
    · exact acquire_sides rfl
  simp only [handleRequestPrefetch]
  repeat' split
  all_goals first | rfl | exact hnew _

theorem handleReleaseLease_sides {req : ReleaseLeaseRequest} :
    (handleReleaseLease c s now req).1.sides = s.sides := by
  rw [handleReleaseLease]
  repeat' split
  all_goals rfl

theorem recoverLeases_front {rankId rankEpoch : ℕ} :
    (recoverLeases c s now rankId rankEpoch).front = s.front := by
  refine foldl_front (p := fun s => s) (fun s L => ?_) _
  rw [recoverLease]
  split <;> rfl

/-! ## Objects -/

theorem releaseObject_front {oid : ℕ} : (releaseObject c s now oid o).1.front = s.front := by
  simp only [releaseObject, releaseBacking]
  repeat' split
  all_goals rfl

theorem maybeFreeObject_front {oid : ℕ} : (maybeFreeObject c s now oid).1.front = s.front := by
  rw [maybeFreeObject]
  repeat' split
  all_goals first | rfl | exact releaseObject_front

theorem purge_front : (purgeRankFromCanonical c s now rankId).front = s.front :=
  (foldl_front (p := fun s => s) (fun _ _ => maybeFreeObject_front) _).trans
    (foldl_front (p := fun s => s)
      (f := fun s oid => s.modifyObject oid fun o => o.dropHolder rankId) (fun _ _ => rfl) _)

theorem handleRegisterJob_front {req : RegisterJobRequest} :
    (handleRegisterJob c s req).1.front = s.front := by
  simp only [handleRegisterJob]
  repeat' split
  all_goals rfl

theorem commitCandidate_front {req : CommitCanonicalObjectRequest} :
    (commitCandidate c s now req o).1.front = s.front := by
  simp only [commitCandidate, discardCandidate]
  repeat' split
  all_goals rfl

theorem handleCommitCanonicalObject_front {req : CommitCanonicalObjectRequest} :
    (handleCommitCanonicalObject c s now req).1.front = s.front := by
  simp only [handleCommitCanonicalObject, commitCreator]
  repeat' split
  all_goals first | rfl | exact commitCandidate_front

theorem handleRequestCanonicalEvict_front {req : RequestCanonicalEvictRequest} :
    (handleRequestCanonicalEvict c s now req).1.front = s.front := by
  have hwithin : ∀ j p, (reserveWithin c s.drawObjectId now j p).1.front = s.front := by
    intro j p
    rw [reserveWithin]
    split
    · exact acquire_front
    · rfl
  simp only [handleRequestCanonicalEvict, evictMissing, evictExisting, evictCreating]
  repeat' split
  all_goals first | rfl | exact hwithin _ _

theorem handleReleaseCanonical_front {req : ReleaseCanonicalRequest} :
    (handleReleaseCanonical c s now req).1.front = s.front := by
  have hone : ∀ r oid, (releaseHold c now req.rankId r oid).1.front = r.1.front := by
    intro r oid
    rw [releaseHold]
    repeat' split
    all_goals first | rfl | exact maybeFreeObject_front
  rw [handleReleaseCanonical]
  repeat' split
  all_goals
    first | rfl | exact foldl_front (p := fun r : State × ReleaseCanonicalResponse => r.1) hone _

theorem handleDropCanonicalVersion_front {req : DropCanonicalVersionRequest} :
    (handleDropCanonicalVersion c s now req).1.front = s.front := by
  have hone : ∀ r oid, (dropObject c now r oid).1.front = r.1.front := by
    intro r oid
    rw [dropObject]
    split
    · rfl
    · exact releaseObject_front
  rw [handleDropCanonicalVersion]
  repeat' split
  all_goals
    first
    | rfl
    | exact foldl_front (p := fun r : State × DropCanonicalVersionResponse => r.1) hone _

/-! ## Versions -/

theorem retireVersion_front {uid : JobUID} {role latest version : ℕ} :
    (retireVersion c now uid role latest s version).front = s.front := by
  have hone : ∀ r oid, (retireObject c now r oid).1.front = r.1.front := by
    intro r oid
    rw [retireObject]
    split
    · rfl
    · exact releaseObject_front
  have hall := foldl_front (p := fun r : State × Bool => r.1) (r := (s, true)) hone
    (versionObjects s ⟨uid, role, version⟩)
  simp only [retireVersion]
  split
  · rfl
  · split <;> exact hall

theorem handleSealModelVersion_front {req : SealModelVersionRequest} :
    (handleSealModelVersion c s now req).1.front = s.front := by
  have hseal : ∀ vk, (sealVersion s vk).front = s.front := fun vk =>
    foldl_front (p := fun s => s)
      (f := fun s oid => s.modifyObject oid fun o => { o with state := .sealed }) (fun _ _ => rfl) _
  have hpromote : ∀ vk, (promoteVersion c (sealVersion s vk) now vk).front = s.front := by
    intro vk
    simp only [promoteVersion, enforceSealedRetention]
    split
    · exact hseal vk
    · exact (foldl_front (p := fun s => s) (fun _ _ => retireVersion_front) _).trans (hseal vk)
  simp only [handleSealModelVersion]
  repeat' split
  all_goals first | rfl | exact hpromote _ | exact hseal _

theorem handlePullTensor_front {req : PullTensorRequest} :
    (handlePullTensor c s req).1.front = s.front := by
  simp only [handlePullTensor, stageForExport]
  repeat' split
  all_goals rfl

theorem handleRequestCanonicalRestore_front {req : RequestCanonicalRestoreRequest} :
    (handleRequestCanonicalRestore c s now req).1.front = s.front := by
  simp only [handleRequestCanonicalRestore, restoreFrom]
  repeat' split
  all_goals first | rfl | exact acquire_front

theorem handleReleaseCanonicalRestore_front {req : ReleaseCanonicalRestoreRequest} :
    (handleReleaseCanonicalRestore c s now req).1.front = s.front := by
  rw [handleReleaseCanonicalRestore]
  repeat' split
  all_goals first | rfl | exact maybeFreeObject_front

/-! ## Sessions -/

/-- Going over a list, the front follows the items. -/
theorem foldl_front_eq {X : Type*} {f : State → X → State} {F : Front → X → Front}
    (hf : ∀ s x, (f s x).front = F s.front x) (xs : List X) (s : State) :
    (xs.foldl f s).front = xs.foldl F s.front := by
  induction xs generalizing s with
  | nil => rfl
  | cons x xs ih => rw [List.foldl_cons, List.foldl_cons, ih, hf]

theorem releaseRing_front {ses : Session} :
    (releaseRing c s now rankId ses).front = s.front.closeRing c ses := by
  have hall := foldl_front (p := fun s => s) (r := s)
    (f := fun s e => applyRingCompletion c s now rankId ses.rankEpoch e)
    (fun _ _ => State.front_eq_of_sides applyBatchCompletion_sides) (s.rings ses.ringIndex).pending
  simp only [State.front, Front.mk.injEq] at hall
  obtain ⟨hsessions, hnext, hrings, howner⟩ := hall
  simp only [releaseRing, Front.closeRing]
  split
  · simp only [State.front, hsessions, hnext, hrings, howner]
  · rfl

theorem invalidateSession_front :
    (invalidateSession c s now rankId).front = s.front.invalidate c rankId := by
  have hsessions : s.front.sessions = s.sessions := rfl
  rw [invalidateSession, Front.invalidate, hsessions]
  cases s.sessions.lookup rankId with
  | none => rfl
  | some ses =>
    by_cases ha : ses.alive
    · simp only [if_pos ha, purge_front, releaseRing_front, recoverLeases_front]
      rfl
    · simp only [if_neg ha]

theorem checkSession_front : (checkSession c now s rankId).front = s.front.check c now rankId := by
  have hsessions : s.front.sessions = s.sessions := rfl
  rw [checkSession, Front.check, hsessions]
  cases s.sessions.lookup rankId with
  | none => rfl
  | some ses =>
    by_cases he : ses.expired c now
    · simp only [if_pos he, expireSession, purge_front, recoverLeases_front]
      rfl
    · simp only [if_neg he]

theorem invalidateSessions_front (now : ℕ) :
    (invalidateSessions c s now req).front = s.front.invalidateAll c req :=
  foldl_front_eq (fun _ _ => invalidateSession_front) _ s

theorem handleRegister_front :
    (handleRegister c s now req).1.front = s.front.register c now req := by
  rw [Front.register, ← invalidateSessions_front now]
  rfl

/-- The answer to a registration names the epoch and the ring that the front opens the session
    with. -/
theorem handle_register_eq {resp : RegisterRankResponse}
    (h : handle c s now (.register req) = (s', .register resp)) :
    s'.front = s.front.register c now req ∧
      resp.rankEpoch = (s.front.invalidateAll c req).nextRankEpoch ∧
      resp.ringIndex = ((s.front.invalidateAll c req).freeRing c).getD noIndex := by
  obtain ⟨hs, hresp⟩ := Prod.mk.inj h
  obtain rfl := Response.register.inj hresp
  rw [← hs, ← invalidateSessions_front now]
  exact ⟨handleRegister_front, rfl, rfl⟩

theorem handleHeartbeat_front {req : HeartbeatRequest} :
    (handleHeartbeat s now req).1.front = s.front.heartbeat now req := by
  have hsessions : s.front.sessions = s.sessions := rfl
  rw [handleHeartbeat, State.epochValid, Front.heartbeat, hsessions]
  cases s.sessions.lookup req.rankId with
  | none => rfl
  | some ses =>
    cases h : ses.alive && ses.rankEpoch == req.rankEpoch <;> simp only [h] <;> rfl

/-! ## Steps -/

/-- The requests of the lease protocol, and the queries. -/
def Request.isLease : Request → Bool
  | .offload _ | .d2hSubmitted _ | .d2hComplete _ | .prefetch _ | .h2dSubmitted _
  | .h2dComplete _ | .releaseLease _ | .batchComplete _ | .queryLocation _ | .latestSealed _
  | .getManifest _ => true
  | _ => false

theorem handle_sides {req : Request} (h : req.isLease) :
    (handle c s now req).1.sides = s.sides := by
  cases req with
  | offload =>
    simp only [handle, handleRequestOffload]
    repeat' split
    all_goals first | rfl | exact acquire_sides rfl
  | d2hSubmitted | h2dSubmitted => exact markSubmitted_sides
  | d2hComplete =>
    simp only [handle, handleMarkD2HComplete]
    split
    · rfl
    · exact completeD2H_sides
  | prefetch => exact handleRequestPrefetch_sides
  | h2dComplete => exact applyH2DComplete_sides
  | releaseLease => exact handleReleaseLease_sides
  | batchComplete =>
    exact foldl_invariant (motive := fun r : State × ℕ × ℕ => r.1.sides = s.sides)
      (fun _ _ h => applyBatchCompletion_sides.trans h) _ rfl
  | queryLocation | latestSealed | getManifest => rfl
  | _ => cases h

theorem handle_front {req : Request} :
    (handle c s now req).1.front = s.front.after c (.rpc now req) := by
  cases req with
  | register => exact handleRegister_front
  | heartbeat => exact handleHeartbeat_front
  | registerJob => exact handleRegisterJob_front
  | evict => exact handleRequestCanonicalEvict_front
  | commit => exact handleCommitCanonicalObject_front
  | «seal» => exact handleSealModelVersion_front
  | pull => exact handlePullTensor_front
  | restore => exact handleRequestCanonicalRestore_front
  | releaseRestore => exact handleReleaseCanonicalRestore_front
  | drop => exact handleDropCanonicalVersion_front
  | releaseCanonical => exact handleReleaseCanonical_front
  | _ => exact State.front_eq_of_sides (handle_sides rfl)

theorem forceDrainCommit_front {w : DrainWork} {p : Purpose} {cold : Option ColdEntry} :
    (forceDrainCommit c s now w p attempt cold).1.front = s.front := by
  cases cold with
  | none => rfl
  | some cold =>
    simp only [forceDrainCommit]
    split
    · exact acquire_front
    · rfl

/-- A worker that goes on with a drain that nobody waits for, or with a readback. -/
def Task.isWorker : Task → Bool
  | .drainTaken _ | .readbackTaken _ | .readbackMissing _ | .readbackCommit .. => true
  | .drainCommit w _ => w.forced.isNone
  | _ => false

theorem resume_sides {t : Task} {x : State × Response} (ht : t.isWorker)
    (h : resume c s now t = some x) : x.1.sides = s.sides := by
  cases t with
  | drainTaken =>
    cases h
    simp only [drainBegin]
    split <;> rfl
  | drainCommit w cold =>
    have hw : w.forced = none := Option.isNone_iff_eq_none.1 ht
    simp only [resume, hw] at h
    cases h
    simp only [drainCommit.eq_def]
    repeat' split
    all_goals rfl
  | readbackTaken =>
    cases h
    simp only [readbackBegin]
    repeat' split
    all_goals rfl
  | readbackMissing =>
    cases h
    rfl
  | readbackCommit =>
    cases h
    simp only [readbackCommit]
    repeat' split
    all_goals rfl
  | _ => cases ht

theorem resume_front {t : Task} {x : State × Response} (h : resume c s now t = some x) :
    x.1.front = s.front := by
  cases t with
  | drainCommit w =>
    cases hw : w.forced with
    | none => exact State.front_eq_of_sides (resume_sides (by simp [Task.isWorker, hw]) h)
    | some =>
      simp only [resume, hw] at h
      cases h
      exact forceDrainCommit_front
  | restoreCommit =>
    cases h
    simp only [restoreCommit]
    repeat' split
    all_goals rfl
  | pullStaged =>
    cases h
    simp only [pullStaged]
    split <;> rfl
  | pullSent =>
    cases h
    exact maybeFreeObject_front
  | drainIo | readbackIo | restoreIo | pullStageIo | pullReadIo | pullSendIo => cases h
  | _ => exact State.front_eq_of_sides (resume_sides rfl h)

/-- A step of the lease protocol, or of a worker. -/
def Action.isLease (s : State) : Action → Bool
  | .rpc _ req => req.isLease
  | .proceed _ i => (s.store.tasks[i]?).all Task.isWorker
  | .io .. | .takeDrain | .takeReadback | .copyD2H .. => true
  | _ => false

theorem step_sides {a : Action} {r : Response} (ha : a.isLease s)
    (h : step c s a = some (s', r)) : s'.sides = s.sides := by
  cases a with
  | rpc now req =>
    obtain rfl : (handle c s now req).1 = s' := congrArg Prod.fst (Option.some.inj h)
    exact handle_sides ha
  | io i result =>
    obtain ⟨t, -, h⟩ := Option.bind_eq_some_iff.1 h
    obtain ⟨x, -, h⟩ := Option.map_eq_some_iff.1 h
    cases h
    rfl
  | proceed now i =>
    obtain ⟨t, ht, h⟩ := Option.bind_eq_some_iff.1 h
    exact resume_sides (by simpa [Action.isLease, ht] using ha) h
  | takeDrain =>
    obtain ⟨x, hx, h⟩ := Option.map_eq_some_iff.1 h
    cases h
    simp only [takeDrain] at hx
    split at hx <;> cases hx
    rfl
  | takeReadback =>
    obtain ⟨x, hx, h⟩ := Option.map_eq_some_iff.1 h
    cases h
    simp only [takeReadback] at hx
    split at hx <;> cases hx
    rfl
  | copyD2H id data =>
    obtain ⟨x, hx, h⟩ := Option.map_eq_some_iff.1 h
    cases h
    simp only [copyD2H] at hx
    repeat' split at hx
    all_goals cases hx
    rfl
  | _ => cases ha

/-- The daemon follows the machine of the front. -/
theorem step_front {a : Action} {r : Response} (h : step c s a = some (s', r)) :
    s'.front = s.front.after c a := by
  cases a with
  | rpc now req =>
    obtain rfl : (handle c s now req).1 = s' := congrArg Prod.fst (Option.some.inj h)
    exact handle_front
  | proceed now i =>
    obtain ⟨t, -, h⟩ := Option.bind_eq_some_iff.1 h
    exact resume_front h
  | heartbeatSweep now =>
    obtain rfl : heartbeatSweep c s now = s' := congrArg Prod.fst (Option.some.inj h)
    exact foldl_front_eq (fun _ _ => checkSession_front) _ s
  | pushRing i e =>
    obtain ⟨x, hx, h⟩ := Option.map_eq_some_iff.1 h
    cases h
    simp only [pushRing] at hx
    split at hx <;> cases hx
    rfl
  | pollRing now i =>
    obtain ⟨x, hx, h⟩ := Option.map_eq_some_iff.1 h
    cases h
    simp only [pollRing] at hx
    split at hx
    · cases hx
    next e rest hpending =>
      split at hx <;> cases hx
      refine (State.front_eq_of_sides applyBatchCompletion_sides).trans ?_
      simp only [State.front, Front.after, Front.pop, hpending, List.tail_cons]
  | rehash =>
    simp only [step] at h
    split at h <;> cases h
    rfl
  | _ => exact State.front_eq_of_sides (step_sides rfl h)

/-- Over a whole run, the front is what its machine makes of the actions, whatever the store and
    the catalog are like. -/
theorem runActions_front (check : State → Action → Bool) (as : List Action) :
    (runActions check (step c) s as).map State.front =
      (runActions check (step c) s as).map fun _ => as.foldl (Front.after c) s.front := by
  induction as generalizing s with
  | nil => rfl
  | cons a as ih =>
    rw [runActions]
    split
    · cases hstep : step c s a with
      | none => rfl
      | some p => rw [Option.bind_some, ih, step_front hstep, List.foldl_cons]
    · rfl

end StateSpectre
