import StateSpectre.Offload

/-!
# Sessions, recovery and completion rings

A rank registers and is given a session with a fresh epoch, and a completion
ring if one is free. Its session ends when the rank or its process registers
again, or when its heartbeats stop. Its leases are then recovered: those whose
run holds a valid copy, or is being drained, are only dropped; the runs of the
others are freed. The holds of the rank on canonical objects are dropped too.
-/

namespace StateSpectre

variable (c : Config) (s : State)

/-! ## Recovery -/

/-- The states in which a run outlives the session of its lease: its data is
    safe, or on its way to a cold tier. -/
def survivesOwner : SlotState → Bool
  | .pinnedValid | .coldValid | .drainInFlight => true
  | _ => false

/-- The run of a lease of a dead session is freed, unless it survives. -/
def recoverLease (now : ℕ) (s : State) (L : Lease) : State :=
  if survivesOwner (s.store.slotState L.baseSlot) then s
  else s.reclaim c now L.baseSlot L.slotCount .error

/-- The leases of a session, with their ids. -/
def sessionLeases (rankId rankEpoch : ℕ) : List (ℕ × Lease) :=
  s.store.leases.rows.filter fun r => r.2.ownerRank = rankId ∧ r.2.rankEpoch = rankEpoch

/-- The leases of a dead session are dropped and recovered. (Recovering a run
    does not look at the leases, so that dropping them first makes no
    difference.) -/
def recoverLeases (now rankId rankEpoch : ℕ) : State :=
  let dead := sessionLeases s rankId rankEpoch
  (dead.map (·.2)).foldl (recoverLease c now)
    { s with store := s.store.dropLeases (dead.map (·.1)) }

/-- A session is over, and so are the restores it was answered. -/
def State.endSession (rankId : ℕ) : State :=
  { s with
    sessions := s.sessions.modify rankId fun ses => { ses with alive := false }
    store :=
      { s.store with
        history :=
          { s.store.history with
            holds := s.store.history.holds.filter fun r => r.rankId ≠ rankId } } }

/-- The ring of a dead session is emptied and given up. -/
def releaseRing (now rankId : ℕ) (ses : Session) : State :=
  if ses.ringIndex < c.ringMaxRanks then
    let ring := s.rings ses.ringIndex
    let s' := ring.pending.foldl (fun s e => applyRingCompletion c s now rankId ses.rankEpoch e) s
    { s' with
      rings := Function.update s'.rings ses.ringIndex
        { ownerRank := noIndex, rankEpoch := 0, head := ring.head + ring.pending.length }
      ringOwner := Function.update s'.ringOwner ses.ringIndex noIndex }
  else s

/-- The session of a rank that registers again, or whose process does, ends. -/
def invalidateSession (now rankId : ℕ) : State :=
  match s.sessions.lookup rankId with
  | none => s
  | some ses =>
    if ses.alive then
      let s' := recoverLeases c (s.endSession rankId) now rankId ses.rankEpoch
      purgeRankFromCanonical c (releaseRing c s' now rankId ses) now rankId
    else s

/-- The session of a rank whose heartbeats stopped ends. Its ring is not given
    up. -/
def expireSession (now rankId : ℕ) (ses : Session) : State :=
  let s' := recoverLeases c (s.endSession rankId) now rankId ses.rankEpoch
  purgeRankFromCanonical c s' now rankId

/-! ## Registration and heartbeats -/

/-- The other ranks with a live session of the process `pid`. -/
def ranksOfPid (rankId pid : ℕ) : List ℕ :=
  (s.sessions.rows.filter fun r => r.1 ≠ rankId ∧ r.2.alive ∧ r.2.pid = pid).map (·.1)

/-- All sessions that a registration ends, have ended. -/
def invalidateSessions (now : ℕ) (req : RegisterRankRequest) : State :=
  (req.rankId :: ranksOfPid s req.rankId req.pid).foldl (fun s r => invalidateSession c s now r) s

def freeRing : Option ℕ := (List.range c.ringMaxRanks).find? fun i => s.ringOwner i == noIndex

/-- A session is opened, with the free ring `ring` if there is one. -/
def openSession (now : ℕ) (req : RegisterRankRequest) (ring : Option ℕ) : State :=
  let epoch := s.nextRankEpoch
  { s with
    nextRankEpoch := epoch + 1
    sessions := s.sessions.insert req.rankId
      { rankEpoch := epoch, pid := req.pid, lastHeartbeatNs := now, alive := true
        ringIndex := ring.getD noIndex }
    rings := match ring with
      | some i => Function.update s.rings i { ownerRank := req.rankId, rankEpoch := epoch }
      | none => s.rings
    ringOwner := match ring with
      | some i => Function.update s.ringOwner i req.rankId
      | none => s.ringOwner }

def handleRegister (now : ℕ) (req : RegisterRankRequest) : State × Response :=
  let s' := invalidateSessions c s now req
  let ring := freeRing c s'
  (openSession s' now req ring,
    .register
      { ok := true, message := "ok", rankEpoch := s'.nextRankEpoch
        ringIndex := ring.getD noIndex })

def handleHeartbeat (now : ℕ) (req : HeartbeatRequest) : State × Response :=
  if !s.epochValid req.rankId req.rankEpoch then (s, ack false "epoch invalid")
  else
    ({ s with
        sessions := s.sessions.modify req.rankId fun ses => { ses with lastHeartbeatNs := now } },
      ack true "ok")

/-- A session whose last heartbeat is too long ago. -/
def Session.expired (now : ℕ) (ses : Session) : Bool :=
  ses.alive &&
    decide (c.heartbeatTimeoutMs * 1000000 % 2 ^ 64 < subU64 now ses.lastHeartbeatNs)

/-- The session of a rank ends if it is expired. -/
def checkSession (now : ℕ) (s : State) (rankId : ℕ) : State :=
  match s.sessions.lookup rankId with
  | none => s
  | some ses => if ses.expired c now then expireSession c s now rankId ses else s

/-- A sweep of the heartbeat monitor over all sessions. -/
def heartbeatSweep (now : ℕ) : State :=
  (s.sessions.rows.map (·.1)).foldl (checkSession c now) s

/-! ## Completion rings -/

/-- An entry is pushed into a ring with room for it. -/
def pushRing (i : ℕ) (e : CompletionEntry) : Option State :=
  let ring := s.rings i
  if i < c.ringMaxRanks ∧ ring.pending.length < c.ringCapacity then
    some { s with rings := Function.update s.rings i { ring with pending := ring.pending ++ [e] } }
  else none

variable {c s} in
/-- What an agent pushes goes to its ring, and changes nothing else. -/
theorem pushRing_eq {i : ℕ} {e : CompletionEntry} {s' : State} (h : pushRing c s i e = some s') :
    ∃ rings, s' = { s with rings := rings } := by
  simp only [pushRing] at h
  split at h
  · exact ⟨_, (Option.some.inj h).symm⟩
  · cases h

/-- The poller takes the oldest entry of an active ring and applies it, in the
    name of the owner that the ring publishes. -/
def pollRing (now i : ℕ) : Option State :=
  let ring := s.rings i
  match ring.pending with
  | [] => none
  | e :: rest =>
    if i < c.ringMaxRanks ∧ s.ringOwner i ≠ noIndex ∧ ring.rankEpoch ≠ 0 then
      let s' :=
        { s with
          rings := Function.update s.rings i { ring with head := ring.head + 1, pending := rest } }
      some (applyRingCompletion c s' now ring.ownerRank ring.rankEpoch e)
    else none

end StateSpectre
