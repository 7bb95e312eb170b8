import StateSpectre.Fencing
import StateSpectre.Rings

/-!
# What a registration finds in the rings

A rank that registers again may have left completions in the ring of its session, of copies that
are done. The registration empties the ring "so late pushes are applied", but only after it has
ended the session and recovered its leases: the entries are applied in the name of a session that
is over, and are all rejected (`verdicts_of_invalid`). The copies are lost, with the runs they
were made to.
-/

namespace StateSpectre

variable {c : Config} {s : State} {now rankId rankEpoch : ℕ} {req : RegisterRankRequest}

/-- Whether each of the entries is accepted, when they are applied in order in the name of a
    session. -/
def verdicts (c : Config) (now rankId rankEpoch : ℕ) : State → List CompletionEntry → List Bool
  | _, [] => []
  | s, e :: es =>
    let r := applyBatchCompletion c s now rankId rankEpoch e.toBatch
    r.2 :: verdicts c now rankId rankEpoch r.1 es

/-- In the name of a session that is over, none is. -/
theorem verdicts_of_invalid (h : ¬s.epochValid rankId rankEpoch) (es : List CompletionEntry) :
    verdicts c now rankId rankEpoch s es = List.replicate es.length false := by
  induction es with
  | nil => rfl
  | cons e es ih =>
    rw [verdicts, applyBatchCompletion_of_invalid h]
    exact congrArg (false :: ·) ih

/-- The sessions that a registration ends before that of `rankId` have ended. -/
def invalidatedBefore (c : Config) (s : State) (now : ℕ) (req : RegisterRankRequest)
    (rankId : ℕ) : State :=
  ((req.rankId :: ranksOfPid s req.rankId req.pid).takeWhile (· ≠ rankId)).foldl
    (fun s r => invalidateSession c s now r) s

/-- The state in which a registration empties the ring of the session of `rankId`. -/
def drainState (c : Config) (s : State) (now : ℕ) (req : RegisterRankRequest)
    (rankId rankEpoch : ℕ) : State :=
  recoverLeases c ((invalidatedBefore c s now req rankId).endSession rankId) now rankId rankEpoch

/-- The session is over by then. -/
theorem drainState_invalid :
    ¬(drainState c s now req rankId rankEpoch).epochValid rankId rankEpoch := by
  intro hv
  obtain ⟨ses, hses, ha, -⟩ := State.epochValid_iff.1 hv
  rw [drainState, recoverLeases_sessions] at hses
  obtain ⟨-, ses', -, rfl⟩ | ⟨hne, -⟩ := Table.lookup_modify_eq_some.1 hses
  · cases ha
  · exact hne rfl

theorem Front.invalidate_lookup_of_ne {f : Front} {r r' : ℕ} (h : r' ≠ r) :
    (f.invalidate c r).sessions.lookup r' = f.sessions.lookup r' := by
  rw [Front.invalidate]
  split
  · rfl
  · split
    · rw [closeRing]
      split <;> exact (Table.lookup_modify ..).trans (if_neg h)
    · rfl

theorem Front.foldl_invalidate_lookup {f : Front} {rs : List ℕ} (h : rankId ∉ rs) :
    (rs.foldl (invalidate c) f).sessions.lookup rankId = f.sessions.lookup rankId := by
  induction rs generalizing f with
  | nil => rfl
  | cons r rs ih =>
    obtain ⟨hne, hnot⟩ : rankId ≠ r ∧ rankId ∉ rs := by simpa using h
    rw [List.foldl_cons, ih hnot, invalidate_lookup_of_ne hne]

/-- A registration empties the ring of each session it ends, in the state `drainState`. -/
theorem invalidateSessions_drain {ses : Session} (hses : s.sessions.lookup rankId = some ses)
    (ha : ses.alive) (hreq : rankId = req.rankId ∨ ses.pid = req.pid) :
    ∃ rest, invalidateSessions c s now req =
      List.foldl (fun s r => invalidateSession c s now r)
        (purgeRankFromCanonical c
          (releaseRing c (drainState c s now req rankId ses.rankEpoch) now rankId ses) now rankId)
        rest := by
  have hmem : rankId ∈ req.rankId :: ranksOfPid s req.rankId req.pid := by
    by_cases heq : rankId = req.rankId
    · exact heq ▸ List.mem_cons_self
    · refine List.mem_cons_of_mem _ (List.mem_map.2 ⟨(rankId, ses), List.mem_filter.2
        ⟨Table.mem_rows.2 hses, ?_⟩, rfl⟩)
      simp [heq, ha, hreq.resolve_left heq]
  obtain ⟨before, rest, hlist, hnot⟩ := List.eq_append_cons_of_mem hmem
  have hbefore : (req.rankId :: ranksOfPid s req.rankId req.pid).takeWhile (· ≠ rankId) =
      before := by
    rw [hlist, List.takeWhile_append_of_pos fun r hr => by simp [ne_of_mem_of_not_mem hr hnot]]
    simp
  -- The sessions before it leave its own alone.
  have hsame : (invalidatedBefore c s now req rankId).sessions.lookup rankId = some ses := by
    rw [invalidatedBefore, hbefore]
    have hfront := foldl_front_eq (f := fun s r => invalidateSession c s now r)
      (fun _ _ => invalidateSession_front) before s
    exact (congrArg (fun f : Front => f.sessions.lookup rankId) hfront).trans
      ((Front.foldl_invalidate_lookup hnot).trans hses)
  refine ⟨rest, ?_⟩
  rw [invalidateSessions, hlist, List.foldl_append, List.foldl_cons, ← hbefore]
  change List.foldl _ (invalidateSession c (invalidatedBefore c s now req rankId) now rankId) _ = _
  rw [invalidateSession, hsame]
  dsimp only
  rw [if_pos ha]
  rfl

/-- The verdicts of a registration on the entries left in the ring of a session that it ends. -/
def registrationVerdicts (c : Config) (s : State) (now : ℕ) (req : RegisterRankRequest)
    (rankId : ℕ) (ses : Session) : List Bool :=
  verdicts c now rankId ses.rankEpoch (drainState c s now req rankId ses.rankEpoch)
    ((drainState c s now req rankId ses.rankEpoch).rings ses.ringIndex).pending

/-- A registration for the rank or the process of a live session with a ring. It empties the
    ring in the state `drainState`, and every entry of it that would have been accepted just
    before the registration is accepted then, if and only if there was none. -/
theorem registration_applies_iff {req : RegisterRankRequest} {ses : Session}
    (hses : s.sessions.lookup rankId = some ses) (ha : ses.alive)
    (hreq : rankId = req.rankId ∨ ses.pid = req.pid) :
    (∃ rest, invalidateSessions c s now req =
      List.foldl (fun s r => invalidateSession c s now r)
        (purgeRankFromCanonical c
          (releaseRing c (drainState c s now req rankId ses.rankEpoch) now rankId ses) now rankId)
        rest) ∧
    ((∀ k : ℕ, (verdicts c now rankId ses.rankEpoch s
        (s.rings ses.ringIndex).pending)[k]? = some true →
        (registrationVerdicts c s now req rankId ses)[k]? = some true) ↔
      true ∉ verdicts c now rankId ses.rankEpoch s (s.rings ses.ringIndex).pending) := by
  refine ⟨invalidateSessions_drain hses ha hreq, fun h hmem => ?_, fun h k hk => ?_⟩
  · obtain ⟨k, hk⟩ := List.mem_iff_getElem?.1 hmem
    have hlost := List.mem_of_getElem? (h k hk)
    rw [registrationVerdicts, verdicts_of_invalid drainState_invalid] at hlost
    cases (List.mem_replicate.1 hlost).2
  · exact absurd (List.mem_of_getElem? hk) h

/-- The rank 0 has copied its tensor and left the completion in its ring, and registers again:
    the completion would have been accepted, but the tensor has no location, and its run is
    free. -/
theorem registration_loses_copy :
    ∃ s ses, Reached oneSlot s ∧ s.sessions.lookup 0 = some ses ∧ ses.alive ∧
      verdicts oneSlot 5 0 ses.rankEpoch s (s.rings ses.ringIndex).pending = [true] ∧
      registrationVerdicts oneSlot s 5 ⟨0, 7⟩ 0 ses = [false] ∧
      (handle oneSlot s 5 (.register ⟨0, 7⟩)).1.store.locations.lookup 1 = none ∧
      (handle oneSlot s 5 (.register ⟨0, 7⟩)).1.store.slotState 0 = .free :=
  exists_reachable₂ oneSlot _
    (registers :: (offloads 1 1 1 1 [1]).take 3 ++ [.pushRing 0 ⟨1, 1, 1, 0, .d2hComplete⟩])
    (by decide +kernel)

/-- The rank 0 has left its completion twice, and registers again after the poller has taken the
    first one. The other one is refused in any case: nothing is lost. -/
theorem registration_applies_iff_polled :
    ∃ s ses, Reached oneSlot s ∧
      (s.sessions.lookup 0 = some ses ∧ ses.alive ∧
        verdicts oneSlot 5 0 ses.rankEpoch s (s.rings ses.ringIndex).pending = [false]) ∧
      (∃ rest, invalidateSessions oneSlot s 5 ⟨0, 7⟩ =
        List.foldl (fun s r => invalidateSession oneSlot s 5 r)
          (purgeRankFromCanonical oneSlot
            (releaseRing oneSlot (drainState oneSlot s 5 ⟨0, 7⟩ 0 ses.rankEpoch) 5 0 ses) 5 0)
          rest) ∧
      (∀ k : ℕ, (verdicts oneSlot 5 0 ses.rankEpoch s
        (s.rings ses.ringIndex).pending)[k]? = some true →
        (registrationVerdicts oneSlot s 5 ⟨0, 7⟩ 0 ses)[k]? = some true) := by
  refine exists_reachable₂_and oneSlot _ (registers :: (offloads 1 1 1 1 [1]).take 3 ++
    [.pushRing 0 ⟨1, 1, 1, 0, .d2hComplete⟩, .pushRing 0 ⟨1, 1, 1, 0, .d2hComplete⟩,
      .pollRing 4 0]) (by decide +kernel) ?_
  rintro s ses - ⟨hses, hlive, hp⟩
  obtain ⟨hdrain, hiff⟩ :=
    @registration_applies_iff oneSlot s 5 0 ⟨0, 7⟩ ses hses hlive (.inl rfl)
  exact ⟨hdrain, hiff.2 (by simp [hp])⟩

end StateSpectre
