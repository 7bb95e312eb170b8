import StateSpectre.Front
import StateSpectre.Refinement.Rollout

/-!
# Every step is a sequence of moves

The ends of sessions, the tasks that left the mutex and take it again and the copies in
between, as sequences of moves, and with them every step of the daemon (`step_moves`). So
what holds at startup and is kept by every move holds in every state the daemon reaches
under the guards and the rules (`Reachable.invariant`).
-/

namespace StateSpectre

variable {c : Config} {g : Guards} {k : Rules} {s : State} {now : ℕ} {h : Hand} {rankId : ℕ}
  {ses : Session} {i : ℕ} {s' : State} {r : Response} {motive : Scene → Prop} {w : DrainWork}

/-! ## Sessions -/

/-- A dropped lease whose run did not hold data yet has it freed. -/
theorem recoverLease_moves {L : Lease} (hg : survivesOwner (s.store.slotState L.baseSlot) = false →
    g.reclaim s.store L.baseSlot L.slotCount) : Turns c g k s (recoverLease c now s L) := by
  rw [recoverLease]
  split
  · exact .refl _
  · next hs => exact .single fun _ => .reclaimMarked (hg (by simpa using hs)) (.inl rfl)

/-- The end of a session: its leases are dropped, and their runs recovered. -/
theorem recoverLeases_moves (hses : s.sessions.lookup rankId = some ses) (ha : ses.alive)
    (hg : g.okRecover c (s.endSession rankId) now rankId ses.rankEpoch)
    (hk : k.Met (recoverEvents c s now rankId ses.rankEpoch)) :
    Moves c g k (s, none, {})
      (recoverLeases c (s.endSession rankId) now rankId ses.rankEpoch, none,
        { leaving := some rankId }) := by
  rw [recoverEvents, Rules.met_cons] at hk
  have hall : Turns c g k (s.leaveSession rankId ses.rankEpoch)
      (recoverLeases c (s.endSession rankId) now rankId ses.rankEpoch) :=
    Turns.foldl (p := fun s => s) (fun _ _ => recoverLease_moves) hg.2
  have hleave := leaveRuns_moves (c := c) (g := g) (h := { leaving := some rankId }) (p := none)
    hk.2
  exact .head (.endSession hses ha hg.1 hk.1 rfl) ((hall _).trans hleave)

theorem recoverLeases_sessions {rankId rankEpoch : ℕ} :
    (recoverLeases c s now rankId rankEpoch).sessions = s.sessions :=
  congrArg Front.sessions recoverLeases_front

/-- The session that has ended, after its leases are recovered. -/
theorem recoverLeases_lookup (c : Config) (now : ℕ) (hses : s.sessions.lookup rankId = some ses) :
    (recoverLeases c (s.endSession rankId) now rankId ses.rankEpoch).sessions.lookup rankId =
      some { ses with alive := false } := by
  rw [recoverLeases_sessions, State.endSession, Table.lookup_modify, if_pos rfl, hses,
    Option.map_some]

/-- The entries left in the ring of a dead session are rejected, and the ring is given up. -/
theorem releaseRing_eq (h : s.epochValid rankId ses.rankEpoch = false) :
    releaseRing c s now rankId ses =
      if ses.ringIndex < c.ringMaxRanks then
        { s with
          rings := Function.update s.rings ses.ringIndex
            { ownerRank := noIndex, rankEpoch := 0
              head := (s.rings ses.ringIndex).head + (s.rings ses.ringIndex).pending.length }
          ringOwner := Function.update s.ringOwner ses.ringIndex noIndex }
      else s := by
  have hone : ∀ e, applyRingCompletion c s now rankId ses.rankEpoch e = s := by
    intro e
    simp only [applyRingCompletion, applyBatchCompletion, applyD2HComplete, applyH2DComplete,
      d2hLease, h2dLease, h]
    split <;> rfl
  have hall : ∀ es : List CompletionEntry,
      es.foldl (fun s e => applyRingCompletion c s now rankId ses.rankEpoch e) s = s := by
    intro es
    induction es with
    | nil => rfl
    | cons e es ih => rw [List.foldl_cons, hone, ih]
  rw [releaseRing]
  dsimp only
  rw [hall]

/-- The ring of a session that has ended is given up. -/
theorem releaseRing_moves (hses : s.sessions.lookup rankId = some { ses with alive := false }) :
    Turns c g k s (releaseRing c s now rankId ses) := by
  have hdead : s.epochValid rankId ses.rankEpoch = false := by
    rw [State.epochValid, hses]
    rfl
  rw [releaseRing_eq hdead]
  split
  · exact .single fun _ => .closeRing hses rfl rfl
  · exact .refl _

/-- The live session of a rank is invalidated. -/
theorem invalidateSession_moves (hg : g.okInvalidate c s now rankId)
    (hk : k.Met (invalidateEvents c s now rankId)) :
    Moves c g k (s, none, {}) (invalidateSession c s now rankId, none, {}) := by
  rw [invalidateSession]
  split
  · exact .refl
  next ses hses =>
    split
    · next ha =>
      obtain ⟨hrec, hpurge⟩ := hg ses hses ha
      rw [invalidateEvents, hses] at hk
      dsimp only at hk
      rw [if_pos ha, Rules.met_append] at hk
      have hring : Turns c g k (recoverLeases c (s.endSession rankId) now rankId ses.rankEpoch)
          (releaseRing c (recoverLeases c (s.endSession rankId) now rankId ses.rankEpoch) now rankId
            ses) := releaseRing_moves (recoverLeases_lookup c now hses)
      exact ((recoverLeases_moves hses ha hrec hk.1).trans (hring _)).trans
        (purge_moves hpurge hk.2 rfl)
    · exact .refl

/-- The session of a rank expires. -/
theorem checkSession_moves (hg : g.okExpire c s now rankId)
    (hk : k.Met (expireEvents c s now rankId)) :
    Moves c g k (s, none, {}) (checkSession c now s rankId, none, {}) := by
  rw [checkSession]
  split
  · exact .refl
  next ses hses =>
    split
    · next he =>
      obtain ⟨hrec, hpurge⟩ := hg ses hses he
      have ha : ses.alive = true := by
        rw [Session.expired, Bool.and_eq_true] at he
        exact he.1
      rw [expireEvents, hses] at hk
      dsimp only at hk
      rw [if_pos he, Rules.met_append] at hk
      exact (recoverLeases_moves hses ha hrec hk.1).trans (purge_moves hpurge hk.2 rfl)
    · exact .refl

/-- The steps over several sessions, with empty hands between them. -/
theorem moves_foldl {X : Type*} {f : State → X → State} {ok : State → X → Prop} {xs : List X}
    (hf : ∀ s x, ok s x → Moves c g k (s, none, {}) (f s x, none, {})) (h : Along ok f s xs) :
    Moves c g k (s, none, {}) (xs.foldl f s, none, {}) :=
  h.foldl_invariant (motive := fun s' => Moves c g k (s, none, {}) (s', none, {}))
    (fun s' x hs' hx => hs'.trans (hf s' x hx)) .refl

theorem purge_sessions : (purgeRankFromCanonical c s now rankId).sessions = s.sessions :=
  congrArg Front.sessions purge_front

/-- The session of a rank, if it has one, is over. -/
def State.Dead (s : State) (rankId : ℕ) : Prop :=
  ∀ ses, s.sessions.lookup rankId = some ses → ses.alive = false

/-- An invalidation ends the session of its rank, and leaves the others as they are. -/
theorem invalidateSession_lookup {rankId rankId' : ℕ}
    (h : (invalidateSession c s now rankId).sessions.lookup rankId' = some ses) :
    (rankId' = rankId ∧ ses.alive = false) ∨ s.sessions.lookup rankId' = some ses := by
  rw [invalidateSession] at h
  split at h
  · exact .inr h
  next ses' hses' =>
    split at h
    · have hdead := recoverLeases_lookup c now hses'
      rw [purge_sessions, releaseRing_eq (by rw [State.epochValid, hdead]; rfl)] at h
      have hkeep : (recoverLeases c (s.endSession rankId) now rankId ses'.rankEpoch).sessions.lookup
          rankId' = some ses := by
        split at h <;> exact h
      rw [recoverLeases_sessions] at hkeep
      obtain ⟨rfl, w, -, rfl⟩ | ⟨-, hkeep⟩ := Table.lookup_modify_eq_some.1 hkeep
      · exact .inl ⟨rfl, rfl⟩
      · exact .inr hkeep
    · exact .inr h

theorem invalidateSession_dead {rankId rankId' : ℕ} (h : rankId' = rankId ∨ s.Dead rankId') :
    (invalidateSession c s now rankId).Dead rankId' := by
  intro ses hses
  obtain ⟨-, ha⟩ | hold := invalidateSession_lookup hses
  · exact ha
  · obtain rfl | hd := h
    · -- A live session of the rank itself would have been ended.
      by_contra ha
      have ha : ses.alive = true := by simpa using ha
      rw [invalidateSession, hold] at hses
      dsimp only at hses
      rw [if_pos ha, purge_sessions] at hses
      have hdead := recoverLeases_lookup c now hold
      rw [releaseRing_eq (by rw [State.epochValid, hdead]; rfl)] at hses
      have hsame : (recoverLeases c (s.endSession rankId') now rankId'
          ses.rankEpoch).sessions.lookup rankId' = some ses := by
        split at hses <;> exact hses
      rw [hdead] at hsame
      have := congrArg Session.alive (Option.some.inj hsame)
      rw [ha] at this
      cases this
    · exact hd ses hold

theorem handleRegister_moves {req : RegisterRankRequest} (hg : g.okRegister c s now req)
    (hk : k.Met (requestEvents c s now (.register req))) :
    Moves c g k (s, none, {}) ((handleRegister c s now req).1, none, {}) := by
  rw [requestEvents, Rules.met_append, Rules.met_singleton] at hk
  have hall : Moves c g k (s, none, {}) (invalidateSessions c s now req, none, {}) :=
    moves_foldl (fun _ _ hs => invalidateSession_moves hs.1 hs.2) (hg.and hk.1.along)
  refine hall.tail (.openSession ?_ hk.2)
  exact foldl_invariant (s := invalidateSession c s now req.rankId)
    (motive := fun s' : State => s'.Dead req.rankId)
    (fun _ _ hs => invalidateSession_dead (.inr hs)) _ (invalidateSession_dead (.inl rfl))

/-! ## Tasks -/

/-- A freed run does not show the state it was marked with. -/
theorem freeSlots_setRunState {st : Store} {now' b n : ℕ} {q : SlotState} :
    (st.setRunState now' b n q).freeSlots now b n = st.freeSlots now b n := by
  have : onRun b n (fun _ e => { state := .free, lastTouchNs := now, flags := e.flags })
      (onRun b n (fun _ e => { e with state := q, lastTouchNs := now' }) st.slots) =
      onRun b n (fun _ e => { state := .free, lastTouchNs := now, flags := e.flags }) st.slots := by
    funext i
    by_cases hi : InRun b n i
    · simp only [onRun_of_mem hi]
    · simp only [onRun_of_not_mem hi]
  simp only [Store.freeSlots, Store.setRunState, Store.mapRun, this]

theorem State.runFree_reclaim (s : State) (b n : ℕ) (q : SlotState) :
    (s.reclaim c now b n q).store.RunFree b n :=
  (s.store.setRunState now b 1 q).runFree_freeSlots now b n

/-- A finished drain: the cold copy is recorded, then the run is freed. -/
theorem finishDrain_moves {cold : ColdEntry}
    (hi : s.store.tasks[i]? = some (.drainCommit w (some cold)))
    (hst : w.forced = none → s.store.slotState w.baseSlot = .drainInFlight)
    (hg : g.dropLease w.leaseId ∧
      g.reclaim ((s.store.dropTask i).settleDrain w cold) w.baseSlot w.slotCount)
    (hk : k.Met (resumeEvents c { s with store := s.store.dropTask i } now
      (.drainCommit w (some cold)))) :
    Moves c g k (s, none, h)
      (finishDrain c ({ s with store := s.store.dropTask i }.drainDone w.nbytes) now w cold,
        w.goesOn, h) := by
  rw [resumeEvents, if_neg fun hne => hne.2 (hst hne.1)] at hk
  dsimp only at hk
  rw [List.cons_append, Rules.met_cons, Rules.met_append] at hk
  obtain ⟨hsettle, hres, hleft⟩ := hk
  have hgo : ∀ p, w.goesOn = some p → k { s with store := s.store.dropTask i } (.resume p) :=
    fun p hp => hres _ (List.mem_flatMap.2 ⟨p, by simp [hp], List.mem_cons_self⟩)
  have hdone : Moves c g k (s, none, h)
      ({ { s with store := s.store.dropTask i }.drainDone w.nbytes with
          store := (s.store.dropTask i).settleDrain w cold }, w.goesOn,
        { h with
          freeing := (w.baseSlot, w.slotCount) :: h.freeing
          left := s.store.leaseRun w.leaseId ++ h.left }) :=
    .single (.drainSettled hi hst hg.1 hsettle hgo hg.2)
  have hfreed : Moves c g k (s, none, h)
      (finishDrain c ({ s with store := s.store.dropTask i }.drainDone w.nbytes) now w cold,
        w.goesOn, { h with left := s.store.leaseRun w.leaseId ++ h.left }) :=
    (hdone.tail (.reclaimMarked (q := .coldValid) hg.2 (.inr rfl))).tail
      (.freed rfl (State.runFree_reclaim _ _ _ _))
  exact hfreed.trans (leaveRuns_moves hleft)

/-- A drain that takes the mutex again. -/
theorem drainCommit_moves {cold : Option ColdEntry}
    (hi : s.store.tasks[i]? = some (.drainCommit w cold))
    (hg : g.okResume { s with store := s.store.dropTask i } (.drainCommit w cold))
    (hk : k.Met (resumeEvents c { s with store := s.store.dropTask i } now (.drainCommit w cold)))
    (hr : resume c { s with store := s.store.dropTask i } now (.drainCommit w cold) =
      some (s', r)) :
    Turns c g k s s' := by
  intro h
  obtain ⟨hp, hrec⟩ := hg
  have hfail : (w.forced = none → s.store.slotState w.baseSlot = .drainInFlight) → cold = none →
      Moves c g k (s, none, h)
        (failDrain ({ s with store := s.store.dropTask i }.drainDone w.nbytes) now w, none, h) := by
    rintro hst rfl
    rw [resumeEvents, if_neg fun hne => hne.2 (hst hne.1)] at hk
    exact .single (.drainFailed hi hst (Rules.met_singleton.1 hk))
  rcases hw : w.forced with _ | ⟨q, attempt⟩
  · simp only [resume, hw, drainCommit, Option.some.injEq, Prod.mk.injEq] at hr
    rw [← hr.1]
    split
    · next hst =>
      cases cold with
      | none => exact hfail (fun _ => hst) rfl
      | some cold =>
        have hgo : w.goesOn = none := by rw [DrainWork.goesOn, hw, Option.bind_none]
        have hdone := finishDrain_moves (h := h) hi (fun _ => hst) (hrec cold rfl fun _ => hst) hk
        rwa [hgo] at hdone
    · next hst =>
      have hidle : (Task.drainCommit w cold).purpose = none := by
        rw [Task.purpose, hw, Option.map_none]
      exact .single (.dropTask hi hidle rfl hst (by rintro _ ⟨⟩))
  · have hst : w.forced = none → s.store.slotState w.baseSlot = .drainInFlight := by simp [hw]
    simp only [resume, hw, Option.some.injEq] at hr
    cases cold with
    | none => exact (Prod.mk.inj hr).1 ▸ hfail hst rfl
    | some cold =>
      have hdone := finishDrain_moves (h := h) hi hst (hrec cold rfl hst) hk
      have hgo : w.goesOn = if attempt < maxDrainAttempts then some q else none := by
        rw [DrainWork.goesOn, hw, Option.bind_some]
      rw [forceDrainCommit] at hr
      by_cases ha : attempt < maxDrainAttempts
      · rw [hgo, if_pos ha] at hdone
        rw [if_pos ha] at hr
        obtain rfl : _ = s' := congrArg Prod.fst hr
        rw [resumeEvents, if_neg fun hne => hne.2 (hst hne.1)] at hk
        refine hdone.trans (acquire_moves (hp _ hw) fun e he => hk e ?_)
        simp [hgo, ha, he]
      · rw [hgo, if_neg ha] at hdone
        rw [if_neg ha] at hr
        exact (Prod.mk.inj hr).1 ▸ hdone

/-- A task that takes the mutex again. -/
theorem resume_moves {t : Task} (hi : s.store.tasks[i]? = some t)
    (hg : g.okResume { s with store := s.store.dropTask i } t)
    (hk : k.Met (resumeEvents c { s with store := s.store.dropTask i } now t))
    (hr : resume c { s with store := s.store.dropTask i } now t = some (s', r)) :
    Turns c g k s s' := by
  intro h
  cases t with
  | drainCommit w cold => exact drainCommit_moves hi hg hk hr h
  | drainTaken job =>
    cases hr
    rw [drainBegin]
    split
    · next hst => exact .single (.drainBegin hi hst)
    · next hst => exact .single (.dropTask hi rfl rfl hst (by rintro _ ⟨⟩))
  | readbackTaken job =>
    cases hr
    rw [readbackBegin]
    split
    · next hst =>
      split
      · next cold hc => exact .single (.readbackFound hi hst hc)
      · next hc => exact .single (.readbackLost hi hst hc)
    · next hst =>
      rw [resumeEvents, if_neg hst, Rules.met_singleton] at hk
      exact .single (.dropTask hi rfl rfl hst fun _ hj => Option.some.inj hj ▸ hk)
  | readbackMissing job =>
    cases hr
    exact .single (.readbackMissing hi (Rules.met_singleton.1 hk))
  | readbackCommit job ok =>
    cases hr
    rw [resumeEvents, Rules.met_cons] at hk
    rw [readbackCommit]
    split
    · next hst =>
      cases ok with
      | true =>
        rw [if_pos ⟨rfl, hst⟩, Rules.met_singleton] at hk
        exact .single (.readbackDone hi hst hk.2 hk.1)
      | false => exact .single (.readbackFailed hi hst hk.1)
    · next hst => exact .single (.dropTask hi rfl rfl hst fun _ hj => Option.some.inj hj ▸ hk.1)
  | restoreCommit req base count nbytes ok =>
    obtain ⟨rfl, rfl⟩ := Prod.mk.inj (Option.some.inj hr)
    cases ok with
    | true => exact .single (.warmDone hi hg (Rules.met_singleton.1 hk))
    | false =>
      have hfree : ({ s with store := (s.store.dropTask i).setRunState now base count .error }
          ).freeSlots c now base count =
          ({ s with store := s.store.dropTask i } : State).freeSlots c now base count := by
        simp only [State.freeSlots, freeSlots_setRunState]
      have hmoves : Moves c g k (s, none, h)
          (({ s with store := s.store.dropTask i } : State).freeSlots c now base count, none, h) :=
        .head (.warmFailed hi) (reclaim_moves hg)
      rwa [← hfree] at hmoves
  | pullStaged l buf =>
    obtain ⟨rfl, rfl⟩ := Prod.mk.inj (Option.some.inj hr)
    dsimp only
    split
    · exact .single (.nextPull hi rfl rfl fun _ h => congrArg some h)
    · next hne =>
      rw [resumeEvents, if_neg, Rules.met_singleton] at hk
      · exact .single (.failPull hi hk)
      · rintro ⟨ho, hb⟩
        obtain ⟨o, ho⟩ := Option.isSome_iff_exists.1 ho
        obtain ⟨b, hb⟩ := Option.isSome_iff_exists.1 hb
        exact hne o b ho hb
  | pullSent l error =>
    cases hr
    exact .head (.endPull hi) (maybeFreeObject_moves [] _ hg hk)
  | _ => cases hr

/-- A copy made outside the mutex. -/
theorem copyOf_moves {t t' : Task} {st : Store} {result : IoResult}
    (hi : s.store.tasks[i]? = some t) (hg : g.okCopy c (s.store.dropTask i) result t)
    (hc : copyOf c (s.store.dropTask i) result t = some (st, t')) :
    Turns c g k s { s with store := st.addTask t' } := by
  cases t with
  | drainIo w =>
    cases hc
    refine .single fun _ => .drainCopied hi fun e he => ?_
    cases result with
    | ok => exact (Option.some.inj he).symm
    | _ => cases he
  | readbackIo job cold =>
    obtain ⟨⟨data, ok⟩, hr, hc⟩ := Option.map_eq_some_iff.1 hc
    cases hc
    exact .single fun _ => .readbackRead hi hr hg
  | restoreIo req base count cold nbytes =>
    obtain ⟨⟨data, ok⟩, hr, hc⟩ := Option.map_eq_some_iff.1 hc
    cases hc
    exact .single fun _ => .warmRead hi hr hg
  | pullStageIo l cold =>
    obtain ⟨⟨data, ok⟩, hr, hc⟩ := Option.map_eq_some_iff.1 hc
    cases hc
    exact .single fun _ => .stage hi hr hg
  | pullReadIo l cold =>
    obtain ⟨⟨data, ok⟩, hr, hc⟩ := Option.map_eq_some_iff.1 hc
    cases hc
    refine .single fun _ => .nextPull hi rfl rfl fun data' h => ?_
    cases ok with
    | true => exact ⟨result, Option.some.inj h ▸ hr⟩
    | false => cases h
  | pullSendIo l buf =>
    cases hc
    exact .single fun _ => .nextPull hi rfl rfl fun _ h => h.elim
  | _ => cases hc

/-! ## Steps -/

theorem handleRegisterJob_moves {req : RegisterJobRequest} :
    Turns c g k s (handleRegisterJob c s req).1 := by
  rw [handleRegisterJob]
  split
  · exact .refl _
  dsimp only
  split
  · exact .refl _
  next hnone =>
    refine .single fun _ => .registerJob (fun j' hj' => ?_) rfl rfl rfl rfl rfl
    have hrow := List.find?_eq_none.1 hnone _ (Table.mem_rows.2 hj')
    simpa using hrow

/-- A request. -/
theorem handle_moves {req : Request} (hg : g.okRequest c s now req)
    (hk : k.Met (requestEvents c s now req)) :
    Moves c g k (s, none, {}) ((handle c s now req).1, none, {}) := by
  cases req with
  | register req => exact handleRegister_moves hg hk
  | heartbeat req =>
    simp only [handle, handleHeartbeat]
    split
    · exact .refl
    · next he =>
      rw [requestEvents, if_pos (by simpa using he), Rules.met_singleton] at hk
      exact .single (.heartbeat hk)
  | offload req => exact handleRequestOffload_moves hg hk _
  | d2hSubmitted req => exact markSubmitted_moves (.inl ⟨rfl, rfl⟩) (fun _ => rfl) _
  | d2hComplete req =>
    simp only [handle, handleMarkD2HComplete]
    split
    · exact .refl
    · next L hL =>
      obtain ⟨-, hlook, -, -, -, -, hst⟩ := d2hLease_eq_some hL
      exact completeD2H_moves hlook hst (hg L hL) _
  | prefetch req => exact handleRequestPrefetch_moves hg hk _
  | h2dSubmitted req => exact markSubmitted_moves (.inr ⟨rfl, rfl⟩) (fun _ => rfl) _
  | h2dComplete req => exact applyH2DComplete_moves hg _
  | releaseLease req => exact handleReleaseLease_moves hg hk _
  | batchComplete req => exact handleBatchComplete_moves hg _
  | registerJob req => exact handleRegisterJob_moves _
  | evict req => exact handleRequestCanonicalEvict_moves hg hk _
  | commit req => exact handleCommitCanonicalObject_moves hg hk _
  | «seal» req => exact handleSealModelVersion_moves hg hk _
  | pull req => exact handlePullTensor_moves hk _
  | restore req => exact handleRequestCanonicalRestore_moves hg hk _
  | releaseRestore req => exact handleReleaseCanonicalRestore_moves hg hk _
  | drop req => exact handleDropCanonicalVersion_moves hg hk _
  | releaseCanonical req => exact handleReleaseCanonical_moves hg hk _
  | queryLocation req => exact .refl
  | latestSealed req => exact .refl
  | getManifest req => exact .refl

theorem pollRing_moves (hg : ∀ e, (s.rings i).pending.head? = some e →
      g.okCompletion s (s.rings i).ownerRank (s.rings i).rankEpoch e.toBatch)
    (hp : pollRing c s now i = some s') : Turns c g k s s' := by
  simp only [pollRing] at hp
  split at hp
  · cases hp
  next e rest hpend =>
    split at hp
    · cases hp
      refine .trans (.single fun _ => .popRing hpend) (applyBatchCompletion_moves ?_)
      exact hg e (by rw [hpend]; rfl)
    · cases hp

/-- Every step of the daemon that meets the guards and the rules is a sequence of moves,
    with empty hands at its beginning and its end. -/
theorem step_moves {a : Action} (hg : g.ok c s a) (hk : k.ok c s a)
    (hst : step c s a = some (s', r)) : Moves c g k (s, none, {}) (s', none, {}) := by
  cases a with
  | rpc now req =>
    obtain ⟨rfl, rfl⟩ := Prod.mk.inj (Option.some.inj hst)
    exact handle_moves hg hk
  | io i result =>
    obtain ⟨t, hi, hst⟩ := Option.bind_eq_some_iff.1 hst
    obtain ⟨⟨st, t'⟩, hc, hst⟩ := Option.map_eq_some_iff.1 hst
    cases hst
    exact copyOf_moves hi (hg t hi) hc _
  | proceed now i =>
    obtain ⟨t, hi, hst⟩ := Option.bind_eq_some_iff.1 hst
    have hk : k.Met (resumeEvents c { s with store := s.store.dropTask i } now t) := by
      simpa [Rules.ok, events, hi] using hk
    exact resume_moves hi (hg t hi) hk hst _
  | takeDrain =>
    obtain ⟨s₁, h₁, hst⟩ := Option.map_eq_some_iff.1 hst
    cases hst
    rw [takeDrain] at h₁
    split at h₁
    · cases h₁
    · next job rest hq =>
      cases h₁
      exact .single (.takeDrain hq)
  | takeReadback =>
    obtain ⟨s₁, h₁, hst⟩ := Option.map_eq_some_iff.1 hst
    cases hst
    rw [takeReadback] at h₁
    split at h₁
    · cases h₁
    · next job rest hq =>
      cases h₁
      exact .single (.takeReadback hq)
  | heartbeatSweep now =>
    cases hst
    exact moves_foldl (fun _ _ hs => checkSession_moves hs.1 hs.2) (Along.and hg hk.along)
  | pushRing i e =>
    obtain ⟨s₁, h₁, hst⟩ := Option.map_eq_some_iff.1 hst
    cases hst
    obtain ⟨rings, rfl⟩ := pushRing_eq h₁
    exact .single (.pushRing h₁)
  | pollRing now i =>
    obtain ⟨s₁, h₁, hst⟩ := Option.map_eq_some_iff.1 hst
    cases hst
    exact pollRing_moves hg h₁ _
  | copyD2H id data =>
    obtain ⟨s₁, h₁, hst⟩ := Option.map_eq_some_iff.1 hst
    cases hst
    rw [copyD2H] at h₁
    split at h₁
    · cases h₁
    next L hL =>
      split at h₁
      · next hc =>
        cases h₁
        exact .single (.copyD2H hL hc.1 hc.2.1 hc.2.2)
      · cases h₁
  | rehash leases sessions objects jobs manifests =>
    simp only [step] at hst
    split at hst
    · next hr =>
      cases hst
      exact .single (.rehash hr.1 hr.2.1 hr.2.2.1 hr.2.2.2.1 hr.2.2.2.2)
    · cases hst

/-- The rule for invariants: what holds at startup and is kept by every move holds in every
    state reached. -/
theorem Reachable.invariant (h₀ : motive (State.initial, none, {}))
    (hstep : ∀ x y, motive x → Move c g k x y → motive y)
    (h : Reachable c (fun s a => g.ok c s a ∧ k.ok c s a) s) : motive (s, none, {}) := by
  refine Reach.invariant (motive := fun s => motive (s, none, {})) ?_ ?_ h
  · rintro _ rfl
    exact h₀
  · intro s a s' r hs ha hst
    exact (step_moves ha.1 ha.2 hst).invariant hstep hs

/-- Under rules alone, what all moves keep holds in all reachable states. -/
theorem Reachable.invariant_of_rules (h₀ : motive (State.initial, none, {}))
    (hstep : ∀ x y, motive x → Move c {} k x y → motive y)
    (h : Reachable c (k.ok c) s) : motive (s, none, {}) :=
  Reachable.invariant (g := {}) h₀ hstep (h.mono fun _ _ hk => ⟨Guards.unguarded_ok, hk⟩)

end StateSpectre
