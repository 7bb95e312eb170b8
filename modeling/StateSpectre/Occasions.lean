import StateSpectre.Events

/-!
# Which steps have which events

Most events can happen in many steps. Some happen in steps of one kind only: a version is sealed
by a request to seal it, a rank is heard of when it registers or its heartbeat is accepted, a
rank is attached to an object by an evict or by the commit of a candidate, and a pull begins when
it is asked for.
-/

namespace StateSpectre

variable {c : Config} {s : State} {now : ℕ} {a : Action} {m : Moment}

/-! ## Events of many steps -/

/-- An event that is not bound to a kind of step. -/
def Event.isCommon : Event → Bool
  | .sealVersion _ | .hear .. | .attach .. | .pull _ => false
  | _ => true

/-- A common event that begins no search and throws no candidate away. -/
def Event.isRoutine : Event → Bool
  | .seek _ | .discard .. => false
  | e => e.isCommon

/-- All events are of a kind. -/
abbrev AllEvents (P : Event → Bool) (es : List Moment) : Prop := ∀ m ∈ es, P m.2

abbrev AllCommon : List Moment → Prop := AllEvents Event.isCommon

abbrev AllRoutine : List Moment → Prop := AllEvents Event.isRoutine

namespace AllEvents

variable {P : Event → Bool}

theorem append {es es' : List Moment} (h : AllEvents P es) (h' : AllEvents P es') :
    AllEvents P (es ++ es') := List.forall_mem_append.2 ⟨h, h'⟩

theorem cons {es : List Moment} (hm : P m.2) (h : AllEvents P es) :
    AllEvents P (m :: es) := List.forall_mem_cons.2 ⟨hm, h⟩

theorem nil : AllEvents P [] := List.forall_mem_nil _

theorem flatMap {X : Type*} {f : X → List Moment} {xs : List X} (h : ∀ x, AllEvents P (f x)) :
    AllEvents P (xs.flatMap f) := by
  intro m hm
  obtain ⟨x, -, hm⟩ := List.mem_flatMap.1 hm
  exact h x m hm

theorem along {S X : Type*} {es : S → X → List Moment} {f : S → X → S}
    (h : ∀ s x, AllEvents P (es s x)) (s : S) (xs : List X) :
    AllEvents P (eventsAlong es f s xs) := by
  induction xs generalizing s with
  | nil => exact .nil
  | cons x xs ih => exact (h s x).append (ih _)

end AllEvents

theorem AllRoutine.common {es : List Moment} (h : AllRoutine es) : AllCommon es := by
  intro m hm
  have hr := h m hm
  rcases m with ⟨s, e⟩
  cases e <;> first | rfl | exact hr

section Lists

variable {oid rankId rankEpoch : ℕ} {o : CanonicalObject}

theorem leftRuns_routine (runs : List (ℕ × ℕ)) : AllRoutine (leftRuns s runs) := by
  intro m hm
  obtain ⟨r, -, rfl⟩ := List.mem_map.1 hm
  rfl

theorem releaseEvents_routine : AllRoutine (releaseEvents c s now oid o) := by
  rw [releaseEvents]
  split
  · exact .nil
  · exact leftRuns_routine _

theorem dropEvents_routine : AllRoutine (dropEvents c s now oid) := by
  rw [dropEvents]
  split
  · exact .nil
  · exact releaseEvents_routine

theorem freeEvents_routine : AllRoutine (freeEvents c s now oid) := by
  rw [freeEvents]
  split
  · exact .nil
  split
  · exact releaseEvents_routine
  · exact .nil

theorem releaseHoldEvents_routine : AllRoutine (releaseHoldEvents c s now rankId oid) := by
  rw [releaseHoldEvents]
  split
  · exact .nil
  split
  · exact freeEvents_routine
  · exact .nil

theorem retentionEvents_routine {uid : JobUID} {role : ℕ} :
    AllRoutine (retentionEvents c s now uid role) := by
  rw [retentionEvents]
  split
  · exact .nil
  refine .along (fun s v => ?_) _ _
  rw [retireEvents]
  split
  · exact .nil
  · exact .along (fun _ _ => dropEvents_routine) _ _

theorem dropVersionEvents_routine {req : DropCanonicalVersionRequest} :
    AllRoutine (dropVersionEvents c s now req) :=
  .append (.along (fun _ _ => dropEvents_routine) _ _) (.cons rfl .nil)

theorem discardEvents_common {req : CommitCanonicalObjectRequest} :
    AllCommon (discardEvents c s now req o) := by
  rw [discardEvents]
  split
  · exact .nil
  · exact .cons rfl (.cons rfl (leftRuns_routine _).common)

theorem findEvents_routine (p : Purpose) : AllRoutine (findEvents c s p) := by
  refine .flatMap fun base => ?_
  cases p with
  | offload => exact .nil
  | _ => exact .cons rfl .nil

theorem prefetchEvents_common {req : RequestPrefetchRequest} :
    AllCommon (prefetchEvents c s req) := by
  rw [prefetchEvents]
  split
  · exact .nil
  split
  · exact .cons rfl (findEvents_routine _).common
  · exact .nil

theorem restoreEvents_common {req : RequestCanonicalRestoreRequest} :
    AllCommon (restoreEvents c s req) := by
  rw [restoreEvents]
  split
  · split
    · exact .nil
    split
    · exact .cons rfl .nil
    · exact .flatMap fun _ => .cons rfl (findEvents_routine _).common
  · exact .nil

theorem purgeEvents_routine : AllRoutine (purgeEvents c s now rankId) :=
  .along (fun _ _ => freeEvents_routine) _ _

theorem recoverEvents_routine : AllRoutine (recoverEvents c s now rankId rankEpoch) :=
  .cons rfl (leftRuns_routine _)

theorem invalidateEvents_routine : AllRoutine (invalidateEvents c s now rankId) := by
  rw [invalidateEvents]
  split
  · exact .nil
  split
  · exact recoverEvents_routine.append purgeEvents_routine
  · exact .nil

theorem expireEvents_routine : AllRoutine (expireEvents c s now rankId) := by
  rw [expireEvents]
  split
  · exact .nil
  split
  · exact recoverEvents_routine.append purgeEvents_routine
  · exact .nil

theorem releaseLeaseEvents_routine {req : ReleaseLeaseRequest} :
    AllRoutine (releaseLeaseEvents s req) := by
  rw [releaseLeaseEvents]
  split
  · exact .nil
  split
  · exact .cons rfl (leftRuns_routine _)
  · exact .nil

theorem resumeEvents_routine (t : Task) : AllRoutine (resumeEvents c s now t) := by
  cases t with
  | drainCommit w cold =>
    simp only [resumeEvents]
    split
    · exact .nil
    split
    · exact .cons rfl .nil
    · exact .append (.cons rfl (.flatMap fun _ => .cons rfl (findEvents_routine _)))
        (leftRuns_routine _)
  | readbackTaken | pullStaged =>
    rw [resumeEvents]
    split
    · exact .nil
    · exact .cons rfl .nil
  | readbackMissing => exact .cons rfl .nil
  | readbackCommit =>
    refine .cons rfl ?_
    split
    · exact .cons rfl .nil
    · exact .nil
  | restoreCommit =>
    rw [resumeEvents]
    split
    · exact .cons rfl .nil
    · exact .nil
  | pullSent => exact freeEvents_routine
  | _ => exact .nil

end Lists

/-! ## Events of particular steps -/

/-- The requests that have other events. -/
def Request.isCommon : Request → Bool
  | .register _ | .heartbeat _ | .evict _ | .commit _ | .seal _ | .pull _ => false
  | _ => true

theorem requestEvents_common {req : Request} (h : req.isCommon) :
    AllCommon (requestEvents c s now req) := by
  cases req with
  | register | heartbeat | evict | commit | «seal» | pull => cases h
  | offload req =>
    simp only [requestEvents]
    split
    · exact .cons rfl .nil
    · exact .nil
  | prefetch => exact prefetchEvents_common
  | releaseLease => exact releaseLeaseEvents_routine.common
  | restore => exact restoreEvents_common
  | releaseRestore =>
    simp only [requestEvents]
    split
    · exact .cons rfl freeEvents_routine.common
    · exact .nil
  | drop => exact dropVersionEvents_routine.common
  | releaseCanonical =>
    simp only [requestEvents]
    split
    · exact .along (fun _ _ => releaseHoldEvents_routine.common) _ _
    · exact .nil
  | _ => exact .nil

/-- An event that is not a common one is of a request that has such events. -/
theorem exists_of_mem_events (h : m ∈ events c s a) (hm : m.2.isCommon = false) :
    ∃ now req, a = .rpc now req ∧ req.isCommon = false ∧ m ∈ requestEvents c s now req := by
  have hnot : ¬AllCommon (events c s a) := fun hall => nomatch hm.symm.trans (hall m h)
  cases a with
  | rpc now req =>
    refine ⟨now, req, rfl, ?_, h⟩
    exact Bool.eq_false_iff.2 fun hreq => hnot (requestEvents_common hreq)
  | proceed => exact absurd (.flatMap fun _ => (resumeEvents_routine _).common) hnot
  | heartbeatSweep => exact absurd (.along (fun _ _ => expireEvents_routine.common) _ _) hnot
  | _ => exact absurd .nil hnot

/-- The steps that have the other events, and when. -/
inductive Occasion (c : Config) (s : State) : Action → Moment → Prop
  | register {now req} :
      Occasion c s (.rpc now (.register req))
        (invalidateSessions c s now req, .hear req.rankId now)
  | heartbeat {now req} : s.epochValid req.rankId req.rankEpoch →
      Occasion c s (.rpc now (.heartbeat req)) (s, .hear req.rankId now)
  | evict {now req oid o} : s.epochValid req.rankId req.rankEpoch →
      findObjectByKey s (canonicalKeyString req.key) = some (oid, o) → o.state.readable →
      ¬(req.dedupMode = .hashVerified ∨ req.dedupMode = .sampledHash) →
      Occasion c s (.rpc now (.evict req)) (s, .attach req.rankId oid)
  | commit {now req o} : s.epochValid req.rankId req.rankEpoch →
      s.catalog.objects.lookup req.objectId = some o → o.createdBy req.leaseId = false →
      o.state.attachable → hashMatches o req →
      Occasion c s (.rpc now (.commit req))
        (discarded c s now req o, .attach req.rankId req.objectId)
  | seal {now req} : sealCheck c s req = none → sealFails c s req = false →
      Occasion c s (.rpc now (.seal req))
        (s, .sealVersion ⟨req.job, req.modelRole, req.modelVersion⟩)
  | pull {now req o} : pullCheck c s req = .ok o →
      Occasion c s (.rpc now (.pull req)) (s, .pull (o.pullLocals req))

theorem Occasion.of_evict {req : RequestCanonicalEvictRequest}
    (h : m ∈ evictEvents c s req) (hm : m.2.isCommon = false) :
    Occasion c s (.rpc now (.evict req)) m := by
  rcases List.mem_append.1 h with h | h
  · obtain ⟨p, -, h⟩ := List.mem_flatMap.1 h
    rcases List.mem_cons.1 h with rfl | h
    · cases hm
    · cases hm.symm.trans (AllEvents.flatMap (fun _ => (findEvents_routine _).common) m h)
  · split at h
    · cases h
    next oid o hfind =>
      split at h
      · next hatt =>
        rw [List.mem_singleton.1 h]
        exact .evict hatt.1 hfind hatt.2.1 hatt.2.2.2
      · cases h

theorem Occasion.of_commit {req : CommitCanonicalObjectRequest}
    (h : m ∈ commitEvents c s now req) (hm : m.2.isCommon = false) :
    Occasion c s (.rpc now (.commit req)) m := by
  rw [commitEvents] at h
  split at h
  · cases h
  next o ho =>
    split at h
    · next hc =>
      rcases List.mem_append.1 h with h | h
      · cases hm.symm.trans (discardEvents_common m h)
      · split at h
        · next hatt =>
          rw [List.mem_singleton.1 h]
          exact .commit hc.1 ho hc.2 hatt.1 hatt.2
        · cases h
    · cases h

theorem Occasion.of_seal {req : SealModelVersionRequest}
    (h : m ∈ sealEvents c s now req) (hm : m.2.isCommon = false) :
    Occasion c s (.rpc now (.seal req)) m := by
  rw [sealEvents] at h
  split at h
  · cases h
  next hcheck =>
    split at h
    · cases h
    next hfails =>
      rcases List.mem_cons.1 h with rfl | h
      · exact .seal hcheck (by simpa using hfails)
      · split at h
        · rcases List.mem_cons.1 h with rfl | h
          · cases hm
          · cases hm.symm.trans (retentionEvents_routine.common m h)
        · cases h

theorem Occasion.of_pull {req : PullTensorRequest} (h : m ∈ pullEvents c s req)
    (hm : m.2.isCommon = false) : Occasion c s (.rpc now (.pull req)) m := by
  rw [pullEvents] at h
  split at h
  · cases h
  next o ho =>
    rcases List.mem_cons.1 h with rfl | h
    · exact .pull ho
    · split at h
      · rw [List.mem_singleton.1 h] at hm
        cases hm
      · cases h

/-- An event that is not a common one has its occasion. -/
theorem Occasion.of_mem (h : m ∈ events c s a) (hm : m.2.isCommon = false) : Occasion c s a m := by
  obtain ⟨now, req, rfl, hreq, h⟩ := exists_of_mem_events h hm
  cases req with
  | register req =>
    rcases List.mem_append.1 h with h | h
    · cases hm.symm.trans (AllEvents.along (fun _ _ => invalidateEvents_routine.common) _ _ m h)
    · rw [List.mem_singleton.1 h]
      exact .register
  | heartbeat req =>
    rw [requestEvents] at h
    split at h
    · next he =>
      rw [List.mem_singleton.1 h]
      exact .heartbeat he
    · cases h
  | evict => exact .of_evict h hm
  | commit => exact .of_commit h hm
  | «seal» => exact .of_seal h hm
  | pull => exact .of_pull h hm
  | _ => cases hreq

end StateSpectre
