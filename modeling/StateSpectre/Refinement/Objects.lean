import StateSpectre.Refinement.Leases

/-!
# Canonical objects as moves

The handlers of the canonical object store as sequences of moves: objects that are
reclaimed with their runs and cold copies (`releaseObject_moves`), evicts, commits and
releases, the seals with their retention of old versions, exports and restores.
-/

namespace StateSpectre

variable {c : Config} {g : Guards} {k : Rules} {s : State} {now : ℕ} {h : Hand}
  {o : CanonicalObject} {req : CommitCanonicalObjectRequest} {oid : ℕ} {oids : List ℕ} {rankId : ℕ}

/-! ## Reclaiming an object -/

theorem releaseBacking_catalog {loc : Location} :
    (releaseBacking c s now o loc).catalog = s.catalog := by
  unfold releaseBacking
  split
  · split <;> rfl
  · split <;> rfl

/-- What reclaiming an object does to the catalog. -/
theorem releaseObject_catalog : (releaseObject c s now oid o).1.catalog =
      if o.inFlight then s.catalog else (unlinkObject s oid o).catalog := by
  rw [releaseObject]
  split
  · rfl
  · split
    · rfl
    · exact releaseBacking_catalog

theorem releaseObject_snd : (releaseObject c s now oid o).2 = !o.inFlight := by
  rw [releaseObject]
  split
  · next hfl => rw [hfl]; rfl
  · next hfl =>
    rw [Bool.not_eq_true] at hfl
    rw [hfl]
    split <;> rfl

theorem State.mem_objectCopy_iff {oid ref : ℕ} : ref ∈ s.objectCopy oid o ↔
    ∃ loc, s.store.locations.lookup (canonicalTid oid) = some loc ∧
      ¬(loc.kind = .pinned ∧ o.baseSlot ≠ noIndex) ∧ loc.coldRef ≠ 0 ∧ loc.coldRef = ref := by
  simp only [objectCopy, List.mem_map, Option.mem_toList, Option.filter_eq_some_iff,
    decide_eq_true_eq, and_assoc]

/-- The cold copy that goes with an object is forgotten with it. -/
theorem releaseObject_coldStore {oid r : ℕ} (hfl : ¬o.inFlight) (hr : r ∈ s.objectCopy oid o) :
    (releaseObject c s now oid o).1.store.coldStore.lookup r = none := by
  obtain ⟨loc, hloc, hcold, hne, rfl⟩ := State.mem_objectCopy_iff.1 hr
  rw [releaseObject, if_neg hfl, hloc]
  dsimp only
  rw [releaseBacking, if_neg hcold, if_pos hne]
  exact AList.lookup_erase _ _

/-- Reclaiming an object: its lease, its location and its entries, then its run or its cold
    copy. -/
theorem releaseObject_moves (ho : s.catalog.objects.lookup oid = some o) (hg : g.okReclaim s oid o)
    (hk : k.Met (releaseEvents c s now oid o)) :
    Turns c g k s (releaseObject c s now oid o).1 := by
  intro h
  by_cases hfl : o.inFlight
  · rw [releaseObject, if_pos hfl]
  obtain ⟨hlease, hloc, hback⟩ := hg (by simpa using hfl)
  rw [releaseEvents, if_neg hfl] at hk
  have hend : Moves c g k (unlinkObject s oid o, none, h.afterObject s oid o)
      ((releaseObject c s now oid o).1, none, h.afterObject s oid o) := by
    rw [releaseObject, if_neg hfl]
    split
    · exact .refl
    next loc hl =>
      have hb := hback loc hl
      dsimp only at hb ⊢
      rw [releaseBacking]
      split at hb
      · next hp =>
        rw [if_pos hp]
        split
        · next hst => exact .single (.reclaim (hb hst))
        · exact .refl
      · next hp =>
        rw [if_neg hp]
        split
        · next hc => exact .single (.forgetCold (hb hc))
        · exact .refl
  refine .head (.unlinkObject ho (by simpa using hfl) hlease hloc) (hend.trans ?_)
  exact (leaveRuns_moves hk).trans (forgot_moves fun _ hr => releaseObject_coldStore hfl hr)

theorem releaseObject_lookup (hfl : o.inFlight = false) :
    (releaseObject c s now oid o).1.catalog.objects.lookup oid = none := by
  rw [releaseObject_catalog, hfl, if_neg Bool.false_ne_true]
  exact AList.lookup_erase _ _

/-- An object that may have lost its last holder is reclaimed, or need not be. -/
theorem maybeFreeObject_moves (due due' : List ℕ) (hg : g.okFree s oid)
    (hk : k.Met (freeEvents c s now oid)) :
    Moves c g k (s, none, { h with due := due ++ oid :: due' })
      ((maybeFreeObject c s now oid).1, none, { h with due := due ++ due' }) := by
  unfold maybeFreeObject
  split
  · next hnone => exact .single (.check rfl fun o ho => nomatch hnone.symm.trans ho)
  next o ho =>
    split
    · next hh =>
      rw [freeEvents, ho] at hk
      dsimp only at hk
      rw [if_pos hh] at hk
      refine .tail (releaseObject_moves ho (hg o ho hh) hk _) (.check rfl fun o' ho' => .inr ?_)
      by_cases hfl : o.inFlight
      · rw [releaseObject, if_pos hfl, ho] at ho'
        exact Option.some.inj ho' ▸ hfl
      · exact nomatch (releaseObject_lookup (by simpa using hfl)).symm.trans ho'
    · next hh =>
      exact .single (.check rfl fun o' ho' => .inl (Option.some.inj (ho.symm.trans ho') ▸ hh))

/-- A rank lets go of some objects. -/
theorem dropHolds_moves : Moves c g k (s, none, h)
      (dropHolds s rankId oids, none, { h with due := oids.reverse ++ h.due }) := by
  induction oids generalizing s h with
  | nil => exact .refl
  | cons oid oids ih =>
    have hrest := @ih (s.modifyObject oid fun o => o.dropHolder rankId)
      { h with due := oid :: h.due }
    rw [List.reverse_cons, List.append_assoc]
    exact .head .letGo hrest

/-- After a rank has let go of the objects it held, it holds none. -/
theorem dropHolds_not_mem {rankId oid : ℕ}
    (h : (dropHolds s rankId oids).catalog.objects.lookup oid = some o)
    (hs : ∀ o, s.catalog.objects.lookup oid = some o → rankId ∈ o.holders → oid ∈ oids) :
    rankId ∉ o.holders := by
  induction oids generalizing s with
  | nil => exact fun hm => nomatch hs o h hm
  | cons oid' oids ih =>
    refine ih h fun o' ho' hm => ?_
    obtain ⟨rfl, o'', -, rfl⟩ | ⟨hne, ho'⟩ := Table.lookup_modify_eq_some.1 ho'
    · exact absurd hm (by simp [CanonicalObject.dropHolder])
    · exact (List.mem_cons.1 (hs o' ho' hm)).resolve_left hne

theorem mem_heldObjects {rankId oid : ℕ}
    (ho : s.catalog.objects.lookup oid = some o) (hm : rankId ∈ o.holders) :
    oid ∈ heldObjects s rankId := by
  simp only [heldObjects, List.mem_map, List.mem_filter, decide_eq_true_eq, Prod.exists,
    exists_and_right, exists_eq_right, Table.mem_rows]
  exact ⟨o, ho, hm⟩

/-- A rank whose session has ended lets go of all objects. -/
theorem purge_moves (hg : g.okPurge c s now rankId) (hk : k.Met (purgeEvents c s now rankId))
    (hl : h.leaving = some rankId) :
    Moves c g k (s, none, h)
      (purgeRankFromCanonical c s now rankId, none, { h with leaving := none }) := by
  have hfree : ∀ {oids : List ℕ} {s : State} {h : Hand},
      Along (fun s oid => g.okFree s oid ∧ k.Met (freeEvents c s now oid))
        (fun s oid => (maybeFreeObject c s now oid).1) s oids →
      Moves c g k (s, none, { h with due := oids.reverse ++ h.due })
        (oids.foldl (fun s oid => (maybeFreeObject c s now oid).1) s, none, h) := by
    intro oids
    induction oids with
    | nil => exact fun _ => .refl
    | cons oid oids ih =>
      rintro s h ⟨hone, hrest⟩
      rw [List.reverse_cons, List.append_assoc]
      exact (maybeFreeObject_moves _ _ hone.1 hone.2).trans (ih hrest)
  have hall := @hfree _ _ { h with leaving := none } (hg.and hk.along)
  refine dropHolds_moves.trans (.head (.purged hl fun oid o ho => ?_) hall)
  exact dropHolds_not_mem ho fun o' ho' hm => mem_heldObjects ho' hm

/-! ## Evicts and commits -/

/-- A lease that is taken for that of a candidate is thrown away. -/
theorem discardCandidate_moves {L : Lease} (he : s.epochValid req.rankId req.rankEpoch)
    (ho : s.catalog.objects.lookup req.objectId = some o) (hc : o.createdBy req.leaseId = false)
    (hL : s.store.leases.lookup req.leaseId = some L) (hg : g.okCommit s req)
    (hk : k.Met (discardEvents c s now req o)) :
    Turns c g k s (discardCandidate c s now req.leaseId L o) := by
  intro h
  obtain ⟨hlease, hloc, hrec⟩ := hg o ho L hL he hc
  rw [discardEvents, hL] at hk
  dsimp only at hk
  rw [Rules.met_cons, Rules.met_cons] at hk
  have hend : ∀ h, Moves c g k (s.unlinkCandidate req.leaseId L o, none, h)
      (discardCandidate c s now req.leaseId L o, none, h) := by
    intro h
    simp only [discardCandidate]
    split
    · next hf => exact .single (.reclaim (hrec hf))
    · exact .refl
  exact .head (.discard hL hlease hloc hk.1 hk.2.1) ((hend _).trans (leaveRuns_moves hk.2.2))

theorem discarded_sessions : (discarded c s now req o).sessions = s.sessions := by
  rw [discarded]
  split
  · rfl
  · simp only [discardCandidate]
    split <;> rfl

/-- A candidate is thrown away, and then its rank is attached, or not. -/
theorem commitCandidate_eq : commitCandidate c s now req o = if !o.state.attachable then
        (discarded c s now req o,
          { message := "canonical object not valid for attach", objectId := req.objectId })
      else if !hashMatches o req then
        (discarded c s now req o,
          { message := "content hash mismatch (corrupt replica)", objectId := req.objectId })
      else
        ((discarded c s now req o).modifyObject req.objectId fun o => o.addHolder req.rankId,
          { ok := true, message := "attached after verify", objectId := req.objectId }) := by
  rw [commitCandidate, discarded]
  rcases s.store.leases.lookup req.leaseId with _ | L <;> rfl

/-- A commit publishes the copy of the creator, or throws that of a candidate away. -/
theorem handleCommitCanonicalObject_moves
    (hg : g.okCommit s req) (hk : k.Met (commitEvents c s now req)) :
    Turns c g k s (handleCommitCanonicalObject c s now req).1 := by
  rw [handleCommitCanonicalObject]
  split
  · exact .refl _
  split
  · exact .refl _
  next he =>
  have he : s.epochValid req.rankId req.rankEpoch = true := by simpa using he
  split
  · exact .refl _
  next o ho =>
    split
    · next hc =>
      rw [commitCreator]
      split
      · exact .refl _
      next loc hloc =>
        split
        · exact .refl _
        · next hkind =>
          rw [not_or] at hkind
          exact .single fun _ => .commit he ho hc hloc hkind.1 hkind.2
    next hc =>
      have hc : o.createdBy req.leaseId = false := by simpa using hc
      rw [commitEvents, ho] at hk
      dsimp only at hk
      rw [if_pos ⟨he, hc⟩, Rules.met_append] at hk
      have key : Turns c g k s (discarded c s now req o) := by
        rw [discarded]
        split
        · exact .refl _
        · next L hL => exact discardCandidate_moves he ho hc hL hg hk.1
      rw [commitCandidate_eq]
      split
      · exact key
      next hatt =>
      split
      · exact key
      next hmatch =>
        rw [if_pos ⟨by simpa using hatt, by simpa using hmatch⟩, Rules.met_singleton] at hk
        have he' : (discarded c s now req o).epochValid req.rankId req.rankEpoch := by
          rwa [State.epochValid, discarded_sessions, ← State.epochValid]
        exact key.tail fun _ => .attach he' hk.2

/-- A search within the quota of a job, which draws an object id. -/
theorem reserveWithin_moves {j : JobRecord} {p : Purpose} (hp : g.okPurpose p)
    (hfind : quotaAllowsPinned j p.nbytes → k.Met (findEvents c s.drawObjectId p))
    (hseek : ∀ h, Move c g k (s, none, h) (s.drawObjectId, some p, h)) :
    Turns c g k s (reserveWithin c s.drawObjectId now j p).1 := by
  intro h
  rw [reserveWithin]
  split
  · next hq => exact .head (hseek h) (acquire_moves hp (hfind hq))
  · exact .single .draw

theorem handleRequestCanonicalEvict_moves {req : RequestCanonicalEvictRequest}
    (hg : g.okEvict c s req) (hk : k.Met (evictEvents c s req)) :
    Turns c g k s (handleRequestCanonicalEvict c s now req).1 := by
  rw [evictEvents, Rules.met_append] at hk
  obtain ⟨hbegin, hatt⟩ := hk
  rw [handleRequestCanonicalEvict]
  split
  · exact .refl _
  split
  · exact .refl _
  next he =>
  have he : s.epochValid req.rankId req.rankEpoch = true := by simpa using he
  split
  · exact .refl _
  next j hj =>
  have hjob : (s.catalog.jobs.lookup req.key.job).isSome := by rw [hj]; rfl
  -- The search that is begun meets the guards and the rules.
  have hsearch : ∀ p, evictSearch c s req = some p →
      (k s (.seek p) → ∀ h, Move c g k (s, none, h) (s.drawObjectId, some p, h)) →
      Turns c g k s (reserveWithin c s.drawObjectId now j p).1 := by
    intro p hp hseek
    rw [hp, Option.toList_some, List.flatMap_singleton, Rules.met_cons, hj] at hbegin
    obtain ⟨hrule, hfind⟩ := hbegin
    refine reserveWithin_moves (hg p hp) (fun hq => ?_) (hseek hrule)
    rwa [Option.filter_some, if_pos hq, Option.toList_some, List.flatMap_singleton] at hfind
  split
  · exact .refl _
  next hv =>
  have hv : versionSealed s ⟨req.key.job, req.key.modelRole, req.key.modelVersion⟩ = false := by
    simpa using hv
  rw [evictSearch, if_pos ⟨he, hjob, hv⟩] at hsearch
  have hmiss : (∀ p, (if req.createIfMissing then some (Purpose.create req s.catalog.nextObjectId)
        else none) = some p →
        (k s (.seek p) → ∀ h, Move c g k (s, none, h) (s.drawObjectId, some p, h)) →
        Turns c g k s (reserveWithin c s.drawObjectId now j p).1) →
      (∀ oid o, findObjectByKey s (canonicalKeyString req.key) = some (oid, o) →
        o.state.readable = false ∧ o.state ≠ .creating) →
      Turns c g k s (evictMissing c s now req j).1 := by
    intro hsearch hnone
    rw [evictMissing]
    split
    · exact .refl _
    · next hcreate =>
      exact hsearch _ (if_pos (by simpa using hcreate)) fun hk _ =>
        .seekCreate he hjob hv hnone hk
  split
  · next hkey =>
    rw [hkey] at hsearch
    exact hmiss hsearch fun oid o ho => nomatch hkey.symm.trans ho
  next oid o hkey =>
    rw [hkey] at hsearch hatt
    dsimp only at hsearch hatt
    split
    · exact .refl _
    next hsize =>
    rw [if_neg hsize] at hsearch
    split
    · next hread =>
      rw [if_pos hread] at hsearch
      rw [evictExisting]
      split
      · exact .refl _
      next hattach =>
      have hattach : req.attachIfExists := by simpa using hattach
      split
      · next hmode =>
        exact hsearch _ (if_pos ⟨hattach, hmode⟩) fun hk _ => .seekCandidate he hjob hkey hk
      next hmode =>
        rw [if_pos ⟨he, hread, hattach, hmode⟩, Rules.met_singleton] at hatt
        exact .single fun _ => .attach he hatt
    next hread =>
    rw [if_neg hread] at hsearch
    split
    · next hcreating =>
      rw [if_pos hcreating] at hsearch
      rw [evictCreating]
      split
      · next hdup => exact hsearch _ (if_pos hdup) fun hk _ => .seekCandidate he hjob hkey hk
      · exact .refl _
    · next hcr =>
      rw [if_neg hcr] at hsearch
      refine hmiss hsearch fun oid' o' ho' => ?_
      obtain ⟨rfl, rfl⟩ := Prod.mk.inj (Option.some.inj (hkey.symm.trans ho'))
      exact ⟨by simpa using hread, hcr⟩

theorem releaseHold_moves {rankId oid : ℕ} {r : State × ReleaseCanonicalResponse}
    (hg : g.okReleaseHold r.1 rankId oid) (hk : k.Met (releaseHoldEvents c r.1 now rankId oid)) :
    Turns c g k r.1 (releaseHold c now rankId r oid).1 := by
  intro h
  rw [releaseHold]
  split
  · exact .refl
  next o ho =>
    split
    · next hm =>
      simp only [releaseHoldEvents, ho, if_pos hm] at hk
      exact .head .letGo (maybeFreeObject_moves [] _ (hg o ho hm) hk)
    · exact .refl

theorem handleReleaseCanonical_moves {req : ReleaseCanonicalRequest}
    (hg : g.okReleaseCanonical c s now req)
    (hk : k.Met (requestEvents c s now (.releaseCanonical req))) :
    Turns c g k s (handleReleaseCanonical c s now req).1 := by
  rw [handleReleaseCanonical]
  split
  · exact .refl _
  split
  · exact .refl _
  next he =>
  have he : s.epochValid req.rankId req.rankEpoch = true := by simpa using he
  split
  · exact .refl _
  next j hj =>
    rw [requestEvents, if_pos he] at hk
    exact Turns.foldl (p := fun r : State × ReleaseCanonicalResponse => r.1)
      (fun _ _ hr => releaseHold_moves hr.1 hr.2) ((hg he (by rw [hj]; rfl)).and hk.along)

end StateSpectre
