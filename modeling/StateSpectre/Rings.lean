import StateSpectre.Ownership

/-!
# Who owns the rings

A rank that registers is given the first ring without an owner, and a session that is
invalidated gives its ring up. A session that expires does not (`expired_session_keeps_ring`):
the ring stays with a rank that has no session, and is never given to another one.

As long as no session with a ring expires (`ringRules`), the owner of a ring is the rank with a
live session that has it, and a rank goes without a ring only if all are taken by live sessions
(`rings_owned`).
-/

namespace StateSpectre

variable {c : Config} {s s' : State} {f : Front} {now : ℕ} {req : RegisterRankRequest} {r i : ℕ}
  {ses : Session}

/-! ## Owners -/

/-- The rank has a live session with the ring `i`. -/
def Front.Owns (f : Front) (rankId i : ℕ) : Prop :=
  ∃ ses, f.sessions.lookup rankId = some ses ∧ ses.alive ∧ ses.ringIndex = i

/-- The owner of a ring is the rank with a live session that has it. -/
def Front.RingsOwned (c : Config) (f : Front) : Prop :=
  ∀ i < c.ringMaxRanks, ∀ r, f.ringOwner i = r ∧ r ≠ noIndex ↔ f.Owns r i

namespace Front

theorem Owns.ring_unique {r i i' : ℕ} (h : f.Owns r i) (h' : f.Owns r i') : i = i' := by
  obtain ⟨ses, hses, -, rfl⟩ := h
  obtain ⟨ses', hses', -, rfl⟩ := h'
  rw [Option.some.inj (hses.symm.trans hses')]

theorem RingsOwned.owner_unique {r r' i : ℕ} (h : f.RingsOwned c) (hi : i < c.ringMaxRanks)
    (hr : f.Owns r i) (hr' : f.Owns r' i) : r = r' :=
  ((h i hi r).2 hr).1.symm.trans ((h i hi r').2 hr').1

/-- What leaves the owners and the live sessions alone keeps them in agreement. -/
theorem RingsOwned.frame {f' : Front} (h : f.RingsOwned c) (howner : f'.ringOwner = f.ringOwner)
    (hsessions : ∀ r i, f'.Owns r i ↔ f.Owns r i) : f'.RingsOwned c := fun i hi r => by
  rw [howner, hsessions, h i hi r]

/-! ### Sessions that end -/

theorem owns_endSession {r r' i : ℕ} : (f.endSession r).Owns r' i ↔ r' ≠ r ∧ f.Owns r' i := by
  constructor
  · rintro ⟨ses, hses, ha, hi⟩
    obtain ⟨rfl, ses', -, rfl⟩ | ⟨hne, hses⟩ := Table.lookup_modify_eq_some.1 hses
    · cases ha
    · exact ⟨hne, ses, hses, ha, hi⟩
  · rintro ⟨hne, ses, hses, ha, hi⟩
    exact ⟨ses, ((Table.lookup_modify ..).trans (if_neg hne)).trans hses, ha, hi⟩

/-- Ending a session changes nothing for the rings that it does not have. -/
theorem owns_endSession_of_ne {r r' i : ℕ} (hses : f.sessions.lookup r = some ses)
    (hi : ses.ringIndex ≠ i) : (f.endSession r).Owns r' i ↔ f.Owns r' i := by
  rw [owns_endSession, and_iff_right_iff_imp]
  rintro ⟨ses', hses', -, rfl⟩ rfl
  exact hi (congrArg Session.ringIndex (Option.some.inj (hses.symm.trans hses')))

/-- A session that is invalidated is over, and so is none else. -/
theorem owns_invalidate {r r' i : ℕ} : (f.invalidate c r).Owns r' i ↔ r' ≠ r ∧ f.Owns r' i := by
  have hclose : ∀ ses, ((f.endSession r).closeRing c ses).Owns r' i ↔
      (f.endSession r).Owns r' i := by
    intro ses
    rw [closeRing]
    split <;> rfl
  have hdead : (∀ ses, f.sessions.lookup r = some ses → ¬ses.alive) →
      (f.Owns r' i ↔ r' ≠ r ∧ f.Owns r' i) := by
    rintro hdead
    refine ⟨fun h => ⟨?_, h⟩, fun h => h.2⟩
    rintro rfl
    obtain ⟨ses, hses, ha, -⟩ := h
    exact hdead ses hses ha
  rw [Front.invalidate]
  split
  · next hnone => exact hdead fun ses hses => by cases hses.symm.trans hnone
  next ses hses =>
    split
    · rw [hclose, owns_endSession]
    · next ha => exact hdead fun ses' hses' => Option.some.inj (hses.symm.trans hses') ▸ ha

/-- It gives up its ring. -/
theorem invalidate_of_owns (hi : i < c.ringMaxRanks) (h : f.Owns r i) :
    (f.invalidate c r).ringOwner i = noIndex := by
  obtain ⟨ses, hses, ha, rfl⟩ := h
  simp [Front.invalidate, hses, ha, closeRing, hi]

/-- The other rings stay as they are. -/
theorem invalidate_of_not_owns (h : ¬f.Owns r i) :
    (f.invalidate c r).ringOwner i = f.ringOwner i ∧ (f.invalidate c r).rings i = f.rings i := by
  rw [Front.invalidate]
  split
  · exact ⟨rfl, rfl⟩
  next ses hses =>
    split
    · next ha =>
      have hne : i ≠ ses.ringIndex := fun heq => h ⟨ses, hses, ha, heq.symm⟩
      rw [closeRing]
      split
      · exact ⟨Function.update_of_ne hne .., Function.update_of_ne hne ..⟩
      · exact ⟨rfl, rfl⟩
    · exact ⟨rfl, rfl⟩

theorem RingsOwned.invalidate (h : f.RingsOwned c) (r : ℕ) : (f.invalidate c r).RingsOwned c := by
  intro i hi r'
  rw [owns_invalidate]
  by_cases hown : f.Owns r i
  · -- The ring of the session has no owner any more.
    rw [invalidate_of_owns hi hown]
    constructor
    · rintro ⟨rfl, hne⟩
      exact absurd rfl hne
    · rintro ⟨hne, hown'⟩
      exact absurd (h.owner_unique hi hown' hown) hne
  · rw [(invalidate_of_not_owns hown).1, h i hi r', iff_and_self]
    rintro hown' rfl
    exact hown hown'

theorem RingsOwned.check (h : f.RingsOwned c) {r : ℕ}
    (hring : ∀ ses, f.sessions.lookup r = some ses → ses.expired c now →
      c.ringMaxRanks ≤ ses.ringIndex) : (f.check c now r).RingsOwned c := by
  rw [Front.check]
  split
  · exact h
  next ses hses =>
    split
    · next hexp =>
      intro i hi r'
      rw [owns_endSession_of_ne hses fun heq => (hring ses hses hexp).not_gt (heq ▸ hi)]
      exact h i hi r'
    · exact h

/-- A session that is alive after a check was there before. -/
theorem check_lookup {r r' : ℕ} (h : (f.check c now r).sessions.lookup r' = some ses)
    (ha : ses.alive) :
    f.sessions.lookup r' = some ses := by
  rw [Front.check] at h
  split at h
  · exact h
  · split at h
    · obtain ⟨rfl, ses', -, rfl⟩ | ⟨-, h⟩ := Table.lookup_modify_eq_some.1 h
      · cases ha
      · exact h
    · exact h

/-- A sweep that ends no session with a ring. -/
theorem RingsOwned.sweep (h : f.RingsOwned c)
    (hring : ∀ r ses, f.sessions.lookup r = some ses → ses.expired c now →
      c.ringMaxRanks ≤ ses.ringIndex) (rs : List ℕ) :
    (rs.foldl (fun f r => f.check c now r) f).RingsOwned c := by
  refine (foldl_invariant (motive := fun f' : Front => f'.RingsOwned c ∧
    ∀ r ses, f'.sessions.lookup r = some ses → ses.alive → f.sessions.lookup r = some ses) ?_ rs
    ⟨h, fun _ _ hses _ => hses⟩).1
  rintro f' r ⟨h', hsame⟩
  have halive : ∀ ses : Session, ses.expired c now → ses.alive := fun ses hexp =>
    (Bool.and_eq_true_iff.1 hexp).1
  refine ⟨h'.check fun ses hses hexp => ?_, fun r' ses hses ha => ?_⟩
  · exact hring r ses (hsame r ses hses (halive ses hexp)) hexp
  · exact hsame r' ses (check_lookup hses ha) ha

/-! ### Sessions that open -/

/-- The sessions that are there after all invalidations are of other ranks. -/
theorem owns_invalidateAll
    (h : (f.invalidateAll c req).Owns r i) : r ≠ req.rankId ∧ f.Owns r i := by
  refine foldl_invariant (s := f.invalidate c req.rankId) (f := Front.invalidate c)
    (motive := fun f' : Front => f'.Owns r i → r ≠ req.rankId ∧ f.Owns r i) ?_ _
    owns_invalidate.1 h
  exact fun f' r' hf' hown => hf' (owns_invalidate.1 hown).2

theorem RingsOwned.invalidateAll (h : f.RingsOwned c) (req : RegisterRankRequest) :
    (f.invalidateAll c req).RingsOwned c :=
  foldl_invariant (f := Front.invalidate c) (motive := fun f' : Front => f'.RingsOwned c)
    (fun _ r hf => hf.invalidate r) _ h

theorem freeRing_eq_some {i : ℕ} (h : f.freeRing c = some i) :
    i < c.ringMaxRanks ∧ f.ringOwner i = noIndex :=
  ⟨List.mem_range.1 (List.mem_of_find?_eq_some h), by simpa using List.find?_some h⟩

theorem freeRing_eq_none (h : f.freeRing c = none) {i : ℕ} (hi : i < c.ringMaxRanks) :
    f.ringOwner i ≠ noIndex := by
  simpa using List.find?_eq_none.1 h i (List.mem_range.2 hi)

/-- The rank that opens a session has the ring it is given, and the others have theirs. -/
theorem owns_openSession {ring : Option ℕ} : (f.openSession now req ring).Owns r i ↔
      if r = req.rankId then ring.getD noIndex = i else f.Owns r i := by
  have hlookup := Table.lookup_insert f.sessions req.rankId r
    { rankEpoch := f.nextRankEpoch, pid := req.pid, lastHeartbeatNs := now, alive := true,
      ringIndex := ring.getD noIndex }
  rw [Owns, show (f.openSession now req ring).sessions.lookup r = _ from hlookup]
  split
  · simp
  · rfl

/-- A session is opened for a rank that has none, with a ring that has no owner. -/
theorem RingsOwned.openSession (h : f.RingsOwned c) (hc : c.ringMaxRanks ≤ noIndex)
    (hreq : req.rankId ≠ noIndex) (hnone : ∀ i, ¬f.Owns req.rankId i) :
    (f.openSession now req (f.freeRing c)).RingsOwned c := by
  have hold : ∀ i < c.ringMaxRanks, f.ringOwner i ≠ req.rankId := fun i hi heq =>
    hnone i ((h i hi _).1 ⟨heq, hreq⟩)
  intro i hi r
  rw [owns_openSession]
  cases hring : f.freeRing c with
  | none =>
    split
    · next hr =>
      subst hr
      exact ⟨fun heq => absurd heq.1 (hold i hi), fun heq => absurd hi (hc.trans_eq heq).not_gt⟩
    · exact h i hi r
  | some j =>
    obtain ⟨hj, hfree⟩ := freeRing_eq_some hring
    change Function.update f.ringOwner j req.rankId i = r ∧ _ ↔ _
    by_cases hij : i = j
    · subst hij
      rw [Function.update_self]
      split
      · next hr => exact ⟨fun _ => rfl, fun _ => ⟨hr.symm, hr ▸ hreq⟩⟩
      · next hr =>
        rw [← h i hi r, hfree]
        exact ⟨fun heq => absurd heq.1.symm hr, fun heq => absurd heq.1.symm heq.2⟩
    · rw [Function.update_of_ne hij]
      split
      · next hr =>
        exact ⟨fun heq => absurd (heq.1.trans hr) (hold i hi), fun heq => absurd heq.symm hij⟩
      · exact h i hi r

theorem RingsOwned.register (h : f.RingsOwned c)
    (hc : c.ringMaxRanks ≤ noIndex) (hreq : req.rankId ≠ noIndex) :
    (f.register c now req).RingsOwned c :=
  (h.invalidateAll req).openSession hc hreq fun _ hown => (owns_invalidateAll hown).1 rfl

/-- A rank goes without a ring only if all are owned by live sessions of other ranks. -/
theorem RingsOwned.of_refused (h : f.RingsOwned c)
    (hnone : (f.invalidateAll c req).freeRing c = none) {i : ℕ} (hi : i < c.ringMaxRanks) :
    ∃ r, r ≠ req.rankId ∧ f.Owns r i := by
  exact ⟨_, owns_invalidateAll ((h.invalidateAll req i hi _).1 ⟨rfl, freeRing_eq_none hnone hi⟩)⟩

theorem owns_heartbeat {req : HeartbeatRequest} : (f.heartbeat now req).Owns r i ↔ f.Owns r i := by
  rw [Front.heartbeat]
  split
  · split
    · constructor
      · rintro ⟨ses, hses, ha, hi⟩
        obtain ⟨rfl, ses', hses', rfl⟩ | ⟨-, hses⟩ := Table.lookup_modify_eq_some.1 hses
        · exact ⟨ses', hses', ha, hi⟩
        · exact ⟨ses, hses, ha, hi⟩
      · rintro ⟨ses, hses, ha, hi⟩
        refine ⟨_, Table.lookup_modify_of_lookup hses, ?_⟩
        split <;> exact ⟨ha, hi⟩
    · rfl
  · rfl

/-- A heartbeat leaves the rings alone. -/
theorem heartbeat_rings (now : ℕ) (req : HeartbeatRequest) :
    (f.heartbeat now req).ringOwner = f.ringOwner ∧ (f.heartbeat now req).rings = f.rings := by
  rw [Front.heartbeat]
  split
  · split <;> exact ⟨rfl, rfl⟩
  · exact ⟨rfl, rfl⟩

end Front

/-! ## Runs -/

/-- No session with a ring expires, and no rank has the id that stands for none. -/
def ringRules (c : Config) (s : State) : Action → Prop
  | .heartbeatSweep now => ∀ r ses, s.sessions.lookup r = some ses → ses.expired c now →
      c.ringMaxRanks ≤ ses.ringIndex
  | .rpc _ (.register req) => req.rankId ≠ noIndex
  | _ => True

instance {a : Action} : Decidable (ringRules c s a) := by
  induction a using Action.casesOn with
  | rpc now req => induction req using Request.casesOn <;> dsimp only [ringRules] <;> infer_instance
  | _ =>
    dsimp only [ringRules]
    infer_instance

theorem Front.RingsOwned.step {a : Action} {r : Response} (hc : c.ringMaxRanks ≤ noIndex)
    (h : s.front.RingsOwned c) (ha : ringRules c s a) (hstep : step c s a = some (s', r)) :
    s'.front.RingsOwned c := by
  rw [step_front hstep]
  cases a with
  | rpc now req =>
    cases req with
    | register req => exact h.register hc ha
    | heartbeat req =>
      exact h.frame (Front.heartbeat_rings now req).1 fun _ _ => Front.owns_heartbeat
    | _ => exact h
  | heartbeatSweep now => exact h.sweep ha _
  | rehash _ sessions =>
    simp only [StateSpectre.step] at hstep
    split at hstep
    · next hsame =>
      refine h.frame rfl fun r i => ?_
      change (∃ ses, sessions.lookup r = some ses ∧ _) ↔ _
      rw [hsame.2.1.lookup_eq]
      rfl
    · cases hstep
  | _ => exact h

/-- In every run in which no session with a ring expires and no rank has the id that stands for
    none: the owner of a ring is the rank with a live session that has it, of which there is at
    most one, and a rank that registers is refused a ring only if every ring is owned by a live
    session of another rank, all of them different. -/
theorem rings_owned (hc : c.ringMaxRanks ≤ noIndex) (h : Reachable c (ringRules c) s) :
    (∀ i < c.ringMaxRanks, ∀ r, s.ringOwner i = r ∧ r ≠ noIndex ↔ s.front.Owns r i) ∧
    (∀ i < c.ringMaxRanks, ∀ r r', s.front.Owns r i → s.front.Owns r' i → r = r') ∧
    (∀ r i i', s.front.Owns r i → s.front.Owns r i' → i = i') ∧
    ∀ now req s' resp, handle c s now (.register req) = (s', .register resp) →
      resp.ringIndex = noIndex →
      ∃ owner : ℕ → ℕ, (∀ i < c.ringMaxRanks, owner i ≠ req.rankId ∧ s.front.Owns (owner i) i) ∧
        Set.InjOn owner (Set.Iio c.ringMaxRanks) := by
  have hs : s.front.RingsOwned c := by
    refine Reach.invariant (motive := fun s => s.front.RingsOwned c) ?_
      (fun _ _ _ _ h ha hstep => h.step hc ha hstep) h
    rintro _ rfl i - r
    exact ⟨fun heq => absurd heq.1.symm heq.2, fun ⟨_, hses, _⟩ => nomatch hses⟩
  refine ⟨hs, fun i hi r r' => hs.owner_unique hi, fun _ _ _ => Front.Owns.ring_unique, ?_⟩
  intro now req s' resp hreg hrefused
  have hnone : (s.front.invalidateAll c req).freeRing c = none := by
    cases hring : (s.front.invalidateAll c req).freeRing c with
    | none => rfl
    | some i =>
      have hindex : i = noIndex := by
        rw [← hrefused, (handle_register_eq hreg).2.2, hring, Option.getD_some]
      exact absurd (Front.freeRing_eq_some hring).1 (hindex ▸ hc).not_gt
  choose! owner howner using fun i (hi : i < c.ringMaxRanks) => hs.of_refused hnone hi
  refine ⟨owner, howner, fun i hi j hj heq => ?_⟩
  exact (howner i hi).2.ring_unique (heq ▸ (howner j hj).2)

def oneRing : Config := { oneSlot with ringMaxRanks := 1 }

/-- The answer to a registration without a ring. -/
def Response.withoutRing : Response → Bool
  | .register r => r.ringIndex == noIndex
  | _ => false

/-- The heartbeats of the rank 0 stop: it still owns the only ring, so that the rank 1 is refused
    one although no session is alive. -/
theorem expired_session_keeps_ring :
    ∃ s, Reached oneRing s ∧
      (s.ringOwner 0 = 0 ∧ (∀ r ses, s.sessions.lookup r = some ses → ses.alive = false) ∧
        (handle oneRing s (10 ^ 11) (.register ⟨1, 8⟩)).2.withoutRing) ∧
      (∀ r i, ¬s.front.Owns r i) ∧
      ∃ s' resp, handle oneRing s (10 ^ 11) (.register ⟨1, 8⟩) = (s', .register resp) ∧
        resp.ringIndex = noIndex := by
  refine exists_reachable_and oneRing _ [registers, .heartbeatSweep (10 ^ 11)]
    (by decide +kernel) ?_
  rintro s - ⟨-, hdead, hrefused⟩
  refine ⟨?_, _, _, rfl, eq_of_beq hrefused⟩
  rintro r i ⟨ses, hses, ha, -⟩
  rw [hdead r ses hses] at ha
  cases ha

/-- The rank 0 registers, and again, each time for the only ring; the rank 1 is refused one. -/
theorem rings_owned_again :
    ∃ s, Reachable oneRing (ringRules oneRing) s ∧
      (s.ringOwner 0 = 0 ∧ (handle oneRing s 2 (.register ⟨1, 8⟩)).2.withoutRing) ∧
      s.front.Owns 0 0 ∧ ∃ owner : ℕ → ℕ, ∀ i < 1, owner i ≠ 1 ∧ s.front.Owns (owner i) i := by
  refine exists_reachable_and oneRing _ [registers, registers] (by decide +kernel) ?_
  rintro s hs ⟨howner, hrefused⟩
  obtain ⟨howns, -, -, hall⟩ := rings_owned (by decide) hs
  obtain ⟨owner, hown, -⟩ := hall 2 ⟨1, 8⟩ _ _ rfl (eq_of_beq hrefused)
  exact ⟨(howns 0 (by decide) 0).1 ⟨howner, by decide⟩, owner, hown⟩

end StateSpectre
