import StateSpectre.LeaseCover
import StateSpectre.Occasions

/-!
# Ranks that are declared dead

The heartbeat monitor reads the clock, then takes the mutex and ends the sessions whose last
heartbeat is more than the timeout ago. A rank may register, or its heartbeat be accepted,
between the two. The monitor then finds a heartbeat that is later than what it has read, and the
difference wraps around in 64 bits: the rank is declared dead though it was just heard of
(`heartbeat_outruns_monitor`). A timeout that does not fit into 64 bits of nanoseconds wraps
around as well.

To speak of this, the daemon is put beside a clock that never goes back (`Timed`), with what the
monitor has read off it and the times at which the ranks were heard of. If no live rank is heard
of between the reading and the sweep, and the timeout fits, only ranks that were silent for
longer than the timeout are declared dead (`expires_silent`).
-/

namespace StateSpectre

variable {c : Config} {s s' : State} {now r : ℕ} {a : Action} {resp : Response} {ses' : Session}
  {ses : Session}

/-! ## Sessions -/

/-- The sessions after a sweep: those that were expired have ended. -/
theorem checkSession_lookup {r' : ℕ} (h : (checkSession c now s r').sessions.lookup r = some ses') :
    ∃ ses, s.sessions.lookup r = some ses ∧
      (ses' = ses ∨ ses.expired c now ∧ ses' = { ses with alive := false }) := by
  rw [checkSession] at h
  split at h
  · exact ⟨ses', h, .inl rfl⟩
  next ses hses =>
    split at h
    · next hexp =>
      rw [expireSession, purge_sessions, recoverLeases_sessions] at h
      obtain ⟨rfl, ses₀, hses₀, rfl⟩ | ⟨-, h⟩ := Table.lookup_modify_eq_some.1 h
      · cases hses.symm.trans hses₀
        exact ⟨ses, hses, .inr ⟨hexp, rfl⟩⟩
      · exact ⟨ses', h, .inl rfl⟩
    · exact ⟨ses', h, .inl rfl⟩

theorem heartbeatSweep_lookup (h : (heartbeatSweep c s now).sessions.lookup r = some ses') :
    ∃ ses, s.sessions.lookup r = some ses ∧
      (ses' = ses ∨ ses.expired c now ∧ ses' = { ses with alive := false }) := by
  refine foldl_invariant (f := checkSession c now) (motive := fun s₁ : State => ∀ ses',
    s₁.sessions.lookup r = some ses' → ∃ ses, s.sessions.lookup r = some ses ∧
      (ses' = ses ∨ ses.expired c now ∧ ses' = { ses with alive := false })) ?_ _
    (fun ses' h => ⟨ses', h, .inl rfl⟩) ses' h
  intro s₁ r' hs₁ ses₂ h₂
  obtain ⟨ses₁, hses₁, h₁₂⟩ := checkSession_lookup h₂
  obtain ⟨ses, hses, h₁⟩ := hs₁ ses₁ hses₁
  refine ⟨ses, hses, ?_⟩
  rcases h₁ with rfl | ⟨hexp, rfl⟩
  · exact h₁₂
  -- A session that has ended is not looked at again.
  · refine .inr ⟨hexp, ?_⟩
    rcases h₁₂ with rfl | ⟨-, rfl⟩ <;> rfl

/-- The ranks are heard of as `heard` tells. -/
def hearRules (heard : ℕ → ℕ → Prop) : Rules := fun _ e => ∀ r now, e = .hear r now → heard r now

/-- The time in every session is that of the session before, or one at which the rank was heard
    of. -/
def HeardSince (heard : ℕ → ℕ → Prop) (s s' : State) : Prop :=
  ∀ r ses', s'.sessions.lookup r = some ses' → heard r ses'.lastHeartbeatNs ∨
    ∃ ses, s.sessions.lookup r = some ses ∧ ses.lastHeartbeatNs = ses'.lastHeartbeatNs

theorem HeardSince.move {heard : ℕ → ℕ → Prop} {g : Guards} {x y : Scene}
    (h : HeardSince heard s x.1) (hm : Move c g (hearRules heard) x y) :
    HeardSince heard s y.1 := by
  have hmodify : ∀ {x y : State} {r : ℕ} {f : Session → Session}, HeardSince heard s x →
      y.sessions = x.sessions.modify r f →
      (∀ ses, heard r (f ses).lastHeartbeatNs ∨ (f ses).lastHeartbeatNs = ses.lastHeartbeatNs) →
      HeardSince heard s y := by
    intro x y r f h hy hf r' ses' hses'
    rw [hy] at hses'
    obtain ⟨rfl, ses, hses, rfl⟩ | ⟨-, hses⟩ := Table.lookup_modify_eq_some.1 hses'
    · rcases hf ses with hnew | hsame
      · exact .inl hnew
      · rw [hsame]
        exact h r' ses hses
    · exact h r' ses' hses
  cases hm with
  | heartbeat hk => exact hmodify h rfl fun _ => .inl (hk _ _ rfl)
  | endSession => exact hmodify h rfl fun _ => .inr rfl
  | openSession _ hk =>
    intro r ses' hses'
    rcases Table.lookup_insert_eq_some.1 hses' with ⟨rfl, rfl⟩ | ⟨-, hses⟩
    · exact .inl (hk _ _ rfl)
    · exact h r ses' hses
  | rehash _ hr => exact fun r ses' hses' => h r ses' ((hr.lookup_eq r).symm.trans hses')
  | _ => exact h

/-- What a step does to the times in the sessions. -/
theorem step_heardSince (h : step c s a = some (s', resp)) :
    HeardSince (fun r now => ∃ s₁, Occasion c s a (s₁, .hear r now)) s s' := by
  refine (step_moves (k := hearRules _) Guards.unguarded_ok ?_ h).invariant
    (motive := fun x => HeardSince _ s x.1) (fun _ _ hx hxy => hx.move hxy)
    fun r ses hses => .inr ⟨ses, hses, rfl⟩
  rintro ⟨s₁, e⟩ he r now rfl
  exact ⟨s₁, .of_mem he rfl⟩

/-! ## Time -/

/-- The daemon with a clock. -/
structure Timed where
  state : State
  clock : ℕ := 0
  /-- What the monitor has read off the clock, before it waits for the mutex. -/
  reading : Option ℕ := none
  /-- When each rank last registered, or had a heartbeat accepted. -/
  heard : ℕ → ℕ := fun _ => 0

/-- What can happen in time. -/
inductive TimedAction
  /-- Time passes. -/
  | tick (d : ℕ)
  /-- The monitor reads the clock. -/
  | readClock
  | act (a : Action)

/-- The time of an action is that of the clock, except that the monitor goes by its reading. -/
def Timed.Allows (t : Timed) : Action → Prop
  | .heartbeatSweep now => t.reading = some now
  | .rpc now _ | .proceed now _ | .pollRing now _ => now = t.clock
  | _ => True

instance {t : Timed} : DecidablePred t.Allows := fun a => by
  induction a using Action.casesOn <;> dsimp only [Timed.Allows] <;> infer_instance

/-- The reading of the monitor is used once. -/
def Timed.readingAfter (t : Timed) : Action → Option ℕ
  | .heartbeatSweep _ => none
  | _ => t.reading

/-- The ranks that were heard of, after an action. -/
def Timed.heardAfter (t : Timed) : Action → ℕ → ℕ
  | .rpc now (.register req) => Function.update t.heard req.rankId now
  | .rpc now (.heartbeat req) =>
    if t.state.epochValid req.rankId req.rankEpoch then Function.update t.heard req.rankId now
    else t.heard
  | _ => t.heard

/-- A step in time. The clock counts nanoseconds in 64 bits and does not go back. -/
def Timed.step (c : Config) (t : Timed) : TimedAction → Option (Timed × Response)
  | .tick d => if t.clock + d < 2 ^ 64 then some ({ t with clock := t.clock + d }, .none) else none
  | .readClock => some ({ t with reading := some t.clock }, .none)
  | .act a =>
    if t.Allows a then
      (StateSpectre.step c t.state a).map fun r =>
        ({ t with state := r.1, reading := t.readingAfter a, heard := t.heardAfter a }, r.2)
    else none

/-- The daemon at the start, at any time. -/
def Timed.Initial (t : Timed) : Prop :=
  t.state = State.initial ∧ t.clock < 2 ^ 64 ∧ t.reading = none

abbrev TimedReachable (c : Config) (ok : Timed → TimedAction → Prop) : Timed → Prop :=
  Reach Timed.Initial ok (Timed.step c)

/-- The sessions tell when their ranks were heard of, which is not in the future, and neither is
    what the monitor has read. -/
structure Timed.Sound (t : Timed) : Prop where
  clock : t.clock < 2 ^ 64
  reading : ∀ now, t.reading = some now → now ≤ t.clock
  heard : ∀ r ses, t.state.sessions.lookup r = some ses → ses.lastHeartbeatNs = t.heard r
  past : ∀ r ses, t.state.sessions.lookup r = some ses → ses.lastHeartbeatNs ≤ t.clock

/-- The session of a rank that registers. -/
theorem handleRegister_lookup {req : RegisterRankRequest}
    (h : (handleRegister c s now req).1.sessions.lookup req.rankId = some ses) :
    ses.lastHeartbeatNs = now := by
  rw [show (handleRegister c s now req).1.sessions.lookup req.rankId = _ from
    (Table.lookup_insert ..).trans (if_pos rfl)] at h
  rw [← Option.some.inj h]

/-- The session of a rank whose heartbeat is accepted. -/
theorem handleHeartbeat_lookup {req : HeartbeatRequest} (he : s.epochValid req.rankId req.rankEpoch)
    (h : (handleHeartbeat s now req).1.sessions.lookup req.rankId = some ses) :
    ses.lastHeartbeatNs = now := by
  rw [handleHeartbeat, he, Bool.not_true, if_neg Bool.false_ne_true] at h
  obtain ⟨-, ses₀, -, rfl⟩ | ⟨hne, -⟩ := Table.lookup_modify_eq_some.1 h
  · rfl
  · exact absurd rfl hne

/-- The times in the sessions after an action. -/
theorem Timed.heardAfter_eq {t : Timed} (h : t.Sound) (hallow : t.Allows a)
    (hstep : StateSpectre.step c t.state a = some (s', resp))
    (hses' : s'.sessions.lookup r = some ses') :
    ses'.lastHeartbeatNs = t.heardAfter a r ∧ ses'.lastHeartbeatNs ≤ t.clock := by
  rcases step_heardSince hstep r ses' hses' with ⟨s₁, hocc⟩ | ⟨ses, hses, heq⟩
  · generalize ses'.lastHeartbeatNs = last at hocc
    cases hocc with
    | register => exact ⟨by simp [heardAfter], hallow.le⟩
    | heartbeat he => exact ⟨by simp [heardAfter, he], hallow.le⟩
  · refine ⟨?_, heq ▸ h.past r ses hses⟩
    -- A rank that was heard of has the time of the request in its session.
    rw [Timed.heardAfter.eq_def]
    split
    · rename_i now req
      by_cases hr : r = req.rankId
      · subst hr
        obtain rfl : (handleRegister c t.state now req).1 = s' :=
          congrArg Prod.fst (Option.some.inj hstep)
        rw [Function.update_self, handleRegister_lookup hses']
      · rw [Function.update_of_ne hr, ← heq, h.heard r ses hses]
    · rename_i now req
      split
      next he =>
        by_cases hr : r = req.rankId
        · subst hr
          obtain rfl : (handleHeartbeat t.state now req).1 = s' :=
            congrArg Prod.fst (Option.some.inj hstep)
          rw [Function.update_self, handleHeartbeat_lookup he hses']
        · rw [Function.update_of_ne hr, ← heq, h.heard r ses hses]
      next => rw [← heq, h.heard r ses hses]
    · rw [← heq, h.heard r ses hses]

theorem Timed.Sound.initial {t : Timed} (h : t.Initial) : t.Sound := by
  obtain ⟨hstate, hclock, hreading⟩ := h
  refine ⟨hclock, fun _ hnow => ?_, fun _ _ hses => ?_, fun _ _ hses => ?_⟩
  · rw [hreading] at hnow
    cases hnow
  all_goals
    rw [hstate] at hses
    cases hses

theorem Timed.Sound.step {t t' : Timed} {ta : TimedAction} (h : t.Sound)
    (hstep : Timed.step c t ta = some (t', resp)) : t'.Sound := by
  cases ta with
  | tick d =>
    obtain ⟨hclock, heq⟩ := Option.ite_none_right_eq_some.1 hstep
    cases heq
    exact ⟨hclock, fun now hnow => (h.reading now hnow).trans (Nat.le_add_right ..), h.heard,
      fun r ses hses => (h.past r ses hses).trans (Nat.le_add_right ..)⟩
  | readClock =>
    cases hstep
    exact ⟨h.clock, fun _ hnow => (Option.some.inj hnow).ge, h.heard, h.past⟩
  | act a =>
    obtain ⟨hallow, hmap⟩ := Option.ite_none_right_eq_some.1 hstep
    obtain ⟨⟨s', resp'⟩, hs', heq⟩ := Option.map_eq_some_iff.1 hmap
    cases heq
    refine ⟨h.clock, fun now hnow => h.reading now ?_,
      fun r ses hses => (heardAfter_eq h hallow hs' hses).1,
      fun r ses hses => (heardAfter_eq h hallow hs' hses).2⟩
    -- What the monitor has read is kept or used up.
    cases a with
    | heartbeatSweep => cases hnow
    | _ => exact hnow

theorem TimedReachable.sound {ok : Timed → TimedAction → Prop} {t : Timed}
    (h : TimedReachable c ok t) : t.Sound :=
  h.invariant (fun _ => .initial) fun _ _ _ _ ht _ hstep => ht.step hstep

/-! ## Silence -/

/-- The monitor sweeps with a timeout that fits into 64 bits, and no live rank was heard of since
    it read the clock. -/
def Timed.Timely (c : Config) (t : Timed) : TimedAction → Prop
  | .act (.heartbeatSweep now) => c.heartbeatTimeoutMs * 1000000 < 2 ^ 64 ∧
    ∀ r ses, t.state.sessions.lookup r = some ses → ses.alive → ses.lastHeartbeatNs ≤ now
  | _ => True

/-- The session of a rank ends in this step. -/
abbrev Timed.Ends (t t' : Timed) (r : ℕ) : Prop :=
  ∃ ses ses', t.state.sessions.lookup r = some ses ∧ ses.alive ∧
    t'.state.sessions.lookup r = some ses' ∧ ses'.alive = false

/-- A session that is expired by a later time was silent for longer than the timeout. -/
theorem Session.silent_of_expired (hexp : ses.expired c now)
    (hfits : c.heartbeatTimeoutMs * 1000000 < 2 ^ 64) (hnow : now < 2 ^ 64)
    (hlast : ses.lastHeartbeatNs ≤ now) :
    c.heartbeatTimeoutMs * 1000000 < now - ses.lastHeartbeatNs := by
  rw [Session.expired, Bool.and_eq_true, decide_eq_true_eq, subU64, Nat.mod_eq_of_lt hfits] at hexp
  omega

/-- Whatever the interleaving, a sweep that is not outrun ends the session of a rank only if more
    than the timeout has passed since the rank was last heard of. -/
theorem expires_silent {t t' : Timed} {resp : Response}
    (h : TimedReachable c (fun _ _ => True) t) (hok : t.Timely c (.act (.heartbeatSweep now)))
    (hstep : Timed.step c t (.act (.heartbeatSweep now)) = some (t', resp)) (hends : t.Ends t' r) :
    c.heartbeatTimeoutMs * 1000000 < t.clock - t.heard r := by
  obtain ⟨ses, ses', hses, halive, hses', hdead⟩ := hends
  obtain ⟨hread, hmap⟩ := Option.ite_none_right_eq_some.1 hstep
  cases hmap
  obtain ⟨ses₀, hses₀, hend⟩ := heartbeatSweep_lookup hses'
  cases hses.symm.trans hses₀
  rcases hend with rfl | ⟨hexp, -⟩
  · exact Bool.noConfusion (halive.symm.trans hdead)
  have hnow : now ≤ t.clock := h.sound.reading now hread
  have hsilent := Session.silent_of_expired hexp hok.1 (hnow.trans_lt h.sound.clock)
    (hok.2 r ses hses halive)
  rw [← h.sound.heard r ses hses]
  exact hsilent.trans_le (Nat.sub_le_sub_right hnow _)

instance {t : Timed} : DecidablePred (t.Timely c) := fun ta => by
  induction ta using TimedAction.casesOn with
  | act a => induction a using Action.casesOn <;> dsimp only [Timed.Timely] <;> infer_instance
  | _ =>
    dsimp only [Timed.Timely]
    infer_instance

/-- What a list of timed actions from startup at time 0 leads to is reachable, and so is a sweep
    from there. -/
theorem exists_sweep {p : Timed → Timed → Prop} [∀ t t', Decidable (p t t')]
    (as : List TimedAction) (now : ℕ)
    (h : (runActions (fun _ _ => True) (Timed.step c) { state := State.initial } as).any fun t =>
      ∃ t' resp, Timed.step c t (.act (.heartbeatSweep now)) = some (t', resp) ∧ p t t') :
    ∃ t t' resp, TimedReachable c (fun _ _ => True) t ∧
      Timed.step c t (.act (.heartbeatSweep now)) = some (t', resp) ∧ p t t' := by
  obtain ⟨t, ht, t', resp, hp⟩ : ∃ t, TimedReachable c (fun _ _ => True) t ∧ _ :=
    Reach.exists_of_any ⟨rfl, Nat.two_pow_pos 64, rfl⟩ as h
  exact ⟨t, t', resp, ht, hp⟩

/-- A rank is declared dead at the very moment it is heard of: its heartbeat is accepted at 2,
    after the monitor has read the time 1 and before it gets the mutex. -/
theorem heartbeat_outruns_monitor :
    ∃ t t' resp, TimedReachable oneSlot (fun _ _ => True) t ∧
      Timed.step oneSlot t (.act (.heartbeatSweep 1)) = some (t', resp) ∧ t.Ends t' 0 ∧
      t.clock - t.heard 0 = 0 :=
  exists_sweep [.act registers, .tick 1, .readClock, .tick 1, .act (.rpc 2 (.heartbeat ⟨0, 1⟩))] 1
    (by decide +kernel)

/-- A rank that is not heard of for six seconds is declared dead. -/
theorem expires_silent_rank :
    ∃ t t' resp, Timed.step oneSlot t (.act (.heartbeatSweep 6000000000)) = some (t', resp) ∧
      t.Ends t' 0 ∧ oneSlot.heartbeatTimeoutMs * 1000000 < t.clock - t.heard 0 := by
  obtain ⟨t, t', resp, ht, hstep, hends, hok⟩ := exists_sweep (c := oneSlot)
    (p := fun t t' => t.Ends t' 0 ∧ t.Timely oneSlot (.act (.heartbeatSweep 6000000000)))
    [.act registers, .tick 6000000000, .readClock] 6000000000 (by decide +kernel)
  exact ⟨t, t', resp, hstep, hends, expires_silent ht hok hstep hends⟩

end StateSpectre
