import StateSpectre.Rings

/-!
# A ring that is lent

A session that has a ring keeps it, whatever else happens: the other ranks come and go, and the
session itself may expire, but as long as neither its rank nor its process registers again nobody
else is given the ring (`lent_step`). This needs that no rank has the id that stands for none, as
a ring of that rank counts as free.
-/

namespace StateSpectre

variable {c : Config} {s s' : State} {now : ℕ} {req : RegisterRankRequest} {ses : Session}
  {r : Response}

/-! ## The session of the rank -/

/-- The session of a rank, as it was told when it registered. -/
structure AgentSession where
  rankId : ℕ
  rankEpoch : ℕ
  pid : ℕ
  ring : ℕ
  device : ℕ := 0
  numa : ℕ := 0

/-- The header of a ring names the session. -/
abbrev AgentSession.Names (A : AgentSession) (ring : Ring) : Prop :=
  ring.ownerRank = A.rankId ∧ ring.rankEpoch = A.rankEpoch

namespace Front

variable {f : Front} {A : AgentSession} {ring : Ring}

/-- Every live session with a ring is its owner. -/
def OwnersKnown (f : Front) : Prop :=
  ∀ r i, i ≠ noIndex → f.Owns r i → f.ringOwner i = r ∧ r ≠ noIndex

/-- The ring of the session is as given, and no other session has it. -/
structure Lent (f : Front) (A : AgentSession) (ring : Ring) : Prop where
  rings : f.rings A.ring = ring
  names : A.Names ring
  owner : f.ringOwner A.ring = A.rankId
  pid : ∀ ses, f.sessions.lookup A.rankId = some ses → ses.pid = A.pid
  alone : ∀ r, f.Owns r A.ring → r = A.rankId

/-! ### Owners are known -/

theorem OwnersKnown.invalidate (h : f.OwnersKnown) (r : ℕ) : (f.invalidate c r).OwnersKnown := by
  intro r' i hi hown
  obtain ⟨hne, hown⟩ := owns_invalidate.1 hown
  obtain ⟨rfl, hr'⟩ := h r' i hi hown
  have hnot : ¬f.Owns r i := fun hown => hne (h r i hi hown).1
  exact ⟨(invalidate_of_not_owns hnot).1, hr'⟩

theorem OwnersKnown.invalidateAll (h : f.OwnersKnown) (req : RegisterRankRequest) :
    (f.invalidateAll c req).OwnersKnown :=
  foldl_invariant (f := Front.invalidate c) (motive := OwnersKnown) (fun _ r hf => hf.invalidate r)
    _ h

theorem OwnersKnown.register (h : f.OwnersKnown)
    (hreq : req.rankId ≠ noIndex) : (f.register c now req).OwnersKnown := by
  intro r i hi hown
  rw [Front.register, owns_openSession] at hown
  rw [Front.register]
  cases hring : (f.invalidateAll c req).freeRing c with
  | none =>
    rw [hring] at hown
    split at hown
    · exact absurd hown.symm hi
    · exact h.invalidateAll req r i hi hown
  | some j =>
    rw [hring] at hown
    change Function.update (f.invalidateAll c req).ringOwner j req.rankId i = r ∧ _
    split at hown
    · next hr =>
      obtain rfl : j = i := hown
      exact ⟨(Function.update_self ..).trans hr.symm, hr ▸ hreq⟩
    · obtain ⟨howner, hr⟩ := h.invalidateAll req r i hi hown
      have hij : i ≠ j := by
        rintro rfl
        exact hr (howner.symm.trans (freeRing_eq_some hring).2)
      exact ⟨(Function.update_of_ne hij ..).trans howner, hr⟩

/-- What leaves the owners alone, and makes no session live, keeps them known. -/
theorem OwnersKnown.frame {f' : Front} (h : f.OwnersKnown) (howner : f'.ringOwner = f.ringOwner)
    (hown : ∀ r i, f'.Owns r i → f.Owns r i) : f'.OwnersKnown := fun r i hi h' =>
  howner ▸ h r i hi (hown r i h')

theorem owns_check {r r' i : ℕ} (h : (f.check c now r).Owns r' i) : f.Owns r' i := by
  obtain ⟨ses, hses, ha, hi⟩ := h
  exact ⟨ses, check_lookup hses ha, ha, hi⟩

theorem check_rings (now r : ℕ) :
    (f.check c now r).ringOwner = f.ringOwner ∧ (f.check c now r).rings = f.rings := by
  rw [Front.check]
  split
  · exact ⟨rfl, rfl⟩
  · split <;> exact ⟨rfl, rfl⟩

/-! ### A ring that is lent -/

/-- What leaves the ring and its owner alone, changes no process and gives the ring to no session
    keeps it lent. -/
theorem Lent.frame {f' : Front} (h : f.Lent A ring) (hrings : f'.rings A.ring = f.rings A.ring)
    (howner : f'.ringOwner A.ring = f.ringOwner A.ring)
    (hpid : ∀ ses, f'.sessions.lookup A.rankId = some ses →
      ∃ ses', f.sessions.lookup A.rankId = some ses' ∧ ses.pid = ses'.pid)
    (hown : ∀ r, f'.Owns r A.ring → r = A.rankId ∨ f.Owns r A.ring) : f'.Lent A ring where
  rings := hrings.trans h.rings
  names := h.names
  owner := howner.trans h.owner
  pid ses hses := by
    obtain ⟨ses', hses', heq⟩ := hpid ses hses
    exact heq.trans (h.pid ses' hses')
  alone r hr := (hown r hr).elim id (h.alone r)

/-- The ring may change, as long as it names the session. -/
theorem Lent.setRing {ring' : Ring} (h : f.Lent A ring) (hnames : A.Names ring') :
    { f with rings := Function.update f.rings A.ring ring' }.Lent A ring' where
  rings := Function.update_self ..
  names := hnames
  owner := h.owner
  pid := h.pid
  alone := h.alone

/-- Changing a session, but not its process. -/
theorem modify_pid {t : Table ℕ Session} {r r' : ℕ} {g : Session → Session}
    (hg : ∀ ses, (g ses).pid = ses.pid) (h : (t.modify r g).lookup r' = some ses) :
    ∃ ses', t.lookup r' = some ses' ∧ ses.pid = ses'.pid := by
  obtain ⟨rfl, ses', hses', rfl⟩ | ⟨-, h⟩ := Table.lookup_modify_eq_some.1 h
  · exact ⟨ses', hses', hg ses'⟩
  · exact ⟨ses, h, rfl⟩

theorem heartbeat_pid {req : HeartbeatRequest} {r : ℕ}
    (h : (f.heartbeat now req).sessions.lookup r = some ses) :
    ∃ ses', f.sessions.lookup r = some ses' ∧ ses.pid = ses'.pid := by
  rw [Front.heartbeat] at h
  split at h
  · split at h
    · exact modify_pid (g := fun ses => { ses with lastHeartbeatNs := now }) (fun _ => rfl) h
    · exact ⟨ses, h, rfl⟩
  · exact ⟨ses, h, rfl⟩

theorem check_pid {r r' : ℕ} (h : (f.check c now r).sessions.lookup r' = some ses) :
    ∃ ses', f.sessions.lookup r' = some ses' ∧ ses.pid = ses'.pid := by
  rw [Front.check] at h
  split at h
  · exact ⟨ses, h, rfl⟩
  · split at h
    · exact modify_pid (g := fun ses => { ses with alive := false }) (fun _ => rfl) h
    · exact ⟨ses, h, rfl⟩

theorem Lent.invalidate {r : ℕ} (h : f.Lent A ring) (hr : r ≠ A.rankId) :
    (f.invalidate c r).Lent A ring := by
  obtain ⟨howner, hrings⟩ :=
    invalidate_of_not_owns (c := c) fun hown : f.Owns r A.ring => hr (h.alone r hown)
  refine h.frame hrings howner (fun ses hses => ?_) fun r' hr' => .inr (owns_invalidate.1 hr').2
  rw [Front.invalidate] at hses
  split at hses
  · exact ⟨ses, hses, rfl⟩
  · split at hses
    · rw [closeRing] at hses
      split at hses <;>
        exact modify_pid (g := fun ses => { ses with alive := false }) (fun _ => rfl) hses
    · exact ⟨ses, hses, rfl⟩

theorem Lent.invalidateAll (h : f.Lent A ring)
    (hreq : req.rankId ≠ A.rankId) (hpid : req.pid ≠ A.pid) :
    (f.invalidateAll c req).Lent A ring := by
  refine List.foldlRecOn (motive := fun f : Front => f.Lent A ring) _ _ h
    fun f' hf' r hr => hf'.invalidate ?_
  rintro rfl
  obtain heq | hr := List.mem_cons.1 hr
  · exact hreq heq.symm
  · obtain ⟨⟨r, ses⟩, hrow, rfl⟩ := List.mem_map.1 hr
    obtain ⟨hrow, hses⟩ := List.mem_filter.1 hrow
    have hses : _ ∧ _ ∧ ses.pid = req.pid := of_decide_eq_true hses
    exact hpid (hses.2.2.symm.trans (h.pid ses (Table.mem_rows.1 hrow)))

/-- Another rank registers. -/
theorem Lent.register (h : f.Lent A ring) (hA : A.rankId ≠ noIndex)
    (hring : A.ring ≠ noIndex) (hreq : req.rankId ≠ A.rankId) (hpid : req.pid ≠ A.pid) :
    (f.register c now req).Lent A ring := by
  have h := h.invalidateAll (c := c) hreq hpid
  -- the ring that the other rank is given has no owner
  have hfree : ∀ j, (f.invalidateAll c req).freeRing c = some j → A.ring ≠ j := by
    rintro j hj rfl
    exact hA (h.owner.symm.trans (freeRing_eq_some hj).2)
  rw [Front.register]
  refine h.frame ?_ ?_ (fun ses hses => ?_) fun r hr => ?_
  · cases hj : (f.invalidateAll c req).freeRing c with
    | none => rfl
    | some j => exact Function.update_of_ne (hfree j hj) ..
  · cases hj : (f.invalidateAll c req).freeRing c with
    | none => rfl
    | some j => exact Function.update_of_ne (hfree j hj) ..
  · exact ⟨ses, ((Table.lookup_insert ..).trans (if_neg (Ne.symm hreq))).symm.trans hses, rfl⟩
  · rw [owns_openSession] at hr
    split at hr
    · cases hj : (f.invalidateAll c req).freeRing c with
      | none =>
        rw [hj] at hr
        exact absurd hr.symm hring
      | some j =>
        rw [hj] at hr
        exact absurd hr.symm (hfree j hj)
    · exact .inr hr

/-- The rank registers, and is given the ring. -/
theorem OwnersKnown.lent (h : f.OwnersKnown) (hring : A.ring ≠ noIndex)
    (hfree : (f.invalidateAll c ⟨A.rankId, A.pid⟩).freeRing c = some A.ring)
    (hepoch : (f.invalidateAll c ⟨A.rankId, A.pid⟩).nextRankEpoch = A.rankEpoch) :
    (f.register c now ⟨A.rankId, A.pid⟩).Lent A
      { ownerRank := A.rankId, rankEpoch := A.rankEpoch } := by
  rw [Front.register, hfree]
  refine ⟨?_, ⟨rfl, rfl⟩, Function.update_self .., fun ses hses => ?_, fun r hr => ?_⟩
  · rw [← hepoch]
    exact Function.update_self ..
  · have hlookup := (Table.lookup_insert ..).trans (if_pos rfl) |>.symm.trans hses
    exact congrArg Session.pid (Option.some.inj hlookup).symm
  · rw [owns_openSession] at hr
    split at hr
    · assumption
    · -- a session that had the ring would be its owner
      obtain ⟨howner, hr⟩ := h.invalidateAll _ r _ hring hr
      exact absurd (howner.symm.trans (freeRing_eq_some hfree).2) hr

end Front

/-! ## The daemon while the ring is lent -/

/-- No rank registers under the id that stands for none. -/
def named (_ : State) : Action → Prop
  | .rpc _ (.register req) => req.rankId ≠ noIndex
  | _ => True

instance {a : Action} : Decidable (named s a) := by
  induction a using Action.casesOn with
  | rpc now req => induction req using Request.casesOn <;> dsimp only [named] <;> infer_instance
  | _ =>
    dsimp only [named]
    infer_instance

theorem rehash_lookup {leases : Table ℕ Lease} {sessions : Table ℕ Session}
    {objects : Table ℕ CanonicalObject} {jobs : Table JobUID JobRecord}
    {manifests : Table VersionKey Manifest} {x : State × Response}
    (h : step c s (.rehash leases sessions objects jobs manifests) = some x) (r : ℕ) :
    sessions.lookup r = s.sessions.lookup r := by
  simp only [step] at h
  split at h
  · next hsame => exact hsame.2.1.lookup_eq r
  · cases h

theorem ownersKnown_step {a : Action} (h : s.front.OwnersKnown) (ha : named s a)
    (hstep : step c s a = some (s', r)) : s'.front.OwnersKnown := by
  rw [step_front hstep]
  cases a with
  | rpc now req =>
    cases req with
    | register req => exact h.register ha
    | heartbeat req =>
      exact h.frame (Front.heartbeat_rings now req).1 fun _ _ => Front.owns_heartbeat.1
    | _ => exact h
  | heartbeatSweep now =>
    refine foldl_invariant (motive := Front.OwnersKnown) (fun f r hf => ?_) _ h
    exact hf.frame (Front.check_rings now r).1 fun _ _ => Front.owns_check
  | rehash _ sessions =>
    refine h.frame rfl fun r i => ?_
    rintro ⟨ses, hses, hrest⟩
    exact ⟨ses, (rehash_lookup hstep r).symm.trans hses, hrest⟩
  | _ => exact h

variable {A : AgentSession} {ring : Ring}

/-- The other ranks, and the daemon, leave the ring of a session alone: it is not registered again,
    and rings that name it are neither pushed into nor polled. -/
def leavesRing (A : AgentSession) (s : State) : Action → Prop
  | .rpc _ (.register req) => req.rankId ≠ A.rankId ∧ req.pid ≠ A.pid
  | .pushRing i _ | .pollRing _ i => ¬A.Names (s.rings i)
  | _ => True

instance {a : Action} : Decidable (leavesRing A s a) := by
  induction a using Action.casesOn with
  | rpc now req =>
    induction req using Request.casesOn <;> dsimp only [leavesRing] <;> infer_instance
  | _ =>
    dsimp only [leavesRing]
    infer_instance

/-- Then the ring stays lent, as it is. -/
theorem lent_step {a : Action} (h : s.front.Lent A ring) (hA : A.rankId ≠ noIndex)
    (hring : A.ring ≠ noIndex) (ha : leavesRing A s a) (hstep : step c s a = some (s', r)) :
    s'.front.Lent A ring := by
  have hother : ∀ i, ¬A.Names (s.rings i) → A.ring ≠ i := by
    rintro i hi rfl
    exact hi ((show s.rings A.ring = ring from h.rings) ▸ h.names)
  rw [step_front hstep]
  cases a with
  | rpc now req =>
    cases req with
    | register req => exact h.register hA hring ha.1 ha.2
    | heartbeat req =>
      obtain ⟨howner, hrings⟩ := Front.heartbeat_rings (f := s.front) now req
      exact h.frame (congrFun hrings _) (congrFun howner _) (fun _ => Front.heartbeat_pid)
        fun r hr => .inr (Front.owns_heartbeat.1 hr)
    | _ => exact h
  | heartbeatSweep now =>
    refine foldl_invariant (motive := fun f : Front => f.Lent A ring) (fun f r hf => ?_) _ h
    obtain ⟨howner, hrings⟩ := Front.check_rings (c := c) (f := f) now r
    exact hf.frame (congrFun hrings _) (congrFun howner _) (fun _ => Front.check_pid)
      fun r hr => .inr (Front.owns_check hr)
  | rehash _ sessions =>
    refine h.frame rfl rfl (fun ses hses => ?_) fun r hr => ?_
    · exact ⟨ses, (rehash_lookup hstep _).symm.trans hses, rfl⟩
    · obtain ⟨ses, hses, hrest⟩ := hr
      exact .inr ⟨ses, (rehash_lookup hstep r).symm.trans hses, hrest⟩
  | pushRing i | pollRing _ i =>
    exact h.frame (Function.update_of_ne (hother i ha) ..) rfl (fun ses hses => ⟨ses, hses, rfl⟩)
      fun _ => .inr
  | _ => exact h

end StateSpectre
