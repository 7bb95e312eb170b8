import StateSpectre.Lib.System
import StateSpectre.Protocol

/-!
# The copies of a rank

A rank copies between its GPU and the runs it was lent. A call that waits for its copy reports it to
the daemon and finalises it, which runs the callback of an evict. The other copies are in flight
until the progress thread finds their events complete. It reports those it finds one by one through
the ring of its session, and in one request what does not fit there, or all of them if there is no
ring. At shutdown the agent waits for what is still in flight.

Whatever the events, the ring and the daemon say, every copy is in one place: none is reported or
finalised twice, none is finalised before it is reported, and none is lost but for those whose
event has an error, which the daemon never hears of (`copies_accounted`).
-/

namespace StateSpectre

/-- What `cudaEventQuery` says about a copy. -/
inductive EventStatus
  | success
  | notReady
  | error
  deriving DecidableEq

/-- The copies of a rank, as they are reported. The progress thread has `taken` some of those in
    flight, had no room in the ring for the `overflow`, and has yet to finalise what it has
    `reported`. Of the copies that calls wait for, some are `told` to the daemon. What has become of
    the copies so far is logged for the sake of the proofs. -/
structure AgentCopies where
  (inflight taken overflow reported awaited told : List BatchCompletion := [])
  (launchLog reportLog finalLog errorLog : List BatchCompletion := [])

inductive CopyAction
  /-- A copy is started, and awaited or left to the progress thread. -/
  | launch (r : BatchCompletion) (wait : Bool)
  /-- An awaited copy is complete and the daemon is told, or its event has an error. -/
  | complete (k : ℕ) (ok : Bool)
  /-- At shutdown, a copy in flight is awaited and the daemon told. -/
  | drain (k : ℕ)
  | finalizeTold (k : ℕ)
  | poll (query : BatchCompletion → EventStatus)
  | ringPush (fits : Bool)
  | sendRest
  | finalizeReported

/-- The progress thread is done with what it took. -/
abbrev AgentCopies.Idle (w : AgentCopies) : Prop :=
  w.taken = [] ∧ w.overflow = [] ∧ w.reported = []

/-- A step of the agent, which has a ring or not. -/
def AgentCopies.step (ring : Bool) (w : AgentCopies) : CopyAction → Option (AgentCopies × Unit)
  | .launch r wait =>
    let w := { w with launchLog := r :: w.launchLog }
    if wait then some ({ w with awaited := r :: w.awaited }, ())
    else some ({ w with inflight := w.inflight ++ [r] }, ())
  | .complete k ok =>
    (w.awaited[k]?).map fun r =>
      let w := { w with awaited := w.awaited.eraseIdx k }
      if ok then ({ w with told := r :: w.told, reportLog := r :: w.reportLog }, ())
      -- The call throws, and leaves the daemon in the belief that the copy is under way.
      else ({ w with errorLog := r :: w.errorLog }, ())
  | .drain k =>
    -- The progress thread has been joined. What the event says is not looked at.
    if w.Idle then
      (w.inflight[k]?).map fun r =>
        ({ w with
          inflight := w.inflight.eraseIdx k
          told := r :: w.told
          reportLog := r :: w.reportLog }, ())
    else none
  | .finalizeTold k =>
    (w.told[k]?).map fun r =>
      ({ w with told := w.told.eraseIdx k, finalLog := r :: w.finalLog }, ())
  | .poll query =>
    if w.Idle then
      let done := w.inflight.filter (query · = .success)
      some ({ w with
        inflight := w.inflight.filter (query · = .notReady)
        taken := done.filter (·.eventType = .d2hComplete) ++
          done.filter (¬·.eventType = .d2hComplete)
        errorLog := w.inflight.filter (query · = .error) ++ w.errorLog }, ())
    else none
  | .ringPush fits =>
    if ring ∧ w.reported = [] then
      match w.taken with
      | r :: rest =>
        let w := { w with taken := rest }
        if fits then some ({ w with reported := [r], reportLog := r :: w.reportLog }, ())
        else some ({ w with overflow := w.overflow ++ [r] }, ())
      | [] => none
    else none
  | .sendRest =>
    let rest := w.overflow ++ w.taken
    -- With a ring, everything is pushed first. A request that throws is not sent again.
    if w.reported = [] ∧ rest ≠ [] ∧ (ring → w.taken = []) then
      some ({ w with
        taken := [], overflow := [], reported := rest, reportLog := rest ++ w.reportLog }, ())
    else none
  | .finalizeReported =>
    match w.reported with
    | r :: rest => some ({ w with reported := rest, finalLog := r :: w.finalLog }, ())
    | [] => none

variable {ring : Bool} {w w' : AgentCopies}

/-- Every copy is in one place, and those that are reported have been finalised or are about to
    be. -/
structure AgentCopies.Accounted (w : AgentCopies) : Prop where
  launched : ∀ r, w.launchLog.count r = w.inflight.count r + w.taken.count r + w.overflow.count r +
    w.reported.count r + w.awaited.count r + w.told.count r + w.finalLog.count r +
    w.errorLog.count r
  reported : ∀ r, w.reportLog.count r = w.reported.count r + w.told.count r + w.finalLog.count r

/-- A poll splits what is in flight. -/
theorem count_polled (query : BatchCompletion → EventStatus) (l : List BatchCompletion)
    (r : BatchCompletion) : l.count r = (l.filter (query · = .notReady)).count r +
      (l.filter (query · = .success)).count r + (l.filter (query · = .error)).count r := by
  induction l with
  | nil => rfl
  | cons x l ih => cases hx : query x <;> simp [hx, List.count_cons, ih] <;> omega

theorem count_eraseIdx {l : List BatchCompletion} {k : ℕ} {x : BatchCompletion}
    (h : l[k]? = some x) (r : BatchCompletion) :
    l.count r = (l.eraseIdx k).count r + if x == r then 1 else 0 := by
  obtain ⟨hk, rfl⟩ := List.getElem?_eq_some_iff.1 h
  rw [← (List.getElem_cons_eraseIdx_perm hk).count_eq, List.count_cons]

theorem AgentCopies.Accounted.step {a : CopyAction} {u : Unit} (h : w.Accounted)
    (hstep : w.step ring a = some (w', u)) : w'.Accounted := by
  obtain ⟨hlaunched, hreported⟩ := h
  cases a with
  | launch r wait => cases wait <;> cases hstep <;> constructor <;> grind
  | complete k ok =>
    obtain ⟨r, hr, heq⟩ := Option.map_eq_some_iff.1 hstep
    have hk := count_eraseIdx hr
    cases ok <;> cases heq <;> constructor <;> grind
  | finalizeTold k =>
    obtain ⟨r, hr, heq⟩ := Option.map_eq_some_iff.1 hstep
    have hk := count_eraseIdx hr
    cases heq
    constructor <;> grind
  | drain k =>
    simp only [AgentCopies.step] at hstep
    split at hstep
    · obtain ⟨r, hr, heq⟩ := Option.map_eq_some_iff.1 hstep
      have hk := count_eraseIdx hr
      cases heq
      constructor <;> grind
    · cases hstep
  | poll query =>
    have hpolled := count_polled query w.inflight
    -- The D2H copies go first.
    have hkinds := (List.filter_append_perm (fun r => decide (r.eventType = .d2hComplete))
      (w.inflight.filter (query · = .success))).count_eq
    simp only [AgentCopies.step] at hstep
    constructor <;> grind
  | ringPush | sendRest | finalizeReported =>
    simp only [AgentCopies.step] at hstep
    constructor <;> grind

/-- In every state that the calls and the progress thread reach, in whatever order they go: a copy
    that was launched is in one place, and reported at most once. -/
theorem copies_accounted (h : Reach (· = {}) (fun _ _ => True) (AgentCopies.step ring) w) :
    w.Accounted := by
  refine Reach.invariant ?_ (fun _ _ _ _ hw _ hstep => hw.step hstep) h
  rintro _ rfl
  exact ⟨fun _ => rfl, fun _ => rfl⟩

/-- Of two copies that are complete at once, one fits into the ring and the other is sent. -/
theorem copies_accounted_overflow :
    ∃ w, Reach (· = {}) (fun _ _ => True) (AgentCopies.step true) w ∧ w.finalLog.length = 2 ∧
      w.Accounted := by
  obtain ⟨w, hw, hfinal⟩ : ∃ w, Reach (· = ({} : AgentCopies)) (fun _ _ => True)
      (AgentCopies.step true) w ∧ w.finalLog.length = 2 :=
    Reach.exists_of_any rfl [.launch ⟨.h2dComplete, 1, 1, 1, 0, 0, false⟩ false,
      .launch ⟨.d2hComplete, 2, 2, 1, 1, 1, false⟩ false, .poll fun _ => .success, .ringPush true,
      .finalizeReported, .ringPush false, .sendRest, .finalizeReported] (by decide)
  exact ⟨w, hw, hfinal, copies_accounted hw⟩

end StateSpectre
