import StateSpectre.Ownership

/-!
# Fencing

A request names the session it comes from by its rank and epoch. Epochs are drawn from one
counter for all ranks, so the epoch of a session that has ended is never that of a later one
(`Fenced.reach`): what comes in the name of an ended session is late, and stays so. Such a
request changes nothing (`handle_of_invalid`), and neither does a request about a lease that is
rejected for another reason (`handle_of_refused`), or a rejected item of a batch
(`applyBatchCompletion_of_rejected`).
-/

namespace StateSpectre

variable {c : Config} {g : Guards} {k : Rules} {x y : Scene} {s s' s'' : State} {now : ℕ}
  {ok : State → Action → Prop} {req : Request} {rankId rankEpoch : ℕ}

/-! ## Epochs -/

/-- A session that is valid after a move was so before, or has just drawn its epoch. -/
structure EpochChange (x y : Scene) : Prop where
  next : x.1.nextRankEpoch ≤ y.1.nextRankEpoch := by exact le_rfl
  valid : ∀ r e, y.1.epochValid r e →
    x.1.epochValid r e ∨ (x.1.nextRankEpoch ≤ e ∧ e < y.1.nextRankEpoch) := by
      exact fun _ _ h => .inl h

theorem Move.epochChange (hm : Move c g k x y) : EpochChange x y := by
  cases hm with
  | heartbeat =>
    refine { valid := fun r e hv => .inl ?_ }
    obtain ⟨ses, hses, ha, he⟩ := State.epochValid_iff.1 hv
    obtain ⟨rfl, ses', hses', rfl⟩ | ⟨-, hses⟩ := Table.lookup_modify_eq_some.1 hses
    · exact State.epochValid_iff.2 ⟨ses', hses', ha, he⟩
    · exact State.epochValid_iff.2 ⟨ses, hses, ha, he⟩
  | endSession =>
    refine { valid := fun r e hv => .inl ?_ }
    obtain ⟨ses, hses, ha, he⟩ := State.epochValid_iff.1 hv
    obtain ⟨rfl, ses', hses', rfl⟩ | ⟨-, hses⟩ := Table.lookup_modify_eq_some.1 hses
    · cases ha
    · exact State.epochValid_iff.2 ⟨ses, hses, ha, he⟩
  | openSession =>
    refine { next := Nat.le_succ _, valid := fun r e hv => ?_ }
    obtain ⟨ses, hses, ha, he⟩ := State.epochValid_iff.1 hv
    obtain ⟨rfl, rfl⟩ | ⟨-, hses⟩ := Table.lookup_insert_eq_some.1 hses
    · exact .inr ⟨he.le, he ▸ Nat.lt_succ_self _⟩
    · exact .inl (State.epochValid_iff.2 ⟨ses, hses, ha, he⟩)
  | rehash _ hs =>
    refine { valid := fun r e hv => .inl ?_ }
    obtain ⟨ses, hses, ha, he⟩ := State.epochValid_iff.1 hv
    exact State.epochValid_iff.2 ⟨ses, (hs.lookup_eq r).symm.trans hses, ha, he⟩
  | _ => exact {}

/-- The epochs of the sessions have been drawn. -/
def Drawn (s : State) : Prop := ∀ r e, s.epochValid r e → e < s.nextRankEpoch

/-- A session that has ended: its epoch has been drawn, and is not valid. -/
structure Fenced (rankId rankEpoch : ℕ) (s : State) : Prop where
  drawn : rankEpoch < s.nextRankEpoch
  invalid : ¬s.epochValid rankId rankEpoch

theorem Drawn.change (h : Drawn x.1) (hc : EpochChange x y) : Drawn y.1 := fun r e hv =>
  (hc.valid r e hv).elim (fun hv => (h r e hv).trans_le hc.next) fun he => he.2

theorem Fenced.change (h : Fenced rankId rankEpoch x.1) (hc : EpochChange x y) :
    Fenced rankId rankEpoch y.1 where
  drawn := h.drawn.trans_le hc.next
  invalid hv := (hc.valid _ _ hv).elim h.invalid fun he => h.drawn.not_ge he.1

/-- What the moves of a step keep by the epochs is kept by every run. -/
theorem epoch_invariant {init : State → Prop} {motive : State → Prop} (h₀ : ∀ s, init s → motive s)
    (hchange : ∀ x y : Scene, motive x.1 → EpochChange x y → motive y.1)
    (h : Reach init ok (step c) s) : motive s := by
  refine h.invariant h₀ fun s a s' r hs _ hstep => ?_
  exact (step_moves Guards.unguarded_ok (Rules.free_ok c s a) hstep).invariant
    (motive := fun x => motive x.1) (fun x y hx hxy => hchange x y hx hxy.epochChange) hs

theorem Reachable.drawn (h : Reachable c ok s) : Drawn s :=
  epoch_invariant (by rintro _ rfl _ _ hv; cases hv) (fun _ _ => Drawn.change) h

/-- A session that has ended is never valid again. -/
theorem Fenced.reach (h : Fenced rankId rankEpoch s)
    (hs : Reach (· = s) ok (step c) s') : Fenced rankId rankEpoch s' :=
  epoch_invariant (by rintro _ rfl; exact h) (fun _ _ => Fenced.change) hs

/-! ## Late requests -/

/-- The rank and the epoch that a request carries. -/
def Request.identity : Request → Option (ℕ × ℕ)
  | .heartbeat req => some (req.rankId, req.rankEpoch)
  | .offload req => some (req.rankId, req.rankEpoch)
  | .d2hSubmitted req | .h2dSubmitted req => some (req.rankId, req.rankEpoch)
  | .d2hComplete req => some (req.rankId, req.rankEpoch)
  | .prefetch req => some (req.rankId, req.rankEpoch)
  | .h2dComplete req => some (req.rankId, req.rankEpoch)
  | .releaseLease req => some (req.rankId, req.rankEpoch)
  | .batchComplete req => some (req.rankId, req.rankEpoch)
  | .evict req => some (req.rankId, req.rankEpoch)
  | .commit req => some (req.rankId, req.rankEpoch)
  | .restore req => some (req.rankId, req.rankEpoch)
  | .releaseRestore req => some (req.rankId, req.rankEpoch)
  | .releaseCanonical req => some (req.rankId, req.rankEpoch)
  | .register _ | .queryLocation _ | .registerJob _ | .seal _ | .latestSealed _ | .getManifest _
  | .pull _ | .drop _ => none

theorem d2hLease_of_invalid (h : ¬s.epochValid rankId rankEpoch) {id tensorId version slotId : ℕ} :
    d2hLease s rankId rankEpoch id tensorId version slotId = none := by
  simp [d2hLease, h]

theorem h2dLease_of_invalid (h : ¬s.epochValid rankId rankEpoch) {id slotId : ℕ} :
    h2dLease s rankId rankEpoch id slotId = none := by
  simp [h2dLease, h]

/-- A late completion is rejected. -/
theorem applyBatchCompletion_of_invalid (h : ¬s.epochValid rankId rankEpoch) (b : BatchCompletion) :
    applyBatchCompletion c s now rankId rankEpoch b = (s, false) := by
  simp only [applyBatchCompletion, applyD2HComplete, applyH2DComplete, d2hLease_of_invalid h,
    h2dLease_of_invalid h]
  split <;> rfl

/-- So is a late batch, as a whole. -/
theorem applyBatch_of_invalid (h : ¬s.epochValid rankId rankEpoch) (bs : List BatchCompletion) :
    (applyBatch c s now rankId rankEpoch bs).1 = s := by
  refine foldl_invariant (motive := fun r : State × ℕ × ℕ => r.1 = s) ?_ bs rfl
  rintro ⟨_, n, m⟩ b rfl
  simp [applyBatchCompletion_of_invalid h]

/-- A late request changes nothing. -/
theorem handle_of_invalid (hid : req.identity = some (rankId, rankEpoch))
    (h : ¬s.epochValid rankId rankEpoch) : (handle c s now req).1 = s := by
  cases req with
  | register | queryLocation | registerJob | «seal» | latestSealed | getManifest | pull | drop =>
    cases hid
  | batchComplete =>
    cases hid
    exact applyBatch_of_invalid h _
  | d2hComplete =>
    cases hid
    simp [handle, handleMarkD2HComplete, d2hLease_of_invalid h]
  | h2dComplete =>
    cases hid
    simp [handle, handleMarkH2DComplete, applyH2DComplete, h2dLease_of_invalid h]
  | heartbeat | offload | d2hSubmitted | h2dSubmitted | prefetch | releaseLease | releaseRestore =>
    cases hid
    simp [handle, handleHeartbeat, handleRequestOffload, handleMarkD2HSubmitted,
      handleMarkH2DSubmitted, markSubmitted, handleRequestPrefetch, handleReleaseLease,
      handleReleaseCanonicalRestore, h]
  | evict | commit | restore | releaseCanonical =>
    cases hid
    simp only [handle, handleRequestCanonicalEvict, handleCommitCanonicalObject,
      handleRequestCanonicalRestore, handleReleaseCanonical, h]
    split <;> rfl

/-! ## Rejected requests -/

/-- The requests about a lease. -/
def Request.aboutLease : Request → Bool
  | .d2hSubmitted _ | .d2hComplete _ | .h2dSubmitted _ | .h2dComplete _ | .releaseLease _ => true
  | _ => false

/-- The answer that a request about a lease is rejected. -/
def Response.refused : Response → Bool
  | .ack r => !r.ok
  | .d2hComplete r => !r.ok
  | _ => false

/-- A rejected request about a lease changes nothing. -/
theorem handle_of_refused (hreq : req.aboutLease) (h : (handle c s now req).2.refused) :
    (handle c s now req).1 = s := by
  cases req with
  | d2hSubmitted | h2dSubmitted =>
    simp only [handle, handleMarkD2HSubmitted, handleMarkH2DSubmitted, markSubmitted] at h ⊢
    repeat' split
    all_goals first | rfl | simp_all [Response.refused, ack]
  | d2hComplete =>
    simp only [handle, handleMarkD2HComplete] at h ⊢
    split
    · rfl
    · simp_all [Response.refused]
  | h2dComplete =>
    simp only [handle, handleMarkH2DComplete, applyH2DComplete] at h ⊢
    split
    · rfl
    · simp_all [Response.refused, ack]
  | releaseLease =>
    simp only [handle, handleReleaseLease] at h ⊢
    repeat' split
    all_goals first | rfl | simp_all [Response.refused, ack]
  | _ => cases hreq

/-- A rejected item of a batch changes nothing. -/
theorem applyBatchCompletion_of_rejected {b : BatchCompletion}
    (h : (applyBatchCompletion c s now rankId rankEpoch b).2 = false) :
    (applyBatchCompletion c s now rankId rankEpoch b).1 = s := by
  simp only [applyBatchCompletion, applyD2HComplete, applyH2DComplete] at h ⊢
  repeat' split
  all_goals first | rfl | simp_all

/-! ## Runs -/

/-- A session that has ended is fenced off for good: it never becomes valid again, and no
    request in its name changes anything. Neither does a request about a lease, or an item of a
    batch, that is rejected. -/
theorem sessions_fenced (c : Config) :
    (∀ s s' s'' rankId rankEpoch, Reached c s → s.epochValid rankId rankEpoch →
      Reach (· = s) (fun _ _ => True) (step c) s' → ¬s'.epochValid rankId rankEpoch →
      Reach (· = s') (fun _ _ => True) (step c) s'' → ¬s''.epochValid rankId rankEpoch) ∧
    (∀ s now req rankId rankEpoch, req.identity = some (rankId, rankEpoch) →
      ¬s.epochValid rankId rankEpoch → (handle c s now req).1 = s) ∧
    (∀ s now (req : Request), req.aboutLease → (handle c s now req).2.refused →
      (handle c s now req).1 = s) ∧
    ∀ s now rankId rankEpoch b, (applyBatchCompletion c s now rankId rankEpoch b).2 = false →
      (applyBatchCompletion c s now rankId rankEpoch b).1 = s := by
  refine ⟨?_, fun _ _ _ _ _ => handle_of_invalid, fun _ _ _ => handle_of_refused,
    fun _ _ _ _ _ => applyBatchCompletion_of_rejected⟩
  intro s s' s'' r e hs hv hs' hinvalid hs''
  have hnext : s.nextRankEpoch ≤ s'.nextRankEpoch :=
    epoch_invariant (motive := fun s' => s.nextRankEpoch ≤ s'.nextRankEpoch)
      (by rintro _ rfl; exact le_rfl) (fun _ _ h hc => h.trans hc.next) hs'
  have hfenced : Fenced r e s' := ⟨(Reachable.drawn hs r e hv).trans_le hnext, hinvalid⟩
  exact (hfenced.reach hs'').invalid

/-- The rank 0 registers again: its first session is over for good, its heartbeats change
    nothing, and neither does the completion of a copy that its second session never made, alone
    or in a batch. -/
theorem sessions_fenced_again :
    ∃ s s', Reached oneSlot s ∧
      Reach (· = s) (fun _ _ => True) (step oneSlot) s' ∧
      (s.epochValid 0 1 ∧ ¬s'.epochValid 0 1 ∧
        (handle oneSlot s' 2 (.d2hComplete ⟨0, 2, 1, 1, 1, 0, 0⟩)).2.refused ∧
        (applyBatchCompletion oneSlot s' 2 0 2 ⟨.d2hComplete, 1, 1, 1, 0, 0, false⟩).2 = false) ∧
      (∀ s'', Reach (· = s') (fun _ _ => True) (step oneSlot) s'' → ¬s''.epochValid 0 1) ∧
      (handle oneSlot s' 2 (.heartbeat ⟨0, 1⟩)).1 = s' ∧
      (handle oneSlot s' 2 (.d2hComplete ⟨0, 2, 1, 1, 1, 0, 0⟩)).1 = s' ∧
      (applyBatchCompletion oneSlot s' 2 0 2 ⟨.d2hComplete, 1, 1, 1, 0, 0, false⟩).1 = s' := by
  refine exists_reach_and oneSlot _ _ [registers] [registers] (by decide +kernel) ?_
  rintro s s' hs hs' ⟨hv, hinvalid, hrefused, hrejected⟩
  obtain ⟨hforever, hlate, hrefuse, hreject⟩ := sessions_fenced oneSlot
  exact ⟨fun s'' => hforever s s' s'' 0 1 hs hv hs' hinvalid, hlate s' 2 _ 0 1 rfl hinvalid,
    hrefuse s' 2 _ rfl hrefused, hreject s' 2 0 2 _ hrejected⟩

end StateSpectre
