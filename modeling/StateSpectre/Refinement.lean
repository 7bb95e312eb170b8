import StateSpectre.Refinement.Steps

/-!
# The daemon refines its store

Every move of the daemon is a sequence of transitions of the store (`Move.store`), and so
is every step that meets the guards (`step_refines`). A property that the empty store has
and that every transition keeps is had by the store in every state the daemon reaches
under those guards (`Reachable.store_invariant`).
-/

namespace StateSpectre

variable {c : Config} {g : Guards} {k : Rules} {s : State} {now : ℕ} {st : Store} {x y : Scene}
  {i : ℕ}

/-- The transitions of the store between two searches. -/
abbrev Evolves (c : Config) (g : Guards) (st st' : Store) : Prop :=
  StoreSteps c g (st, none) (st', none)

/-! ## Moves -/

/-- The leases of a session are dropped. -/
theorem dropLeases_steps {ids : List ℕ} (hg : ∀ id ∈ ids, g.dropLease id) :
    Evolves c g st (st.dropLeases ids) := by
  induction ids generalizing st with
  | nil => exact .refl
  | cons id ids ih =>
    rw [List.forall_mem_cons] at hg
    exact .head (.dropLease hg.1) (ih hg.2)

/-- A task of an export is followed by the next one. -/
theorem nextPull_steps {t t' : Task} {l : PullLocals} (hi : st.tasks[i]? = some t)
    (ht : t.pull = some l) (ht' : t'.pull = some l) :
    Evolves c g st ((st.dropTask i).addTask t') := by
  have h : Evolves c g st (st.addTask t') :=
    .single (.addPull ht' (.inr ⟨t, List.mem_of_getElem? hi, ht⟩))
  exact h.tail (StoreStep.dropTask (i := i + 1))

/-- A lease whose run may be drained is on a valid one. -/
theorem State.slotState_of_drainable {L : Lease} (h : s.drainable L) :
    s.store.slotState L.baseSlot = .pinnedValid := by
  simp only [State.drainable, Bool.and_eq_true, beq_iff_eq] at h
  exact h.1.2

/-- A run that a copy into was accepted for is valid. -/
theorem Store.slotState_publishD2H {now id seq : ℕ} {L : Lease} (h : 0 < L.slotCount) :
    (st.publishD2H c now id L seq).slotState L.baseSlot = .pinnedValid :=
  congrArg SlotEntry.state (onRun_of_mem ⟨le_rfl, Nat.lt_add_of_pos_right h⟩)

/-- What a move does to the store, and to the search under way. -/
theorem Move.store (h : Move c g k x y) : StoreSteps c g (x.1.store, x.2.1) (y.1.store, y.2.1) := by
  cases h with
  | seek _ hs => exact .single (.seek hs)
  | seekPrefetch hloc => exact .single (.seekPrefetch hloc)
  | seekCreate | seekCandidate => exact .single (.seek trivial)
  | giveUp => exact .single .giveUp
  | lend hfree hl | create hfree hl => exact .single (.lend hfree rfl hl)
  | @candidate s _ req tid oid verify base now hfree hl =>
    have hlend : StoreSteps c g (s.store, some (.candidate req tid oid verify))
        ((reserveEvict c s now req tid base).store, none) := .single (.lend hfree rfl hl)
    exact hlend.tail .noteGrant
  | readback hfree => exact .single (.readback hfree)
  | warm hfree => exact .single (.warm hfree)
  | force hL hd => exact .single (.force hL (State.slotState_of_drainable hd))
  | @enqueue s _ now id L st seq hL hpub =>
    refine .single (.enqueue hL fun hpos => ?_)
    dsimp only at hpub ⊢
    rw [hpub]
    exact Store.slotState_publishD2H hpos
  | takeDrain hq => exact .single (.takeDrain hq)
  | drainBegin hi hst => exact .single (.drainBegin hi hst)
  | drainCopied hi hc => exact .single (.drainCopied hi hc)
  | @drainSettled s _ i w cold hi hst hd =>
    have hset : StoreSteps c g (s.store, none)
        ((s.store.dropTask i).settleDrain w cold, w.forced.map (·.1)) :=
      .single (.drainSettled hi hst hd)
    -- The search of a forced drain goes on, or this was its last attempt.
    rw [DrainWork.goesOn]
    rcases hw : w.forced with _ | ⟨p, attempt⟩
    · rwa [hw] at hset
    · rw [hw] at hset
      by_cases ha : attempt < maxDrainAttempts
      · simpa [ha] using hset
      · simpa [ha] using hset.tail .giveUp
  | @drainFailed s _ i w now hi hst =>
    have hset : StoreSteps c g (s.store, none)
        ((s.store.dropTask i).setRunState now w.baseSlot w.slotCount .pinnedValid,
          w.forced.map (·.1)) := .single (.drainFailed hi hst)
    rcases hw : w.forced with _ | ⟨p, attempt⟩
    · rwa [hw] at hset
    · rw [hw] at hset
      exact hset.tail .giveUp
  | takeReadback hq => exact .single (.takeReadback hq)
  | readbackFound hi hst hc => exact .single (.readbackFound hi hst hc)
  | readbackLost hi hst hc => exact .single (.readbackLost hi hst hc)
  | readbackRead hi hr hg => exact .single (.readbackRead hi hr hg)
  | readbackMissing hi => exact .single (.readbackMissing hi)
  | readbackFailed hi hst => exact .single (.readbackFailed hi hst)
  | readbackDone hi hst => exact .single (.readbackDone hi hst)
  | warmRead hi hr hg => exact .single (.warmRead hi hr hg)
  | warmDone hi hb =>
    exact .tail (.single (.warmDone hi hb)) .noteHolds
  | warmFailed | failPull | endPull | dropTask => exact .single .dropTask
  | restore | endRestore => exact .single .noteHolds
  | startPull ho ht => exact .single (.addPull ht (.inl (pullCheck_sealed ho).1))
  | nextPull hi ht ht' => exact nextPull_steps hi ht ht'
  | stage hi hr hs => exact .single (.stage hi hr hs)
  | copyD2H hL hp ho hl => exact .single (.copyD2H hL hp ho hl)
  | submit hL hst hq => exact .single (.submit hL hst hq)
  | publish hL hst hp => exact .single (.publish hL hst hp)
  | bind _ hloc hk hst hb => exact .single (.bind hloc hk hst rfl rfl rfl rfl rfl hb)
  | keepPinned hL hst hh hc => exact .single (.keepPinned hL hst hh hc)
  | fallBack hL hst hcold hh hc => exact .single (.fallBack hL hst hcold hh hc)
  | release hL hf hr hd => exact .single (.release hL hf hr hd)
  | dropLease _ _ hd => exact .single (.dropLease hd)
  | reclaim hr => exact .single (.reclaim hr)
  | reclaimMarked hr hq =>
    exact .single (.reclaimMarked hr (by rcases hq with rfl | rfl <;> decide))
  | forgetCold hc => exact .single (.forgetCold hc)
  | unlinkObject _ _ hd hl | discard _ hd hl =>
    exact .head (.dropLease hd) (.single (.dropLocation hl))
  | endSession _ _ hd => exact .head .noteHolds (dropLeases_steps (List.forall_mem_map.2 hd))
  | rehash hl => exact .single (.rehash hl)
  | _ => exact .refl

/-- The search of a forced drain goes on, or is over. -/
theorem Store.purposes_settle {w : DrainWork} {cold : Option ColdEntry}
    (hi : st.tasks[i]? = some (.drainCommit w cold)) :
    (w.goesOn.toList ++ (st.dropTask i).tasks.filterMap Task.purpose).Subperm
      (st.tasks.filterMap Task.purpose) :=
  (w.goesOn_sublist.append_right _).subperm.trans (filterMap_dropTask Task.purpose hi).symm.subperm

/-- A move that begins no search goes on with those under way, or ends them. -/
theorem Move.purposes (h : Move c g k x y) (hxy : y.2.1 = none ∨ x.2.1 = y.2.1) :
    y.purposes.Subperm x.purposes := by
  have hnext : ∀ {st : Store} {i : ℕ} {t t' : Task}, st.tasks[i]? = some t →
      t'.purpose = t.purpose →
      (((st.dropTask i).addTask t').tasks.filterMap Task.purpose).Subperm
        (st.tasks.filterMap Task.purpose) :=
    fun hi ht => (Store.filterMap_nextTask _ hi ht).symm.subperm
  have hdrop : ∀ {st : Store} {i : ℕ} {t : Task}, st.tasks[i]? = some t →
      ((st.dropTask i).tasks.filterMap Task.purpose).Subperm (st.tasks.filterMap Task.purpose) :=
    fun hi => (List.sublist_append_right _ _).subperm.trans
      (Store.filterMap_dropTask _ hi).symm.subperm
  cases h with
  | seek | seekPrefetch | seekCreate | seekCandidate => rcases hxy with hxy | hxy <;> cases hxy
  | giveUp | lend | create | candidate | readback | warm =>
    exact (List.sublist_cons_self _ _).subperm
  | drainBegin hi | drainCopied hi | readbackFound hi | readbackLost hi | readbackRead hi
  | warmRead hi | stage hi => exact hnext hi rfl
  | nextPull hi ht ht' =>
    exact hnext hi ((Task.purpose_of_pull ht').trans (Task.purpose_of_pull ht).symm)
  | drainFailed hi | readbackMissing hi | readbackFailed hi | readbackDone hi | warmDone hi
  | warmFailed hi | failPull hi | endPull hi | dropTask hi => exact hdrop hi
  | drainSettled hi => exact Store.purposes_settle hi
  | startPull _ ht =>
    rw [Scene.purposes, Store.addTask, List.filterMap_cons, Task.purpose_of_pull ht]
    exact .refl _
  | _ => exact .refl _

/-- What a search can be sure of when it begins: the id of its lease has just been drawn, or the
    job that it will be charged to is registered, and the version of the object is not sealed. -/
def Purpose.Begins (k : Rules) (s : State) : Purpose → Prop
  | prefetch _ _ _ _ id => id = s.store.nextLeaseId
  | create req oid => (s.catalog.jobs.lookup req.key.job).isSome ∧
      versionSealed s ⟨req.key.job, req.key.modelRole, req.key.modelVersion⟩ = false ∧
      k s (.seek (.create req oid))
  | candidate req .. => (s.catalog.jobs.lookup req.key.job).isSome
  | offload .. | restore .. => True

/-- A search was under way, or it has just begun. -/
theorem Move.mem_purposes (h : Move c g k x y) {p : Purpose} (hp : p ∈ y.purposes) :
    p ∈ x.purposes ∨ p.Begins k x.1 ∧ y.1.store.history = x.1.store.history := by
  have hsub := h.purposes
  cases h with
  | @seek s h' q hplain =>
    rcases List.mem_cons.1 hp with rfl | hp
    · cases p <;> first | exact hplain.elim | exact .inr ⟨trivial, rfl⟩
    · exact .inl hp
  | seekPrefetch =>
    rcases List.mem_cons.1 hp with rfl | hp
    · exact .inr ⟨rfl, rfl⟩
    · exact .inl hp
  | seekCreate _ hjob hopen _ hk =>
    rcases List.mem_cons.1 hp with rfl | hp
    · exact .inr ⟨⟨hjob, hopen, hk⟩, rfl⟩
    · exact .inl hp
  | seekCandidate _ hjob =>
    rcases List.mem_cons.1 hp with rfl | hp
    · exact .inr ⟨hjob, rfl⟩
    · exact .inl hp
  | drainSettled hi => exact .inl ((Store.purposes_settle hi).subset hp)
  | reclaim | reclaimMarked | freed | leaveRun | forgot => exact .inl hp
  | _ => exact .inl ((hsub (.inl rfl)).subset hp)

/-! ## Steps -/

/-- Every step of the daemon that meets the guards is a sequence of transitions
    of the store. -/
theorem step_refines {a : Action} {s' : State} {r : Response} (hg : g.ok c s a)
    (h : step c s a = some (s', r)) : Evolves c g s.store s'.store :=
  (step_moves hg (Rules.free_ok c s a) h).invariant
    (motive := fun x => StoreSteps c g (s.store, none) (x.1.store, x.2.1))
    (fun _ _ hx hxy => hx.trans hxy.store) .refl

/-- The rule for invariants of the store: what holds of the empty store and is
    kept by every transition holds in every state reached. -/
theorem Reachable.store_invariant {motive : Store × Option Purpose → Prop}
    (h₀ : motive (Store.initial, none)) (hstep : ∀ x y, motive x → StoreStep c g x y → motive y)
    (h : Reachable c (g.ok c) s) : motive (s.store, none) := by
  refine Reach.invariant (motive := fun s => motive (s.store, none)) ?_ ?_ h
  · rintro _ rfl
    exact h₀
  · intro s a s' r hs ha hst
    exact (step_refines ha hst).invariant hstep hs

end StateSpectre
