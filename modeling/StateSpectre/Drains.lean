import StateSpectre.Contents.Moves
import StateSpectre.Copies

/-!
# Drains are exclusive

A drain copies its run to a cold tier without the mutex, and counts on finding it as it left
it. So from the moment the run enters `DRAIN_IN_FLIGHT` to the end of its own drain, nobody else
should change the entries of its slots, or hand one of them out.

Everybody else decides from the state of the first slot of a run. Where a lease outlives its run,
or a readback its lease, that is the slot of another run by then: a leftover lease that starts
before a run in `DRAIN_IN_FLIGHT` frees it when it is released (`release_frees_draining`). If no
run is freed while it is in use (`contentGuards`), drains are exclusive (`drain_exclusive`).
-/

namespace StateSpectre

variable {c : Config} {g : Guards} {k : Rules} {x y : Scene} {s s' : State} {st st' st'' : Store}
  {b n : ℕ}

/-! ## Runs under a drain -/

/-- The run of `n` slots at `b` has a drain, queued or under way. -/
abbrev Store.DrainAt (st : Store) (b n : ℕ) : Prop :=
  ∃ w ∈ st.works, w.base = b ∧ w.count = n ∧ w.state = .drainInFlight

/-- The slots of a run have not changed, and none of them has been handed out since. -/
structure Store.SameRunSince (b n : ℕ) (st st' : Store) : Prop where
  slots : ∀ i, InRun b n i → st'.slots i = st.slots i := by exact fun _ _ => rfl
  leases : ∀ id L, st'.leases.lookup id = some L → Meet L.baseSlot L.slotCount b n →
    st.leases.lookup id = some L := by exact fun _ _ h _ => h
  restores : ∀ r ∈ st'.history.holds, InRun b n r.base → r ∈ st.history.holds := by
    exact fun _ h _ => h

/-- The drain of the run at `b` neither commits nor fails. -/
def sparesDrain (b : ℕ) : Rules := fun _ e =>
  match e with
  | .settle w | .failDrain w => w.baseSlot ≠ b
  | _ => True

instance {e : Event} : Decidable (sparesDrain b s e) := by
  induction e using Event.casesOn <;> dsimp only [sparesDrain] <;> infer_instance

namespace Store

theorem SameRunSince.trans (h : SameRunSince b n st st') (h' : SameRunSince b n st' st'') :
    SameRunSince b n st st'' where
  slots i hi := (h'.slots i hi).trans (h.slots i hi)
  leases id L hL hm := h.leases id L (h'.leases id L hL hm) hm
  restores r hr hi := h.restores r (h'.restores r hr hi) hi

namespace DrainAt

variable (h : st.DrainAt b n) (hc : st.Contents c .all)

include h

theorem used : st.Used b := by
  obtain ⟨w, hw, rfl, -, -⟩ := h
  exact used_of_work hw

include hc

theorem slotState : st.slotState b = .drainInFlight := by
  obtain ⟨w, hw, rfl, -, hq⟩ := h
  exact ((hc.runs _ (used_of_work hw)).work w hw rfl).state.trans hq

theorem count : n = st.extent c b := by
  obtain ⟨w, hw, rfl, rfl, -⟩ := h
  exact ((hc.runs _ (used_of_work hw)).work w hw rfl).count

/-- A run in use that is in another state is apart from it. -/
theorem apart {b' : ℕ} (hu : st.Used b') (hq : st.slotState b' ≠ .drainInFlight) :
    ¬Meet b' (st.extent c b') b n := by
  have hne : b' ≠ b := by
    rintro rfl
    exact hq (h.slotState hc)
  rw [h.count hc]
  exact hc.apart b' b hu h.used hne

/-- So is the run of a lease. -/
theorem lease_apart {id : ℕ} {L : Lease} (hL : st.leases.lookup id = some L)
    (hq : st.slotState L.baseSlot ≠ .drainInFlight) : ¬Meet L.baseSlot L.slotCount b n := by
  rw [((hc.runs _ (used_of_lease hL)).lease id L hL rfl).count]
  exact h.apart hc (used_of_lease hL) hq

/-- So is the run of another work. -/
theorem work_apart {w : Work} (hw : w ∈ st.works) (hne : w.base ≠ b) :
    ¬Meet w.base w.count b n := by
  rw [((hc.runs _ (used_of_work hw)).work w hw rfl).count, h.count hc]
  exact hc.apart w.base b (used_of_work hw) h.used hne

/-- A readback works on another run. -/
theorem base_ne {w : Work} (hw : w ∈ st.works) (hq : w.state = .readbackInFlight) :
    w.base ≠ b := by
  rintro rfl
  have hst := ((hc.runs _ (used_of_work hw)).work w hw rfl).state
  rw [hq] at hst
  exact nomatch hst.symm.trans (h.slotState hc)

/-- So are free runs. -/
theorem free_apart {b' n' : ℕ} (hfree : st.RunFree b' n') : ¬Meet b' n' b n := by
  rw [h.count hc]
  exact hc.unused_of_free hfree b h.used

end DrainAt

end Store

/-! ## Moves -/

namespace Store.DrainAt

variable (h : x.1.store.DrainAt b n) (hc : x.1.store.Contents c .all)
  (hm : Move c (contentGuards c .all) (sparesDrain b) x y)

include h hc hm

/-- No move but the end of its own drain changes a run under a drain. -/
theorem slots_eq {i : ℕ} (hi : InRun b n i) : y.1.store.slots i = x.1.store.slots i := by
  have hlive : x.1.store.slotState i ≠ .free := by
    rw [h.count hc] at hi
    exact (hc.runs b h.used).run.live i hi
  refine (hm.slotChange fun _ _ _ hr => hr.1).resolve_right fun hch => ?_
  -- The change would be one of another run, which is apart from this one.
  cases hch with
  | lent hfree | taken hfree => exact hlive hfree
  | leased hL _ hi' hq => exact h.lease_apart hc hL hq ⟨i, hi', hi⟩
  | settled hj hk hi' | drainFailed hj hk hi' =>
    exact h.work_apart hc (Store.mem_works hj rfl) hk ⟨i, hi', hi⟩
  | read hj ht hi' =>
    obtain ⟨w, hw, hb, hn, hq⟩ := Task.work_of_readback ht
    have hmem := Store.mem_works hj hw
    rw [← hb, ← hn] at hi'
    exact h.work_apart hc hmem (h.base_ne hc hmem hq) ⟨i, hi', hi⟩
  | warmed hj _ hi' =>
    have hw := Store.mem_works hj rfl
    exact h.work_apart hc hw (h.base_ne hc hw rfl) ⟨i, hi', hi⟩
  | freed hr hi' =>
    rw [h.count hc] at hi
    exact hr.2 b h.used ⟨i, hi', hi⟩

/-- No move lends a slot of it. -/
theorem lease_of_lease {id : ℕ} {L : Lease} (hL : y.1.store.leases.lookup id = some L)
    (hmeet : Meet L.baseSlot L.slotCount b n) : x.1.store.leases.lookup id = some L := by
  have hinsert : ∀ {id' : ℕ} {L' : Lease}, ¬Meet L'.baseSlot L'.slotCount b n →
      (x.1.store.leases.insert id' L').lookup id = some L →
        x.1.store.leases.lookup id = some L := by
    intro id' L' hfar hL
    rcases Table.lookup_insert_eq_some.1 hL with ⟨-, rfl⟩ | ⟨-, hL⟩
    · exact absurd hmeet hfar
    · exact hL
  cases hm with
  | lend hfree | create hfree | candidate hfree | readback hfree =>
    exact hinsert (h.free_apart hc hfree) hL
  | @bind s h' req loc _ hloc hkind hst =>
    have hu := Store.used_of_resident hloc hkind
    have hfar := h.apart hc hu (by rw [hst]; nofun)
    rw [Store.extent, ← ((hc.runs _ hu).resident _ loc hloc hkind rfl).nbytes] at hfar
    exact hinsert hfar hL
  | drainSettled | fallBack | release | dropLease | unlinkObject | discard =>
    exact Table.lookup_of_lookup_erase hL
  | endSession => exact (Table.lookup_eraseAll_eq_some.1 hL).2
  | rehash hr => exact (hr.lookup_eq id).symm.trans hL
  | _ => exact hL

/-- No move answers a restore with a slot of it. -/
theorem hold_of_hold {r : RestoreHold} (hr : r ∈ y.1.store.history.holds)
    (hi : InRun b n r.base) : r ∈ x.1.store.history.holds := by
  cases hm with
  | @restore s h' req o loc _ _ _ hloc hkind hst =>
    have hu := Store.used_of_resident hloc hkind
    have hfar := h.apart hc hu (by rw [hst]; nofun)
    rcases mem_noteHold c _ hr with hr | hb
    · exact hr
    · exact absurd ⟨_, (hc.runs _ hu).run.inRun, hb ▸ hi⟩ hfar
  | @warmDone s h' j req base count nbytes now hj =>
    have hw := Store.mem_works hj rfl
    have hrun := hc.runs _ (Store.used_of_work hw)
    have hbase : InRun base count base := by
      rw [show count = _ from (hrun.work _ hw rfl).count]
      exact hrun.run.inRun
    rcases mem_noteHold c _ hr with hr | hb
    · exact hr
    · exact absurd ⟨base, hbase, hb ▸ hi⟩ (h.work_apart hc hw (h.base_ne hc hw rfl))
  | endRestore => exact List.eraseP_subset hr
  | endSession => exact (List.mem_filter.1 hr).1
  | _ => exact hr

theorem sameRunSince : SameRunSince b n x.1.store y.1.store :=
  ⟨fun _ => h.slots_eq hc hm, fun _ _ => h.lease_of_lease hc hm,
    fun _ hr hi => h.hold_of_hold hc hm hr hi⟩

/-- The drain goes on. -/
theorem move : y.1.store.DrainAt b n := by
  obtain ⟨w, hw, rfl, rfl, hq⟩ := h
  rcases hm.workEnd hc hw with ⟨w', hw', hf⟩ | hend
  · exact ⟨w', hw', hf.base, hf.count, hf.state.trans hq⟩
  · -- It would be another end than that of a drain.
    cases hend with
    | settled hb _ hk => exact absurd hb hk
    | drainFailed _ hb _ _ hk => exact absurd hb hk
    | read hr | warmed _ hr | warmFailed hr => exact nomatch hr.symm.trans hq

end Store.DrainAt

/-- Every slot in `DRAIN_IN_FLIGHT` is in a run under a drain, or in one that is to be freed. -/
def DrainsCovered (x : Scene) : Prop := ∀ i, x.1.store.slotState i = .drainInFlight →
  (∃ w ∈ x.1.store.works, w.state = .drainInFlight ∧ InRun w.base w.count i) ∨
    ∃ r ∈ x.2.2.freeing, InRun r.1 r.2 i

theorem DrainsCovered.move (h : DrainsCovered x) (hc : x.1.store.Contents c .all)
    (hm : Move c g k x y) (hg : ∀ st b n, g.reclaim st b n → 0 < n) : DrainsCovered y := by
  intro i hi
  -- The slot was in that state before, unless its run is to be drained from now on.
  have hold : x.1.store.slotState i = .drainInFlight ∨
      ∃ w ∈ y.1.store.works, w.state = .drainInFlight ∧ InRun w.base w.count i := by
    rcases hm.slotChange hg with hsame | hch
    · exact .inl ((congrArg SlotEntry.state hsame).symm.trans hi)
    cases hch with
    | lent _ _ _ hq hne => exact absurd (hq.symm.trans hi) hne
    | taken _ _ _ hq => exact nomatch hq.symm.trans hi
    | leased _ _ _ _ _ hd => exact .inr (hd hi)
    | settled _ _ _ hq => exact .inl (hq.symm.trans hi)
    | drainFailed _ _ _ _ hq | warmed _ _ _ _ hq | freed _ _ hq => exact nomatch hq.symm.trans hi
    | read _ _ _ hq => rcases hq with hq | hq <;> exact nomatch hq.symm.trans hi
  rcases hold with hold | hw
  · rcases h i hold with ⟨w, hw, hq, hrun⟩ | ⟨r, hr, hrun⟩
    · rcases hm.workEnd hc hw with ⟨w', hw', hf⟩ | hend
      · refine .inl ⟨w', hw', hf.state.trans hq, ?_⟩
        rwa [hf.base, hf.count]
      cases hend with
      | settled _ _ _ hfree => exact .inr ⟨_, hfree, hrun⟩
      | drainFailed _ _ _ _ _ _ hvalid => exact nomatch (hvalid i hrun).symm.trans hi
      | read hr | warmed _ hr | warmFailed hr => exact nomatch hr.symm.trans hq
    · rcases hm.freeing hr with hr | hfree
      · exact .inr ⟨r, hr, hrun⟩
      · exact nomatch (hfree i hrun).symm.trans hi
  · exact .inl hw

/-! ## Runs -/

/-- What the steps other than the end of the drain at `b` are to meet. -/
abbrev undisturbed (c : Config) (b : ℕ) (s : State) (a : Action) : Prop :=
  (contentGuards c .all).ok c s a ∧ (sparesDrain b).ok c s a

/-- In every run in which no run in use is freed: a slot in `DRAIN_IN_FLIGHT` is in a run under
    a drain. Until that drain commits or fails, no slot of the run changes, none of them is
    handed out, and the drain goes on. -/
theorem drain_exclusive {i : ℕ} (h : Reachable c ((contentGuards c .all).ok c) s)
    (hi : s.store.slotState i = .drainInFlight) :
    ∃ b n, InRun b n i ∧ s.store.DrainAt b n ∧
      ∀ s', Reach (· = s) (undisturbed c b) (step c) s' →
        s.store.SameRunSince b n s'.store ∧ s'.store.DrainAt b n := by
  have hs : Sound c .all s.store none ∧ DrainsCovered (s, none, {}) := by
    refine Reachable.invariant (k := Rules.free)
      (motive := fun x => Sound c .all x.1.store x.2.1 ∧ DrainsCovered x) ?_ ?_
      (h.mono fun s a ha => ⟨ha, Rules.free_ok c s a⟩)
    · exact ⟨Sound.initial, fun i hi => nomatch hi⟩
    · intro x y hx hxy
      exact ⟨hx.1.move (.refl _) hxy, hx.2.move hx.1.contents hxy fun _ _ _ hr => hr.1⟩
  obtain ⟨w, hw, hq, hrun⟩ := (hs.2 i hi).resolve_right fun ⟨_, hr, _⟩ => nomatch hr
  refine ⟨w.base, w.count, hrun, ⟨w, hw, rfl, rfl, hq⟩, fun s' hs' => ?_⟩
  have hkept : Sound c .all s'.store none ∧ s.store.SameRunSince w.base w.count s'.store ∧
      s'.store.DrainAt w.base w.count := by
    refine Reach.invariant (motive := fun s' => Sound c .all s'.store none ∧
      s.store.SameRunSince w.base w.count s'.store ∧ s'.store.DrainAt w.base w.count) ?_ ?_ hs'
    · rintro _ rfl
      exact ⟨hs.1, {}, w, hw, rfl, rfl, hq⟩
    · intro s₁ a s₂ r h₁ ha hstep
      refine (step_moves ha.1 ha.2 hstep).invariant (motive := fun x =>
        Sound c .all x.1.store x.2.1 ∧ s.store.SameRunSince w.base w.count x.1.store ∧
          x.1.store.DrainAt w.base w.count) (fun x y hx hxy => ?_) h₁
      have hc := hx.1.contents
      exact ⟨hx.1.move (.refl _) hxy, hx.2.1.trans (hx.2.2.sameRunSince hc hxy),
        hx.2.2.move hc hxy⟩
  exact hkept.2

/-- The rank 0 offloads a tensor of two slots. -/
def offloadsPair (now tensorId leaseId : ℕ) (data : List Bytes) : List Action :=
  [.rpc now (.offload
      { rankId := 0, rankEpoch := 1, tensorId := tensorId, version := 1, nbytes := 8 }),
    .rpc now (.d2hSubmitted { rankId := 0, rankEpoch := 1, leaseId := leaseId, slotId := 0 }),
    .copyD2H leaseId data,
    .rpc now (.d2hComplete
      { rankId := 0, rankEpoch := 1, leaseId := leaseId, tensorId := tensorId, version := 1
        slotId := 0 })]

/-- A tensor of two slots is offloaded and prefetched, and the first lease is released: the second
    one is left over on the two slots, which are lent to two tensors. The slot 1 is being drained
    when the leftover lease is released, and the daemon frees it. -/
theorem release_frees_draining :
    ∃ s s' r, Reached twoKept s ∧ s.store.DrainAt 1 1 ∧
      s.store.slotState 1 = .drainInFlight ∧ step twoKept s (releases 7 2) = some (s', r) ∧
      s'.store.slotState 1 = .free ∧ s'.store.DrainAt 1 1 :=
  exists_reachable₃ twoKept _
    (registers :: offloadsPair 1 1 1 [[1], [1]] ++ [prefetches 2 1 1, releases 3 1] ++
      (offloadsTo 0 4 2 1 3 [2]).take 1 ++ offloadsTo 1 4 3 1 4 [3] ++
      (offloadsTo 0 5 2 1 3 [2]).drop 1 ++ (offloadsTo 0 6 4 1 5 [4]).take 1) (by decide +kernel)

/-- The slot 0 is being drained while the tensor in the slot 1 is released. -/
theorem drain_exclusive_released :
    ∃ s s', Reachable twoKept ((contentGuards twoKept .all).ok twoKept) s ∧
      Reach (· = s) (undisturbed twoKept 0) (step twoKept) s' ∧
      (s.store.slotState 0 = .drainInFlight ∧ s'.store.slotState 1 = .free) ∧
      ∃ n, InRun 0 n 0 ∧ s.store.SameRunSince 0 n s'.store ∧ s'.store.DrainAt 0 n := by
  refine exists_reach_and twoKept _ _ (registers :: offloadsTo 0 1 1 1 1 [1] ++
    offloadsTo 1 2 2 1 2 [2] ++ (offloadsTo 0 3 3 1 3 [3]).take 1) [releases 4 2]
    (by decide +kernel) ?_
  rintro s s' hs hs' ⟨hdrain, -⟩
  obtain ⟨b, n, hrun, -, hkept⟩ := drain_exclusive hs hdrain
  obtain rfl : b = 0 := Nat.le_zero.1 hrun.1
  exact ⟨n, hrun, hkept s' hs'⟩

end StateSpectre
