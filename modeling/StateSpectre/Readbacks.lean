import StateSpectre.Locations

/-!
# Readbacks and the runs reserved for them

A readback worker knows its run by the base slot: before it reads and before it commits, it
looks whether that slot still waits for a readback. A run that was released in between
is left alone. But a run that was released and reserved for another readback waits for one
as well, and the worker takes it for its own (`readback_publishes_other`). When it has not
found its cold copy, it does not look again at all.

So a readback keeps to its run as long as no other readback or restore is given the base
slot of one that is still pending, runs are freed as a whole, and none is freed while a
worker is about to mark it (`confineGuards`, `confineRules`): the run is still the one
that was reserved, or the readback changes nothing (`readback_confined`).
-/

namespace StateSpectre

variable {c : Config} {st st' : Store} {s s' s₁ s₂ : State} {job : ReadbackJob}
  {ends : ReadbackJob → Prop}

/-! ## Pending readbacks -/

/-- The readback that a task will mark as failed. -/
def Task.marksError : Task → Option ReadbackJob
  | .readbackMissing job => some job
  | _ => none

/-- The readbacks that are queued or under way. -/
def Store.readbacks (st : Store) : List ReadbackJob :=
  st.readbackQueue ++ st.tasks.filterMap Task.readback

/-- The readbacks that found no cold copy, and whose runs are about to be marked. -/
def Store.marking (st : Store) : List ReadbackJob := st.tasks.filterMap Task.marksError

/-- What a slot is reserved for. -/
def SlotEntry.tags (e : SlotEntry) : ℕ × ℕ × ℕ := (e.leaseId, e.tensorId, e.version)

/-- The run of a readback is in use, and for what it should be. -/
def Store.Reserved (st : Store) (Q : ℕ → ℕ × ℕ × ℕ → Prop) (job : ReadbackJob) : Prop :=
  ∀ i, InRun job.baseSlot job.slotCount i → (st.slots i).state ≠ .free ∧ Q i (st.slots i).tags

/-- The readback will see that its run was given up. -/
def Store.GivenUp (st : Store) (job : ReadbackJob) : Prop :=
  st.slotState job.baseSlot ≠ .readbackInFlight ∧ job ∉ st.marking

/-- The readback will keep to its run. -/
def Store.Confines (st : Store) (Q : ℕ → ℕ × ℕ × ℕ → Prop) (job : ReadbackJob) : Prop :=
  st.Reserved Q job ∨ st.GivenUp job

/-- A run that meets that of a pending readback is freed only with its base slot, and
    not while the run is about to be marked. -/
abbrev confineGuards : Guards where
  reclaim st b n := ∀ job ∈ st.readbacks, Meet b n job.baseSlot job.slotCount →
    InRun b n job.baseSlot ∧ job ∉ st.marking

/-- The run that a cold copy is to be read into is not empty, and does not have the base
    slot of a pending readback. Readbacks that are over are some of those given. -/
def confineRules (ends : ReadbackJob → Prop) : Rules := fun s e =>
  match e with
  | .readInto base count =>
    0 < count ∧ ∀ job ∈ s.store.readbacks, ¬InRun base count job.baseSlot
  | .endReadback job => ends job
  | _ => True

instance : DecidableGuards confineGuards where

instance {ends : ReadbackJob → Prop} [DecidablePred ends] {s : State} {e : Event} :
    Decidable (confineRules ends s e) := by
  induction e using Event.casesOn <;> dsimp only [confineRules] <;> infer_instance

/-! ## Changes of the slots -/

/-- A slot is not freed or reserved anew. -/
structure SlotEntry.Continues (e e' : SlotEntry) : Prop where
  tags : e'.tags = e.tags
  used : e.state ≠ .free → e'.state ≠ .free
  reading : e'.state = .readbackInFlight → e.state = .readbackInFlight

theorem SlotEntry.Continues.refl (e : SlotEntry) : e.Continues e := ⟨rfl, fun h => h, fun h => h⟩

namespace Store.Confines

variable {Q : ℕ → ℕ × ℕ × ℕ → Prop} {b n : ℕ}

/-- No slot is freed or reserved anew. -/
theorem frame (h : st.Confines Q job) (hs : ∀ i, (st.slots i).Continues (st'.slots i))
    (hm : job ∈ st'.marking → job ∈ st.marking) : st'.Confines Q job := by
  rcases h with hres | ⟨hst, hmark⟩
  · refine .inl fun i hi => ⟨(hs i).used (hres i hi).1, ?_⟩
    rw [(hs i).tags]
    exact (hres i hi).2
  · exact .inr ⟨fun hq => hst ((hs _).reading hq), fun h => hmark (hm h)⟩

/-- The slots of a run change, but are not freed or reserved anew. -/
theorem mapRun {f : ℕ → SlotEntry → SlotEntry} (h : st.Confines Q job)
    (hf : ∀ k (e : SlotEntry), e.Continues (f k e)) : (st.mapRun b n f).Confines Q job := by
  refine h.frame (fun i => ?_) fun h => h
  by_cases hi : InRun b n i
  · rw [Store.mapRun_slots_of_mem hi]
    exact hf _ _
  · rw [Store.mapRun_slots_of_not_mem hi]
    exact .refl _

theorem setRunState {now : ℕ} {q : SlotState} (h : st.Confines Q job) (hq : q ≠ .free)
    (hr : q ≠ .readbackInFlight) : (st.setRunState now b n q).Confines Q job :=
  h.mapRun fun _ _ => ⟨rfl, fun _ => hq, fun h => absurd h hr⟩

/-- A free run is reserved. -/
theorem reserve (h : st.Confines Q job) (hfree : st.RunFree b n)
    (hs : ∀ i, ¬InRun b n i → st'.slots i = st.slots i)
    (hb : InRun b n job.baseSlot → st'.slotState job.baseSlot ≠ .readbackInFlight)
    (hm : st'.marking = st.marking) : st'.Confines Q job := by
  rcases h with hres | ⟨hst, hmark⟩
  · refine .inl fun i hi => ?_
    rw [hs i fun hi' => (hres i hi).1 (hfree i hi')]
    exact hres i hi
  · refine .inr ⟨?_, hm ▸ hmark⟩
    by_cases hi : InRun b n job.baseSlot
    · exact hb hi
    · rwa [Store.slotState, hs _ hi]

/-- A run is freed. -/
theorem freeSlots {now : ℕ} (h : st.Confines Q job) (hpos : 0 < job.slotCount)
    (hr : Meet b n job.baseSlot job.slotCount → InRun b n job.baseSlot ∧ job ∉ st.marking) :
    (st.freeSlots now b n).Confines Q job := by
  by_cases hm : Meet b n job.baseSlot job.slotCount
  · -- The base slot is freed as well, where the readback will see it.
    obtain ⟨hi, hmark⟩ := hr hm
    refine .inr ⟨?_, hmark⟩
    rw [Store.slotState, Store.freeSlots, Store.mapRun_slots_of_mem hi]
    rintro ⟨⟩
  · have hs : ∀ i, InRun job.baseSlot job.slotCount i →
        (st.freeSlots now b n).slots i = st.slots i := fun i hi => by
      rw [Store.freeSlots, Store.mapRun_slots_of_not_mem fun hi' => hm ⟨i, hi', hi⟩]
    rcases h with hres | ⟨hst, hmark⟩
    · refine .inl fun i hi => ?_
      rw [hs i hi]
      exact hres i hi
    · refine .inr ⟨?_, hmark⟩
      rwa [Store.slotState, hs _ ⟨le_rfl, Nat.lt_add_of_pos_right hpos⟩]

end Store.Confines

/-! ## Moves -/

section Moves

variable {g : Guards} {k : Rules} {x y : Scene}

theorem Task.readback_of_pull {t : Task} {l : PullLocals} (h : t.pull = some l) :
    t.readback = none := by
  cases t <;> first | rfl | cases h

/-- A move that neither ends a readback nor queues one leaves them as they are. -/
theorem Move.readbacks (h : Move c g k x y) :
    y.1.store.readbacks.Perm x.1.store.readbacks ∨
      (∃ job s, k s (.endReadback job) ∧
        x.1.store.readbacks.Perm (job :: y.1.store.readbacks)) ∨
      ∃ job, k x.1 (.readInto job.baseSlot job.slotCount) ∧
        y.1.store.readbacks.Perm (job :: x.1.store.readbacks) ∧
        ∀ i, InRun job.baseSlot job.slotCount i → (y.1.store.slots i).state ≠ .free := by
  have hnext : ∀ {st : Store} {i : ℕ} {t t' : Task}, st.tasks[i]? = some t →
      t'.readback = t.readback → ((st.dropTask i).addTask t').readbacks.Perm st.readbacks :=
    fun hi ht => ((Store.filterMap_nextTask _ hi ht).append_left _).symm
  have hdrop : ∀ {st : Store} {i : ℕ} {t : Task}, st.tasks[i]? = some t →
      st.readbacks.Perm (t.readback.toList ++ (st.dropTask i).readbacks) := by
    intro st i t hi
    refine ((Store.filterMap_dropTask _ hi).append_left _).trans ?_
    rcases t.readback with _ | job
    · exact .refl _
    · exact List.perm_middle
  cases h with
  | @readback s h req loc version ownerPid id base now _ hk =>
    refine .inr (.inr ⟨⟨base, c.slotsForBytes loc.nbytes, loc.coldRef, loc.nbytes⟩, hk, ?_, ?_⟩)
    · simp only [grantPrefetch, Store.readbacks, List.append_assoc]
      exact List.perm_middle
    · intro i hi hfree
      cases (congrArg SlotEntry.state (onRun_of_mem hi)).symm.trans hfree
  | @takeReadback s h job rest hq =>
    left
    simp only [Store.readbacks, hq]
    exact List.perm_middle
  | readbackMissing hi hk | readbackFailed hi _ hk | readbackDone hi _ _ hk =>
    exact .inr (.inl ⟨_, _, hk, hdrop hi⟩)
  | @dropTask s h i t b q hi _ _ _ hk =>
    have hperm := hdrop hi
    rcases hj : t.readback with _ | job
    · rw [hj] at hperm
      exact .inl hperm.symm
    · rw [hj] at hperm
      exact .inr (.inl ⟨job, _, hk job hj, hperm⟩)
  | drainBegin hi | drainCopied hi | readbackFound hi | readbackLost hi | readbackRead hi
  | warmRead hi | stage hi => exact .inl (hnext hi rfl)
  | nextPull hi ht ht' =>
    exact .inl (hnext hi ((Task.readback_of_pull ht').trans (Task.readback_of_pull ht).symm))
  | drainSettled hi | drainFailed hi | warmDone hi | warmFailed hi | failPull hi | endPull hi =>
    exact .inl (hdrop hi).symm
  | startPull _ ht =>
    left
    rw [Store.readbacks, Store.filterMap_addTask, Task.readback_of_pull ht]
    exact .refl _
  | _ => exact .inl (.refl _)

/-- Every move keeps a pending readback to its run. -/
theorem Store.Confines.move {Q : ℕ → ℕ × ℕ × ℕ → Prop} (h : x.1.store.Confines Q job)
    (hpos : 0 < job.slotCount) (hjob : job ∈ x.1.store.readbacks)
    (hm : Move c confineGuards (confineRules ends) x y) : y.1.store.Confines Q job := by
  have hdrop : ∀ {st : Store} {i : ℕ}, job ∈ (st.dropTask i).marking → job ∈ st.marking :=
    fun hm => ((List.eraseIdx_sublist _ _).filterMap _).subset hm
  have hnext : ∀ {st : Store} {i : ℕ} {t : Task}, t.marksError = none →
      job ∈ ((st.dropTask i).addTask t).marking → job ∈ st.marking := by
    intro st i t ht hm
    rw [Store.marking, Store.filterMap_addTask, ht] at hm
    exact hdrop hm
  have hpull : ∀ {t : Task} {l : PullLocals}, t.pull = some l → t.marksError = none :=
    fun {t} _ h => by cases t <;> first | rfl | cases h
  cases hm with
  -- A run is reserved.
  | lend hfree | create hfree | candidate hfree =>
    refine h.reserve hfree (fun i hi => onRun_of_not_mem hi) (fun hb hq => ?_) rfl
    cases (congrArg SlotEntry.state (onRun_of_mem hb)).symm.trans hq
  | readback hfree hk | warm hfree hk =>
    exact h.reserve hfree (fun i hi => onRun_of_not_mem hi)
      (fun hb => absurd hb (hk.2 job hjob)) rfl
  -- A run is drained.
  | force | enqueue =>
    exact (h.setRunState (q := .drainInFlight) nofun nofun).frame (fun _ => .refl _) fun hm => hm
  | drainBegin | drainCopied | readbackFound | readbackRead | warmRead | stage =>
    exact h.frame (fun _ => .refl _) (hnext rfl)
  | drainSettled =>
    refine (h.mapRun (f := fun _ e => { e with coldRef := _ }) ?_).frame (fun _ => .refl _) hdrop
    exact fun _ _ => ⟨rfl, fun hq => hq, fun hq => hq⟩
  | drainFailed | readbackDone | warmDone =>
    exact (h.setRunState (q := .pinnedValid) nofun nofun).frame (fun _ => .refl _) hdrop
  -- A readback goes on or ends.
  | @readbackLost s h' i job' hi hst =>
    rcases h with hres | ⟨hbase, hmark⟩
    · exact .inl hres
    · refine .inr ⟨hbase, fun hm => ?_⟩
      rcases List.mem_cons.1 hm with rfl | hm
      · exact hbase hst
      · exact hmark (hdrop hm)
  | readbackMissing | readbackFailed =>
    exact (h.setRunState (q := .error) nofun nofun).frame (fun _ => .refl _) hdrop
  | warmFailed | failPull | endPull | dropTask => exact h.frame (fun _ => .refl _) hdrop
  | startPull _ ht =>
    refine h.frame (fun _ => .refl _) fun hm => ?_
    rwa [Store.marking, Store.filterMap_addTask, hpull ht] at hm
  | nextPull _ _ ht => exact h.frame (fun _ => .refl _) (hnext (hpull ht))
  -- Copies.
  | submit _ _ hq =>
    refine h.mapRun fun _ e => ⟨rfl, fun _ => ?_, fun hr => ?_⟩
    · rcases hq with ⟨-, rfl⟩ | ⟨-, rfl⟩ <;> exact nofun
    · rcases hq with ⟨-, rfl⟩ | ⟨-, rfl⟩ <;> cases hr
  | publish | keepPinned =>
    refine (h.mapRun (f := fun _ e =>
      { e with completeSeq := _, state := .pinnedValid, lastTouchNs := _ }) ?_).frame
      (fun _ => .refl _) fun hm => hm
    exact fun _ _ => ⟨rfl, fun _ => nofun, fun hr => nomatch hr⟩
  -- A run is freed.
  | reclaim hr => exact h.freeSlots hpos (hr job hjob)
  | reclaimMarked hr hq =>
    refine (h.setRunState ?_ ?_).freeSlots hpos (hr job hjob)
    · rcases hq with rfl | rfl <;> exact nofun
    · rcases hq with rfl | rfl <;> exact nofun
  | _ => exact h.frame (fun _ => .refl _) fun hm => hm

/-- A readback that is not over is still pending. -/
theorem Move.keeps_readback (h : Move c g k x y) (hk : ∀ s, ¬k s (.endReadback job))
    (hjob : job ∈ x.1.store.readbacks) : job ∈ y.1.store.readbacks := by
  rcases h.readbacks with hperm | ⟨job', s, hend, hperm⟩ | ⟨job', -, hperm, -⟩
  · exact hperm.mem_iff.2 hjob
  · rcases List.mem_cons.1 (hperm.mem_iff.1 hjob) with rfl | hjob
    · exact absurd hend (hk s)
    · exact hjob
  · exact hperm.mem_iff.2 (List.mem_cons_of_mem _ hjob)

/-- All pending readbacks keep to their runs. -/
def ReadbacksConfined (st : Store) : Prop :=
  ∀ job ∈ st.readbacks, 0 < job.slotCount ∧ st.Confines (fun _ _ => True) job

theorem ReadbacksConfined.move (h : ReadbacksConfined x.1.store)
    (hm : Move c confineGuards (confineRules ends) x y) : ReadbacksConfined y.1.store := by
  have hold : ∀ job ∈ x.1.store.readbacks, 0 < job.slotCount ∧ y.1.store.Confines _ job :=
    fun job hjob => ⟨(h job hjob).1, (h job hjob).2.move (h job hjob).1 hjob hm⟩
  intro job hjob
  rcases hm.readbacks with hperm | ⟨job', s, -, hperm⟩ | ⟨job', hk, hperm, hrun⟩
  · exact hold job (hperm.mem_iff.1 hjob)
  · exact hold job (hperm.mem_iff.2 (List.mem_cons_of_mem _ hjob))
  · rcases List.mem_cons.1 (hperm.mem_iff.1 hjob) with rfl | hjob
    · exact ⟨hk.1, .inl fun i hi => ⟨hrun i hi, trivial⟩⟩
    · exact hold job hjob

end Moves

/-! ## Steps -/

/-- The steps that keep readbacks to their runs, and of those the ones that end only the
    readbacks given. -/
abbrev confined (c : Config) (ends : ReadbackJob → Prop) (s : State) (a : Action) : Prop :=
  confineGuards.ok c s a ∧ (confineRules ends).ok c s a

theorem Reachable.readbacksConfined (h : Reachable c (confined c fun _ => True) s) :
    ReadbacksConfined s.store :=
  h.invariant (motive := fun x => ReadbacksConfined x.1.store) (fun _ hjob => nomatch hjob)
    fun _ _ hx hxy => hx.move hxy

/-- As long as a readback is pending it keeps to its run. -/
theorem Store.Confines.reach {Q : ℕ → ℕ × ℕ × ℕ → Prop}
    (h : Reach (· = s₁) (confined c (· ≠ job)) (step c) s) (hpos : 0 < job.slotCount)
    (hjob : job ∈ s₁.store.readbacks) (h₁ : s₁.store.Confines Q job) :
    job ∈ s.store.readbacks ∧ s.store.Confines Q job := by
  refine h.invariant (motive := fun s => job ∈ s.store.readbacks ∧ s.store.Confines Q job) ?_ ?_
  · rintro _ rfl
    exact ⟨hjob, h₁⟩
  · intro s a s' r hs hok hstep
    refine (step_moves hok.1 hok.2 hstep).invariant
      (motive := fun x => job ∈ x.1.store.readbacks ∧ x.1.store.Confines Q job)
      (fun x y hx hxy => ⟨?_, hx.2.move hpos hx.1 hxy⟩) hs
    exact hxy.keeps_readback (fun _ hne => hne rfl) hx.1

/-- The run of a readback is used as it was in an earlier state. -/
def SameUse (st₁ st : Store) (job : ReadbackJob) : Prop :=
  st.Reserved (fun i τ => τ = (st₁.slots i).tags) job

instance {st₁ : Store} : Decidable (SameUse st₁ st job) :=
  inferInstanceAs (Decidable (∀ i, InRun _ _ i → _ ∧ _))

/-- No slot and no location has changed. -/
def Untouched (st st' : Store) : Prop := st'.slots = st.slots ∧ st'.locations = st.locations

/-- A worker changes nothing if it sees that the run of its readback was given up, and
    otherwise only that run, and the location of the tensor it carries. -/
theorem readback_effect {now i : ℕ} {t : Task} {r : Response} (hi : s.store.tasks[i]? = some t)
    (ht : t.readback = some job) (hstep : step c s (.proceed now i) = some (s', r)) :
    Untouched s.store s'.store ∨
      ¬s.store.GivenUp job ∧
      (∀ j, ¬InRun job.baseSlot job.slotCount j → s'.store.slots j = s.store.slots j) ∧
      ∀ tid, tid ≠ (s.store.slots job.baseSlot).tensorId →
        s'.store.locations.lookup tid = s.store.locations.lookup tid := by
  simp only [step, hi, Option.bind_some] at hstep
  have hout : ∀ q j, ¬InRun job.baseSlot job.slotCount j →
      ((s.store.dropTask i).setRunState now job.baseSlot job.slotCount q).slots j =
        s.store.slots j := fun _ _ hj => Store.mapRun_slots_of_not_mem hj
  cases t with
  | readbackTaken job' =>
    cases hstep
    left
    rw [readbackBegin]
    split
    · split <;> exact ⟨rfl, rfl⟩
    · exact ⟨rfl, rfl⟩
  | readbackMissing job' =>
    cases ht
    cases hstep
    refine .inr ⟨fun hgone => hgone.2 ?_, hout .error, fun _ _ => rfl⟩
    exact List.mem_filterMap.2 ⟨_, List.mem_of_getElem? hi, rfl⟩
  | readbackCommit job' ok =>
    cases ht
    cases hstep
    rw [readbackCommit]
    split
    · next hst =>
      right
      refine ⟨fun hgone => hgone.1 hst, ?_⟩
      cases ok with
      | true =>
        exact ⟨hout .pinnedValid, fun tid htid => Store.lookup_updateLocationIfLatest htid⟩
      | false => exact ⟨hout .error, fun _ _ => rfl⟩
    · exact .inl ⟨rfl, rfl⟩
  | readbackIo => cases hstep
  | _ => cases ht

/-- From the moment a readback is queued until it is over, its worker touches only the run
    that was reserved for it, and only the location of the tensor the run was reserved
    for. If the run was given up or used for something else in between, it touches
    nothing. -/
theorem readback_confined {now i : ℕ} {t : Task} {r : Response}
    (h₁ : Reachable c (confined c fun _ => True) s₁) (hjob : job ∈ s₁.store.readbackQueue)
    (h₂ : Reach (· = s₁) (confined c (· ≠ job)) (step c) s₂)
    (h : Reach (· = s₂) (confined c (· ≠ job)) (step c) s)
    (hi : s.store.tasks[i]? = some t) (ht : t.readback = some job)
    (hstep : step c s (.proceed now i) = some (s', r)) :
    (¬SameUse s₁.store s₂.store job → Untouched s.store s'.store) ∧
      (Untouched s.store s'.store ∨
        SameUse s₁.store s.store job ∧
        (∀ j, ¬InRun job.baseSlot job.slotCount j → s'.store.slots j = s.store.slots j) ∧
        ∀ tid, tid ≠ (s₁.store.slots job.baseSlot).tensorId →
          s'.store.locations.lookup tid = s.store.locations.lookup tid) := by
  have hmem₁ : job ∈ s₁.store.readbacks := List.mem_append_left _ hjob
  obtain ⟨hpos, hconf⟩ := h₁.readbacksConfined job hmem₁
  have hbase : InRun job.baseSlot job.slotCount job.baseSlot :=
    ⟨le_rfl, Nat.lt_add_of_pos_right hpos⟩
  have hsame₁ : s₁.store.Confines (fun i τ => τ = (s₁.store.slots i).tags) job :=
    hconf.imp_left fun hres i hi => ⟨(hres i hi).1, rfl⟩
  obtain ⟨hmem₂, hsame₂⟩ := hsame₁.reach h₂ hpos hmem₁
  obtain ⟨-, hsame⟩ := hsame₂.reach h hpos hmem₂
  refine ⟨fun hne => ?_, ?_⟩
  · -- Once the run was given up, the worker will see it.
    have hgone : s₂.store.Confines (fun _ _ => False) job := .inr (hsame₂.resolve_left hne)
    have hgone := (hgone.reach h hpos hmem₂).2.resolve_left fun hres => (hres _ hbase).2
    exact (readback_effect hi ht hstep).resolve_right fun hef => hef.1 hgone
  · refine (readback_effect hi ht hstep).imp_right fun ⟨hgone, hslots, hlocs⟩ => ?_
    have hres := hsame.resolve_right hgone
    refine ⟨hres, hslots, ?_⟩
    rwa [← (Prod.mk.inj (Prod.mk.inj (hres _ hbase).2).2).1]

/-- Two tensors are offloaded and drained. The first is prefetched, and its run is released
    and reserved for a prefetch of the second before the worker takes the job. The worker
    reads the first tensor, and publishes the run as the location of the second. -/
theorem readback_publishes_other :
    ∃ s₁ s, Reached oneSlot s₁ ∧
      Reach (· = s₁) (fun _ _ => True) (step oneSlot) s ∧
      (s₁.store.slots 0).tensorId = 1 ∧ (s.store.slots 0).tensorId = 2 ∧
      s.store.locations.lookup 2 = some ⟨1, .pageable, 0, 2, 4⟩ ∧
      (∃ t job, s.store.tasks[0]? = some t ∧ t.readback = some job ∧
        job ∈ s₁.store.readbackQueue ∧ ¬SameUse s₁.store s.store job) ∧
      ∃ s' r, step oneSlot s (.proceed 8 0) = some (s', r) ∧
        s'.store.locations.lookup 2 = some ⟨1, .pinned, 0, 1, 4⟩ :=
  exists_reach oneSlot (fun _ _ => True) (fun _ _ => True)
    (registers :: offloads 1 1 1 1 [1] ++ offloadsDraining 2 2 1 2 [2] ++
      offloadsDraining 3 3 1 3 [3] ++ [releases 4 3, prefetches 5 1 1])
    [releases 6 4, prefetches 6 2 1, .takeReadback, .proceed 7 0, .io 0 .ok] (by decide +kernel)

/-- The readback of the first cold copy into the slot 0. -/
def readsFirst : ReadbackJob := ⟨0, 1, 1, 4⟩

/-- A tensor is prefetched, and its run is released and lent to an offload before the worker
    takes the job: the worker leaves it alone. -/
theorem readback_confined_released :
    ∃ s₁ s, Reachable oneSlot (confined oneSlot fun _ => True) s₁ ∧
      Reach (· = s₁) (confined oneSlot (· ≠ readsFirst)) (step oneSlot) s ∧
      (readsFirst ∈ s₁.store.readbackQueue ∧ ¬SameUse s₁.store s.store readsFirst ∧
        (∃ t, s.store.tasks[0]? = some t ∧ t.readback = some readsFirst) ∧
        (step oneSlot s (.proceed 7 0)).isSome) ∧
      ∀ s' r, step oneSlot s (.proceed 7 0) = some (s', r) → Untouched s.store s'.store := by
  refine exists_reach_and oneSlot _ _ (registers :: offloads 1 1 1 1 [1] ++
      offloadsDraining 2 2 1 2 [2] ++ [releases 3 2, prefetches 4 1 1])
    (releases 5 3 :: (offloads 5 2 1 4 [2]).take 1 ++ [.takeReadback]) (by decide +kernel) ?_
  rintro s₁ s hs₁ hs ⟨hqueued, hne, ⟨t, ht, hjob⟩, -⟩ s' r hstep
  exact (readback_confined hs₁ hqueued hs (.init rfl) ht hjob hstep).1 hne

end StateSpectre
