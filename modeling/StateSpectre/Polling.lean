import StateSpectre.Copies
import StateSpectre.Prefetch
import StateSpectre.Readbacks

/-!
# Polling a prefetch

A rank that waits for a readback asks again and again, and should be given the same run each
time: at most one run is reserved for reading a version of a tensor back, and every readback that
is queued finds its cold copy (`PollsOnce`).

A prefetch that finds no lease and no resident run searches for a run, and takes two things for
granted: that its location is cold, so that the reference it noted leads to a copy, and that
nobody else has begun to read the same version back, even if the search had to let go of the mutex
for a forced drain. The first is wrong for a tensor whose run is being drained or copied from
(`prefetch_draining_must_fail`): its readback has nothing to read, the run ends in `ERROR`, and the
next poll reserves another one. The second is wrong when two ranks poll while there is no free
run. If both hold whenever a search begins or goes on (`pollRules`), and no cold copy is
forgotten that a queued readback will look for (`pollGuards`), polling is idempotent
(`polls_idempotent`).
-/

namespace StateSpectre

variable {c : Config} {g : Guards} {k : Rules} {x y : Scene} {s s' : State} {st st' : Store}
  {now t v ref : ℕ} {req : RequestPrefetchRequest} {loc : Location} {b n i : ℕ}
  {ownerPid id base : ℕ}

/-! ## What polling should keep -/

/-- The slot waits for the readback of a tensor in a version, under a lease. -/
def SlotEntry.ReadsBack (e : SlotEntry) (t v : ℕ) : Prop :=
  e.state = .readbackInFlight ∧ e.tensorId = t ∧ e.version = v ∧ e.leaseId ≠ 0

/-- At most one run is reserved for reading a version of a tensor back: the slots that wait for it
    are those of one lease. The readbacks that are queued have their cold copies. -/
structure PollsOnce (st : Store) : Prop where
  one : ∀ t v i j, (st.slots i).ReadsBack t v → (st.slots j).ReadsBack t v →
    (st.slots i).leaseId = (st.slots j).leaseId
  queued : ∀ job ∈ st.readbackQueue, (st.coldStore.lookup job.coldRef).isSome

/-- No run is reserved for reading the version back, and the cold copy is there. -/
structure Store.FreshRead (st : Store) (t v ref : ℕ) : Prop where
  unread : ∀ i, ¬(st.slots i).ReadsBack t v
  cold : (st.coldStore.lookup ref).isSome

/-- A search of a prefetch begins, and goes on, only for a cold copy that is there and that nobody
    reads back. -/
def pollRules : Rules := fun s e =>
  match e with
  | .seek (.prefetch req loc v ..) | .resume (.prefetch req loc v ..) =>
    s.store.FreshRead req.tensorId v loc.coldRef
  | _ => True

/-- No cold copy is forgotten that a queued readback will look for. -/
abbrev pollGuards : Guards where
  forgetCold st ref := ∀ job ∈ st.readbackQueue, job.coldRef ≠ ref

instance : DecidableGuards pollGuards where

/-- The location that a prefetch has to search a run for: it is there, in the version wanted, and
    neither a prefetch lease nor the resident run answers. -/
def searchesFor (s : State) (req : RequestPrefetchRequest) : Option Location :=
  (s.store.locations.lookup req.tensorId).filter fun loc =>
    (req.version = 0 ∨ req.version = loc.version) ∧ loc.kind ≠ .none ∧ loc.kind ≠ .deleted ∧
      existingPrefetch s req.tensorId loc.version = none ∧
      ¬(loc.kind = .pinned ∧ s.store.slotState loc.slotId = .pinnedValid)

/-- A poll that is answered without a search. -/
def answersPoll (s : State) : Action → Prop
  | .rpc _ (.prefetch req) => searchesFor s req = none
  | _ => False

/-- The steps under which polling is idempotent: polls that are answered without a search, and
    those that meet the rules. -/
def pollsFresh (c : Config) (s : State) (a : Action) : Prop :=
  pollGuards.ok c s a ∧ (answersPoll s a ∨ pollRules.ok c s a)

/-! ## Slots and moves -/

/-- What can become of a slot, apart from its being reserved for a readback: it goes on, or it is
    lent for a copy, taken for a restore without a lease, or freed. -/
inductive SlotEntry.Turns (e e' : SlotEntry) : Prop
  | goesOn (h : e.Continues e')
  | lent (h : e.state = .free) (h' : e'.state = .reservedD2H)
  | taken (h : e.state = .free) (h' : e'.leaseId = e.leaseId) (hq : e'.state = .readbackInFlight)
  | freed (h : e'.state = .free) (h' : e'.leaseId = 0)

namespace SlotEntry.Turns

variable {e e' : SlotEntry}

theorem refl (e : SlotEntry) : e.Turns e := .goesOn (.refl e)

/-- A slot that waits for a readback under a lease did before, under the same lease. -/
theorem readsBack (h : e.Turns e') (hclean : e.state = .free → e.leaseId = 0)
    (hr : e'.ReadsBack t v) : e.ReadsBack t v ∧ e'.leaseId = e.leaseId := by
  obtain ⟨hq, ht, hv, hid⟩ := hr
  cases h with
  | goesOn h =>
    obtain ⟨hid', htags⟩ := Prod.mk.inj h.tags
    obtain ⟨ht', hv'⟩ := Prod.mk.inj htags
    exact ⟨⟨h.reading hq, ht' ▸ ht, hv' ▸ hv, hid' ▸ hid⟩, hid'⟩
  | lent _ h' => exact nomatch hq.symm.trans h'
  | taken h h' => exact absurd (h'.trans (hclean h)) hid
  | freed h => exact nomatch hq.symm.trans h

/-- A slot that is free has no lease. -/
theorem clean (h : e.Turns e') (hclean : e.state = .free → e.leaseId = 0)
    (hfree : e'.state = .free) : e'.leaseId = 0 := by
  cases h with
  | goesOn h =>
    have hid : e'.leaseId = e.leaseId := (Prod.mk.inj h.tags).1
    exact hid.trans (hclean (by_contra fun hne => h.used hne hfree))
  | lent _ h' => exact nomatch hfree.symm.trans h'
  | taken _ _ hq => exact nomatch hfree.symm.trans hq
  | freed _ h' => exact h'

/-- The slots of a run change. -/
theorem mapRun {f : ℕ → SlotEntry → SlotEntry}
    (h : InRun b n i → (st.slots i).Turns (f (i - b) (st.slots i))) :
    (st.slots i).Turns ((st.mapRun b n f).slots i) := by
  by_cases hi : InRun b n i
  · rw [Store.mapRun_slots_of_mem hi]
    exact h hi
  · rw [Store.mapRun_slots_of_not_mem hi]
    exact .refl _

theorem setRunState {q : SlotState} (hq : q ≠ .free) (hr : q ≠ .readbackInFlight) :
    (st.slots i).Turns ((st.setRunState now b n q).slots i) :=
  mapRun fun _ => .goesOn ⟨rfl, fun _ => hq, fun h => absurd h hr⟩

/-- A run is freed, whatever is done to its slots before. -/
theorem freeSlots (h : (st'.slots i).Turns (st.slots i)) :
    (st'.slots i).Turns ((st.freeSlots now b n).slots i) := by
  rw [Store.freeSlots]
  by_cases hi : InRun b n i
  · rw [Store.mapRun_slots_of_mem hi]
    exact .freed rfl rfl
  · rw [Store.mapRun_slots_of_not_mem hi]
    exact h

end SlotEntry.Turns

/-- Every move lets the slots go on, lends, takes or frees them, or reserves a run for a
    readback. -/
theorem Move.slotTurns (hm : Move c g k x y) :
    (∀ i, (x.1.store.slots i).Turns (y.1.store.slots i)) ∨
      ∃ req loc version ownerPid id base now,
        x.2.1 = some (.prefetch req loc version ownerPid id) ∧
        y = ((grantPrefetch c x.1 now req loc version ownerPid id base).1, none, x.2.2) := by
  cases hm with
  | @readback s h req loc version ownerPid id base now =>
    exact .inr ⟨req, loc, version, ownerPid, id, base, now, rfl, rfl⟩
  | lend hfree | create hfree | candidate hfree =>
    exact .inl fun i => .mapRun fun hi => .lent (hfree i hi) rfl
  | warm hfree => exact .inl fun i => .mapRun fun hi => .taken (hfree i hi) rfl rfl
  | force | enqueue =>
    exact .inl fun i => .setRunState (q := .drainInFlight) nofun nofun
  | drainSettled =>
    exact .inl fun i => .mapRun (f := fun _ e => { e with coldRef := _ }) fun _ =>
      .goesOn ⟨rfl, fun h => h, fun h => h⟩
  | drainFailed | readbackDone | warmDone =>
    exact .inl fun i => .setRunState (q := .pinnedValid) nofun nofun
  | readbackMissing | readbackFailed =>
    exact .inl fun i => .setRunState (q := .error) nofun nofun
  | submit _ _ hq =>
    refine .inl fun i => .mapRun fun _ => .goesOn ⟨rfl, fun _ => ?_, fun hr => ?_⟩
    · rcases hq with ⟨-, rfl⟩ | ⟨-, rfl⟩ <;> exact nofun
    · rcases hq with ⟨-, rfl⟩ | ⟨-, rfl⟩ <;> cases hr
  | publish | keepPinned =>
    exact .inl fun i => .mapRun (f := fun _ e =>
      { e with completeSeq := _, state := .pinnedValid, lastTouchNs := _ }) fun _ =>
      .goesOn ⟨rfl, fun _ => nofun, fun hr => nomatch hr⟩
  | reclaim => exact .inl fun i => .freeSlots (.refl _)
  | reclaimMarked _ hq =>
    refine .inl fun i => .freeSlots (.setRunState ?_ ?_)
    · rcases hq with rfl | rfl <;> exact nofun
    · rcases hq with rfl | rfl <;> exact nofun
  | _ => exact .inl fun i => .refl _

/-- Where the search of a prefetch comes from: it was under way, or begins or goes on now. No cold
    copy is forgotten meanwhile. -/
theorem Move.searchOf {ownerPid id : ℕ} (hm : Move c g k x y)
    (hy : y.2.1 = some (.prefetch req loc v ownerPid id)) :
    (∀ ref, (x.1.store.coldStore.lookup ref).isSome →
      (y.1.store.coldStore.lookup ref).isSome) ∧
      (x.2.1 = y.2.1 ∨ k x.1 (.seek (.prefetch req loc v ownerPid id)) ∨
        ∃ i, k { x.1 with store := x.1.store.dropTask i }
          (.resume (.prefetch req loc v ownerPid id))) := by
  cases hm with
  | seek hplain =>
    cases hy
    exact hplain.elim
  | seekPrefetch _ _ hk =>
    cases hy
    exact ⟨fun _ h => h, .inr (.inl hk)⟩
  | drainSettled _ _ _ _ hres =>
    exact ⟨fun _ h => Table.isSome_lookup_insert h, .inr (.inr ⟨_, hres _ hy⟩)⟩
  | reclaim | reclaimMarked | freed | leaveRun | forgot => exact ⟨fun _ h => h, .inl rfl⟩
  | _ => exact nomatch hy

/-! ## The invariant -/

/-- Polls are idempotent, free slots have no lease, and the search under way, if it is one of a
    prefetch, is for a cold copy that nobody reads back. -/
structure Polled (x : Scene) : Prop where
  once : PollsOnce x.1.store
  clean : ∀ i, (x.1.store.slots i).state = .free → (x.1.store.slots i).leaseId = 0
  search : ∀ req loc v ownerPid id, x.2.1 = some (.prefetch req loc v ownerPid id) →
    x.1.store.FreshRead req.tensorId v loc.coldRef

/-- What nobody reads back is not read back if no run is reserved for it. -/
theorem Store.FreshRead.turns (h : st.FreshRead t v ref)
    (hclean : ∀ i, (st.slots i).state = .free → (st.slots i).leaseId = 0)
    (hs : ∀ i, (st.slots i).Turns (st'.slots i)) (hcold : (st'.coldStore.lookup ref).isSome) :
    st'.FreshRead t v ref :=
  ⟨fun i hi => h.unread i ((hs i).readsBack (hclean i) hi).1, hcold⟩

/-- A slot is reserved for the readback of a prefetch, or stays as it is. -/
theorem slots_grantPrefetch (hs : s' = (grantPrefetch c s now req loc v ownerPid id base).1)
    (i : ℕ) :
    s'.store.slotState i = .readbackInFlight ∧ (s'.store.slots i).tags = (id, req.tensorId, v) ∨
      s'.store.slots i = s.store.slots i := by
  subst hs
  by_cases hi : InRun base (c.slotsForBytes loc.nbytes) i
  · exact .inl ⟨congrArg SlotEntry.state (onRun_of_mem hi),
      congrArg SlotEntry.tags (onRun_of_mem hi)⟩
  · exact .inr (onRun_of_not_mem hi)

namespace Polled

variable (h : Polled x)

include h

/-- The leases do not count. -/
theorem congr {n : ℕ} {leases : Table ℕ Lease}
    (hs : s'.store = { x.1.store with nextLeaseId := n, leases := leases }) :
    Polled (s', none, {}) := by
  refine ⟨⟨?_, ?_⟩, ?_, nofun⟩ <;> rw [hs]
  exacts [h.once.one, h.once.queued, h.clean]

/-- A run is reserved for a readback that nobody has begun. -/
theorem readback {hand : Hand} (hx : x.2.1 = some (.prefetch req loc v ownerPid id)) :
    Polled ((grantPrefetch c x.1 now req loc v ownerPid id base).1, none, hand) := by
  obtain ⟨hunread, hcold⟩ := h.search _ _ _ _ _ hx
  generalize hs : (grantPrefetch c x.1 now req loc v ownerPid id base).1 = s'
  have hslots := slots_grantPrefetch hs.symm
  refine ⟨⟨fun t' v' i j hi hj => ?_, fun job hjob => ?_⟩, fun i hi => ?_, nofun⟩
  · rcases hslots i with ⟨-, htags⟩ | heq <;> rcases hslots j with ⟨-, htags'⟩ | heq'
    · exact (Prod.mk.inj htags).1.trans (Prod.mk.inj htags').1.symm
    · obtain ⟨ht, hv⟩ := Prod.mk.inj (Prod.mk.inj htags).2
      rw [heq', ← hi.2.1, ← hi.2.2.1, ht, hv] at hj
      exact absurd hj (hunread j)
    · obtain ⟨ht, hv⟩ := Prod.mk.inj (Prod.mk.inj htags').2
      rw [heq, ← hj.2.1, ← hj.2.2.1, ht, hv] at hi
      exact absurd hi (hunread i)
    · rw [heq] at hi ⊢
      rw [heq'] at hj ⊢
      exact h.once.one t' v' i j hi hj
  · subst hs
    rcases List.mem_append.1 hjob with hjob | hjob
    · exact h.once.queued job hjob
    · rw [List.mem_singleton.1 hjob]
      exact hcold
  · rcases hslots i with ⟨hq, -⟩ | heq
    · exact nomatch hq.symm.trans hi
    · rw [heq] at hi ⊢
      exact h.clean i hi

/-- The readbacks that are queued keep their cold copies. -/
theorem move_queued (hm : Move c pollGuards k x y) :
    ∀ job ∈ y.1.store.readbackQueue, (y.1.store.coldStore.lookup job.coldRef).isSome := by
  cases hm with
  | readback => exact (h.readback rfl).once.queued
  | takeReadback hq =>
    intro job hjob
    exact h.once.queued job (hq ▸ List.mem_cons_of_mem _ hjob)
  | forgetCold hforget =>
    intro job hjob
    refine (congrArg Option.isSome (Table.lookup_erase ..)).trans ?_
    rw [if_neg (hforget job hjob)]
    exact h.once.queued job hjob
  | drainSettled =>
    exact fun job hjob => Table.isSome_lookup_insert (h.once.queued job hjob)
  | _ => exact h.once.queued

/-- The search under way goes on for something that nobody reads back, and begins so. -/
theorem move_search (hm : Move c g pollRules x y) :
    ∀ req loc v ownerPid id, y.2.1 = some (.prefetch req loc v ownerPid id) →
      y.1.store.FreshRead req.tensorId v loc.coldRef := by
  intro req loc v ownerPid id hy
  have hs : ∀ i, (x.1.store.slots i).Turns (y.1.store.slots i) := by
    rcases hm.slotTurns with hs | ⟨_, _, _, _, _, _, _, -, rfl⟩
    · exact hs
    · exact nomatch hy
  obtain ⟨hcold, hfrom⟩ := hm.searchOf hy
  have hfresh : x.1.store.FreshRead req.tensorId v loc.coldRef := by
    rcases hfrom with hx | hk | ⟨i, hk⟩
    · exact h.search _ _ _ _ _ (hx.trans hy)
    · exact hk
    · exact ⟨hk.unread, hk.cold⟩
  exact hfresh.turns h.clean hs (hcold _ hfresh.cold)

theorem move (hm : Move c pollGuards pollRules x y) : Polled y := by
  rcases hm.slotTurns with hs | ⟨req, loc, v, ownerPid, id, base, now, hx, rfl⟩
  · refine ⟨⟨fun t v i j hi hj => ?_, h.move_queued hm⟩, fun i => (hs i).clean (h.clean i),
      h.move_search hm⟩
    obtain ⟨hi, hid⟩ := (hs i).readsBack (h.clean i) hi
    obtain ⟨hj, hid'⟩ := (hs j).readsBack (h.clean j) hj
    rw [hid, hid']
    exact h.once.one t v i j hi hj
  · exact h.readback hx

end Polled

/-! ## Runs -/

/-- A poll that is answered without a search draws a lease at most. -/
theorem handleRequestPrefetch_unsearched (c : Config) (now : ℕ) (h : searchesFor s req = none) :
    ∃ n leases, (handleRequestPrefetch c s now req).1.store =
      { s.store with nextLeaseId := n, leases := leases } := by
  have hsame : ∃ n leases, s.store = { s.store with nextLeaseId := n, leases := leases } :=
    ⟨_, _, rfl⟩
  unfold handleRequestPrefetch
  split
  · exact hsame
  split
  · exact hsame
  next loc hloc =>
  rw [searchesFor, hloc, Option.filter_some] at h
  dsimp only
  by_cases hv : (if req.version = 0 then loc.version else req.version) ≠ loc.version
  · rw [if_pos hv]
    exact hsame
  rw [if_neg hv]
  split
  · exact hsame
  next hkind =>
  split
  · exact hsame
  next hnone =>
  rw [newPrefetch]
  split
  · exact ⟨_, _, rfl⟩
  next hres =>
  -- A search is the only case left.
  rw [not_or] at hkind
  have hversion : req.version = 0 ∨ req.version = loc.version := by
    by_contra hne
    rw [not_or] at hne
    rw [if_neg hne.1] at hv
    exact hv hne.2
  rw [if_pos (decide_eq_true ⟨hversion, hkind.1, hkind.2, hnone, hres⟩)] at h
  cases h

/-- In every run in which searches of prefetches begin and go on only for cold copies that are
    there and that nobody reads back, and no cold copy is forgotten that a queued readback will look
    for, polling is idempotent. -/
theorem polls_idempotent (h : Reachable c (pollsFresh c) s) : PollsOnce s.store := by
  have hpolled : Polled (s, none, {}) := by
    refine Reach.invariant (motive := fun s => Polled (s, none, {})) ?_ ?_ h
    · rintro _ rfl
      exact ⟨⟨fun _ _ _ _ hi => (nomatch hi.1), fun _ hjob => (nomatch hjob)⟩, fun _ _ => rfl,
        nofun⟩
    · rintro s a s' r hs ⟨hg, hanswer | hk⟩ hstep
      · unfold answersPoll at hanswer
        split at hanswer
        · next now req =>
          obtain ⟨rfl, -⟩ := Prod.mk.inj (Option.some.inj hstep)
          obtain ⟨n, leases, hstore⟩ := handleRequestPrefetch_unsearched c now hanswer
          exact hs.congr hstore
        · exact hanswer.elim
      · exact (step_moves hg hk hstep).invariant (fun _ _ hx hxy => hx.move hxy) hs
  exact hpolled.once

/-- A tensor is prefetched while its run is to be drained: a run is reserved for a readback that
    has no cold copy to read, as the location is still the pinned one. -/
theorem prefetch_draining_must_fail :
    ∃ s, Reached twoSlots s ∧
      (s.store.slotState 0 = .drainInFlight ∧ ∃ job ∈ s.store.readbackQueue,
        s.store.slotState job.baseSlot = .readbackInFlight ∧
          s.store.coldStore.lookup job.coldRef = none) ∧ ¬PollsOnce s.store := by
  refine exists_reachable_and twoSlots _ (registers :: offloads 1 1 1 1 [1] ++ [prefetches 2 1 1])
    (by decide +kernel) ?_
  rintro s - ⟨-, job, hjob, -, hnone⟩ h
  exact nomatch hnone ▸ h.queued job hjob

/-! ## The first readback -/

/-- No prefetch searches for a run. -/
def unsearchedRules : Rules := fun _ e =>
  match e with
  | .seek (.prefetch ..) | .resume (.prefetch ..) => False
  | _ => True

instance {e : Event} : Decidable (unsearchedRules s e) := by
  induction e using Event.casesOn with
  | seek p | resume p =>
    induction p using Purpose.casesOn <;> dsimp only [unsearchedRules] <;> infer_instance
  | _ =>
    dsimp only [unsearchedRules]
    infer_instance

theorem pollRules_of_unsearched {e : Event} (h : unsearchedRules s e) : pollRules s e := by
  unfold pollRules
  split
  · exact h.elim
  · exact h.elim
  · trivial

/-- No slot waits for a readback under a lease, and none will by the search under way. -/
structure Unsearched (x : Scene) : Prop where
  clean : ∀ i, (x.1.store.slots i).state = .free → (x.1.store.slots i).leaseId = 0
  unread : ∀ t v i, ¬(x.1.store.slots i).ReadsBack t v
  search : ∀ req loc v ownerPid id, x.2.1 ≠ some (.prefetch req loc v ownerPid id)

theorem Unsearched.move (h : Unsearched x) (hm : Move c g unsearchedRules x y) : Unsearched y := by
  rcases hm.slotTurns with hs | ⟨_, _, _, _, _, _, _, hx, -⟩
  · refine ⟨fun i => (hs i).clean (h.clean i),
      fun t v i hi => h.unread t v i ((hs i).readsBack (h.clean i) hi).1, ?_⟩
    intro req loc v ownerPid id hy
    rcases (hm.searchOf hy).2 with hx | hk | ⟨_, hk⟩
    · exact h.search _ _ _ _ _ (hx.trans hy)
    · exact hk
    · exact hk
  · exact absurd hx (h.search _ _ _ _ _)

/-- No slot waits for a readback under a lease until a prefetch searches for a run. -/
theorem unread_of_unsearched (h : Reachable c (unsearchedRules.ok c) s) (t v i : ℕ) :
    ¬(s.store.slots i).ReadsBack t v := by
  have hs : Unsearched (s, none, {}) := by
    refine h.invariant_of_rules ⟨fun _ _ => rfl, fun _ _ _ hr => ?_, nofun⟩ fun _ _ hx hxy =>
      hx.move hxy
    exact nomatch hr.1
  exact hs.unread t v i

/-- A prefetch meets the rules if the copy that its location refers to is there, and nobody reads
    it back. -/
theorem pollRules_ok_prefetch (h : ∀ loc, s.store.locations.lookup req.tensorId = some loc →
      s.store.FreshRead req.tensorId loc.version loc.coldRef) :
    pollRules.ok c s (.rpc now (.prefetch req)) := by
  change pollRules.Met (prefetchEvents c s req)
  unfold prefetchEvents
  split
  · exact List.forall_mem_nil _
  next loc hloc =>
  split
  · refine Rules.met_cons.2 ⟨h loc hloc, fun m hm => ?_⟩
    obtain ⟨base, -, hm⟩ := List.mem_flatMap.1 hm
    rw [List.mem_singleton.1 hm]
    trivial
  · exact List.forall_mem_nil _

/-- A tensor is offloaded and drained for another one, whose run is then released. It is
    prefetched, and its readback is queued. -/
theorem polls_idempotent_first :
    ∃ s, Reachable oneSlot (pollsFresh oneSlot) s ∧ s.store.readbackQueue ≠ [] ∧
      PollsOnce s.store := by
  obtain ⟨s, loc, hs, hloc, hcold, hg, s', r, hstep, hqueue⟩ := exists_reachable₂ oneSlot
    (fun s a => pollGuards.ok oneSlot s a ∧ unsearchedRules.ok oneSlot s a)
    (p := fun s loc => s.store.locations.lookup 1 = some loc ∧
      (s.store.coldStore.lookup loc.coldRef).isSome ∧ pollGuards.ok oneSlot s (prefetches 4 1 1) ∧
      ∃ s' r, step oneSlot s (prefetches 4 1 1) = some (s', r) ∧
        s'.store.readbackQueue.isEmpty = false)
    (registers :: offloads 1 1 1 1 [1] ++ offloadsDraining 2 2 1 2 [2] ++ [releases 3 2])
    (by decide +kernel)
  have hunread := unread_of_unsearched (hs.mono fun _ _ h => h.2)
  have hrules : pollRules.ok oneSlot s (prefetches 4 1 1) := by
    refine pollRules_ok_prefetch fun loc' hloc' => ⟨hunread _ _, ?_⟩
    cases hloc.symm.trans hloc'
    exact hcold
  have hs₀ : Reachable oneSlot (pollsFresh oneSlot) s := by
    exact hs.mono fun s a h => ⟨h.1, .inr fun m hm => pollRules_of_unsearched (h.2 m hm)⟩
  have hs' : Reachable oneSlot (pollsFresh oneSlot) s' := .step hs₀ ⟨hg, .inr hrules⟩ hstep
  exact ⟨s', hs', by simpa using hqueue, polls_idempotent hs'⟩

end StateSpectre
