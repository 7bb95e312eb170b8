import Mathlib.Algebra.BigOperators.Ring.Finset
import StateSpectre.Books
import StateSpectre.Holds
import StateSpectre.LeaseIds

/-!
# The byte gauges

The daemon keeps four gauges of bytes: those of the slots in use, from which it tells how full the
pinned memory is, and those of the runs that are copied from a GPU, to a GPU, and to a cold tier.
They should be what the slot table says (`GaugesExact`), but each handler changes them by hand.

A run that a restore reads a cold object into is counted only once it is read: until then the
gauge shows too little, and if the run is freed because it could not be read, the gauge wraps below
zero (`restore_not_counted`). A lease that is dropped while the copy of its run is under way leaves
the bytes of that copy in the gauge for ever, and a run that is freed twice is subtracted twice.
Where none of this happens (`bookGuards`, `bookRules`), every move keeps the books
(`Books.move`), and the gauges are exact in every state (`gauges_exact`).
-/

namespace StateSpectre

variable {c : Config} {g : Guards} {k : Rules} {x y : Scene} {s : State} {st : Store} {b n : ℕ}
  {id : ℕ} {L : Lease} {j : ℕ} {q : SlotState} {nbytes : ℕ}

/-! ## Uses -/

/-- A free run that a size takes has a first slot. -/
theorem Store.RunFree.head (hfree : st.RunFree b (c.slotsForBytes nbytes))
    (hwhole : c.slotsForBytes nbytes = c.slotsSpanned nbytes) : st.slotState b = .free :=
  hfree b ⟨le_rfl, Nat.lt_add_of_pos_right (c.slotsForBytes_pos hwhole)⟩

section Uses

variable (hm : Move c g k x y) (hs : Sound c .all x.1.store x.2.1)

include hm hs

/-- A lease of a run that was not free is on a run in use. -/
theorem Move.lease_used (hg : g.Implies (contentGuards c .all))
    (hL : y.1.store.leases.lookup id = some L)
    (hlive : x.1.store.slotState L.baseSlot ≠ .free) : x.1.store.Used L.baseSlot := by
  -- A run that is lent is free.
  have hinsert : ∀ {id' nbytes : ℕ} {L' : Lease}, x.1.store.RunFree L'.baseSlot
      (c.slotsForBytes nbytes) → c.slotsForBytes nbytes = c.slotsSpanned nbytes →
      (x.1.store.leases.insert id' L').lookup id = some L → x.1.store.Used L.baseSlot := by
    intro id' nbytes L' hfree hwhole hL
    rcases Table.lookup_insert_eq_some.1 hL with ⟨-, rfl⟩ | ⟨-, hL⟩
    · exact absurd (hfree.head hwhole) hlive
    · exact Store.used_of_lease hL
  cases hm with
  | lend hfree hl | create hfree hl | candidate hfree hl => exact hinsert hfree (hg.lend hl) hL
  | readback hfree => exact hinsert hfree (hs.purpose _ rfl).2.whole hL
  | bind _ hloc hkind =>
    rcases Table.lookup_insert_eq_some.1 hL with ⟨-, rfl⟩ | ⟨-, hL⟩
    · exact Store.used_of_resident hloc hkind
    · exact Store.used_of_lease hL
  | drainSettled | fallBack | release | dropLease | unlinkObject | discard =>
    exact Store.used_of_lease (Table.lookup_of_lookup_erase hL)
  | endSession => exact Store.used_of_lease (Table.lookup_eraseAll_eq_some.1 hL).2
  | rehash hr => exact Store.used_of_lease ((hr.lookup_eq id).symm.trans hL)
  | _ => exact Store.used_of_lease hL

/-- A pinned location is at a run in use. -/
theorem Move.location_used {t : ℕ} {loc : Location}
    (hloc : y.1.store.locations.lookup t = some loc) (hkind : loc.kind = .pinned) :
    x.1.store.Used loc.slotId := by
  have hupdate : ∀ {st : Store} {t' v slotId cref nbytes : ℕ} {kind : LocationKind},
      st.locations = x.1.store.locations → x.1.store.Used slotId →
      (st.updateLocationIfLatest t' v kind slotId cref nbytes).locations.lookup t = some loc →
      x.1.store.Used loc.slotId := by
    intro st t' v slotId cref nbytes kind hst hu hloc
    rw [Store.updateLocationIfLatest, hst] at hloc
    dsimp only at hloc
    split at hloc
    · rcases Table.lookup_insert_eq_some.1 hloc with ⟨-, rfl⟩ | ⟨-, hloc⟩
      · exact hu
      · exact Store.used_of_resident hloc hkind
    · exact Store.used_of_resident hloc hkind
  have hmodify : ∀ {t' : ℕ} {f : Location → Location},
      (∀ loc, (f loc).kind ≠ .pinned ∨ f loc = loc) →
      (x.1.store.locations.modify t' f).lookup t = some loc → x.1.store.Used loc.slotId := by
    intro t' f hf hloc
    rcases Table.lookup_modify_eq_some.1 hloc with ⟨-, loc', hloc', rfl⟩ | ⟨-, hloc⟩
    · have hsame := (hf loc').resolve_left (not_not.2 hkind)
      rw [hsame] at hkind ⊢
      exact Store.used_of_resident hloc' hkind
    · exact Store.used_of_resident hloc hkind
  cases hm with
  | publish hL | keepPinned hL => exact hupdate rfl (Store.used_of_lease hL) hloc
  | drainSettled hi | readbackDone hi =>
    exact hupdate rfl (Store.used_of_work (Store.mem_works hi rfl)) hloc
  | warmDone hi =>
    rcases Table.lookup_insert_eq_some.1 hloc with ⟨-, rfl⟩ | ⟨-, hloc⟩
    · exact Store.used_of_work (Store.mem_works hi rfl)
    · exact Store.used_of_resident hloc hkind
  | fallBack _ _ hcold =>
    refine hmodify (fun loc' => ?_) hloc
    unfold Location.fallBack
    split
    · exact .inl (hs.kinds.stored _ _ (Store.h2dCold_eq_some hcold).2).ne_pinned
    · exact .inr rfl
  | release =>
    refine hmodify (fun loc' => ?_) hloc
    unfold Location.forget
    split
    · exact .inl (by rintro ⟨⟩)
    · exact .inr rfl
  | unlinkObject | discard =>
    exact Store.used_of_resident (Table.lookup_of_lookup_erase hloc) hkind
  | _ => exact Store.used_of_resident hloc hkind

/-- The work on a run that was not free is work on a run in use. -/
theorem Move.work_used {w : Work} (hw : w ∈ y.1.store.works)
    (hlive : x.1.store.slotState w.base ≠ .free) : x.1.store.Used w.base := by
  have hadd : ∀ {st : Store} {t : Task}, w ∈ (st.addTask t).works →
      t.work = some w ∨ w ∈ st.works := by
    intro st t hw
    simpa [eq_comm] using (Store.works_addTask ..).mem_iff.1 hw
  -- A task is followed by one at the same run.
  have hnext : ∀ {j : ℕ} {t t' : Task}, x.1.store.tasks[j]? = some t →
      (∀ w, t'.work = some w → ∃ w', t.work = some w' ∧ w'.base = w.base) →
      w ∈ ((x.1.store.dropTask j).addTask t').works → x.1.store.Used w.base := by
    intro j t t' hj ht hw
    rcases hadd hw with hw | hw
    · obtain ⟨w', hw', hb⟩ := ht w hw
      exact hb ▸ Store.used_of_work (Store.mem_works hj hw')
    · exact Store.used_of_work (Store.mem_works_dropTask hw)
  cases hm with
  | warm hfree =>
    rcases hadd hw with hw | hw
    · cases hw
      -- A run that is read into is free.
      exact absurd (hfree.head (hs.purpose _ rfl).1) hlive
    · exact Store.used_of_work hw
  | force hL =>
    rcases hadd hw with hw | hw
    · cases hw
      exact Store.used_of_lease hL
    · exact Store.used_of_work hw
  | startPull _ ht =>
    rcases hadd hw with hw | hw
    · cases (Task.work_of_pull ht).symm.trans hw
    · exact Store.used_of_work hw
  | @enqueue s h now id L st seq hL =>
    have hw : w = DrainJob.work ⟨L.baseSlot, L.slotCount⟩ ∨ w ∈ s.store.works := by
      simp only [Store.works, Store.enqueueDrain, List.map_append, List.map_singleton,
        List.mem_append, List.mem_singleton] at hw ⊢
      tauto
    rcases hw with rfl | hw
    · exact Store.used_of_lease hL
    · exact Store.used_of_work hw
  | @readback s h req loc version ownerPid id base now hfree =>
    have hw : w = ReadbackJob.work
        ⟨base, c.slotsForBytes loc.nbytes, loc.coldRef, loc.nbytes⟩ ∨ w ∈ s.store.works := by
      simp only [Store.works, grantPrefetch, Store.reserve, List.map_append, List.map_singleton,
        List.mem_append, List.mem_singleton] at hw ⊢
      tauto
    rcases hw with rfl | hw
    · exact absurd (hfree.head (hs.purpose _ rfl).2.whole) hlive
    · exact Store.used_of_work hw
  | takeDrain hq => exact Store.used_of_work ((Store.works_takeDrain hq).mem_iff.1 hw)
  | takeReadback hq => exact Store.used_of_work ((Store.works_takeReadback hq).mem_iff.1 hw)
  | drainBegin hj | drainCopied hj | readbackFound hj | readbackLost hj | readbackRead hj
  | warmRead hj => exact hnext hj (by rintro _ ⟨⟩; exact ⟨_, rfl, rfl⟩) hw
  | stage hj =>
    refine hnext hj ?_ hw
    rintro _ ⟨⟩
  | nextPull hj _ ht => exact hnext hj (by rw [Task.work_of_pull ht]; rintro _ ⟨⟩) hw
  | drainSettled | drainFailed | readbackMissing | readbackFailed | readbackDone | warmDone
  | warmFailed | failPull | endPull | dropTask =>
    exact Store.used_of_work (Store.mem_works_dropTask hw)
  | _ => exact Store.used_of_work hw

theorem Move.uses (hg : g.Implies (contentGuards c .all)) : Uses x y where
  live b hb := by
    have hrun := (hs.move hg hm).contents.runs b hb
    exact hrun.run.live b hrun.run.inRun
  used b hb hlive := by
    obtain ⟨id, L, hL, rfl⟩ | ⟨t, loc, hloc, hkind, rfl⟩ | ⟨w, hw, rfl⟩ := Store.used_iff.1 hb
    · exact hm.lease_used hs hg hL hlive
    · exact hm.location_used hs hloc hkind
    · exact hm.work_used hs hw hlive
  freeing r hr := hm.freeing hr

end Uses

/-! ## Conditions -/

/-- A run of `n` slots starts at the slot `b`, if the table is read from its first slot. -/
def Store.isRun (c : Config) (st : Store) (b n : ℕ) : Bool :=
  startsAt (st.extent c) st.inUse b && n == st.extent c b

instance : Decidable (st.Leased b) :=
  decidable_of_iff (∃ r ∈ st.leases.rows, r.2.baseSlot = b) <| by
    simp only [Store.Leased, Prod.exists, Table.mem_rows]

/-- Every slot of the plan with a copy under way between it and a GPU has a lease. -/
abbrev Store.FlightsLeased (c : Config) (st : Store) : Prop :=
  ∀ w ∈ c.plan.windows, ∀ b ∈ w.slotIds, st.InFlight b → st.Leased b

/-- Beside what the contents of runs ask for, runs are freed one by one and as a whole, and no
    lease is dropped whose run has a copy under way. -/
abbrev bookGuards (c : Config) : Guards :=
  { contentGuards c .all with
    reclaim := fun st b n => (contentGuards c .all).reclaim st b n ∧ st.isRun c b n
    release := fun st L => ¬st.InFlight L.baseSlot
    dropLocation := fun st _ => st.FlightsLeased c }

instance : DecidableGuards (bookGuards c) where

theorem bookGuards_implies : (bookGuards c).Implies (contentGuards c .all) :=
  { Guards.Implies.refl (contentGuards c .all) with
    reclaim := And.left
    release := fun _ => trivial
    dropLocation := fun _ => trivial }

def Purpose.restores : Purpose → Bool
  | .restore .. => true
  | _ => false

/-- No object is restored from its cold copy, and neither the end of a session nor the end of a
    drain drops a lease whose run has a copy under way. -/
def bookRules : Rules := fun s e =>
  match e with
  | .seek p | .resume p => p.restores = false
  | .settle w => ∀ L, s.store.leases.lookup w.leaseId = some L → ¬s.store.InFlight L.baseSlot
  | .endSession rankId => ∀ ses, s.sessions.lookup rankId = some ses →
      ∀ r ∈ sessionLeases s rankId ses.rankEpoch, ¬s.store.InFlight r.2.baseSlot
  | _ => True

instance {e : Event} : Decidable (bookRules s e) := by
  induction e using Event.casesOn <;> dsimp only [bookRules] <;> infer_instance

/-! ## Warming -/

def Task.restores : Task → Bool
  | .restoreIo .. | .restoreCommit .. => true
  | _ => false

/-- Nobody is about to read a cold copy of an object into a run. -/
structure Unwarmed (x : Scene) : Prop where
  search : ∀ p, x.2.1 = some p → p.restores = false
  tasks : ∀ t ∈ x.1.store.tasks, t.restores = false

theorem Unwarmed.move (h : Unwarmed x) (hm : Move c g bookRules x y) : Unwarmed y := by
  have hnone : ∀ p, (none : Option Purpose) = some p → p.restores = false := nofun
  have hdrop : ∀ {j : ℕ}, ∀ t ∈ (x.1.store.dropTask j).tasks, t.restores = false := fun t ht =>
    h.tasks t (List.mem_of_mem_eraseIdx ht)
  have hadd : ∀ {t : Task} {ts : List Task}, t.restores = false →
      (∀ t ∈ ts, t.restores = false) → ∀ t' ∈ t :: ts, t'.restores = false := by
    intro t ts ht hts
    exact List.forall_mem_cons.2 ⟨ht, hts⟩
  have hpull : ∀ {t : Task} {l : PullLocals}, t.pull = some l → t.restores = false := by
    intro t l ht
    cases t <;> first | rfl | cases ht
  cases hm with
  | seek _ _ _ _ hk =>
    refine ⟨?_, h.tasks⟩
    rintro _ ⟨⟩
    exact hk
  | seekPrefetch | seekCreate | seekCandidate =>
    refine ⟨?_, h.tasks⟩
    rintro _ ⟨⟩
    rfl
  | warm => exact nomatch h.search _ rfl
  | force | takeDrain | takeReadback => exact ⟨hnone, hadd rfl h.tasks⟩
  | startPull _ ht => exact ⟨hnone, hadd (hpull ht) h.tasks⟩
  | drainBegin | drainCopied | readbackFound | readbackLost | readbackRead | stage =>
    exact ⟨hnone, hadd rfl hdrop⟩
  | nextPull _ _ ht => exact ⟨hnone, hadd (hpull ht) hdrop⟩
  | warmRead hj | warmDone hj | warmFailed hj => exact nomatch h.tasks _ (List.mem_of_getElem? hj)
  | drainSettled _ _ _ _ hgo => exact ⟨hgo, hdrop⟩
  | drainFailed | readbackMissing | readbackFailed | readbackDone | failPull | endPull | dropTask =>
    exact ⟨hnone, hdrop⟩
  | reclaim | reclaimMarked | freed | leaveRun | forgot => exact ⟨h.search, h.tasks⟩
  | _ => exact ⟨hnone, h.tasks⟩

/-! ## Moves -/

namespace Store

/-- A lease on another run is dropped. -/
theorem Leased.erase (h : st.Leased b) (hne : ∀ L, st.leases.lookup id = some L → L.baseSlot ≠ b) :
    ∃ id' L, (st.leases.erase id).lookup id' = some L ∧ L.baseSlot = b := by
  obtain ⟨id', L, hL, hb⟩ := h
  refine ⟨id', L, Table.lookup_erase_eq_some.2 ⟨?_, hL⟩, hb⟩
  rintro rfl
  exact hne L hL hb

/-- A lease is added under a new id. -/
theorem Leased.insert {L' : Lease} (h : st.Leased b) (hnew : st.leases.lookup id = none) :
    ∃ id' L, (st.leases.insert id L').lookup id' = some L ∧ L.baseSlot = b := by
  obtain ⟨id', L, hL, hb⟩ := h
  refine ⟨id', L, Table.lookup_insert_eq_some.2 (.inr ⟨?_, hL⟩), hb⟩
  rintro rfl
  cases hnew.symm.trans hL

/-- A task is followed by one that is at the same run. -/
theorem Worked.nextTask {t t' : Task} (h : st.Worked b) (hj : st.tasks[j]? = some t)
    (ht : ∀ w, t.work = some w → ∃ w', t'.work = some w' ∧ w.Follows w') :
    ((st.dropTask j).addTask t').Worked b := by
  obtain ⟨w, hw, hb⟩ := h
  obtain ⟨w', hw', hf⟩ := mem_works_nextTask hj ht hw
  exact ⟨w', hw', hf.base.trans hb⟩

/-- A task is over that is at another run. -/
theorem Worked.dropTask {t : Task} (h : st.Worked b) (hj : st.tasks[j]? = some t)
    (ht : ∀ w, t.work = some w → w.base ≠ b) : (st.dropTask j).Worked b := by
  obtain ⟨w, hw, hb⟩ := h
  exact ⟨w, (mem_works_split hj hw).resolve_left fun hw => ht w hw hb, hb⟩

end Store

/-- A run is lent. -/
theorem Books.lend {R B : Finset ℕ} {id now flags : ℕ} {cold : Option ℕ} (h : Books c x R B)
    (hu : Uses x y) (hfree : x.1.store.RunFree L.baseSlot L.slotCount)
    (hcount : c.slotsForBytes L.nbytes = L.slotCount)
    (hwhole : c.slotsForBytes L.nbytes = c.slotsSpanned L.nbytes)
    (hplan : c.Planned L.baseSlot L.slotCount) (hnone : x.1.store.leases.lookup id = none)
    (hslots : y.1.store.slots = (x.1.store.reserve c.allocationGranularityBytes now id L flags q
      cold).slots)
    (hleases : y.1.store.leases = x.1.store.leases.insert id L)
    (hloc : y.1.store.locations = x.1.store.locations)
    (hworks : ∀ w ∈ y.1.store.works, w ∈ x.1.store.works ∨ w.base = L.baseSlot)
    (hkept : ∀ w ∈ x.1.store.works, w ∈ y.1.store.works) (hq : q ≠ .free) (hq' : ¬q.Counted)
    (hg : y.1.gauges = (x.1.usePinned c L.slotCount).gauges) :
    Books c y (insert L.baseSlot R) (insert L.baseSlot B) := by
  have hself : InRun L.baseSlot L.slotCount L.baseSlot := by
    rw [← hcount]
    exact ⟨le_rfl, Nat.lt_add_of_pos_right (c.slotsForBytes_pos hwhole)⟩
  refine h.reserve hu (q := q) hfree hcount hwhole hplan ?_ (fun i hi => ?_) hq hq' (fun i hi => ?_)
    (fun a ha => ?_) ⟨fun a _ _ hl => ?_, fun a _ _ hw => ?_⟩ hg
  · rw [hslots]
    refine (congrArg SlotEntry.nbytes (onRun_of_mem hself)).trans (if_pos ?_)
    exact Nat.sub_self _
  · rw [Store.slotState, hslots]
    exact congrArg SlotEntry.state (onRun_of_mem hi)
  · rw [hslots]
    exact onRun_of_not_mem hi
  · obtain ⟨id', L', hL', rfl⟩ | ⟨t, loc, hl, hkind, rfl⟩ | ⟨w, hw, rfl⟩ := Store.used_iff.1 ha
    · rw [hleases] at hL'
      rcases Table.lookup_insert_eq_some.1 hL' with ⟨-, rfl⟩ | ⟨-, hL'⟩
      · exact .inr rfl
      · exact .inl (Store.used_of_lease hL')
    · rw [hloc] at hl
      exact .inl (Store.used_of_resident hl hkind)
    · exact (hworks w hw).imp_left Store.used_of_work
  · rw [Store.Leased, hleases]
    exact hl.insert hnone
  · obtain ⟨w, hw, hb⟩ := hw
    exact ⟨w, hkept w hw, hb⟩

section Turns

variable {R B : Finset ℕ} (q' : SlotState) (h : Books c x R B) (hu : Uses x y)
  (hc : x.1.store.Contents c .all)

include h hu hc

/-- The run of a lease goes to another state. -/
theorem Books.turnLease (hL : x.1.store.leases.lookup id = some L)
    (hq : x.1.store.slotState L.baseSlot = q)
    (ht : x.1.store.Turned y.1.store L.baseSlot L.slotCount q') (hq' : q' ≠ .free)
    (hleases : y.1.store.leases = x.1.store.leases)
    (hworks : ∀ w ∈ x.1.store.works, w ∈ y.1.store.works)
    (hw : q' = .drainInFlight → y.1.store.Worked L.baseSlot)
    (hg : y.1.gauges = (x.1.gauges.leave q L.nbytes).enter q' L.nbytes) : Books c y R B := by
  have hok := (hc.runs _ (Store.used_of_lease hL)).lease id L hL rfl
  have hkept : ∀ a, x.1.store.Leased a → y.1.store.Leased a := fun a hl => by
    rwa [Store.Leased, hleases]
  refine h.turn hu (h.used _ (Store.used_of_lease hL)) hq hok.count ht hq'
    ⟨fun a _ _ hl => hkept a hl, ?_⟩ (fun _ => hkept _ ⟨id, L, hL, rfl⟩) hw (hok.nbytes ▸ hg)
  rintro a - - ⟨w, hw, hb⟩
  exact ⟨w, hworks w hw, hb⟩

/-- The work on a run is over, and the run goes to another state. -/
theorem Books.turnWork {t : Task} {w : Work} (hj : x.1.store.tasks[j]? = some t)
    (ht : t.work = some w) (hturn : x.1.store.Turned y.1.store w.base w.count q') (hq' : q' ≠ .free)
    (hcounted : ¬q'.Counted) (hleases : y.1.store.leases = x.1.store.leases)
    (hworks : y.1.store.works = (x.1.store.dropTask j).works)
    (hg : y.1.gauges = (x.1.gauges.leave w.state (x.1.store.slots w.base).nbytes).enter q'
      (x.1.store.slots w.base).nbytes) : Books c y R B := by
  have hmem := Store.mem_works hj ht
  have hok := (hc.runs _ (Store.used_of_work hmem)).work w hmem rfl
  refine h.turn hu (h.used _ (Store.used_of_work hmem)) hok.state hok.count hturn hq'
    ⟨fun a _ _ hl => ?_, fun a ha _ hw => ?_⟩ ?_ ?_ hg
  · rwa [Store.Leased, hleases]
  · rw [Store.Worked, hworks]
    refine hw.dropTask hj fun w' hw' => ?_
    rw [Option.some.inj (hw'.symm.trans ht)]
    exact (Finset.ne_of_mem_erase ha).symm
  · rintro (rfl | rfl) <;> exact absurd rfl hcounted
  · rintro rfl
    exact absurd rfl hcounted

end Turns

/-- A lease is dropped whose run has no copy under way. -/
theorem Books.dropLease {R B : Finset ℕ} (h : Books c x R B) (hu : Uses x y)
    (hne : ∀ L, x.1.store.leases.lookup id = some L → ¬x.1.store.InFlight L.baseSlot)
    (hleases : y.1.store.leases = x.1.store.leases.erase id)
    (hworks : y.1.store.works = x.1.store.works) (hslots : y.1.store.slots = x.1.store.slots)
    (hg : y.1.gauges = x.1.gauges) : Books c y R B := by
  have hst : ∀ i, y.1.store.slotState i = x.1.store.slotState i := fun i =>
    congrArg SlotEntry.state (congrFun hslots i)
  refine h.frame hu ⟨fun a _ hq hl => ?_, fun a _ _ hw => ?_⟩ hst
    (fun i => congrArg SlotEntry.nbytes (congrFun hslots i)) hg
  · rw [Store.Leased, hleases]
    refine hl.erase fun L hL hb => hne L hL ?_
    rw [Store.InFlight, hst] at hq
    exact hb ▸ hq
  · rwa [Store.Worked, hworks]

/-- A run that may be freed is one of the table, and not in use. -/
theorem Books.reclaimable {R B : Finset ℕ} (h : Books c x R B)
    (hc : x.1.store.Contents c .all) (hr : (bookGuards c).reclaim x.1.store b n) :
    b ∈ R ∧ n = x.1.store.extent c b ∧ (b ∈ B → ¬(x.1.store.slotState b).Counted) := by
  obtain ⟨⟨hpos, hun⟩, hrun⟩ := hr
  obtain ⟨hstarts, hcount⟩ := Bool.and_eq_true_iff.1 hrun
  refine ⟨h.runs.tiles.mem_iff_startsAt.2 hstarts, beq_iff_eq.1 hcount, fun hb hq => ?_⟩
  refine hc.not_used hun hpos ?_
  -- What is counted has a lease or a drain.
  cases hst : x.1.store.slotState b <;> rw [hst] at hq
  case d2hInFlight =>
    obtain ⟨id, L, hL, rfl⟩ := h.leased b hb (.inl hst)
    exact Store.used_of_lease hL
  case h2dInFlight =>
    obtain ⟨id, L, hL, rfl⟩ := h.leased b hb (.inr hst)
    exact Store.used_of_lease hL
  case drainInFlight =>
    obtain ⟨w, hw, rfl⟩ := h.worked b hb hst
    exact Store.used_of_work hw
  all_goals cases hq

/-- Every move that meets the conditions keeps the gauges exact. -/
theorem Books.move {R B : Finset ℕ} (h : Books c x R B) (hs : Sound c .all x.1.store x.2.1)
    (hids : LeaseIds x) (hwarm : Unwarmed x) (hm : Move c (bookGuards c) bookRules x y) :
    ∃ R B, Books c y R B := by
  have hu := hm.uses hs bookGuards_implies
  have hc := hs.contents
  have hc' := (hs.move bookGuards_implies hm).contents
  have hnext : x.1.store.leases.lookup x.1.store.nextLeaseId = none :=
    Option.eq_none_iff_forall_ne_some.2 fun L hL => (hids.live _ L hL).false
  cases hm with
  | @lend s h' req pid base now hfree hl hplan =>
    exact ⟨_, _, h.lend hu (L := offloadLease c req pid base) (q := .reservedD2H) hfree rfl hl hplan
      hnext rfl rfl rfl (fun _ => .inl) (fun _ => id) (by decide) (by decide) rfl⟩
  | @create s h' req oid base now hfree hl _ hplan =>
    exact ⟨_, _, h.lend hu (L := evictLease c s req (canonicalTid oid) base) (q := .reservedD2H)
      hfree rfl hl hplan hnext rfl rfl rfl (fun _ => .inl) (fun _ => id) (by decide) (by decide)
      rfl⟩
  | @candidate s h' req tid oid verify base now hfree hl _ hplan =>
    exact ⟨_, _, h.lend hu (L := evictLease c s req tid base) (q := .reservedD2H)
      hfree rfl hl hplan hnext rfl rfl rfl (fun _ => .inl) (fun _ => id) (by decide) (by decide)
      rfl⟩
  | @readback s h' req loc version ownerPid id base now hfree _ hplan =>
    have hnone := (hids.drawn id (List.mem_cons_self ..)).2
    refine ⟨_, _, h.lend hu (L := prefetchLease c req loc version ownerPid base)
      (q := .readbackInFlight) hfree rfl (hs.purpose _ rfl).2.whole hplan hnone rfl rfl rfl
      (fun w hw => ?_) (fun w hw => ?_) (by decide) (by decide) rfl⟩
    · simp only [Store.works, grantPrefetch, Store.reserve, List.map_append, List.map_singleton,
        List.mem_append, List.mem_singleton] at hw ⊢
      rcases hw with (hw | hw | rfl) | hw
      · exact .inl (.inl (.inl hw))
      · exact .inl (.inl (.inr hw))
      · exact .inr rfl
      · exact .inl (.inr hw)
    · exact Store.mem_works_queue hw (List.Subset.refl _) (List.subset_append_left ..)
  | warm => cases hwarm.search _ rfl
  | warmRead hj | warmDone hj | warmFailed hj =>
    cases hwarm.tasks _ (List.mem_of_getElem? hj)
  | force hL hd =>
    refine ⟨R, B, h.turnLease .drainInFlight hu hc hL (State.slotState_of_drainable hd) {}
      (by decide) rfl (fun _ => Store.mem_works_addTask) (fun _ => ?_) rfl⟩
    exact ⟨_, (Store.works_addTask ..).mem_iff.2 (List.mem_cons_self ..), rfl⟩
  | @enqueue s h' now id L st seq hL hpub =>
    have hrun := hc.runs _ (Store.used_of_lease hL)
    have hpos : 0 < L.slotCount := (hrun.lease id L hL rfl).count ▸ hrun.run.pos
    have hst : s.store.slotState L.baseSlot = .pinnedValid := by
      rw [hpub]
      exact Store.slotState_publishD2H hpos
    refine ⟨R, B, h.turnLease .drainInFlight hu hc hL hst {} (by decide) rfl
      (fun w hw => ?_) (fun _ => ⟨_, Store.mem_works_enqueueDrain, rfl⟩) rfl⟩
    exact Store.mem_works_queue hw (List.subset_append_left ..) (List.Subset.refl _)
  | submit hL hst hq =>
    rcases hq with ⟨rfl, rfl⟩ | ⟨rfl, rfl⟩
    · exact ⟨R, B, h.turnLease .d2hInFlight hu hc hL hst {} (by decide) rfl (fun _ => id)
        (by rintro ⟨⟩) rfl⟩
    · exact ⟨R, B, h.turnLease .h2dInFlight hu hc hL hst {} (by decide) rfl (fun _ => id)
        (by rintro ⟨⟩) rfl⟩
  | publish hL hst | keepPinned hL hst =>
    exact ⟨R, B, h.turnLease .pinnedValid hu hc hL hst {} (by decide) rfl (fun _ => id)
      (by rintro ⟨⟩) rfl⟩
  | @drainFailed s h' j w now hj =>
    have hmem := Store.mem_works hj rfl
    have hn : w.nbytes = _ := ((hc.runs _ (Store.used_of_work hmem)).work _ hmem rfl).nbytes _ rfl
    refine ⟨R, B, h.turnWork .pinnedValid hu hc hj rfl {} (by decide) (by decide) rfl rfl ?_⟩
    exact congrArg (Gauges.leave s.gauges .drainInFlight) hn
  | readbackMissing hj | readbackFailed hj =>
    exact ⟨R, B, h.turnWork .error hu hc hj rfl {} (by decide) (by decide) rfl rfl rfl⟩
  | readbackDone hj =>
    exact ⟨R, B, h.turnWork .pinnedValid hu hc hj rfl {} (by decide) (by decide) rfl rfl rfl⟩
  | @drainSettled s h' j w cold hj _ _ hk _ hr =>
    have hmem := Store.mem_works hj rfl
    have hok := (hc.runs _ (Store.used_of_work hmem)).work _ hmem rfl
    have hn : w.nbytes = (s.store.slots w.baseSlot).nbytes := hok.nbytes _ rfl
    have hslots : ∀ i, ((s.store.dropTask j).settleDrain w cold).slotState i = s.store.slotState i ∧
        (((s.store.dropTask j).settleDrain w cold).slots i).nbytes = (s.store.slots i).nbytes := by
      intro i
      by_cases hi : InRun w.baseSlot w.slotCount i
      · exact ⟨(congrArg SlotEntry.state (if_pos hi)).trans rfl,
          (congrArg SlotEntry.nbytes (if_pos hi)).trans rfl⟩
      · exact ⟨congrArg SlotEntry.state (if_neg hi), congrArg SlotEntry.nbytes (if_neg hi)⟩
    refine ⟨R, _, h.writeOff hu (h.used _ (Store.used_of_work hmem)) (hc'.not_used hr.1.2 hr.1.1)
      hr.1.1 (List.mem_cons_self ..) ⟨fun a ha hq hl => ?_, fun a ha _ hw => ?_⟩
      (fun i => (hslots i).1) (fun i => (hslots i).2) ?_⟩
    · refine hl.erase fun L hL hb => hk L hL ?_
      rw [Store.InFlight, (hslots a).1] at hq
      exact hb ▸ hq
    · refine hw.dropTask hj ?_
      rintro _ ⟨⟩
      exact (Finset.ne_of_mem_erase ha).symm
    · rw [show s.store.slotState _ = _ from hok.state]
      exact congrArg (Gauges.leave s.gauges .drainInFlight) hn
  | @fallBack s h' id L t v cold hL hst _ _ _ hr =>
    have hok := (hc.runs _ (Store.used_of_lease hL)).lease id L hL rfl
    refine ⟨R, _, h.writeOff hu (h.used _ (Store.used_of_lease hL)) (hc'.not_used hr.1.2 hr.1.1)
      hr.1.1 (List.mem_cons_self ..) ⟨fun a ha _ hl => ?_, fun _ _ _ hw => hw⟩ (fun _ => rfl)
      (fun _ => rfl) ?_⟩
    · refine hl.erase fun L' hL' => ?_
      rw [Option.some.inj (hL'.symm.trans hL)]
      exact (Finset.ne_of_mem_erase ha).symm
    · rw [hst, ← hok.nbytes]
  | release hL _ hfl =>
    refine ⟨R, B, h.dropLease hu (fun L' hL' => ?_) rfl rfl rfl rfl⟩
    rwa [Option.some.inj (hL'.symm.trans hL)]
  | dropLease hL hst =>
    refine ⟨R, B, h.dropLease hu (fun L' hL' hfl => ?_) rfl rfl rfl rfl⟩
    rw [Option.some.inj (hL'.symm.trans hL)] at hfl
    rcases hfl with hq | hq <;> rw [hq] at hst <;> cases hst
  | unlinkObject _ _ _ hfl | discard _ _ hfl =>
    refine ⟨R, B, h.frame hu { leased := fun a ha hq _ => ?_ }⟩
    obtain ⟨w, hw, hmem⟩ := h.planned a (h.sub ha) a (h.runs.tiles.inRun (h.sub ha))
    exact hfl w hw a hmem hq
  | @endSession s h' rankId ses hses _ _ hk =>
    refine ⟨R, B, h.frame hu ⟨fun a _ hq hl => ?_, fun _ _ _ hw => hw⟩⟩
    obtain ⟨id, L, hL, rfl⟩ := hl
    refine ⟨id, L, Table.lookup_eraseAll_eq_some.2 ⟨fun hid => ?_, hL⟩, rfl⟩
    obtain ⟨r, hr, rfl⟩ := List.mem_map.1 hid
    have hL' := Table.mem_rows.1 (List.mem_filter.1 hr).1
    rw [← Option.some.inj (hL'.symm.trans hL)] at hq
    exact hk ses hses r hr hq
  | bind =>
    exact ⟨R, B, h.frame hu ⟨fun a _ _ hl => hl.insert hnext, fun _ _ _ hw => hw⟩⟩
  | rehash hr =>
    refine ⟨R, B, h.frame hu ⟨fun a _ _ hl => ?_, fun _ _ _ hw => hw⟩⟩
    obtain ⟨id, L, hL, rfl⟩ := hl
    exact ⟨id, L, (hr.lookup_eq id).trans hL, rfl⟩
  | reclaim hr =>
    obtain ⟨hR, hcount, hq⟩ := h.reclaimable hc hr
    exact ⟨_, _, h.close hu hR hq hcount (fun _ hi => congrArg SlotEntry.state (if_pos hi))
      (fun _ hi => if_neg hi) {} rfl⟩
  | reclaimMarked hr =>
    obtain ⟨hR, hcount, hq⟩ := h.reclaimable hc hr
    refine ⟨_, _, h.close hu hR hq hcount (fun _ hi => congrArg SlotEntry.state (if_pos hi))
      (fun _ hi => (if_neg hi).trans (if_neg fun hi' => hi ⟨hi'.1, ?_⟩)) {} rfl⟩
    have := hi'.2
    have := hr.1.1
    omega
  | takeDrain hq =>
    refine ⟨R, B, h.frame hu { worked := fun a _ _ hw => ?_ }⟩
    obtain ⟨w, hw, hb⟩ := hw
    exact ⟨w, (Store.works_takeDrain hq).mem_iff.2 hw, hb⟩
  | takeReadback hq =>
    refine ⟨R, B, h.frame hu { worked := fun a _ _ hw => ?_ }⟩
    obtain ⟨w, hw, hb⟩ := hw
    exact ⟨w, (Store.works_takeReadback hq).mem_iff.2 hw, hb⟩
  | startPull =>
    refine ⟨R, B, h.frame hu { worked := fun a _ _ hw => ?_ }⟩
    obtain ⟨w, hw, hb⟩ := hw
    exact ⟨w, Store.mem_works_addTask hw, hb⟩
  | drainBegin hj | drainCopied hj | readbackFound hj | readbackLost hj | readbackRead hj =>
    refine ⟨R, B, h.frame hu { worked := fun a _ _ hw => hw.nextTask hj ?_ }⟩
    rintro _ ⟨⟩
    exact ⟨_, rfl, {}⟩
  | stage hj =>
    refine ⟨R, B, h.frame hu { worked := fun a _ _ hw => hw.nextTask hj ?_ }⟩
    rintro _ ⟨⟩
  | nextPull hj ht =>
    refine ⟨R, B, h.frame hu { worked := fun a _ _ hw => hw.nextTask hj ?_ }⟩
    rw [Task.work_of_pull ht]
    rintro _ ⟨⟩
  | failPull hj | endPull hj =>
    refine ⟨R, B, h.frame hu { worked := fun a _ _ hw => hw.dropTask hj ?_ }⟩
    rintro _ ⟨⟩
  | dropTask hj _ ha hne => exact absurd (hc.awaited hj ha) hne
  | _ => exact ⟨R, B, h.frame hu {}⟩

/-! ## Runs -/

/-- The gauges are exact: they show the bytes of the slots in use, and those of the runs that are
    copied from a GPU, to a GPU, and to a cold tier. -/
def GaugesExact (c : Config) (s : State) : Prop :=
  ∃ R, s.store.Runs c R ∧
    s.gauges =
      { usedPinnedBytes := { i | s.store.inUse i }.ncard * c.allocationGranularityBytes
        inflightD2HBytes := s.store.bytesIn R .d2hInFlight
        inflightH2DBytes := s.store.bytesIn R .h2dInFlight
        drainingBytes := s.store.bytesIn R .drainInFlight }

/-- The bytes of all slots of the plan. -/
def Config.planBytes (c : Config) : ℕ :=
  (c.plan.windows.flatMap (·.slotIds)).length * c.allocationGranularityBytes

/-- A size that is not cut fits into its slots. -/
theorem Config.le_of_whole (h : c.slotsForBytes nbytes = c.slotsSpanned nbytes) :
    nbytes ≤ c.slotsForBytes nbytes * c.allocationGranularityBytes := by
  have hpos := c.slotsForBytes_pos h
  rw [h] at hpos ⊢
  have hgran : 0 < c.allocationGranularityBytes := by
    by_contra h0
    rw [slotsSpanned, Nat.le_zero.1 (not_lt.1 h0), Nat.div_zero] at hpos
    exact hpos.false
  have hlt := Nat.lt_div_mul_add (a := nbytes + c.allocationGranularityBytes - 1) hgran
  rw [← slotsSpanned] at hlt
  omega

namespace Books

variable {R B : Finset ℕ}

/-- The runs in a state have no more bytes than the slots in use. -/
theorem bytesIn_le (h : Books c x R B) (q : SlotState) : x.1.store.bytesIn R q ≤
    { i | x.1.store.inUse i }.ncard * c.allocationGranularityBytes := by
  rw [h.runs.tiles.ncard_eq, Finset.sum_mul]
  refine Finset.sum_le_sum fun b hb => ?_
  split
  · exact Config.le_of_whole (h.whole b hb)
  · exact Nat.zero_le _

theorem ncard_le (h : Books c x R B) :
    { i | x.1.store.inUse i }.ncard ≤ (c.plan.windows.flatMap (·.slotIds)).length := by
  refine le_trans ?_ (List.toFinset_card_le _)
  rw [← Set.ncard_coe_finset]
  refine Set.ncard_le_ncard (fun i hi => ?_) (Finset.finite_toSet _)
  obtain ⟨b, hb, hrun⟩ := (h.runs.tiles.cover i).1 hi
  obtain ⟨w, hw, hmem⟩ := h.planned b hb i hrun
  exact List.mem_toFinset.2 (List.mem_flatMap.2 ⟨w, hw, hmem⟩)

/-- At the end of a step, all runs are on the books. -/
theorem exact {h' : Hand} (h : Books c (s, none, h') R B) (hh : h'.freeing = [])
    (hfit : c.planBytes < 2 ^ 64) : GaugesExact c s := by
  have hB : B = R := by
    refine Finset.Subset.antisymm h.sub fun b hb => by_contra fun hB => ?_
    obtain ⟨n, -, hn⟩ := h.off b hb hB
    rw [show Hand.freeing _ = _ from hh] at hn
    cases hn
  subst hB
  have hle : { i | s.store.inUse i }.ncard * c.allocationGranularityBytes < 2 ^ 64 :=
    (Nat.mul_le_mul_right _ h.ncard_le).trans_lt hfit
  refine ⟨B, h.runs, h.gauges.trans ?_⟩
  have hlt : ∀ q, s.store.bytesIn B q % 2 ^ 64 = s.store.bytesIn B q := fun q =>
    Nat.mod_eq_of_lt ((h.bytesIn_le q).trans_lt hle)
  rw [Store.books, hlt, hlt, hlt, ← h.runs.tiles.ncard_eq, Nat.mod_eq_of_lt hle]

theorem initial : Books c (State.initial, none, {}) ∅ ∅ := by
  have hnone : ∀ i, ¬State.initial.store.inUse i := fun i hi => nomatch hi
  refine ⟨⟨⟨nofun, nofun, fun i => iff_of_false (hnone i) nofun⟩, nofun⟩, nofun, nofun,
    Finset.Subset.refl _, nofun, (fun b hb => nomatch hb), nofun, nofun, ?_⟩
  simp [Store.books, Store.bytesIn, State.initial]

end Books

/-- What every step is to meet. -/
abbrev bookable (c : Config) (s : State) (a : Action) : Prop :=
  (bookGuards c).ok c s a ∧ bookRules.ok c s a

/-- In every run in which runs are freed one by one and as a whole, no lease is dropped whose run
    has a copy under way, and no object is restored from its cold copy: the gauges are exact in
    every state. -/
theorem gauges_exact (hfit : c.planBytes < 2 ^ 64) (h : Reachable c (bookable c) s) :
    GaugesExact c s := by
  have hinv : Sound c .all s.store none ∧ LeaseIds (s, none, {}) ∧ Unwarmed (s, none, {}) ∧
      ∃ R B, Books c (s, none, {}) R B := by
    refine h.invariant (motive := fun x => Sound c .all x.1.store x.2.1 ∧ LeaseIds x ∧
      Unwarmed x ∧ ∃ R B, Books c x R B) ?_ ?_
    · exact ⟨.initial, .initial, ⟨fun _ h => (nomatch h), fun _ h => nomatch h⟩, ∅, ∅, .initial⟩
    · rintro x y ⟨hs, hids, hwarm, R, B, hbooks⟩ hxy
      exact ⟨hs.move bookGuards_implies hxy, hids.move hxy, hwarm.move hxy,
        hbooks.move hs hids hwarm hxy⟩
  obtain ⟨-, -, -, R, B, hbooks⟩ := hinv
  exact hbooks.exact rfl hfit

/-- A tensor is offloaded, drained for another one, and that one is released. Then the D2H copy
    of a third one is submitted. -/
theorem gauges_exact_submitted :
    ∃ s, Reachable oneSlot (bookable oneSlot) s ∧ s.gauges = ⟨4, 4, 0, 0⟩ ∧
      GaugesExact oneSlot s :=
  exists_reachable_and oneSlot _ (registers :: offloads 1 1 1 1 [1] ++
    offloadsDraining 2 2 1 2 [2] ++ [releases 3 2] ++ (offloads 4 3 1 3 [3]).take 2)
    (by decide +kernel) fun _ hs _ => gauges_exact (by decide) hs

/-- A canonical object is drained for a tensor, which is then released. While the object is read
    back into the slot, the slot is in use and the gauge of the pinned bytes shows none. If it
    cannot be read, the slot is freed, and the gauge wraps. -/
theorem restore_not_counted :
    ∃ s s', Reached oneSlotNvme s ∧
      Reach (· = s) (fun _ _ => True) (step oneSlotNvme) s' ∧
      (s.store.slotState 0 = .readbackInFlight ∧ s.gauges.usedPinnedBytes = 0 ∧
        s'.store.slotState 0 = .free ∧ s'.gauges.usedPinnedBytes = 2 ^ 64 - 4) ∧
      ¬GaugesExact oneSlotNvme s := by
  refine exists_reach_and oneSlotNvme _ _ ([registers, registersJob] ++ creates 1 1 1 [1] ++
    offloadsDraining 3 2 1 2 [2] ++ [releases 4 2, restores 5 1])
    [.io 0 (.failed [] "read error"), .proceed 6 0] (by decide +kernel) ?_
  rintro s s' - - ⟨hst, hzero, -⟩ ⟨R, hruns, hg⟩
  have hpos := hruns.tiles.ncard_pos (i := 0) (Store.inUse_iff.2 (hst ▸ nofun))
  rw [hg] at hzero
  exact (Nat.mul_pos hpos (by decide)).ne' hzero

end StateSpectre
