import StateSpectre.Refinement

/-!
# What leases cover

A lease is a promise on a run of slots: as long as it lives, all of them are in use
for its tensor and version (`LeasesCovered`). Then leases of different tensors, or
of different versions of one, have no slot in common.

The daemon does not keep this promise by itself. A prefetch of a resident tensor
puts a second lease on a run, and neither a release, a drain, an H2D completion nor
the end of a session looks for other leases when it frees the run of one
(`leases_share_slot`). Under the guards that a run is freed only when no live
lease is left on it, and that a prefetch is bound only to slots of its tensor
(`leaseGuards`), leases are covered in every state (`leases_covered`).
-/

namespace StateSpectre

variable {c : Config} {st st' : Store} {s : State} {f : ℕ → SlotEntry → SlotEntry} {q : SlotState}
  {L : Lease} {r : Option ℕ} {now b n : ℕ}

/-! ## Leases and their slots -/

/-- A slot is in use for a tensor and version. -/
abbrev Store.Carries (st : Store) (i tensorId version : ℕ) : Prop :=
  (st.slots i).state ≠ .free ∧ (st.slots i).tensorId = tensorId ∧ (st.slots i).version = version

/-- All slots of the run of a lease are in use for its tensor and version. -/
abbrev Store.Covers (st : Store) (L : Lease) : Prop :=
  ∀ i, InRun L.baseSlot L.slotCount i → st.Carries i L.tensorId L.version

/-- No live lease has a slot of a run. -/
abbrev Store.NoLease (st : Store) (b n : ℕ) : Prop :=
  ∀ id L, st.leases.lookup id = some L → ¬Meet b n L.baseSlot L.slotCount

/-- The promise of every live lease is kept. -/
def LeasesCovered (st : Store) : Prop := ∀ id L, st.leases.lookup id = some L → st.Covers L

/-- A run is freed only when no live lease is left on it, and a prefetch is bound
    only to slots that carry what it wants. -/
abbrev leaseGuards : Guards where
  reclaim := Store.NoLease
  bind := Store.Covers

instance : DecidableGuards leaseGuards where

/-- Leases of different tensors or versions have no slot in common. -/
theorem LeasesCovered.not_meet (h : LeasesCovered st) {id id' : ℕ} {L L' : Lease}
    (hL : st.leases.lookup id = some L) (hL' : st.leases.lookup id' = some L')
    (hne : (L.tensorId, L.version) ≠ (L'.tensorId, L'.version)) :
    ¬Meet L.baseSlot L.slotCount L'.baseSlot L'.slotCount := by
  rintro ⟨i, hi, hi'⟩
  obtain ⟨-, ht, hv⟩ := h id L hL i hi
  obtain ⟨-, ht', hv'⟩ := h id' L' hL' i hi'
  exact hne (Prod.ext (ht.symm.trans ht') (hv.symm.trans hv'))

/-! ## Changes of the store -/

/-- A change that keeps what a slot is for, and does not free it. -/
structure KeepsUse (f : ℕ → SlotEntry → SlotEntry) : Prop where
  tensorId : ∀ k e, (f k e).tensorId = e.tensorId
  version : ∀ k e, (f k e).version = e.version
  state : ∀ k e, e.state ≠ .free → (f k e).state ≠ .free

/-- Setting a state other than free keeps the use of a slot. -/
theorem KeepsUse.ofState (hq : q ≠ .free)
    (hf : ∀ k e, (f k e).tensorId = e.tensorId ∧ (f k e).version = e.version ∧
      (f k e).state = q) : KeepsUse f :=
  ⟨fun k e => (hf k e).1, fun k e => (hf k e).2.1, fun k e _ => (hf k e).2.2 ▸ hq⟩

theorem keepsUse_completed {now seq : ℕ} : KeepsUse fun _ e =>
    { e with completeSeq := seq, state := .pinnedValid, lastTouchNs := now } :=
  .ofState (q := .pinnedValid) (by decide) fun _ _ => ⟨rfl, rfl, rfl⟩

theorem Store.Carries.mapRun {b n i t v : ℕ}
    (h : st.Carries i t v) (hf : KeepsUse f) : (st.mapRun b n f).Carries i t v := by
  by_cases hi : InRun b n i
  · simp only [Carries, Store.mapRun, onRun_of_mem hi] at h ⊢
    exact ⟨hf.state _ _ h.1, (hf.tensorId _ _).trans h.2.1, (hf.version _ _).trans h.2.2⟩
  · simpa only [Carries, Store.mapRun, onRun_of_not_mem hi] using h

/-- Reserving a run changes no slot elsewhere. -/
theorem Store.reserve_slots {gran now id flags i : ℕ} (hi : ¬InRun L.baseSlot L.slotCount i) :
    (st.reserve gran now id L flags q r).slots i = st.slots i := by
  simp only [Store.reserve, onRun_of_not_mem hi]

/-- Warming a run changes no slot elsewhere. -/
theorem Store.warmRun_slots {gran now pid base count nbytes i : ℕ}
    {req : RequestCanonicalRestoreRequest} (hi : ¬InRun base count i) :
    (st.warmRun gran now req pid base count nbytes).slots i = st.slots i := by
  simp only [Store.warmRun, Store.mapRun, onRun_of_not_mem hi]

namespace LeasesCovered

/-- Only the slots, and which leases there are, matter. -/
theorem mono (h : LeasesCovered st) (hs : st'.slots = st.slots)
    (hl : ∀ id L, st'.leases.lookup id = some L → st.leases.lookup id = some L) :
    LeasesCovered st' := by
  intro id L hL i hi
  have := h id L (hl id L hL) i hi
  rwa [Store.Carries, hs]

theorem mapRun {b n : ℕ} (h : LeasesCovered st)
    (hf : KeepsUse f) : LeasesCovered (st.mapRun b n f) :=
  fun id L hL i hi => (h id L hL i hi).mapRun hf

theorem setRunState (h : LeasesCovered st) (hq : q ≠ .free) :
    LeasesCovered (st.setRunState now b n q) :=
  h.mapRun (.ofState hq fun _ _ => ⟨rfl, rfl, rfl⟩)

theorem freeSlots (h : LeasesCovered st) (hn : st.NoLease b n) :
    LeasesCovered (st.freeSlots now b n) := by
  intro id L hL i hi
  have hi' : ¬InRun b n i := fun hi' => hn id L hL ⟨i, hi', hi⟩
  simpa only [Store.Carries, Store.freeSlots, Store.mapRun, onRun_of_not_mem hi']
    using h id L hL i hi

/-- A free run is in no lease. -/
theorem not_inRun_of_free {id b n i : ℕ} (h : LeasesCovered st) (hfree : st.RunFree b n)
    (hL : st.leases.lookup id = some L) (hi : InRun L.baseSlot L.slotCount i) : ¬InRun b n i :=
  fun hi' => (h id L hL i hi).1 (hfree i hi')

theorem reserve {gran now id flags : ℕ} (h : LeasesCovered st)
    (hfree : st.RunFree L.baseSlot L.slotCount) (hq : q ≠ .free) :
    LeasesCovered (st.reserve gran now id L flags q r) := by
  intro id' L' hL' i hi
  rcases Table.lookup_insert_eq_some.1 hL' with ⟨-, rfl⟩ | ⟨-, hL'⟩
  · simp only [Store.Carries, Store.reserve, onRun_of_mem hi]
    exact ⟨hq, rfl, rfl⟩
  · have hi' := h.not_inRun_of_free hfree hL' hi
    simpa only [Store.Carries, Store.reserve_slots hi'] using h id' L' hL' i hi

/-- Every transition of the store keeps the promises of the leases, if it meets the
    guards. -/
theorem step {p p' : Option Purpose} (h : LeasesCovered st)
    (hstep : StoreStep c leaseGuards (st, p) (st', p')) : LeasesCovered st' := by
  cases hstep with
  | lend hfree | readback hfree => exact (h.reserve hfree (by decide)).mono rfl fun _ _ => id
  | warm hfree =>
    intro id L hL i hi
    have hi' := h.not_inRun_of_free hfree hL hi
    simpa only [Store.Carries, Store.addTask, Store.warmRun_slots hi'] using h id L hL i hi
  | force | enqueue | drainFailed | readbackMissing | readbackFailed | readbackDone | warmDone =>
    exact (h.setRunState (by decide)).mono rfl fun _ _ => id
  | drainSettled =>
    refine mono (mapRun (f := fun _ e => { e with coldRef := st.nextColdRef }) h ?_) rfl
      fun _ _ => Table.lookup_of_lookup_erase
    exact ⟨fun _ _ => rfl, fun _ _ => rfl, fun _ _ => id⟩
  | submit _ _ hq =>
    refine h.mapRun (.ofState ?_ fun _ _ => ⟨rfl, rfl, rfl⟩)
    rcases hq with ⟨-, rfl⟩ | ⟨-, rfl⟩ <;> decide
  | publish | keepPinned =>
    exact mono (mapRun h keepsUse_completed) rfl fun _ _ => id
  | bind _ _ _ _ _ _ _ _ hg =>
    intro id' L' hL'
    rcases Table.lookup_insert_eq_some.1 hL' with ⟨-, rfl⟩ | ⟨-, hL'⟩
    · exact hg
    · exact h id' L' hL'
  | fallBack | release | dropLease => exact h.mono rfl fun _ _ => Table.lookup_of_lookup_erase
  | reclaim hg => exact h.freeSlots hg
  | reclaimMarked hg hq => exact (h.setRunState hq).freeSlots hg
  | rehash hl => exact h.mono rfl fun _ _ hL => by rwa [hl.lookup_eq] at hL
  | _ => exact h

end LeasesCovered

/-! ## Reachable states -/

theorem Reachable.leasesCovered (h : Reachable c (leaseGuards.ok c) s) : LeasesCovered s.store :=
  h.store_invariant (motive := fun x => LeasesCovered x.1) (fun _ _ hL => nomatch hL)
    fun _ _ => LeasesCovered.step

/-- In every state reached under the guards, every lease covers a run of slots in
    use for its tensor and version, and leases of different tensors or versions
    have no slot in common. -/
theorem leases_covered (h : Reachable c (leaseGuards.ok c) s) :
    LeasesCovered s.store ∧
      ∀ id id' L L', s.store.leases.lookup id = some L → s.store.leases.lookup id' = some L' →
        (L.tensorId, L.version) ≠ (L'.tensorId, L'.version) →
        ¬Meet L.baseSlot L.slotCount L'.baseSlot L'.slotCount :=
  ⟨h.leasesCovered, fun _ _ _ _ => h.leasesCovered.not_meet⟩

/-! ## A store of one slot -/

/-- A daemon with one slot of four bytes, which drains only when it has to. -/
def oneSlot : Config where
  plan := { windows := [⟨0, 0, false, [0], ⟨0, rfl⟩⟩], numSlots := 1 }
  allocationGranularityBytes := 4
  drainOnD2HComplete := false

/-- The rank 0 registers, for its first epoch. -/
def registers : Action := .rpc 0 (.register ⟨0, 7⟩)

/-- The rank 0 offloads a tensor of one slot to the slot it is lent. -/
def offloadsTo (slotId now tensorId version leaseId : ℕ) (data : Bytes) : List Action :=
  [.rpc now (.offload
      { rankId := 0, rankEpoch := 1, tensorId := tensorId, version := version, nbytes := 4 }),
    .rpc now (.d2hSubmitted { rankId := 0, rankEpoch := 1, leaseId := leaseId, slotId := slotId }),
    .copyD2H leaseId [data],
    .rpc now (.d2hComplete
      { rankId := 0, rankEpoch := 1, leaseId := leaseId, tensorId := tensorId, version := version
        slotId := slotId })]

/-- The rank 0 offloads a tensor of one slot to the slot 0. -/
abbrev offloads : (now tensorId version leaseId : ℕ) → Bytes → List Action := offloadsTo 0

/-- The rank 0 prefetches a tensor. -/
def prefetches (now tensorId version : ℕ) : Action :=
  .rpc now (.prefetch { rankId := 0, rankEpoch := 1, tensorId := tensorId, version := version })

/-- The rank 0 releases a lease. -/
def releases (now leaseId : ℕ) : Action :=
  .rpc now (.releaseLease { rankId := 0, rankEpoch := 1, leaseId := leaseId })

/-- A tensor is offloaded and prefetched, which puts a second lease on its slot.
    The first lease is released, and the slot is lent again: two leases of
    different tensors live on one slot. -/
theorem leases_share_slot :
    ∃ s L L', Reached oneSlot s ∧
      (s.store.leases.lookup 2 = some L ∧ s.store.leases.lookup 3 = some L' ∧
        L.tensorId ≠ L'.tensorId ∧ Meet L.baseSlot L.slotCount L'.baseSlot L'.slotCount) ∧
      ¬LeasesCovered s.store := by
  refine exists_reachable₃_and oneSlot _ (registers :: offloads 1 1 1 1 [1] ++
    [prefetches 2 1 1, releases 3 1] ++ (offloads 4 2 1 3 [2]).take 1) (by decide +kernel) ?_
  rintro s L L' - ⟨hL, hL', hne, hm⟩ hcov
  exact hcov.not_meet hL hL' (fun h => hne (congrArg Prod.fst h)) hm

/-- The rank 0 offloads a tensor while the slot is taken: what is there is drained
    first. -/
def offloadsDraining (now tensorId version leaseId : ℕ) (data : Bytes) : List Action :=
  (offloads now tensorId version leaseId data).take 1 ++ [.io 0 .ok, .proceed now 0] ++
    (offloads now tensorId version leaseId data).drop 1

/-- The guards are met when a tensor is offloaded and drained for another one, which
    is then prefetched: the two leases on the slot are covered. -/
theorem leases_covered_prefetched :
    ∃ s, Reachable oneSlot (leaseGuards.ok oneSlot) s ∧
      ((s.store.leases.lookup 2).isSome ∧ (s.store.leases.lookup 3).isSome) ∧
      LeasesCovered s.store :=
  exists_reachable_and oneSlot _
    (registers :: offloads 1 1 1 1 [1] ++ offloadsDraining 2 2 1 2 [2] ++ [prefetches 3 2 1])
    (by decide +kernel) fun _ hs _ => (leases_covered hs).1

end StateSpectre
