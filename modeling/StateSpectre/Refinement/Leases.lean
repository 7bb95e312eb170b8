import StateSpectre.Conditions
import StateSpectre.Events

/-!
# Leases as moves

The handlers of the lease protocol are sequences of moves, under the guards that
their conditions (`Guards.okD2H` and the like) ask for: the search for a run, with its
forced drains (`acquire_moves`), the completions, whichever way they arrive
(`applyBatchCompletion_moves`), the prefetch and the release.
-/

namespace StateSpectre

variable {c : Config} {g : Guards} {k : Rules} {s s' s'' : State} {now : ℕ} {h : Hand}
  {p : Option Purpose} {L : Lease} {rankId rankEpoch id t v slotId seq : ℕ}
  {req : RequestPrefetchRequest}

/-- The moves between two searches, whatever else is to be done. -/
def Turns (c : Config) (g : Guards) (k : Rules) (s s' : State) : Prop :=
  ∀ h : Hand, Moves c g k (s, none, h) (s', none, h)

namespace Turns

@[refl] theorem refl (s : State) : Turns c g k s s := fun _ => .refl

theorem trans (h₁ : Turns c g k s s') (h₂ : Turns c g k s' s'') : Turns c g k s s'' :=
  fun h => (h₁ h).trans (h₂ h)

/-- A single move that leaves the hand alone. -/
theorem single (h₁ : ∀ h, Move c g k (s, none, h) (s', none, h)) : Turns c g k s s' :=
  fun h => .single (h₁ h)

theorem tail (h₁ : Turns c g k s s') (h₂ : ∀ h, Move c g k (s', none, h) (s'', none, h)) :
    Turns c g k s s'' := h₁.trans (single h₂)

/-- A step that goes over a list, moving with every item. -/
theorem foldl {S X : Type*} {p : S → State} {f : S → X → S} {ok : S → X → Prop} {r : S}
    {xs : List X} (hf : ∀ r x, ok r x → Turns c g k (p r) (p (f r x))) (h : Along ok f r xs) :
    Turns c g k (p r) (p (xs.foldl f r)) :=
  h.foldl_invariant (motive := fun r' => Turns c g k (p r) (p r'))
    (fun r' x hr' hx => hr'.trans (hf r' x hx)) (refl _)

end Turns

/-! ## Emptying the hand -/

/-- The runs that are left as they are, and those that were freed. -/
theorem leaveRuns_moves {runs : List (ℕ × ℕ)} (hk : k.Met (leftRuns s runs)) :
    Moves c g k (s, p, { h with left := runs ++ h.left }) (s, p, h) := by
  induction runs with
  | nil => exact .refl
  | cons r runs ih =>
    have hleft : s.store.RunFree r.1 r.2 ∨ k s (.abandon r.1 r.2) := by
      by_cases hf : s.store.RunFree r.1 r.2
      · exact .inl hf
      · exact .inr (hk _ (List.mem_map.2 ⟨r, by simp [hf], rfl⟩))
    refine .head (.leaveRun rfl hleft) (ih fun e he => hk e ?_)
    obtain ⟨r', hr', rfl⟩ := List.mem_map.1 he
    exact List.mem_map.2 ⟨r', List.mem_filter.2 ⟨.tail _ (List.mem_filter.1 hr').1,
      (List.mem_filter.1 hr').2⟩, rfl⟩

/-- The cold copies that were forgotten. -/
theorem forgot_moves {refs : List ℕ} (hnone : ∀ r ∈ refs, s.store.coldStore.lookup r = none) :
    Moves c g k (s, p, { h with forgetting := refs ++ h.forgetting }) (s, p, h) := by
  induction refs with
  | nil => exact .refl
  | cons r refs ih =>
    obtain ⟨hr, hrefs⟩ := List.forall_mem_cons.1 hnone
    exact .head (.forgot rfl hr) (ih hrefs)

theorem Store.runFree_freeSlots (st : Store) (now b n : ℕ) : (st.freeSlots now b n).RunFree b n :=
  fun _ hi => congrArg SlotEntry.state (onRun_of_mem hi)

/-- A run in hand is freed. -/
theorem reclaim_moves {b n : ℕ} (hg : g.reclaim s.store b n) :
    Moves c g k (s, p, { h with freeing := (b, n) :: h.freeing }) (s.freeSlots c now b n, p, h) :=
  .head (.reclaim hg) (.single (.freed rfl (s.store.runFree_freeSlots now b n)))

/-! ## Searches -/

/-- The lease whose run is drained for a search is a live one that may be. -/
theorem oldestDrainable_eq_some {id : ℕ} (h : s.oldestDrainable = some (id, L)) :
    s.store.leases.lookup id = some L ∧ s.drainable L := by
  have key : ∀ r, s.oldestDrainable = some r → r ∈ s.store.leases.rows ∧ s.drainable r.2 := by
    refine List.foldlRecOn (motive := fun best : ℕ × Option (ℕ × Lease) =>
      ∀ r, best.2 = some r → r ∈ s.store.leases.rows ∧ s.drainable r.2) _ _ (by simp) ?_
    intro best ih r hr r' hr'
    dsimp only at hr'
    split at hr'
    · next hd =>
      cases hr'
      exact ⟨hr, (Bool.and_eq_true _ _ ▸ hd).1⟩
    · exact ih r' hr'
  obtain ⟨hrow, hd⟩ := key _ h
  exact ⟨Table.mem_rows.1 hrow, hd⟩

/-- What is granted for a search that found a run. -/
theorem grant_moves {q : Purpose} {base : ℕ} (hq : g.okPurpose q) (hk : k.Met (findEvents c s q))
    (hb : allocateSlots c s.store q.gpuId q.numaNode q.nbytes q.flags = some base) :
    Moves c g k (s, some q, h) ((grant c s now q base).1, none, h) := by
  have hfree := allocateSlots_runFree hb
  have hplan := allocateSlots_planned hb
  rw [findEvents, hb, Option.toList_some, List.flatMap_singleton] at hk
  cases q with
  | offload req pid =>
    simp only [grant, grantOffload]
    split
    · exact .single (.lend hfree hq hplan)
    · exact .single .giveUp
  | prefetch => exact .single (.readback hfree (Rules.met_singleton.1 hk) hplan)
  | create => exact .single (.create hfree hq (Rules.met_singleton.1 hk) hplan)
  | candidate => exact .single (.candidate hfree hq (Rules.met_singleton.1 hk) hplan)
  | restore => exact .single (.warm hfree (Rules.met_singleton.1 hk))

/-- A search finds a run, starts to drain one, or is given up. -/
theorem acquire_moves {q : Purpose} {attempt : ℕ} (hq : g.okPurpose q)
    (hk : k.Met (findEvents c s q)) :
    Moves c g k (s, some q, h) ((acquire c s now q attempt).1, none, h) := by
  unfold acquire
  split
  · next base hb => exact grant_moves hq hk hb
  · split
    · next id L hL =>
      obtain ⟨hL, hd⟩ := oldestDrainable_eq_some hL
      exact .single (.force hL hd)
    · exact .single .giveUp

theorem handleRequestOffload_moves {req : RequestOffloadRequest}
    (hg : g.okRequest c s now (.offload req)) (hk : k.Met (requestEvents c s now (.offload req))) :
    Turns c g k s (handleRequestOffload c s now req).1 := by
  intro h
  unfold handleRequestOffload
  split
  · exact .refl
  next he =>
  split
  · exact .refl
  next hn =>
    have he : s.epochValid req.rankId req.rankEpoch = true := by simpa using he
    simp only [requestEvents, if_pos (show _ ∧ _ from ⟨he, hn⟩), Rules.met_singleton] at hk
    refine .head (.seek (p := .offload req (s.pidOf req.rankId)) trivial trivial he ?_ hk)
      (acquire_moves (hg he hn) ?_)
    · exact fun _ _ _ h => nomatch h
    · rw [findEvents, List.flatMap_eq_nil_iff.2 fun _ _ => rfl]
      exact List.forall_mem_nil _

/-! ## Leases -/

/-- A lease found for its owner, in the slot it names. -/
theorem ownedLease_eq_some {st : Store} {rankId id slotId : ℕ}
    (h : st.ownedLease rankId id slotId = some L) :
    st.leases.lookup id = some L ∧ L.ownerRank = rankId ∧ L.baseSlot = slotId := by
  simpa [Store.ownedLease, Option.filter_eq_some_iff] using h

/-- A copy of either direction is submitted. -/
theorem markSubmitted_moves {req : MarkSubmittedRequest} {source target : SlotState}
    {refusal : String} {gauge : Gauges → ℕ → Gauges}
    (hq : source = .reservedD2H ∧ target = .d2hInFlight ∨
      source = .pinnedValid ∧ target = .h2dInFlight)
    (hgauge : ∀ n, gauge s.gauges n = s.gauges.enter target n) :
    Turns c g k s (markSubmitted s now req source target refusal gauge).1 := by
  intro h
  unfold markSubmitted
  split
  · exact .refl
  split
  · exact .refl
  next L hL =>
    split
    · exact .refl
    next hst =>
      rw [hgauge]
      exact .single (.submit (ownedLease_eq_some hL).1 (not_not.1 hst) hq)

/-- What a completion of a D2H copy is checked against. -/
theorem d2hLease_eq_some {rankId rankEpoch id t v slotId : ℕ}
    (h : d2hLease s rankId rankEpoch id t v slotId = some L) :
    s.epochValid rankId rankEpoch ∧ s.store.leases.lookup id = some L ∧ L.ownerRank = rankId ∧
      L.baseSlot = slotId ∧ L.tensorId = t ∧ L.version = v ∧
      s.store.slotState L.baseSlot = .d2hInFlight := by
  unfold d2hLease at h
  split at h
  · cases h
  next he =>
    simp only [Option.filter_eq_some_iff, decide_eq_true_eq] at h
    obtain ⟨hL, hr, hb⟩ := ownedLease_eq_some h.1
    exact ⟨by simpa using he, hL, hr, hb, h.2.1, h.2.2.1, h.2.2.2⟩

/-- What a completion of an H2D copy is checked against: not the tensor and not
    the version. -/
theorem h2dLease_eq_some {rankId rankEpoch id slotId : ℕ}
    (h : h2dLease s rankId rankEpoch id slotId = some L) :
    s.epochValid rankId rankEpoch ∧ s.store.leases.lookup id = some L ∧ L.ownerRank = rankId ∧
      L.baseSlot = slotId ∧ s.store.slotState L.baseSlot = .h2dInFlight := by
  unfold h2dLease at h
  split at h
  · cases h
  next he =>
    simp only [Option.filter_eq_some_iff, decide_eq_true_eq] at h
    obtain ⟨hL, hr, hb⟩ := ownedLease_eq_some h.1
    exact ⟨by simpa using he, hL, hr, hb, h.2⟩

/-- An accepted D2H copy: it is published, and its run may be queued to drain. -/
theorem completeD2H_moves {id seq : ℕ} (hL : s.store.leases.lookup id = some L)
    (hst : s.store.slotState L.baseSlot = .d2hInFlight) (hg : g.publish s.store L) :
    Turns c g k s (completeD2H c s now id L seq) := by
  intro h
  have hpub : Moves c g k (s, none, h)
      ({ s with
          store := s.store.publishD2H c now id L seq
          gauges := s.gauges.leave .d2hInFlight L.nbytes }, none, h) := .single (.publish hL hst hg)
  unfold completeD2H
  dsimp only
  split
  · next hd =>
    exact hpub.tail (.enqueue hL rfl hg hd)
  · exact hpub

/-- An accepted H2D copy: its run is kept, or freed. -/
theorem completeH2D_moves {id t v seq : ℕ} {keep : Bool} (hL : s.store.leases.lookup id = some L)
    (hst : s.store.slotState L.baseSlot = .h2dInFlight) (hg : g.h2d s.store L t v)
    (hid : g.complete id)
    (hfree : ∀ cold, s.store.h2dCold t L.baseSlot = some cold → keep = false →
      g.reclaim (s.store.unlink id t (Location.fallBack L.baseSlot v cold.kind))
        L.baseSlot L.slotCount) :
    Turns c g k s (completeH2D c s now id L t v keep seq) := by
  intro h
  have hkeep : Moves c g k (s, none, h)
      ({ s with
          store := s.store.keepPinned now L t v seq
          gauges := s.gauges.leave .h2dInFlight L.nbytes }, none, h) :=
    .single (.keepPinned hL hst hg hid)
  unfold completeH2D
  dsimp only
  split
  · next cold hcold =>
    cases keep with
    | true => exact hkeep
    | false =>
      have hrec := hfree cold hcold rfl
      exact .head (.fallBack hL hst hcold hg hid hrec) (reclaim_moves hrec)
  · exact hkeep

theorem applyD2HComplete_moves (hg : g.okD2H s rankId rankEpoch id t v slotId) :
    Turns c g k s (applyD2HComplete c s now rankId rankEpoch id t v slotId seq).1 := by
  unfold applyD2HComplete
  split
  · exact .refl _
  · next L hL =>
    obtain ⟨-, hlook, -, -, -, -, hst⟩ := d2hLease_eq_some hL
    exact completeD2H_moves hlook hst (hg L hL)

theorem applyH2DComplete_moves {keep : Bool} (hg : g.okH2D s rankId rankEpoch id t v slotId keep) :
    Turns c g k s (applyH2DComplete c s now rankId rankEpoch id t v slotId keep seq).1 := by
  unfold applyH2DComplete
  split
  · exact .refl _
  · next L hL =>
    obtain ⟨-, hlook, -, -, hst⟩ := h2dLease_eq_some hL
    obtain ⟨hh, hid, hfree⟩ := hg L hL
    exact completeH2D_moves hlook hst hh hid hfree

theorem applyBatchCompletion_moves {rankId rankEpoch : ℕ} {b : BatchCompletion}
    (hg : g.okCompletion s rankId rankEpoch b) :
    Turns c g k s (applyBatchCompletion c s now rankId rankEpoch b).1 := by
  obtain ⟨eventType, id, t, v, slotId, keep, seq⟩ := b
  cases eventType with
  | d2hComplete => exact applyD2HComplete_moves hg
  | h2dComplete => exact applyH2DComplete_moves hg
  | other => exact .refl _

/-- The batch counts its completions beside going over them. -/
theorem applyBatch_state {rankId rankEpoch : ℕ} {bs : List BatchCompletion} :
    (applyBatch c s now rankId rankEpoch bs).1 =
      bs.foldl (fun s b => (applyBatchCompletion c s now rankId rankEpoch b).1) s :=
  (List.foldl_hom Prod.fst fun _ _ => rfl).symm

theorem handleBatchComplete_moves {req : BatchCompleteRequest}
    (hg : g.okBatch c s now req.rankId req.rankEpoch req.completions) :
    Turns c g k s (handleBatchComplete c s now req).1 := by
  rw [handleBatchComplete]
  dsimp only
  rw [applyBatch_state]
  exact Turns.foldl (p := fun s => s) (fun _ _ => applyBatchCompletion_moves) hg

/-- A new prefetch is bound to a resident run, or starts a search. -/
theorem newPrefetch_moves {loc : Location} (he : s.epochValid req.rankId req.rankEpoch)
    (hloc : s.store.locations.lookup req.tensorId = some loc)
    (hg : loc.kind = .pinned → s.store.slotState loc.slotId = .pinnedValid →
      g.bind s.store (prefetchLease c req loc loc.version (s.pidOf req.rankId) loc.slotId))
    (hk : k.Met (prefetchEvents c s req)) :
    Turns c g k s (newPrefetch c s now req loc).1 := by
  intro h
  unfold newPrefetch
  dsimp only
  split
  · next hp => exact .single (.bind he hloc hp.1 hp.2 (hg hp.1 hp.2))
  · simp only [prefetchEvents, hloc, if_pos he, Rules.met_cons] at hk
    exact .head (.seekPrefetch hloc he hk.1) (acquire_moves trivial hk.2)

theorem handleRequestPrefetch_moves (hg : g.okPrefetch c s req)
    (hk : k.Met (prefetchEvents c s req)) :
    Turns c g k s (handleRequestPrefetch c s now req).1 := by
  unfold handleRequestPrefetch
  split
  · exact .refl _
  next he =>
  split
  · exact .refl _
  next loc hloc =>
    dsimp only
    by_cases hv : (if req.version = 0 then loc.version else req.version) ≠ loc.version
    · rw [if_pos hv]
    rw [if_neg hv]
    split
    · exact .refl _
    split
    · exact .refl _
    next hnone =>
      have he : s.epochValid req.rankId req.rankEpoch := by simpa using he
      have hversion : req.version = 0 ∨ req.version = loc.version := by
        by_contra hne
        rw [not_or] at hne
        exact hv ((if_neg hne.1).trans_ne hne.2)
      exact newPrefetch_moves he hloc (hg loc hloc he hversion (by rw [hnone]; rfl)) hk

theorem handleReleaseLease_moves {req : ReleaseLeaseRequest} (hg : g.okRelease s req)
    (hk : k.Met (releaseLeaseEvents s req)) :
    Turns c g k s (handleReleaseLease c s now req).1 := by
  intro h
  unfold handleReleaseLease
  split
  · exact .refl
  next he =>
  split
  · exact .refl
  next L hL =>
    split
    · exact .refl
    next ho =>
      have he : s.epochValid req.rankId req.rankEpoch = true := by simpa using he
      obtain ⟨hdrop, hfree⟩ := hg L hL he (not_not.1 ho)
      split
      · next hf =>
        obtain ⟨hrel, hrec⟩ := hfree hf
        exact .head (.release hL hf hrel hdrop) (reclaim_moves hrec)
      · next hf =>
        have hf : releaseFrees (s.store.slotState L.baseSlot) = false := by simpa using hf
        simp only [releaseLeaseEvents, hL] at hk
        rw [if_pos ⟨he, not_not.1 ho, hf⟩, Rules.met_cons] at hk
        exact .head (.dropLease hL hf hdrop hk.1) (leaveRuns_moves hk.2)

end StateSpectre
