import StateSpectre.Allocator
import StateSpectre.LeaseCover

/-!
# Backpressure

An offload for which there is no run forces drains: the run touched least recently among those
that may be drained is copied to a cold tier and freed, and the allocator tries again. It is
refused as blocked when there is no run left to drain, or a copy fails; but also when it has
drained 65 runs (`maxDrainAttempts`), the last of them without trying again.

So a request that is handled alone is blocked for no good reason if it finds no run after 64
drains, and there is a run to drain after 65 (`backpressure_honest`). The runs that are drained
are known before: drains of one search do not change which runs may be drained after them, nor
their order (`SameRoom`). If there are more than 65 of them that do not overlap, one is left
(`State.RunsApart.exists_drainable`).
-/

namespace StateSpectre

variable {c : Config} {s t s' : State} {now id attempt : ℕ} {L : Lease} {p : Purpose} {n : ℕ}
  {st : Store} {cold : ColdEntry} {q : SlotState}

/-! ## Runs freed one after the other -/

/-- The lease is dropped and its run freed. -/
def State.freeRun (s : State) (id : ℕ) (L : Lease) : State :=
  { s with
    store := ((s.store.dropLease id).setRunState 0 L.baseSlot 1 .coldValid).freeSlots 0
      L.baseSlot L.slotCount }

/-- The run that would be drained next is freed, if there is one. -/
def State.freeOldest (s : State) : State :=
  match s.oldestDrainable with
  | some (id, L) => s.freeRun id L
  | none => s

/-- Two states with the same leases on slots in the same states, and touched at the same time as
    long as they are valid. -/
structure SameRoom (s t : State) : Prop where
  leases : s.store.leases = t.store.leases
  objects : s.catalog.objects = t.catalog.objects
  state : ∀ i, s.store.slotState i = t.store.slotState i
  touched : ∀ i, s.store.slotState i = .pinnedValid →
    (s.store.slots i).lastTouchNs = (t.store.slots i).lastTouchNs

namespace SameRoom

theorem refl (s : State) : SameRoom s s := ⟨rfl, rfl, fun _ => rfl, fun _ _ => rfl⟩

variable (h : SameRoom s t)

include h

theorem allocateSlots_eq {gpuId numaNode nbytes flags : ℕ} :
    allocateSlots c s.store gpuId numaNode nbytes flags =
      allocateSlots c t.store gpuId numaNode nbytes flags := by
  have hfree : (fun id => s.store.slotState id == .free) =
      fun id => t.store.slotState id == .free := by
    funext id
    rw [h.state]
  simp only [allocateSlots, tryAllocInWindow, hfree]

theorem drainable_eq (L : Lease) : s.drainable L = t.drainable L := by
  simp only [State.drainable, State.objectBusy, h.state, h.objects]

theorem oldestDrainable_eq : s.oldestDrainable = t.oldestDrainable := by
  have hpick : (fun (best : ℕ × Option (ℕ × Lease)) (r : ℕ × Lease) =>
      let ts := (s.store.slots r.2.baseSlot).lastTouchNs
      if s.drainable r.2 && decide (ts < best.1) then (ts, some r) else best) =
      fun best r =>
      let ts := (t.store.slots r.2.baseSlot).lastTouchNs
      if t.drainable r.2 && decide (ts < best.1) then (ts, some r) else best := by
    funext best r
    cases hd : s.drainable r.2 with
    | false => simp [← h.drainable_eq, hd]
    | true => simp only [← h.drainable_eq, hd, h.touched _ (State.slotState_of_drainable hd)]
  rw [State.oldestDrainable, hpick, h.leases]
  rfl

end SameRoom

/-- The states of the slots after a run was marked and freed. -/
theorem Store.slotState_reclaimed {b n i : ℕ} :
    ((st.setRunState now b 1 q).freeSlots now b n).slotState i =
      if InRun b n i then .free else if i = b then q else st.slotState i := by
  rw [Store.slotState, Store.freeSlots, Store.setRunState]
  split
  · next hi => rw [Store.mapRun_slots_of_mem hi]
  next hi =>
  rw [Store.mapRun_slots_of_not_mem hi]
  split
  · next hb => rw [Store.mapRun_slots_of_mem ⟨hb.ge, by omega⟩]
  · next hb => rw [Store.mapRun_slots_of_not_mem (by rintro ⟨h₁, h₂⟩; omega), Store.slotState]

/-- The other slots are as they were. -/
theorem Store.slots_reclaimed {b n i : ℕ} (hi : ¬InRun b n i) (hb : i ≠ b) :
    ((st.setRunState now b 1 q).freeSlots now b n).slots i = st.slots i := by
  rw [Store.freeSlots, Store.mapRun_slots_of_not_mem hi, Store.setRunState,
    Store.mapRun_slots_of_not_mem (by rintro ⟨h₁, h₂⟩; omega)]

/-- A run that was drained and reclaimed leaves the room that freeing it would. -/
theorem SameRoom.reclaimed (st : Store) (h : SameRoom s t)
    (hslots : ∀ i, ¬InRun L.baseSlot L.slotCount i → st.slots i = s.store.slots i)
    (hleases : st.leases = s.store.leases.erase id) (hobjects : s'.catalog = s.catalog)
    (hstore : s'.store = (st.setRunState now L.baseSlot 1 .coldValid).freeSlots now
      L.baseSlot L.slotCount) : SameRoom s' (t.freeRun id L) where
  leases := by
    rw [hstore]
    exact hleases.trans (congrArg (AList.erase id) h.leases)
  objects := (congrArg Catalog.objects hobjects).trans h.objects
  state i := by
    rw [hstore, State.freeRun, Store.slotState_reclaimed, Store.slotState_reclaimed]
    split
    · rfl
    next hi =>
    split
    · rfl
    · exact (congrArg SlotEntry.state (hslots i hi)).trans (h.state i)
  touched i hvalid := by
    rw [hstore, Store.slotState_reclaimed] at hvalid
    split at hvalid
    · cases hvalid
    next hi =>
    split at hvalid
    · cases hvalid
    next hb =>
    rw [Store.slotState, hslots i hi] at hvalid
    rw [hstore, State.freeRun, Store.slots_reclaimed hi hb, Store.slots_reclaimed hi hb,
      hslots i hi]
    exact h.touched i hvalid

theorem Store.slots_settleDrain {w : DrainWork} {i : ℕ} (hi : ¬InRun w.baseSlot w.slotCount i) :
    (st.settleDrain w cold).slots i = st.slots i := by
  simp only [Store.settleDrain, Store.dropLease, Store.updateLocationIfLatest]
  exact Store.mapRun_slots_of_not_mem hi

/-- So does a drain that ends, whatever else has changed in the meantime. -/
theorem SameRoom.finishDrain {s₁ : State} (h : SameRoom s t)
    (hslots : ∀ i, ¬InRun L.baseSlot L.slotCount i → s₁.store.slots i = s.store.slots i)
    (hleases : s₁.store.leases = s.store.leases) (hcatalog : s₁.catalog = s.catalog) :
    SameRoom (finishDrain c s₁ now (L.drainWork id p attempt) cold) (t.freeRun id L) := by
  refine h.reclaimed (s₁.store.settleDrain (L.drainWork id p attempt) cold) (fun i hi => ?_)
    (congrArg (AList.erase id) hleases) hcatalog rfl
  exact (Store.slots_settleDrain hi).trans (hslots i hi)

/-! ## A search alone -/

/-- A search goes on alone until it answers. For every drain it forces, the copy ends in some way,
    and the search takes the mutex again at some time. -/
inductive Alone (c : Config) : State × Response → List (ℕ × IoResult) → State × Response → Prop
  | answers {s : State} {r : Response} (h : r ≠ .none) : Alone c (s, r) [] (s, r)
  | drains {s s₁ : State} {out out' : State × Response} {now : ℕ} {result : IoResult}
      {results : List (ℕ × IoResult)} (hio : step c s (.io 0 result) = some (s₁, .none))
      (hgo : step c s₁ (.proceed now 0) = some out) (h : Alone c out results out') :
    Alone c (s, .none) ((now, result) :: results) out'

/-- What a search does after a drain it forced: it tries again, unless it was the last one. -/
def retry (c : Config) (s : State) (now : ℕ) (p : Purpose) (attempt : ℕ) : State × Response :=
  if attempt < maxDrainAttempts then acquire c s now p (attempt + 1) else (s, refuse p)

/-- A drain that a search forces, and whose copy succeeds, frees the run. -/
theorem startForceDrain_retries (c : Config) (now : ℕ) (p : Purpose) (attempt : ℕ)
    (hL : s.oldestDrainable = some (id, L)) :
    ∃ s₁, step c (startForceDrain s now p attempt id L) (.io 0 .ok) = some (s₁, .none) ∧
      ∀ now', ∃ s₂, step c s₁ (.proceed now' 0) = some (retry c s₂ now' p attempt) ∧
        ∀ t, SameRoom s t → SameRoom s₂ t.freeOldest := by
  have hstart : ∀ i, ¬InRun L.baseSlot L.slotCount i →
      (startForceDrain s now p attempt id L).store.slots i = s.store.slots i := by
    intro i hi
    change (s.store.setRunState now L.baseSlot L.slotCount .drainInFlight).slots i = _
    exact Store.mapRun_slots_of_not_mem hi
  refine ⟨_, rfl, fun now' => ⟨_, rfl, fun t h => ?_⟩⟩
  rw [State.freeOldest, ← h.oldestDrainable_eq, hL]
  exact h.finishDrain hstart rfl rfl

/-- A search would find a run after the first `k` drains. -/
def State.fitsAfter (s : State) (c : Config) (p : Purpose) (k : ℕ) : Prop :=
  (allocateSlots c (State.freeOldest^[k] s).store p.gpuId p.numaNode p.nbytes p.flags).isSome

theorem State.fitsAfter_succ {k : ℕ} : s.fitsAfter c p (k + 1) ↔ s.freeOldest.fitsAfter c p k :=
  .rfl

section Rounds

variable {results : List (ℕ × IoResult)} {r : Response}
  (hp : ∀ s now base, (grant c s now p base).2 ≠ .none)

include hp

omit hp in
/-- A search that is refused is over. -/
theorem Alone.refused (h : Alone c (s, refuse p) results (s', r)) : s' = s ∧ r = refuse p := by
  generalize hrefuse : refuse p = r' at h
  cases h with
  | answers hr => exact ⟨rfl, rfl⟩
  | drains hio hgo h => cases p <;> cases hrefuse

/-- The first round of a search alone whose copies succeed: it ends with a run; or refused, as
    there is nothing to drain; or the run touched least recently is freed, and it tries again. -/
theorem Alone.acquire_cases (hroom : SameRoom s t)
    (h : Alone c (acquire c s now p attempt) results (s', r)) (hok : ∀ x ∈ results, x.2 = .ok) :
    (t.fitsAfter c p 0 ∧ ∃ s₁ now base, r = (grant c s₁ now p base).2) ∨
      ((∀ k, ¬t.fitsAfter c p k) ∧ r = refuse p ∧ ∀ k, SameRoom s' (State.freeOldest^[k] t)) ∨
      ¬t.fitsAfter c p 0 ∧ ∃ s₁ now results, SameRoom s₁ t.freeOldest ∧
        Alone c (retry c s₁ now p attempt) results (s', r) ∧ ∀ x ∈ results, x.2 = .ok := by
  have hfits : t.fitsAfter c p 0 ↔
      (allocateSlots c s.store p.gpuId p.numaNode p.nbytes p.flags).isSome := by
    rw [hroom.allocateSlots_eq]
    rfl
  rw [acquire] at h
  split at h
  · next base hbase =>
    refine .inl ⟨hfits.2 (by rw [hbase]; rfl), ?_⟩
    generalize hgrant : grant c s now p base = out at h
    cases h with
    | answers hr => exact ⟨s, now, base, by rw [hgrant]⟩
    | drains hio hgo h => exact absurd (congrArg Prod.snd hgrant) (hp s now base)
  next hnone =>
  have hnot : ¬t.fitsAfter c p 0 := by simp [hfits, hnone]
  split at h
  · next id L hL =>
    refine .inr (.inr ⟨hnot, ?_⟩)
    cases h with
    | answers hr => exact absurd rfl hr
    | @drains _ s₁ out _ now' result rest hio hgo h =>
      obtain rfl : result = .ok := hok (now', result) List.mem_cons_self
      obtain ⟨s₁', hio', hretry⟩ := startForceDrain_retries c now p attempt hL
      cases hio'.symm.trans hio
      obtain ⟨s₂, hgo', hroom'⟩ := hretry now'
      cases hgo'.symm.trans hgo
      exact ⟨s₂, now', rest, hroom' t hroom, h, fun x hx => hok x (List.mem_cons_of_mem _ hx)⟩
  · next hL =>
    have hfix : t.freeOldest = t := by rw [State.freeOldest, ← hroom.oldestDrainable_eq, hL]
    obtain ⟨rfl, hr⟩ := h.refused
    refine .inr (.inl ⟨fun k => ?_, hr, fun k => ?_⟩)
    · rw [State.fitsAfter, Function.iterate_fixed hfix]
      exact hnot
    · rwa [Function.iterate_fixed hfix]

/-- Where a search alone ends whose copies succeed, after at most `n + 1` drains: with a run, if
    there is room after some drain but the last; and else refused, in the room that all of them
    make. -/
theorem Alone.acquire_ends (hroom : SameRoom s t) (hn : attempt + n = maxDrainAttempts)
    (h : Alone c (acquire c s now p attempt) results (s', r)) (hok : ∀ x ∈ results, x.2 = .ok) :
    (∃ k ≤ n, t.fitsAfter c p k) ∧ (∃ s₁ now base, r = (grant c s₁ now p base).2) ∨
      (∀ k ≤ n, ¬t.fitsAfter c p k) ∧ r = refuse p ∧ SameRoom s' (State.freeOldest^[n + 1] t) := by
  induction n generalizing s t now attempt results with
  | zero =>
    rcases h.acquire_cases hp hroom hok with ⟨hfits, hr⟩ | ⟨hfits, hr, hroom'⟩ | ⟨hfits, hretry⟩
    · exact .inl ⟨⟨0, le_rfl, hfits⟩, hr⟩
    · exact .inr ⟨fun k _ => hfits k, hr, hroom' _⟩
    · obtain ⟨s₁, now', rest, hroom', h', -⟩ := hretry
      rw [retry, if_neg (by omega)] at h'
      obtain ⟨rfl, hr⟩ := h'.refused
      exact .inr ⟨fun k hk => Nat.le_zero.1 hk ▸ hfits, hr, hroom'⟩
  | succ n ih =>
    rcases h.acquire_cases hp hroom hok with ⟨hfits, hr⟩ | ⟨hfits, hr, hroom'⟩ | ⟨hfits, hretry⟩
    · exact .inl ⟨⟨0, Nat.zero_le _, hfits⟩, hr⟩
    · exact .inr ⟨fun k _ => hfits k, hr, hroom' _⟩
    · obtain ⟨s₁, now', rest, hroom', h', hok'⟩ := hretry
      rw [retry, if_pos (by omega)] at h'
      rcases ih hroom' (by omega) h' hok' with ⟨⟨k, hk, hfits'⟩, hr⟩ | ⟨hfits', hr, hroom''⟩
      · exact .inl ⟨⟨k + 1, by omega, State.fitsAfter_succ.2 hfits'⟩, hr⟩
      · refine .inr ⟨fun k hk => ?_, hr, hroom''⟩
        cases k with
        | zero => exact hfits
        | succ k => exact State.fitsAfter_succ.not.2 (hfits' k (by omega))

omit hp in
theorem refuse_ne_none : refuse p ≠ .none := by
  cases p <;> exact nofun

/-- A search ends if it does after a drain. -/
theorem Alone.exists_of_retry (s : State) (now : ℕ)
    (hretry : ∀ s₁, ∃ results out, (∀ x ∈ results, x.2 = .ok) ∧
      Alone c (retry c s₁ now p attempt) results out) :
    ∃ results out, (∀ x ∈ results, x.2 = .ok) ∧
      Alone c (acquire c s now p attempt) results out := by
  rw [acquire]
  split
  · next base _ => exact ⟨[], _, by simp, .answers (hp s now base)⟩
  split
  · next id L hL =>
    obtain ⟨s₁, hio, hgo⟩ := startForceDrain_retries c now p attempt hL
    obtain ⟨s₂, hgo, -⟩ := hgo now
    obtain ⟨results, out, hok, h⟩ := hretry s₂
    exact ⟨(now, .ok) :: results, out, by simpa using hok, .drains hio hgo h⟩
  · exact ⟨[], _, by simp, .answers refuse_ne_none⟩

/-- A search alone whose copies succeed ends. -/
theorem Alone.exists_acquire (s : State) (now : ℕ) (hn : attempt + n = maxDrainAttempts) :
    ∃ results out, (∀ x ∈ results, x.2 = .ok) ∧
      Alone c (acquire c s now p attempt) results out := by
  induction n generalizing s attempt with
  | zero =>
    refine exists_of_retry hp s now fun s₁ => ⟨[], (s₁, refuse p), nofun, ?_⟩
    rw [retry, if_neg (by omega)]
    exact .answers refuse_ne_none
  | succ n ih =>
    refine exists_of_retry hp s now fun s₁ => ?_
    rw [retry, if_pos (by omega)]
    exact ih s₁ (by omega)

end Rounds

/-! ## Blocked for a good reason -/

/-- No run is left that may be drained: those that are valid are protected by a create, a restore
    or an export. -/
abbrev State.NothingToDrain (s : State) : Prop :=
  ∀ id L, s.store.leases.lookup id = some L → ¬s.drainable L

/-- An offload that is handled alone is blocked only if a copy fails or no run is left that may be
    drained. -/
def HonestlyBlocked (c : Config) (s : State) (now : ℕ) (req : RequestOffloadRequest) : Prop :=
  ∀ results s' r, Alone c (handle c s now (.offload req)) results (s', .offload r) → r.blocked →
    (∃ x ∈ results, x.2 ≠ .ok) ∨ s'.NothingToDrain

theorem SameRoom.nothingToDrain_iff (h : SameRoom s t) : s.NothingToDrain ↔ t.NothingToDrain := by
  simp only [State.NothingToDrain, h.leases, h.drainable_eq]

theorem grantOffload_answer (c : Config) (s : State) (now : ℕ) (req : RequestOffloadRequest)
    (ownerPid base : ℕ) :
    ∃ r, (grantOffload c s now req ownerPid base).2 = .offload r ∧ r.blocked = false := by
  rw [grantOffload]
  split
  · exact ⟨_, rfl, rfl⟩
  · exact ⟨_, rfl, rfl⟩

/-- An offload that does not get to a search is not blocked. -/
theorem handleRequestOffload_cases (c : Config) (s : State) (now : ℕ)
    (req : RequestOffloadRequest) :
    (s.epochValid req.rankId req.rankEpoch ∧ req.nbytes ≠ 0 ∧ handleRequestOffload c s now req =
        acquire c s now (.offload req (s.pidOf req.rankId)) 0) ∨
      ∃ message, handleRequestOffload c s now req = (s, .offload { message := message }) := by
  rw [handleRequestOffload]
  split
  · exact .inr ⟨_, rfl⟩
  next hepoch =>
  split
  · exact .inr ⟨_, rfl⟩
  · next hbytes => exact .inl ⟨by simpa using hepoch, hbytes, rfl⟩

theorem grant_offload_ne_none {req : RequestOffloadRequest} {ownerPid : ℕ} (s : State)
    (now base : ℕ) : (grant c s now (.offload req ownerPid) base).2 ≠ .none := by
  obtain ⟨r, hr, -⟩ := grantOffload_answer c s now req ownerPid base
  rw [grant, hr]
  rintro ⟨⟩

/-- An offload that finds no room after any drain but the last is blocked, though all copies
    succeed. -/
theorem exists_blocked (c : Config) (now : ℕ) (req : RequestOffloadRequest)
    (hepoch : s.epochValid req.rankId req.rankEpoch) (hbytes : req.nbytes ≠ 0)
    (hnot : ∀ k ≤ maxDrainAttempts, ¬s.fitsAfter c (.offload req (s.pidOf req.rankId)) k) :
    ∃ results s', (∀ x ∈ results, x.2 = .ok) ∧
      Alone c (handle c s now (.offload req)) results
        (s', refuse (.offload req (s.pidOf req.rankId))) ∧
      SameRoom s' (State.freeOldest^[maxDrainAttempts + 1] s) := by
  have hhandle : handle c s now (.offload req) =
      acquire c s now (.offload req (s.pidOf req.rankId)) 0 := by
    simp [handle, handleRequestOffload, hepoch, hbytes]
  obtain ⟨results, ⟨s', r⟩, hok, halone⟩ :=
    Alone.exists_acquire grant_offload_ne_none s now (Nat.zero_add _)
  rcases halone.acquire_ends grant_offload_ne_none (.refl s) (Nat.zero_add _) hok with
    ⟨⟨k, hk, hfits⟩, -⟩ | ⟨-, rfl, hroom⟩
  · exact absurd hfits (hnot k hk)
  · exact ⟨results, s', hok, hhandle ▸ halone, hroom⟩

/-- An offload that is handled alone, in any state, is blocked for a good reason only, if and only
    if it would not get so far, or there is room for it after at most 64 drains, or nothing is
    left to drain after 65. -/
theorem backpressure_honest (c : Config) (s : State) (now : ℕ) (req : RequestOffloadRequest) :
    HonestlyBlocked c s now req ↔
      (s.epochValid req.rankId req.rankEpoch → req.nbytes ≠ 0 →
        (∃ k ≤ maxDrainAttempts, s.fitsAfter c (.offload req (s.pidOf req.rankId)) k) ∨
          (State.freeOldest^[maxDrainAttempts + 1] s).NothingToDrain) := by
  constructor
  · intro h hepoch hbytes
    refine or_iff_not_imp_left.2 fun hnot => ?_
    obtain ⟨results, s', hok, halone, hroom⟩ := exists_blocked c now req hepoch hbytes
      fun k hk hfits => hnot ⟨k, hk, hfits⟩
    rcases h results s' _ halone rfl with ⟨x, hx, hfail⟩ | hnothing
    · exact absurd (hok x hx) hfail
    · exact hroom.nothingToDrain_iff.1 hnothing
  · intro h results s' r halone hblocked
    refine or_iff_not_imp_left.2 fun hok => ?_
    have hok : ∀ x ∈ results, x.2 = .ok := by simpa using hok
    rw [handle] at halone
    rcases handleRequestOffload_cases c s now req with ⟨hepoch, hbytes, heq⟩ | ⟨message, heq⟩
    · rw [heq] at halone
      rcases halone.acquire_ends grant_offload_ne_none (.refl s) (Nat.zero_add _) hok with
        ⟨-, s₁, now₁, base, hr⟩ | ⟨hfits, -, hroom⟩
      · obtain ⟨r', hr', hfree⟩ := grantOffload_answer c s₁ now₁ req (s.pidOf req.rankId) base
        cases hr.trans hr'
        cases hblocked.symm.trans hfree
      · refine hroom.nothingToDrain_iff.2 ((h hepoch hbytes).resolve_left ?_)
        rintro ⟨k, hk, hfit⟩
        exact hfits k hk hfit
    · rw [heq] at halone
      cases halone
      cases hblocked

/-! ## Counting the runs that may be drained -/

/-- The leases whose runs may be drained. -/
def State.drainIds (s : State) : Finset ℕ := s.store.leases.keysWhere s.drainable

/-- A run may be drained after another one was freed if it may be before, and does not start in
    it. -/
theorem State.drainable_freeRun {L' : Lease} : (s.freeRun id L).drainable L' ↔
    s.drainable L' ∧ ¬InRun L.baseSlot L.slotCount L'.baseSlot ∧ L'.baseSlot ≠ L.baseSlot := by
  have hstate : (s.freeRun id L).store.slotState L'.baseSlot =
      if InRun L.baseSlot L.slotCount L'.baseSlot then .free
      else if L'.baseSlot = L.baseSlot then .coldValid else s.store.slotState L'.baseSlot :=
    Store.slotState_reclaimed
  have hbusy : (s.freeRun id L).objectBusy = s.objectBusy := rfl
  simp only [State.drainable, hstate, hbusy]
  by_cases hrun : InRun L.baseSlot L.slotCount L'.baseSlot
  · simp [hrun]
  rw [if_neg hrun]
  by_cases hbase : L'.baseSlot = L.baseSlot
  · simp [hbase]
  · simp [hrun, hbase]

theorem State.mem_drainIds_freeRun {id' : ℕ} : id' ∈ (s.freeRun id L).drainIds ↔
    id' ≠ id ∧ ∃ L', s.store.leases.lookup id' = some L' ∧ s.drainable L' ∧
      ¬InRun L.baseSlot L.slotCount L'.baseSlot ∧ L'.baseSlot ≠ L.baseSlot := by
  have hlookup : (s.freeRun id L).store.leases.lookup id' =
      if id' = id then none else s.store.leases.lookup id' := Table.lookup_erase ..
  rw [State.drainIds, Table.mem_keysWhere, hlookup]
  by_cases hid : id' = id
  · simp [hid]
  · simp [hid, State.drainable_freeRun]

theorem State.mem_drainIds_of_oldest (h : s.oldestDrainable = some (id, L)) : id ∈ s.drainIds :=
  Table.mem_keysWhere.2 ⟨L, oldestDrainable_eq_some h⟩

/-- No run that may be drained starts in another one. -/
def State.RunsApart (s : State) : Prop :=
  ∀ id id' L L', s.store.leases.lookup id = some L → s.store.leases.lookup id' = some L' →
    s.drainable L → s.drainable L' → id' ≠ id →
    ¬InRun L.baseSlot L.slotCount L'.baseSlot ∧ L'.baseSlot ≠ L.baseSlot

theorem State.RunsApart.freeOldest (h : s.RunsApart) :
    s.freeOldest.RunsApart ∧ s.drainIds.card ≤ s.freeOldest.drainIds.card + 1 := by
  rw [State.freeOldest]
  split
  next id L hL =>
    obtain ⟨hlookup, hd⟩ := oldestDrainable_eq_some hL
    refine ⟨fun id₁ id₂ L₁ L₂ h₁ h₂ hd₁ hd₂ => ?_, ?_⟩
    · exact h id₁ id₂ L₁ L₂ (Table.lookup_erase_eq_some.1 h₁).2 (Table.lookup_erase_eq_some.1 h₂).2
        (State.drainable_freeRun.1 hd₁).1 (State.drainable_freeRun.1 hd₂).1
    · have hsub : s.drainIds.erase id ⊆ (s.freeRun id L).drainIds := by
        intro id' hid'
        obtain ⟨hne, hmem⟩ := Finset.mem_erase.1 hid'
        obtain ⟨L', hL', hd'⟩ := Table.mem_keysWhere.1 hmem
        exact State.mem_drainIds_freeRun.2 ⟨hne, L', hL', hd', h id id' L L' hlookup hL' hd hd' hne⟩
      have hcard := Finset.card_le_card hsub
      rw [Finset.card_erase_of_mem (State.mem_drainIds_of_oldest hL)] at hcard
      omega
  · exact ⟨h, Nat.le_succ _⟩

/-- With more than `n` runs that may be drained, one is left after `n` drains. -/
theorem State.RunsApart.exists_drainable (h : s.RunsApart) (hn : n < s.drainIds.card) :
    (State.freeOldest^[n] s).drainIds.Nonempty := by
  induction n generalizing s with
  | zero => exact Finset.card_pos.1 hn
  | succ n ih =>
    obtain ⟨happart, hcard⟩ := h.freeOldest
    exact ih happart (by omega)

/-- Drains draw no leases. -/
theorem State.lookup_freeOldest (h : (State.freeOldest^[n] s).store.leases.lookup id = some L) :
    s.store.leases.lookup id = some L := by
  induction n generalizing s with
  | zero => exact h
  | succ n ih =>
    have hone : ∀ {id L}, s.freeOldest.store.leases.lookup id = some L →
        s.store.leases.lookup id = some L := by
      intro id L hL
      rw [State.freeOldest] at hL
      split at hL
      · exact (Table.lookup_erase_eq_some.1 hL).2
      · exact hL
    exact hone (ih h)

/-! ## Sixty-six runs -/

/-- A node with 66 slots of four bytes, for the GPU 0. -/
def wideNode : DaemonConfig := { nodeOnce with perNuma := [⟨0, 264, [⟨0, 264⟩], 0⟩] }

/-- A daemon with 66 slots, which drains none of them unless it is forced to. -/
def wideKept : Config := { wideNode.start with drainOnD2HComplete := false }

/-- The rank 0 offloads 66 tensors, of one slot each. -/
def fillsWide : List Action :=
  registers :: (List.range 66).flatMap fun i => offloadsTo i 1 i 1 (i + 1) [1]

/-- The rank 0 asks for all 66 slots. -/
def asksForAll : RequestOffloadRequest :=
  { rankId := 0, rankEpoch := 1, tensorId := 100, version := 1, nbytes := 264 }

/-- There is no room for all slots as long as one is valid. -/
theorem not_fits_all {p : Purpose} (hp : p.nbytes = 264) (hbase : L.baseSlot < 66)
    (hvalid : s.store.slotState L.baseSlot = .pinnedValid) : ¬s.fitsAfter wideKept p 0 := by
  intro hfits
  obtain ⟨base, hfound⟩ := Option.isSome_iff_exists.1 hfits
  have hstarted : wideKept.StartedFrom wideNode := ⟨rfl, rfl, rfl⟩
  obtain ⟨w, hw, i, ⟨hlen, hfree⟩, -⟩ := exists_of_allocateSlots hstarted hfound
  have hids : w.slotIds = List.range' 0 66 := congrArg Window.slotIds (List.mem_singleton.1 hw)
  have hcount : wideKept.slotsForBytes p.nbytes = 66 := by rw [hp]; rfl
  rw [hids, hcount, List.length_range'] at hlen
  obtain rfl : i = 0 := by omega
  have hslot : w.slotIds[0 + L.baseSlot]? = some L.baseSlot := by
    rw [hids, Nat.zero_add, List.getElem?_range' hbase, Nat.zero_add, Nat.one_mul]
  cases (hfree L.baseSlot (hcount ▸ hbase) _ hslot).symm.trans hvalid

/-- A daemon with 66 runs of one slot that may be drained is asked for all its slots: it drains 65
    of them, and the request is blocked, though one more drain would make room for it. -/
theorem blocked_with_run_left :
    ∃ s results s' r id L, Reached wideKept s ∧ s.store.tasks = [] ∧
      Alone wideKept (handle wideKept s 9 (.offload asksForAll)) results (s', .offload r) ∧
      r.blocked ∧ (∀ x ∈ results, x.2 = .ok) ∧
      s'.store.leases.lookup id = some L ∧ s'.drainable L := by
  obtain ⟨s, hs, htasks, hepoch, hcard, hlease⟩ := exists_reachable wideKept (fun _ _ => True)
    (p := fun s => s.store.tasks = [] ∧ s.epochValid 0 1 ∧ s.drainIds.card = 66 ∧
      ∀ id L, s.store.leases.lookup id = some L →
        L.baseSlot + 1 = id ∧ id ≤ 66 ∧ L.slotCount = 1)
    fillsWide (by decide +kernel)
  have hapart : s.RunsApart := by
    intro id id' L L' hL hL' _ _ hne
    obtain ⟨hbase, -, hcount⟩ := hlease id L hL
    obtain ⟨hbase', -⟩ := hlease id' L' hL'
    rw [InRun, hcount]
    omega
  have hleft : ∀ k ≤ maxDrainAttempts + 1, ∃ id L,
      (State.freeOldest^[k] s).store.leases.lookup id = some L ∧
        (State.freeOldest^[k] s).drainable L := by
    intro k hk
    obtain ⟨id, hid⟩ := hapart.exists_drainable (n := k) (by rw [hcard]; exact Nat.lt_succ_of_le hk)
    obtain ⟨L, hL, hd⟩ := Table.mem_keysWhere.1 hid
    exact ⟨id, L, hL, hd⟩
  have hfits : ∀ k ≤ maxDrainAttempts,
      ¬s.fitsAfter wideKept (.offload asksForAll (s.pidOf asksForAll.rankId)) k := by
    intro k hk
    obtain ⟨id, L, hL, hd⟩ := hleft k (hk.trans (Nat.le_succ _))
    obtain ⟨hbase, hid, -⟩ := hlease id L (State.lookup_freeOldest hL)
    exact not_fits_all rfl (by omega) (State.slotState_of_drainable hd)
  obtain ⟨results, s', hok, halone, hroom⟩ :=
    exists_blocked wideKept 9 asksForAll hepoch (by decide) hfits
  obtain ⟨id, L, hL, hd⟩ := hleft (maxDrainAttempts + 1) le_rfl
  refine ⟨s, results, s', _, id, L, hs, htasks, halone, rfl, hok, ?_, ?_⟩
  · rw [hroom.leases]
    exact hL
  · rw [hroom.drainable_eq]
    exact hd

/-- A daemon with one run that may be drained. -/
theorem backpressure_honest_one :
    ∃ s, Reached oneSlot s ∧
      (s.epochValid 0 1 ∧ s.drainIds.card = 1 ∧
        (State.freeOldest^[maxDrainAttempts + 1] s).NothingToDrain) ∧
      HonestlyBlocked oneSlot s 9 asksForAll :=
  exists_reachable_and oneSlot _ (registers :: offloads 1 1 1 1 [1]) (by decide +kernel)
    fun _ _ hp => (backpressure_honest ..).2 fun _ _ => .inr hp.2.2

end StateSpectre
