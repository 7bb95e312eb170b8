import StateSpectre.Copies
import StateSpectre.Fencing

/-!
# Three ways to complete a copy

A rank tells the daemon that a copy is complete by a request of its own, as an item of a batch,
or through its completion ring. The three come to the same: a batch does what its items would do
one by one (`applyBatch_eq_oneByOne`), and so does the ring, whenever the poller takes the
entries, but for the sequence numbers, which a ring entry has none of (`deliver_bare`).
-/

namespace StateSpectre

variable {c : Config} {s s' : State} {now rankId rankEpoch i : ℕ} {bs : List BatchCompletion}
  {id t v slotId seq seq' : ℕ} {b : BatchCompletion} {ts : List ℕ}

/-! ## One by one -/

/-- The request that completes one copy, if there is one. -/
def BatchCompletion.request (rankId rankEpoch : ℕ) (b : BatchCompletion) : Option Request :=
  match b.eventType with
  | .d2hComplete =>
    some (.d2hComplete
      { rankId := rankId, rankEpoch := rankEpoch, leaseId := b.leaseId, tensorId := b.tensorId
        version := b.version, slotId := b.slotId, completeSeq := b.seq })
  | .h2dComplete =>
    some (.h2dComplete
      { rankId := rankId, rankEpoch := rankEpoch, leaseId := b.leaseId, tensorId := b.tensorId
        version := b.version, slotId := b.slotId, keepPinned := b.keepPinned
        completeSeq := b.seq })
  | .other => none

/-- A rank sends a completion in a request of its own, at some time. The requests answered ok are
    counted. -/
def sendOne (c : Config) (rankId rankEpoch : ℕ) (r : State × ℕ) (x : ℕ × BatchCompletion) :
    State × ℕ :=
  match x.2.request rankId rankEpoch with
  | none => r
  | some req =>
    let r' := handle c r.1 x.1 req
    (r'.1, if r'.2.refused then r.2 else r.2 + 1)

/-- A rank sends its completions one by one, each at its time. -/
def oneByOne (c : Config) (s : State) (rankId rankEpoch : ℕ) (xs : List (ℕ × BatchCompletion)) :
    State × ℕ := xs.foldl (sendOne c rankId rankEpoch) (s, 0)

/-- A request does what the item of a batch does. -/
theorem sendOne_eq {n : ℕ} : sendOne c rankId rankEpoch (s, n) (now, b) =
      ((applyBatchCompletion c s now rankId rankEpoch b).1,
        if (applyBatchCompletion c s now rankId rankEpoch b).2 then n + 1 else n) := by
  obtain ⟨eventType, id, t, v, slotId, seq, keep⟩ := b
  cases eventType with
  | d2hComplete =>
    rcases hL : d2hLease s rankId rankEpoch id t v slotId with _ | L <;>
      simp [sendOne, BatchCompletion.request, handle, handleMarkD2HComplete, applyBatchCompletion,
        applyD2HComplete, Response.refused, hL]
  | h2dComplete =>
    rcases hL : h2dLease s rankId rankEpoch id slotId with _ | L <;>
      simp [sendOne, BatchCompletion.request, handle, handleMarkH2DComplete, applyBatchCompletion,
        applyH2DComplete, Response.refused, ack, hL]
  | other => rfl

/-- A batch does what its items would do one by one at that time, and counts those that would be
    answered ok. -/
theorem applyBatch_eq_oneByOne :
    ((applyBatch c s now rankId rankEpoch bs).1, (applyBatch c s now rankId rankEpoch bs).2.1) =
      oneByOne c s rankId rankEpoch (bs.map (now, ·)) := by
  rw [oneByOne, List.foldl_map]
  refine (List.foldl_hom (fun r : State × ℕ × ℕ => (r.1, r.2.1)) fun r b => ?_).symm
  rw [sendOne_eq]
  dsimp only
  split <;> rfl

/-- It counts the others, too. -/
theorem applyBatch_count :
    (applyBatch c s now rankId rankEpoch bs).2.1 + (applyBatch c s now rankId rankEpoch bs).2.2 =
      bs.length := by
  induction bs using List.reverseRecOn with
  | nil => rfl
  | append_singleton bs b ih =>
    simp only [applyBatch, List.foldl_append, List.foldl_cons, List.foldl_nil,
      List.length_append, List.length_singleton] at ih ⊢
    split <;> omega

/-! ## Sequence numbers -/

/-- A slot without the sequence number of its last completion. -/
def SlotEntry.unstamped (e : SlotEntry) : SlotEntry := { e with completeSeq := 0 }

/-- A state without the sequence numbers of the completions, and without the rings. -/
def State.bare (s : State) : State :=
  { s with
    store := { s.store with slots := fun i => (s.store.slots i).unstamped }
    rings := fun _ => {} }

/-- States that differ in sequence numbers and rings. -/
theorem State.bare_congr (hslots : ∀ i, (s.store.slots i).unstamped = (s'.store.slots i).unstamped)
    (hrest : s = { s' with store := { s'.store with slots := s.store.slots }, rings := s.rings }) :
    s.bare = s'.bare := by
  refine (congrArg State.bare hrest).trans ?_
  simp only [State.bare, hslots]

theorem State.exists_of_bare_eq (h : s.bare = s'.bare) :
    ∃ slots rings, s' = { s with store := { s.store with slots := slots }, rings := rings } ∧
      ∀ i, (s.store.slots i).unstamped = (slots i).unstamped := by
  obtain ⟨⟨⟩⟩ := s
  obtain ⟨⟨⟩⟩ := s'
  simp only [State.bare, State.mk.injEq, Store.mk.injEq] at h
  obtain ⟨⟨hslots, rfl, rfl, rfl, rfl, rfl, rfl, rfl, rfl, rfl, rfl⟩, rfl, rfl, -, rfl, rfl, rfl⟩ :=
    h
  exact ⟨_, _, rfl, fun i => congrFun hslots i⟩

theorem onRun_unstamped {slots slots' : ℕ → SlotEntry} {f f' : ℕ → SlotEntry → SlotEntry} {b n : ℕ}
    (hslots : ∀ i, (slots i).unstamped = (slots' i).unstamped)
    (hf : ∀ k e e', e.unstamped = e'.unstamped → (f k e).unstamped = (f' k e').unstamped) (i : ℕ) :
    (onRun b n f slots i).unstamped = (onRun b n f' slots' i).unstamped := by
  by_cases hi : InRun b n i
  · rw [onRun_of_mem hi, onRun_of_mem hi, hf _ _ _ (hslots i)]
  · rw [onRun_of_not_mem hi, onRun_of_not_mem hi, hslots i]

/-- A completion of a D2H copy does the same in such states, and with another sequence number. -/
theorem completeD2H_bare {id seq seq' : ℕ} {L : Lease} (h : s.bare = s'.bare) :
    (completeD2H c s now id L seq).bare = (completeD2H c s' now id L seq').bare := by
  obtain ⟨slots, rings, rfl, hslots⟩ := State.exists_of_bare_eq h
  have hrun : ∀ i, ((s.store.publishD2H c now id L seq).slots i).unstamped =
      (({ s.store with slots := slots }.publishD2H c now id L seq').slots i).unstamped :=
    onRun_unstamped hslots fun _ e e' he => by
      simp only [SlotEntry.unstamped, SlotEntry.mk.injEq] at he ⊢
      simp [he]
  have hdrain : drainsOnComplete c s L.tensorId = drainsOnComplete c
    { s with store := { s.store with slots := slots }, rings := rings } L.tensorId := rfl
  rw [completeD2H, completeD2H, ← hdrain]
  split
  · refine State.bare_congr (onRun_unstamped hrun fun _ e e' he => ?_) rfl
    simp only [SlotEntry.unstamped, SlotEntry.mk.injEq] at he ⊢
    simp [he]
  · exact State.bare_congr hrun rfl

/-- And so does one of an H2D copy. -/
theorem completeH2D_bare {id t v seq seq' : ℕ} {L : Lease} {keep : Bool} (h : s.bare = s'.bare) :
    (completeH2D c s now id L t v keep seq).bare =
      (completeH2D c s' now id L t v keep seq').bare := by
  have hcold : s.store.h2dCold t L.baseSlot = s'.store.h2dCold t L.baseSlot := by
    change s.bare.store.h2dCold t L.baseSlot = s'.bare.store.h2dCold t L.baseSlot
    rw [h]
  have hcref : s.store.h2dColdRef t L.baseSlot = s'.store.h2dColdRef t L.baseSlot := by
    change s.bare.store.h2dColdRef t L.baseSlot = s'.bare.store.h2dColdRef t L.baseSlot
    rw [h]
  obtain ⟨slots, rings, rfl, hslots⟩ := State.exists_of_bare_eq h
  have hkeep : ∀ i, ((s.store.keepPinned now L t v seq).slots i).unstamped =
      (({ s.store with slots := slots }.keepPinned now L t v seq').slots i).unstamped :=
    onRun_unstamped hslots fun _ e e' he => by
      simp only [SlotEntry.unstamped, SlotEntry.mk.injEq] at he ⊢
      simp [he]
  rw [completeH2D, completeH2D, ← hcold]
  cases s.store.h2dCold t L.baseSlot with
  | none =>
    refine State.bare_congr hkeep ?_
    simp only [Store.keepPinned, hcref]
    rfl
  | some cold =>
    cases keep with
    | true =>
      refine State.bare_congr hkeep ?_
      simp only [Store.keepPinned, hcref]
      rfl
    | false =>
      refine State.bare_congr (onRun_unstamped hslots fun _ e e' he => ?_) rfl
      simp only [SlotEntry.unstamped, SlotEntry.mk.injEq] at he ⊢
      simp [he]

theorem applyD2HComplete_bare (h : s.bare = s'.bare) :
    (applyD2HComplete c s now rankId rankEpoch id t v slotId seq).1.bare =
      (applyD2HComplete c s' now rankId rankEpoch id t v slotId seq').1.bare := by
  have hlease : d2hLease s rankId rankEpoch id t v slotId =
      d2hLease s' rankId rankEpoch id t v slotId := by
    change d2hLease s.bare rankId rankEpoch id t v slotId =
      d2hLease s'.bare rankId rankEpoch id t v slotId
    rw [h]
  rw [applyD2HComplete, applyD2HComplete, ← hlease]
  cases d2hLease s rankId rankEpoch id t v slotId with
  | none => exact h
  | some L => exact completeD2H_bare h

theorem applyH2DComplete_bare {keep : Bool} (h : s.bare = s'.bare) :
    (applyH2DComplete c s now rankId rankEpoch id t v slotId keep seq).1.bare =
      (applyH2DComplete c s' now rankId rankEpoch id t v slotId keep seq').1.bare := by
  have hlease : h2dLease s rankId rankEpoch id slotId = h2dLease s' rankId rankEpoch id slotId := by
    change h2dLease s.bare rankId rankEpoch id slotId = h2dLease s'.bare rankId rankEpoch id slotId
    rw [h]
  rw [applyH2DComplete, applyH2DComplete, ← hlease]
  cases h2dLease s rankId rankEpoch id slotId with
  | none => exact h
  | some L => exact completeH2D_bare h

/-! ## Through the ring -/

/-- The ring entry for a completion. -/
def BatchCompletion.toEntry (b : BatchCompletion) : CompletionEntry where
  leaseId := b.leaseId
  tensorId := b.tensorId
  version := b.version
  slotId := b.slotId
  eventType := b.eventType

/-- A ring entry does what the item of a batch does, unless that keeps its run pinned. -/
theorem applyRingCompletion_bare (hkeep : b.eventType = .h2dComplete → b.keepPinned = false)
    (h : s.bare = s'.bare) :
    (applyRingCompletion c s now rankId rankEpoch b.toEntry).bare =
      (applyBatchCompletion c s' now rankId rankEpoch b).1.bare := by
  obtain ⟨eventType, id, t, v, slotId, seq, keep⟩ := b
  cases eventType with
  | d2hComplete => exact applyD2HComplete_bare h
  | h2dComplete =>
    obtain rfl := hkeep rfl
    exact applyH2DComplete_bare h
  | other => exact h

/-- The entries are applied in order, each at its time. -/
def applyEntries (c : Config) (rankId rankEpoch : ℕ) (s : State)
    (xs : List (ℕ × CompletionEntry)) : State :=
  xs.foldl (fun s x => applyRingCompletion c s x.1 rankId rankEpoch x.2) s

/-- Entries do what the completions do one by one. -/
theorem applyEntries_bare {n : ℕ}
    (hkeep : ∀ b ∈ bs, b.eventType = .h2dComplete → b.keepPinned = false) (h : s.bare = s'.bare) :
    (applyEntries c rankId rankEpoch s (ts.zip (bs.map BatchCompletion.toEntry))).bare =
      ((ts.zip bs).foldl (sendOne c rankId rankEpoch) (s', n)).1.bare := by
  induction bs generalizing s s' ts n with
  | nil => simpa [applyEntries] using h
  | cons b bs ih =>
    cases ts with
    | nil => exact h
    | cons τ ts =>
      rw [List.map_cons, List.zip_cons_cons, List.zip_cons_cons, List.foldl_cons, sendOne_eq]
      refine ih (fun b hb => hkeep b (List.mem_cons_of_mem _ hb)) ?_
      exact applyRingCompletion_bare (hkeep b List.mem_cons_self) h

theorem applyEntries_congr {xs : List (ℕ × CompletionEntry)} (h : s.bare = s'.bare) :
    (applyEntries c rankId rankEpoch s xs).bare = (applyEntries c rankId rankEpoch s' xs).bare := by
  induction xs generalizing s s' with
  | nil => exact h
  | cons x xs ih => exact ih (applyRingCompletion_bare (b := x.2.toBatch) (fun _ => rfl) h)

/-- The actions push into the ring `i` and poll it. -/
def UsesRing (i : ℕ) (as : List Action) : Prop :=
  ∀ a ∈ as, (∃ e, a = .pushRing i e) ∨ ∃ now, a = .pollRing now i

/-- The entries that are pushed. -/
def pushes (as : List Action) : List CompletionEntry :=
  as.filterMap fun
    | .pushRing _ e => some e
    | _ => none

/-- The times at which a ring is polled. -/
def polls (as : List Action) : List ℕ :=
  as.filterMap fun
    | .pollRing now _ => some now
    | _ => none

/-- Whenever the poller takes the entries of a ring, it takes them in order, and applies as many as
    are not left in the ring. -/
theorem deliver_bare {as : List Action} (has : UsesRing i as)
    (hrun : runActions (fun _ _ => true) (step c) s as = some s')
    (howner : (s.rings i).ownerRank = rankId) (hepoch : (s.rings i).rankEpoch = rankEpoch) :
    s'.bare = (applyEntries c rankId rankEpoch s
        ((polls as).zip ((s.rings i).pending ++ pushes as))).bare ∧
      (polls as).length + (s'.rings i).pending.length =
        (s.rings i).pending.length + (pushes as).length := by
  induction as generalizing s with
  | nil =>
    obtain rfl : s = s' := Option.some.inj hrun
    simp [polls, pushes, applyEntries]
  | cons a as ih =>
    have has' : UsesRing i as := fun a ha => has a (List.mem_cons_of_mem _ ha)
    obtain ⟨⟨s₁, r⟩, hstep, hrun⟩ := Option.bind_eq_some_iff.1 hrun
    have hring := congrFun (congrArg Front.rings (step_front hstep)) i
    rcases has a List.mem_cons_self with ⟨e, rfl⟩ | ⟨now, rfl⟩
    · -- the entry waits behind the others
      obtain ⟨x, hx, hxs⟩ := Option.map_eq_some_iff.1 hstep
      cases hxs
      simp only [State.front, Front.after, Front.push, Function.update_self] at hring
      obtain ⟨hbare, hlength⟩ := ih has' hrun (by rw [hring, howner]) (by rw [hring, hepoch])
      simp only [pushRing, Option.ite_none_right_eq_some, Option.some.injEq] at hx
      obtain ⟨-, rfl⟩ := hx
      rw [hring] at hbare hlength
      simp only [polls, pushes, List.filterMap_cons, List.append_assoc, List.singleton_append,
        List.length_append, List.length_cons, List.length_nil] at hbare hlength ⊢
      exact ⟨hbare.trans (applyEntries_congr rfl), by omega⟩
    · -- the oldest entry is applied, and the ring has its others
      obtain ⟨x, hx, hxs⟩ := Option.map_eq_some_iff.1 hstep
      cases hxs
      simp only [State.front, Front.after, Front.pop, Function.update_self] at hring
      obtain ⟨hbare, hlength⟩ := ih has' hrun (by rw [hring, howner]) (by rw [hring, hepoch])
      simp only [pollRing] at hx
      cases hpending : (s.rings i).pending with
      | nil => simp [hpending] at hx
      | cons e rest =>
        simp only [hpending, Option.ite_none_right_eq_some, Option.some.injEq, howner, hepoch] at hx
        obtain ⟨-, rfl⟩ := hx
        rw [hring, hpending] at hbare hlength
        simp only [polls, pushes, List.filterMap_cons, List.cons_append, List.zip_cons_cons,
          List.tail_cons, List.length_cons] at hbare hlength ⊢
        refine ⟨hbare.trans (applyEntries_congr ?_), by omega⟩
        exact applyRingCompletion_bare (b := e.toBatch) (fun _ => rfl) rfl

/-- The poller takes entries from the ring `i` in the name of its rank. -/
abbrev Front.Polled (c : Config) (f : Front) (i rankId rankEpoch : ℕ) : Prop :=
  i < c.ringMaxRanks ∧ f.ringOwner i ≠ noIndex ∧ rankEpoch ≠ 0 ∧
    (f.rings i).ownerRank = rankId ∧ (f.rings i).rankEpoch = rankEpoch

/-- An entry is pushed into a ring with nothing in it, and taken out again. -/
theorem exists_push_poll (now : ℕ) (e : CompletionEntry) (hcap : 0 < c.ringCapacity)
    (hpolled : s.front.Polled c i rankId rankEpoch) (hpending : (s.rings i).pending = []) :
    ∃ s₁ s₂, step c s (.pushRing i e) = some (s₁, .none) ∧
      step c s₁ (.pollRing now i) = some (s₂, .none) ∧
      s₂.front.Polled c i rankId rankEpoch ∧ (s₂.rings i).pending = [] := by
  obtain ⟨hi, howner, hne, rfl, rfl⟩ := hpolled
  let s₁ : State := { s with rings := Function.update s.rings i { s.rings i with pending := [e] } }
  have hpush : step c s (.pushRing i e) = some (s₁, .none) := by
    simp [step, pushRing, hi, hpending, hcap, s₁]
  obtain ⟨s₂, hpoll⟩ : ∃ s₂, step c s₁ (.pollRing now i) = some (s₂, .none) := by
    have howner : s₁.ringOwner i ≠ noIndex := howner
    have hne : (s₁.rings i).rankEpoch ≠ 0 := by simpa [s₁, State.front] using hne
    have hpending : (s₁.rings i).pending = [e] := by simp [s₁]
    simp [step, pollRing, hpending, hi, howner, hne]
  have hfront := step_front hpoll
  refine ⟨s₁, s₂, hpush, hpoll, ?_, ?_⟩
  · rw [hfront]
    refine ⟨hi, howner, hne, ?_, ?_⟩ <;> simp [Front.after, Front.pop, State.front, s₁]
  · have hring := congrFun (congrArg Front.rings hfront) i
    simp only [State.front, Front.after, Front.pop, Function.update_self] at hring
    rw [hring]
    simp [s₁]

/-- Whatever is pushed can be delivered. -/
theorem exists_delivery {es : List CompletionEntry} (hcap : 0 < c.ringCapacity)
    (hpolled : s.front.Polled c i rankId rankEpoch) (hpending : (s.rings i).pending = [])
    (hlength : ts.length = es.length) :
    ∃ as s', UsesRing i as ∧ runActions (fun _ _ => true) (step c) s as = some s' ∧
      pushes as = es ∧ polls as = ts ∧ (s'.rings i).pending = [] := by
  induction es generalizing s ts with
  | nil =>
    obtain rfl := List.length_eq_zero_iff.1 hlength
    exact ⟨[], s, nofun, rfl, rfl, rfl, hpending⟩
  | cons e es ih =>
    obtain ⟨τ, ts, rfl⟩ := List.exists_cons_of_length_eq_add_one hlength
    obtain ⟨s₁, s₂, hpush, hpoll, hpolled, hpending⟩ :=
      exists_push_poll τ e hcap hpolled hpending
    obtain ⟨as, s', has, hrun, rfl, rfl, hs'⟩ := ih hpolled hpending (by simpa using hlength)
    refine ⟨.pushRing i e :: .pollRing τ i :: as, s', ?_, ?_, rfl, rfl, hs'⟩
    · simpa [UsesRing] using has
    · simp [runActions, hpush, hpoll, hrun]

/-! ## The three ways agree -/

/-- A batch leaves the state that its items leave one by one, and counts those that are answered
    ok. The items that go through the ring of the rank leave that state, too, but for sequence
    numbers, each at the time when the poller takes it; and they can go through it. -/
theorem completion_paths_agree (c : Config) (s : State) (rankId rankEpoch : ℕ)
    (bs : List BatchCompletion) :
    (∀ now, ∃ accepted rejected,
      handle c s now (.batchComplete ⟨rankId, rankEpoch, bs⟩) =
        ((oneByOne c s rankId rankEpoch (bs.map (now, ·))).1,
          .batch ⟨true, "ok", accepted, rejected⟩) ∧
      accepted = (oneByOne c s rankId rankEpoch (bs.map (now, ·))).2 ∧
      accepted + rejected = bs.length) ∧
    ∀ i, (∀ b ∈ bs, b.eventType = .h2dComplete → b.keepPinned = false) →
      s.front.Polled c i rankId rankEpoch → (s.rings i).pending = [] →
      (∀ as s', UsesRing i as → runActions (fun _ _ => true) (step c) s as = some s' →
        pushes as = bs.map BatchCompletion.toEntry → (s'.rings i).pending = [] →
        (polls as).length = bs.length ∧
          s'.bare = (oneByOne c s rankId rankEpoch ((polls as).zip bs)).1.bare) ∧
      (0 < c.ringCapacity → ∀ ts : List ℕ, ts.length = bs.length →
        ∃ as s', UsesRing i as ∧ runActions (fun _ _ => true) (step c) s as = some s' ∧
          pushes as = bs.map BatchCompletion.toEntry ∧ polls as = ts ∧
          (s'.rings i).pending = []) := by
  refine ⟨fun now => ?_, fun i hkeep hpolled hpending => ⟨?_, fun hcap ts hts => ?_⟩⟩
  · refine ⟨_, (applyBatch c s now rankId rankEpoch bs).2.2, ?_, rfl, ?_⟩
    · rw [handle, handleBatchComplete, ← applyBatch_eq_oneByOne]
    · rw [← applyBatch_eq_oneByOne]
      exact applyBatch_count
  · rintro as s' has hrun hpushes hs'
    obtain ⟨hbare, hlength⟩ := deliver_bare has hrun hpolled.2.2.2.1 hpolled.2.2.2.2
    rw [hpending, hpushes, List.nil_append] at hbare
    rw [hpending, hpushes, hs'] at hlength
    exact ⟨by simpa using hlength, hbare.trans (applyEntries_bare hkeep rfl)⟩
  · exact exists_delivery hcap hpolled hpending (by simpa using hts)

/-- The completions of two copies of the tensor 1, in the slots 0 and 1. -/
def twoCompletions : List BatchCompletion :=
  [⟨.d2hComplete, 1, 1, 1, 0, 0, false⟩, ⟨.d2hComplete, 2, 1, 2, 1, 0, false⟩]

/-- Two versions of a tensor are offloaded, and both copies completed through the ring. The location
    is that of the later one, as it is when they are completed by requests. -/
theorem completion_paths_agree_pair :
    ∃ s, Reached twoSlots s ∧
      (s.front.Polled twoSlots 0 0 1 ∧ (s.rings 0).pending = [] ∧
        ((oneByOne twoSlots s 0 1 ([3, 4].zip twoCompletions)).1.store.locations.lookup 1).map
          (·.version) = some 2) ∧
      ∃ s' as, runActions (fun _ _ => true) (step twoSlots) s as = some s' ∧
        pushes as = twoCompletions.map BatchCompletion.toEntry ∧ polls as = [3, 4] ∧
        (s'.store.locations.lookup 1).map (·.version) = some 2 := by
  refine exists_reachable_and twoSlots _
    (registers :: (offloadsTo 0 1 1 1 1 [5]).take 3 ++ (offloadsTo 1 2 1 2 2 [6]).take 3)
    (by decide +kernel) ?_
  rintro s - ⟨hpolled, hpending, hversion⟩
  obtain ⟨hagree, hdeliver⟩ := (completion_paths_agree twoSlots s 0 1 twoCompletions).2 0
    (by decide) hpolled hpending
  obtain ⟨as, s', has, hrun, hpushes, hpolls, hs'⟩ := hdeliver (by decide) [3, 4] rfl
  have hbare := (hagree as s' has hrun hpushes hs').2
  rw [hpolls] at hbare
  refine ⟨s', as, hrun, hpushes, hpolls, ?_⟩
  have hlocations := congrArg (fun s : State => s.store.locations) hbare
  exact (congrArg (fun l => (l.lookup 1).map (·.version)) hlocations).trans hversion

end StateSpectre
