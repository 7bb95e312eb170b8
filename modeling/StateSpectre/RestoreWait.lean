import StateSpectre.LentRing

/-!
# A restore waits for the ring

The progress thread of a rank pushes the completions of its copies into the ring of its session.
The poller of the daemon takes them out when it comes to it: it moves the head of the ring first,
and applies the entry then, both in one critical section. So a tensor that is offloaded as far as
the rank can tell may not be for the daemon. A restore therefore looks up where the completion of
its tensor went in the ring, and waits for the head to go past it before it sends its prefetch.

A *world* is the daemon together with one rank that has a ring. Its threads take turns in any
order: the progress thread, any number of restores, and the threads of the daemon, which exclude
each other. The main fact is the invariant `World.Sound`: what the rank published is what the
poller applied, what it is about to apply and what is left in the ring, in this order, and the
sequence number that a restore waits for is not before that of any completion of its tensor.

The sequence number is recorded after the push. A restore that looks it up in between, or before
the tensor is evicted once more, goes by an older one, or by none. So a tensor must not be evicted
again while it is restored (`AgentAction.ok`).
-/

namespace StateSpectre

variable {c : Config} {s s' : State} {now : ℕ} {e : CompletionEntry}

/-! ## Worlds -/

/-- How far the progress thread is with a D2H copy that is complete. -/
inductive Progress
  | idle
  /-- It has read the tail of the ring. -/
  | loaded (e : CompletionEntry) (tail : ℕ)
  /-- It has pushed the completion. -/
  | pushed (e : CompletionEntry) (tail : ℕ)
  /-- It has recorded where. -/
  | recorded (e : CompletionEntry)

/-- How far a restore is. -/
inductive RestoreStage
  /-- `wait_offloaded` has returned. -/
  | waited
  /-- It has looked up where the completion of its tensor is in the ring, if it is. -/
  | read (seq : Option ℕ)
  /-- The head of the ring is past it. -/
  | ready
  /-- Its prefetch has been handled. -/
  | sent
  deriving DecidableEq

structure RestoreCall where
  tensorId : ℕ
  version : ℕ
  stage : RestoreStage := .waited

/-- The daemon, with the entry that the poller has taken out of the ring but not applied yet, and a
    rank that has a ring. What the rank has published so far, and what of it the poller has applied,
    is kept for the sake of the proofs. -/
structure World where
  daemon : State
  popped : Option CompletionEntry := none
  progress : Progress := .idle
  offloaded : ℕ × ℕ → Bool := fun _ => false
  ringPushSeq : ℕ × ℕ → Option ℕ := fun _ => none
  calls : List RestoreCall := []
  published : List CompletionEntry := []
  applied : List CompletionEntry := []

/-- What the threads of the rank and of the daemon do. -/
inductive AgentAction
  /-- The progress thread comes to a D2H copy that is complete. -/
  | loadTail (e : CompletionEntry)
  /-- It goes on with this copy. -/
  | advance
  /-- The progress thread comes to an H2D copy that is complete. -/
  | ringPushH2D (e : CompletionEntry)
  /-- A copy whose completion went to the daemon in a request is finalised. -/
  | finalizeRpc (tensorId version : ℕ)
  | discard (tensorId version : ℕ)
  /-- `wait_offloaded` returns to a caller that goes on to restore the tensor. -/
  | waitOffloaded (tensorId version : ℕ)
  /-- A restore goes on to its prefetch. -/
  | restore (k : ℕ)
  /-- The daemon handles the prefetch of a restore. -/
  | prefetch (now k : ℕ)
  /-- The poller takes an entry out of the ring. -/
  | pop
  | apply (now : ℕ)
  /-- Whatever else the daemon does, or the other ranks do to it. -/
  | daemon (a : Action)

variable (c) (A : AgentSession)

/-- The poller takes the oldest entry out of an active ring. -/
def popRing (s : State) (i : ℕ) : Option (State × CompletionEntry) :=
  match (s.rings i).pending with
  | [] => none
  | e :: rest =>
    if i < c.ringMaxRanks ∧ s.ringOwner i ≠ noIndex ∧ (s.rings i).rankEpoch ≠ 0 then
      some ({ s with
        rings := Function.update s.rings i
          { s.rings i with head := (s.rings i).head + 1, pending := rest } }, e)
    else none

namespace World

variable (w : World)

def ring : Ring := w.daemon.rings A.ring

/-- The rank pushes a completion into its ring, if there is room. -/
def publish (e : CompletionEntry) (progress : Progress) : Option World :=
  (pushRing c w.daemon A.ring e).map fun s =>
    { w with daemon := s, progress := progress, published := w.published ++ [e] }

/-- The progress thread goes on: `ring_push_d2h` pushes the completion and records where it is, and
    `finalize_d2h` says that the tensor is offloaded. Without room in the ring the completion goes
    to the daemon in a request. -/
def advance : Option World :=
  match w.progress with
  | .idle => none
  | .loaded e tail => some ((w.publish c A e (.pushed e tail)).getD { w with progress := .idle })
  | .pushed e tail =>
    some { w with
      progress := .recorded e
      ringPushSeq := Function.update w.ringPushSeq (e.tensorId, e.version) (some tail) }
  | .recorded e =>
    some { w with
      progress := .idle
      offloaded := Function.update w.offloaded (e.tensorId, e.version) true }

/-- The stage of a restore after it has looked up what to wait for, or has waited for it. -/
def nextStage (call : RestoreCall) : Option RestoreStage :=
  match call.stage with
  | .waited => some (.read (w.ringPushSeq (call.tensorId, call.version)))
  | .read seq => if seq.all (· < (w.ring A).head) then some .ready else none
  | .ready | .sent => none

def setStage (k : ℕ) (call : RestoreCall) (stage : RestoreStage) : World :=
  { w with calls := w.calls.set k { call with stage } }

end World

def RestoreCall.request (call : RestoreCall) : Request :=
  .prefetch
    { rankId := A.rankId, rankEpoch := A.rankEpoch, tensorId := call.tensorId
      version := call.version, gpuId := A.device, numaNode := A.numa }

/-- A step of the world, with what the daemon answers. No thread of the daemon does anything while
    the poller holds an entry. A prefetch that is sent again is one of any request (`daemon`). -/
def World.step (w : World) : AgentAction → Option (World × Response)
  | .loadTail e =>
    match w.progress, e.eventType with
    | .idle, .d2hComplete =>
      some ({ w with
        progress := .loaded e ((w.ring A).head + (w.ring A).pending.length) }, .none)
    | _, _ => none
  | .advance => (w.advance c A).map (·, .none)
  | .ringPushH2D e =>
    match w.progress, e.eventType with
    | .idle, .h2dComplete => (w.publish c A e .idle).map (·, .none)
    | _, _ => none
  | .finalizeRpc t v =>
    some ({ w with offloaded := Function.update w.offloaded (t, v) true }, .none)
  | .discard t v =>
    some ({ w with offloaded := Function.update w.offloaded (t, v) false }, .none)
  | .waitOffloaded t v =>
    if w.offloaded (t, v) then
      some ({ w with calls := w.calls ++ [{ tensorId := t, version := v }] }, .none)
    else none
  | .restore k =>
    w.calls[k]?.bind fun call => (w.nextStage A call).map fun stage =>
      (w.setStage k call stage, .none)
  | .prefetch now k =>
    match w.popped, w.calls[k]? with
    | none, some call =>
      if call.stage = .ready then
        let r := handle c w.daemon now (call.request A)
        some ({ w.setStage k call .sent with daemon := r.1 }, r.2)
      else none
    | _, _ => none
  | .pop =>
    if w.popped.isNone ∧ A.Names (w.ring A) then
      (popRing c w.daemon A.ring).map fun x =>
        ({ w with daemon := x.1, popped := some x.2 }, .none)
    else none
  | .apply now =>
    w.popped.map fun e =>
      ({ w with
        daemon := applyRingCompletion c w.daemon now A.rankId A.rankEpoch e
        popped := none
        applied := w.applied ++ [e] }, .none)
  | .daemon a =>
    if w.popped.isNone then
      (StateSpectre.step c w.daemon a).map fun x => ({ w with daemon := x.1 }, x.2)
    else none

/-! ## The invariant -/

variable {c A} {w w' : World}

/-- The entry is the completion of a D2H copy of the tensor. -/
abbrev CompletionEntry.Completes (e : CompletionEntry) (tensorId version : ℕ) : Prop :=
  e.eventType = .d2hComplete ∧ e.tensorId = tensorId ∧ e.version = version

/-- The completion that the progress thread has pushed but not recorded. -/
def Progress.unrecorded : Progress → Option CompletionEntry
  | .pushed e _ => some e
  | _ => none

/-- A restore that has looked up what to wait for, and has not sent its prefetch, does not miss
    anything: no completion of its tensor is after the entry that it waits for, or all of them are
    out of the ring. -/
def RestoreCall.Sound (call : RestoreCall) (head : ℕ) (published : List CompletionEntry) : Prop :=
  ∀ j e, published[j]? = some e → e.Completes call.tensorId call.version →
    match call.stage with
    | .waited | .sent => True
    | .read seq => ∃ k, seq = some k ∧ j ≤ k
    | .ready => j < head

/-- The progress thread knows where it pushes. -/
def Progress.Sound (n : ℕ) : Progress → Prop
  | .idle | .recorded _ => True
  | .loaded e tail => e.eventType = .d2hComplete ∧ tail = n
  | .pushed e tail => e.eventType = .d2hComplete ∧ tail + 1 = n

/-- The ring is the rank's. What the rank published is what was applied, what the poller holds and
    what the ring holds. Where a completion is in the ring is recorded, unless it has just been
    pushed, or a later one of its tensor is. -/
structure World.Sound (A : AgentSession) (ring : Ring) (w : World) : Prop where
  lent : w.daemon.front.Lent A ring
  published : w.published = w.applied ++ w.popped.toList ++ ring.pending
  head : ring.head = (w.applied ++ w.popped.toList).length
  progress : w.progress.Sound w.published.length
  recorded : ∀ j e t v, w.published[j]? = some e → e.Completes t v →
    (∃ k, w.ringPushSeq (t, v) = some k ∧ j ≤ k) ∨ ∃ e ∈ w.progress.unrecorded, e.Completes t v
  calls : ∀ call ∈ w.calls, call.Sound ring.head w.published

/-- The daemon is only asked for what leaves the ring of the rank alone. A tensor is not evicted
    again while it is restored: no completion of it is pushed but not recorded when the restore
    looks it up, and none is pushed from then on until the prefetch is handled. -/
def AgentAction.ok (A : AgentSession) (w : World) : AgentAction → Prop
  | .advance =>
    match w.progress with
    | .loaded e _ => ∀ call ∈ w.calls, e.Completes call.tensorId call.version →
        call.stage = .waited ∨ call.stage = .sent
    | _ => True
  | .restore k => ∀ call ∈ w.calls[k]?, call.stage = .waited →
      ∀ e ∈ w.progress.unrecorded, ¬e.Completes call.tensorId call.version
  | .daemon a => leavesRing A w.daemon a
  | _ => True

instance : ∀ a : AgentAction, Decidable (a.ok A w)
  | .advance => by
    dsimp only [AgentAction.ok]
    split <;> infer_instance
  | .restore _ => inferInstanceAs (Decidable (∀ call ∈ _, _ → ∀ e ∈ _, ¬_))
  | .daemon a => inferInstanceAs (Decidable (leavesRing A w.daemon a))
  | .loadTail _ | .ringPushH2D _ | .finalizeRpc .. | .discard .. | .waitOffloaded .. | .prefetch ..
  | .pop | .apply _ => isTrue trivial

theorem getElem?_concat {j : ℕ} {e' : CompletionEntry} {l : List CompletionEntry}
    (h : (l ++ [e])[j]? = some e') : l[j]? = some e' ∨ e = e' := by
  by_cases hj : j < l.length
  · exact .inl ((List.getElem?_append_left hj).symm.trans h)
  · rw [List.getElem?_append_right (Nat.le_of_not_lt hj)] at h
    exact .inr (List.mem_singleton.1 (List.mem_of_getElem? h)).symm

/-- It stays so when the head goes on. -/
theorem RestoreCall.Sound.mono {call : RestoreCall} {head head' : ℕ}
    {published : List CompletionEntry} (h : call.Sound head published) (hle : head ≤ head') :
    call.Sound head' published := by
  intro j e he hcompletes
  have hj := h j e he hcompletes
  cases hstage : call.stage <;> simp only [hstage] at hj ⊢
  case read => exact hj
  case ready => exact hj.trans_le hle

namespace World.Sound

variable {ring : Ring}

/-- The poller takes an entry out of the ring. -/
theorem pop {x : State × CompletionEntry} (h : w.Sound A ring) (hpopped : w.popped = none)
    (hx : popRing c w.daemon A.ring = some x) :
    ∃ ring', { w with daemon := x.1, popped := some x.2 }.Sound A ring' := by
  have hring : w.daemon.rings A.ring = ring := h.lent.rings
  rw [popRing, hring] at hx
  split at hx
  · cases hx
  next e rest hpending =>
    simp only [Option.ite_none_right_eq_some, Option.some.injEq] at hx
    obtain ⟨-, rfl⟩ := hx
    refine ⟨{ ring with head := ring.head + 1, pending := rest },
      { h with lent := h.lent.setRing h.lent.names, published := ?_, head := ?_, calls := ?_ }⟩
    · rw [h.published, hpopped, hpending]
      simp
    · rw [h.head, hpopped]
      simp
    · exact fun call hcall => (h.calls call hcall).mono (Nat.le_succ _)

/-- The poller applies the entry. -/
theorem apply (h : w.Sound A ring) (hpopped : w.popped = some e) : { w with
      daemon := applyRingCompletion c w.daemon now A.rankId A.rankEpoch e
      popped := none
      applied := w.applied ++ [e] }.Sound A ring := by
  refine { h with lent := ?_, published := ?_, head := ?_ }
  · have hsame : (applyRingCompletion c w.daemon now A.rankId A.rankEpoch e).front =
        w.daemon.front := State.front_eq_of_sides applyBatchCompletion_sides
    exact hsame.symm ▸ h.lent
  · rw [h.published, hpopped]
    simp
  · rw [h.head, hpopped]
    simp

/-- A completion is pushed: what it is of is not recorded yet, unless it need not be, and is not
    being restored. -/
theorem publish {p : Progress} (h : w.Sound A ring) (hw : w.publish c A e p = some w')
    (hwas : w.progress.unrecorded = none) (hp : p.Sound (w.published.length + 1))
    (hnew : p.unrecorded = some e ∨ e.eventType ≠ .d2hComplete)
    (hcalls : ∀ call ∈ w.calls, e.Completes call.tensorId call.version →
      call.stage = .waited ∨ call.stage = .sent) : ∃ ring', w'.Sound A ring' := by
  have hring : w.daemon.rings A.ring = ring := h.lent.rings
  obtain ⟨s', hs', rfl⟩ := Option.map_eq_some_iff.1 hw
  simp only [pushRing, Option.ite_none_right_eq_some, Option.some.injEq] at hs'
  obtain ⟨-, rfl⟩ := hs'
  refine ⟨{ ring with pending := ring.pending ++ [e] },
    { lent := ?_, published := ?_, head := h.head, progress := ?_, recorded := ?_, calls := ?_ }⟩
  · rw [hring]
    exact h.lent.setRing h.lent.names
  · rw [h.published, List.append_assoc]
  · rw [List.length_append]
    exact hp
  · intro j e' t v he' hcompletes
    rcases getElem?_concat he' with he' | rfl
    · refine .inl ((h.recorded j e' t v he' hcompletes).resolve_right ?_)
      rw [hwas]
      rintro ⟨_, ⟨⟩, -⟩
    · exact .inr ⟨e, hnew.resolve_right (not_not.2 hcompletes.1), hcompletes⟩
  · intro call hcall j e' he' hcompletes
    rcases getElem?_concat he' with he' | rfl
    · exact h.calls call hcall j e' he' hcompletes
    · rcases hcalls call hcall hcompletes with hstage | hstage <;> simp only [hstage]

/-- The progress thread records where it pushed. -/
theorem record {tail : ℕ} (h : w.Sound A ring) (hpushed : w.progress = .pushed e tail) : { w with
      progress := .recorded e
      ringPushSeq := Function.update w.ringPushSeq (e.tensorId, e.version) (some tail) }.Sound
        A ring := by
  obtain ⟨-, hlength⟩ : Progress.Sound w.published.length (.pushed e tail) := hpushed ▸ h.progress
  refine { h with progress := trivial, recorded := fun j e' t v he' hcompletes => .inl ?_ }
  by_cases hkey : (t, v) = (e.tensorId, e.version)
  · -- it is the last one of its tensor
    have hj : j < w.published.length := (List.getElem?_eq_some_iff.1 he').1
    exact ⟨tail, by rw [hkey]; exact Function.update_self .., by omega⟩
  · obtain ⟨k, hk, hle⟩ | ⟨e'', he'', hcompletes''⟩ := h.recorded j e' t v he' hcompletes
    · exact ⟨k, (Function.update_of_ne hkey ..).trans hk, hle⟩
    · rw [hpushed] at he''
      cases he''
      exact absurd (by rw [hcompletes''.2.1, hcompletes''.2.2]) hkey

/-- The progress thread does what publishes and records nothing. -/
theorem setProgress {p : Progress} {offloaded : ℕ × ℕ → Bool} (h : w.Sound A ring)
    (hwas : w.progress.unrecorded = none) (hp : p.Sound w.published.length) :
    { w with progress := p, offloaded := offloaded }.Sound A ring := by
  refine { h with progress := hp, recorded := fun j e' t v he' hcompletes => .inl ?_ }
  refine (h.recorded j e' t v he' hcompletes).resolve_right ?_
  rw [hwas]
  rintro ⟨_, ⟨⟩, -⟩

/-- The progress thread goes on with its copy. -/
theorem advance (h : w.Sound A ring) (ha : AgentAction.ok A w .advance)
    (hw : w.advance c A = some w') : ∃ ring', w'.Sound A ring' := by
  have hprogress := h.progress
  rw [World.advance] at hw
  rw [AgentAction.ok] at ha
  cases hp : w.progress with
  | idle =>
    rw [hp] at hw
    cases hw
  | loaded e tail =>
    rw [hp] at hw ha hprogress
    obtain ⟨he, rfl⟩ := hprogress
    cases hw
    cases hpush : w.publish c A e (.pushed e w.published.length) with
    | none => exact ⟨ring, h.setProgress (by rw [hp]; rfl) trivial⟩
    | some w' => exact h.publish hpush (by rw [hp]; rfl) ⟨he, rfl⟩ (.inl rfl) ha
  | pushed e tail =>
    rw [hp] at hw
    cases hw
    exact ⟨ring, h.record hp⟩
  | recorded e =>
    rw [hp] at hw
    cases hw
    exact ⟨ring, h.setProgress (by rw [hp]; rfl) trivial⟩

/-- A restore gets on. -/
theorem setStage {k : ℕ} {call : RestoreCall} {stage : RestoreStage} (h : w.Sound A ring)
    (hcall : RestoreCall.Sound { call with stage } ring.head w.published) :
    (w.setStage k call stage).Sound A ring := by
  refine { h with calls := fun call' hcall' => ?_ }
  obtain hmem | rfl := List.mem_or_eq_of_mem_set hcall'
  · exact h.calls call' hmem
  · exact hcall

/-- What is recorded of a tensor is not after what the restore finds, and the head is past what it
    waited for. -/
theorem nextStage {k : ℕ} {call : RestoreCall} {stage : RestoreStage} (h : w.Sound A ring)
    (ha : AgentAction.ok A w (.restore k)) (hcall : w.calls[k]? = some call)
    (hnext : w.nextStage A call = some stage) :
    RestoreCall.Sound { call with stage } ring.head w.published := by
  have hringA : w.ring A = ring := h.lent.rings
  intro j e he hcompletes
  have hsound := h.calls call (List.mem_of_getElem? hcall) j e he hcompletes
  rw [World.nextStage, hringA] at hnext
  cases hstage : call.stage with
  | waited =>
    rw [hstage] at hnext
    cases hnext
    exact (h.recorded j e _ _ he hcompletes).resolve_right fun ⟨e', he', hcompletes'⟩ =>
      ha call hcall hstage e' he' hcompletes'
  | read seq =>
    simp only [hstage, Option.ite_none_right_eq_some, Option.some.injEq] at hnext hsound
    obtain ⟨hseq, rfl⟩ := hnext
    obtain ⟨k, rfl, hle⟩ := hsound
    exact hle.trans_lt (of_decide_eq_true hseq)
  | ready | sent =>
    rw [hstage] at hnext
    cases hnext

/-- Every step keeps it so. -/
theorem step {a : AgentAction} {r : Response} (h : w.Sound A ring)
    (hA : A.rankId ≠ noIndex) (hring : A.ring ≠ noIndex) (ha : a.ok A w)
    (hstep : w.step c A a = some (w', r)) : ∃ ring', w'.Sound A ring' := by
  have hringA : w.ring A = ring := h.lent.rings
  cases a with
  | loadTail e =>
    simp only [World.step] at hstep
    split at hstep
    · next hidle he =>
      cases hstep
      refine ⟨ring, h.setProgress (by rw [hidle]; rfl) ⟨he, ?_⟩⟩
      rw [hringA, h.head, h.published, ← List.length_append]
    · cases hstep
  | advance =>
    obtain ⟨w₁, hw₁, hstep⟩ := Option.map_eq_some_iff.1 hstep
    cases hstep
    exact h.advance ha hw₁
  | ringPushH2D e =>
    simp only [World.step] at hstep
    split at hstep
    · next hidle he =>
      obtain ⟨w₁, hw₁, hstep⟩ := Option.map_eq_some_iff.1 hstep
      cases hstep
      exact h.publish hw₁ (by rw [hidle]; rfl) trivial (.inr (by simp [he]))
        fun _ _ hcompletes => absurd hcompletes.1 (by simp [he])
    · cases hstep
  | finalizeRpc | discard =>
    cases hstep
    exact ⟨ring, { h with }⟩
  | waitOffloaded t v =>
    simp only [World.step, Option.ite_none_right_eq_some, Option.some.injEq,
      Prod.mk.injEq] at hstep
    obtain ⟨-, rfl, -⟩ := hstep
    refine ⟨ring, { h with calls := fun call hcall => ?_ }⟩
    obtain hcall | hcall := List.mem_append.1 hcall
    · exact h.calls call hcall
    · obtain rfl := List.mem_singleton.1 hcall
      exact fun _ _ _ _ => trivial
  | restore k =>
    obtain ⟨call, hcall, hstep⟩ := Option.bind_eq_some_iff.1 hstep
    obtain ⟨stage, hnext, hstep⟩ := Option.map_eq_some_iff.1 hstep
    cases hstep
    exact ⟨ring, h.setStage (h.nextStage ha hcall hnext)⟩
  | prefetch now k =>
    simp only [World.step] at hstep
    split at hstep
    · next call _ _ =>
      rw [Option.ite_none_right_eq_some] at hstep
      obtain ⟨-, hstep⟩ := hstep
      cases hstep
      have hsent : (w.setStage k call .sent).Sound A ring := h.setStage fun _ _ _ _ => trivial
      exact ⟨ring, { hsent with
        lent := (State.front_eq_of_sides handleRequestPrefetch_sides).symm ▸ h.lent }⟩
    · cases hstep
  | pop =>
    simp only [World.step, Option.ite_none_right_eq_some, Option.isNone_iff_eq_none] at hstep
    obtain ⟨⟨hpopped, -⟩, hstep⟩ := hstep
    obtain ⟨x, hx, hstep⟩ := Option.map_eq_some_iff.1 hstep
    cases hstep
    exact h.pop hpopped hx
  | apply now =>
    obtain ⟨e, hpopped, hstep⟩ := Option.map_eq_some_iff.1 hstep
    cases hstep
    exact ⟨ring, h.apply hpopped⟩
  | daemon a =>
    simp only [World.step, Option.ite_none_right_eq_some] at hstep
    obtain ⟨x, hx, hstep⟩ := Option.map_eq_some_iff.1 hstep.2
    cases hstep
    exact ⟨ring, { h with lent := lent_step h.lent hA hring ha hx }⟩

end World.Sound

/-! ## Runs -/

/-- The rank registers in a state of the daemon reached under the side condition `rule`, and is
    given a ring. -/
def World.Opened (c : Config) (rule : State → Action → Prop) (A : AgentSession) (w : World) :
    Prop :=
  ∃ s now resp, Reachable c rule s ∧ rule s (.rpc now (.register ⟨A.rankId, A.pid⟩)) ∧
    handle c s now (.register ⟨A.rankId, A.pid⟩) = (w.daemon, .register resp) ∧
    resp.rankEpoch = A.rankEpoch ∧ resp.ringIndex = A.ring ∧ A.ring ≠ noIndex ∧
    w = { daemon := w.daemon }

theorem World.Opened.sound (h : w.Opened c named A) :
    A.rankId ≠ noIndex ∧ A.ring ≠ noIndex ∧ ∃ ring, w.Sound A ring := by
  obtain ⟨s, now, resp, hs, hrule, hreg, hepoch, hindex, hring, hw⟩ := h
  have hknown : s.front.OwnersKnown :=
    Reach.invariant (motive := fun s => s.front.OwnersKnown)
      (by rintro _ rfl r i - ⟨ses, hses, -⟩; cases hses)
      (fun _ _ _ _ h ha hstep => ownersKnown_step h ha hstep) hs
  obtain ⟨hfront, hepoch', hindex'⟩ := handle_register_eq hreg
  refine ⟨hrule, hring, { ownerRank := A.rankId, rankEpoch := A.rankEpoch }, ?_⟩
  have hlent : w.daemon.front.Lent A { ownerRank := A.rankId, rankEpoch := A.rankEpoch } := by
    rw [hfront]
    refine hknown.lent hring ?_ (hepoch'.symm.trans hepoch)
    rw [hindex] at hindex'
    cases hfree : (s.front.invalidateAll c ⟨A.rankId, A.pid⟩).freeRing c with
    | none =>
      rw [hfree] at hindex'
      exact absurd hindex' hring
    | some i =>
      rw [hfree] at hindex'
      rw [hindex', Option.getD_some]
  rw [hw]
  exact
    { lent := hlent
      published := rfl
      head := rfl
      progress := trivial
      recorded := fun j e t v he => nomatch he
      calls := fun call hcall => absurd hcall List.not_mem_nil }

/-- The prefetch of a restore is handled when all that was published of its tensor has been applied,
    if the tensor is not evicted again in the meantime. -/
theorem restore_sees_ring {k : ℕ} {r : Response}
    (h : Reach (World.Opened c named A) (fun w a => a.ok A w) (World.step c A) w)
    (hstep : w.step c A (.prefetch now k) = some (w', r)) :
    ∃ call, w.calls[k]? = some call ∧ r = (handle c w.daemon now (call.request A)).2 ∧
      w.applied = w.published.take w.applied.length ∧
      ∀ j e, w.published[j]? = some e → e.Completes call.tensorId call.version →
        j < w.applied.length := by
  obtain ⟨-, -, ring, hsound⟩ :=
    Reach.invariant (motive := fun w => A.rankId ≠ noIndex ∧ A.ring ≠ noIndex ∧
        ∃ ring, w.Sound A ring)
      (fun _ => World.Opened.sound)
      (fun _ _ _ _ ⟨hA, hring, _, h⟩ ha hstep => ⟨hA, hring, h.step hA hring ha hstep⟩) h
  simp only [World.step] at hstep
  split at hstep
  · next call hpopped hcall =>
    rw [Option.ite_none_right_eq_some] at hstep
    obtain ⟨hstage, hstep⟩ := hstep
    cases hstep
    -- the poller holds nothing, so that the head says how much was applied
    have hhead := hsound.head
    have hpublished := hsound.published
    rw [hpopped, Option.toList_none, List.append_nil] at hhead hpublished
    refine ⟨call, hcall, rfl, ?_, fun j e he hcompletes => ?_⟩
    · rw [hpublished, List.take_left]
    · have hready := hsound.calls call (List.mem_of_getElem? hcall) j e he hcompletes
      simp only [hstage, hhead] at hready
      exact hready
  · cases hstep

/-- A world that a list of actions reaches after the rank registered first. -/
theorem exists_world {p : World → Prop} [DecidablePred p] (rule : State → Action → Prop)
    (A : AgentSession) (now : ℕ) (actions : List AgentAction) {resp : RegisterRankResponse}
    (hrule : rule .initial (.rpc now (.register ⟨A.rankId, A.pid⟩)))
    (hresp : (handle c .initial now (.register ⟨A.rankId, A.pid⟩)).2 = .register resp)
    (hepoch : resp.rankEpoch = A.rankEpoch) (hring : resp.ringIndex = A.ring ∧ A.ring ≠ noIndex)
    (h : (runActions (fun w a => AgentAction.ok A w a) (World.step c A)
      { daemon := (handle c .initial now (.register ⟨A.rankId, A.pid⟩)).1 } actions).any (p ·)) :
    ∃ w, Reach (World.Opened c rule A) (fun w a => a.ok A w) (World.step c A) w ∧ p w := by
  refine Reach.exists_of_any ?_ actions h
  exact ⟨.initial, now, resp, .init rfl, hrule, Prod.ext rfl hresp, hepoch, hring.1, hring.2, rfl⟩

/-- The completion of the copy of the tensor 1 under the lease 1. -/
def firstCompletion : CompletionEntry := ⟨1, 1, 1, 0, .d2hComplete⟩

/-- The tensor 1 is offloaded as far as the rank can tell, and a restore looks up its completion. -/
def restoresFirst : List AgentAction :=
  [.loadTail firstCompletion, .advance, .advance, .advance, .waitOffloaded 1 1, .restore 0]

/-- The rank whose id stands for none. -/
def namelessRank : AgentSession := { rankId := noIndex, rankEpoch := 1, pid := 7, ring := 0 }

/-- The nameless rank leaves the completion of its tensor in its ring. The ring counts as free, and
    is given to the rank 1, whose own completion moves the head. The restore goes on, though the
    completion of its tensor is lost. -/
theorem restore_misses_completion :
    ∃ w, Reach (World.Opened oneSlot (fun _ _ => True) namelessRank)
        (fun w a => a.ok namelessRank w) (World.step oneSlot namelessRank) w ∧
      ∃ w' r, w.step oneSlot namelessRank (.prefetch 3 0) = some (w', r) ∧
        ∃ call, w.calls[0]? = some call ∧ ∃ e, w.published[0]? = some e ∧
          e.Completes call.tensorId call.version ∧ w.applied = [] :=
  exists_world (c := oneSlot) (fun _ _ => True) namelessRank 0
    ([.daemon (.rpc 1 (.offload
        { rankId := noIndex, rankEpoch := 1, tensorId := 1, version := 1, nbytes := 4 })),
      .daemon (.rpc 1 (.d2hSubmitted
        { rankId := noIndex, rankEpoch := 1, leaseId := 1, slotId := 0 })),
      .daemon (.copyD2H 1 [[1]])] ++ restoresFirst ++
      [.daemon (.rpc 2 (.register ⟨1, 8⟩)), .daemon (.pushRing 0 ⟨2, 2, 1, 0, .d2hComplete⟩),
        .daemon (.pollRing 2 0), .restore 0])
    trivial rfl rfl ⟨rfl, by decide⟩ (by decide +kernel)

/-- The rank 0, in its first session. -/
def firstRank : AgentSession := { rankId := 0, rankEpoch := 1, pid := 7, ring := 0 }

/-- The poller takes the completion and applies it before the restore of the tensor goes on. -/
theorem restore_sees_ring_polled :
    ∃ w w' r, Reach (World.Opened oneSlot named firstRank) (fun w a => a.ok firstRank w)
        (World.step oneSlot firstRank) w ∧
      w.step oneSlot firstRank (.prefetch 3 0) = some (w', r) ∧ w.applied = [firstCompletion] := by
  obtain ⟨w, hw, w', r, hstep, call, hcall, ht, hv, hpublished⟩ :=
    exists_world (c := oneSlot) named firstRank 0
    (p := fun w => ∃ w' r, w.step oneSlot firstRank (.prefetch 3 0) = some (w', r) ∧
      ∃ call, w.calls[0]? = some call ∧ call.tensorId = 1 ∧ call.version = 1 ∧
        w.published = [firstCompletion])
    (((offloads 1 1 1 1 [1]).take 3).map .daemon ++ restoresFirst ++
      [.pop, .restore 0, .apply 2])
    (by decide) rfl rfl ⟨rfl, by decide⟩ (by decide +kernel)
  obtain ⟨call', hcall', -, happlied, hall⟩ := restore_sees_ring hw hstep
  cases hcall.symm.trans hcall'
  have hpos := hall 0 firstCompletion (by rw [hpublished]; rfl) ⟨rfl, ht.symm, hv.symm⟩
  refine ⟨w, w', r, hw, hstep, ?_⟩
  rw [happlied, hpublished]
  exact List.take_of_length_le hpos

end StateSpectre
