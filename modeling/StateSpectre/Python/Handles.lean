import StateSpectre.Lib.System
import Mathlib.Logic.Function.Basic

/-!
# The handles of offloaded tensors

A tensor that was offloaded is restored through its handle. A prefetch issues the H2D copy into a
new tensor and returns at once, and the handle keeps this tensor for the next restore. A restore
that finds none issues a copy of its own, and waits for its event if it is asked to.

A restore that finds a prefetched tensor should wait for that copy. But what it waits for is
`wait_offloaded`, which looks at a map of the agent that the D2H copies set. The tensor has been
offloaded long ago, so the restore returns while the copy is in flight (`restore_skips_wait`). The
event of the copy is known to the progress thread only. If whoever calls a restore with `wait` has
waited for the prefetch itself (`PrefetchHandle.wait`), what it returns is complete
(`restore_waits`).
-/

namespace StateSpectre

/-! ## Processes -/

/-- How far a copy is, as its event tells. -/
inductive CopyStatus
  | inFlight
  | complete
  | failed (error : String)
  deriving DecidableEq, Repr

/-- The error of a copy that has failed. -/
def CopyStatus.error? : CopyStatus → Option String
  | .failed error => some error
  | _ => none

/-- A tensor that was made for an H2D copy: where it is, the device of the stream that the copy
    is queued in, and how far the copy is. -/
structure RestoredTensor where
  device : ℕ
  streamDevice : ℕ
  status : CopyStatus := .inFlight
  deriving DecidableEq, Repr

structure OffloadHandle where
  tensorId : ℕ
  version : ℕ
  prefetched : Option ℕ := none
  discarded : Bool := false
  deriving DecidableEq, Repr

/-- The key of the readiness map of the agent. -/
def OffloadHandle.tvKey (H : OffloadHandle) : ℕ × ℕ := (H.tensorId, H.version)

/-- What a handle is asked for. -/
inductive HandleOp
  | prefetch
  | restore (wait : Bool)
  | discard
  deriving DecidableEq, Repr

/-- How far a call on a handle is. Other threads run while it waits. -/
inductive CallStage
  /-- The agent asks the daemon. -/
  | requesting
  /-- The agent has issued the copy into a new tensor. -/
  | issued (tensor : ℕ)
  /-- A restore that has taken the prefetched tensor is inside `wait_offloaded`. -/
  | waitingOffloaded (tensor : ℕ)
  /-- The agent has forgotten a tensor that is discarded. -/
  | forgotten
  deriving DecidableEq, Repr

/-- A call on a handle, with the device of the tensor to be made and that of the stream. -/
structure HandleCall where
  handle : ℕ
  op : HandleOp
  device : ℕ
  streamDevice : ℕ
  stage : CallStage := .requesting
  deriving DecidableEq, Repr

/-- A process with its handles, and its agent with the copies that are in flight and the readiness
    map. The tensors for which `PrefetchHandle.wait` has returned are kept for the sake of the
    proofs. -/
structure Process where
  handles : List OffloadHandle := []
  tensors : List RestoredTensor := []
  inflightD2H : List (ℕ × ℕ) := []
  offloaded : ℕ × ℕ → Bool := fun _ => false
  calls : List HandleCall := []
  waited : List ℕ := []

/-- What the threads of the process and the devices do. -/
inductive ProcessAction
  /-- A tensor is evicted or copied: its D2H copy is issued, and there is a handle. -/
  | offload (tensorId version : ℕ)
  /-- A D2H copy is complete, and finalised. -/
  | finalizeD2H (k : ℕ)
  /-- The event of a D2H copy has failed. -/
  | dropD2H (k : ℕ)
  /-- A handle is asked for something. -/
  | call (handle : ℕ) (op : HandleOp) (device streamDevice : ℕ)
  /-- The restore of the agent fails, before the copy. -/
  | refuse (k : ℕ) (message : String)
  /-- The daemon has answered: the agent issues the copy, or forgets the tensor. -/
  | issue (k : ℕ)
  /-- A call returns. -/
  | finish (k : ℕ)
  /-- An H2D copy comes to its end, which may be an error. -/
  | copied (tensor : ℕ) (error : Option String)
  /-- `PrefetchHandle.wait` returns. -/
  | prefetchWait (tensor : ℕ)
  deriving DecidableEq, Repr

/-- What a call answers. -/
inductive ProcessAnswer
  | none
  | prefetched (tensor : ℕ)
  | restored (wait : Bool) (tensor : ℕ)
  | raised (message : String)
  deriving DecidableEq, Repr

namespace Process

/-- A handle is asked for something. A prefetched tensor is taken out by the next restore, whatever
    the device and the stream it is asked for. -/
def call (s : Process) (h : ℕ) (op : HandleOp) (device streamDevice : ℕ) :
    Option (Process × ProcessAnswer) :=
  match s.handles[h]? with
  | none => none
  | some H =>
    let begins (stage : CallStage) : Process :=
      { s with calls := s.calls ++ [⟨h, op, device, streamDevice, stage⟩] }
    match op with
    | .prefetch =>
      if H.discarded then some (s, .raised "prefetch: handle has been discarded")
      else some (begins .requesting, .none)
    | .restore wait =>
      if H.discarded then some (s, .raised "restore: handle has been discarded")
      else
        match H.prefetched with
        | some t =>
          let handles := s.handles.set h { H with prefetched := none }
          if wait then some ({ begins (.waitingOffloaded t) with handles := handles }, .none)
          else some ({ s with handles := handles }, .restored false t)
        | none => some (begins .requesting, .none)
    | .discard => if H.discarded then some (s, .none) else some (begins .requesting, .none)

/-- The agent goes on with a call, once the daemon has answered. -/
def issue (s : Process) (k : ℕ) (x : HandleCall) (H : OffloadHandle) : Option Process :=
  match x.stage, x.op with
  | .requesting, .discard =>
    some { s with
      offloaded := Function.update s.offloaded H.tvKey false
      calls := s.calls.set k { x with stage := .forgotten } }
  | .requesting, _ =>
    some { s with
      tensors := s.tensors ++ [⟨x.device, x.streamDevice, .inFlight⟩]
      calls := s.calls.set k { x with stage := .issued s.tensors.length } }
  | _, _ => none

/-- A call returns, when there is nothing left that it waits for. -/
def finish (s : Process) (k : ℕ) (x : HandleCall) (H : OffloadHandle) :
    Option (Process × ProcessAnswer) :=
  let s' := { s with calls := s.calls.eraseIdx k }
  match x.stage, x.op with
  | .issued t, .prefetch =>
    some ({ s' with handles := s.handles.set x.handle { H with prefetched := some t } },
      .prefetched t)
  | .issued t, .restore false => some (s', .restored false t)
  | .issued t, .restore true =>
    -- `cudaEventSynchronize`
    match s.tensors[t]?.map RestoredTensor.status with
    | some .complete => some (s', .restored true t)
    | some (.failed error) =>
      some (s', .raised ("CUDA error at cudaEventSynchronize(ev): " ++ error))
    | _ => none
  | .waitingOffloaded t, _ =>
    if s.offloaded H.tvKey then some (s', .restored true t) else none
  | .forgotten, _ =>
    some ({ s' with
      handles := s.handles.set x.handle { H with prefetched := none, discarded := true } }, .none)
  | _, _ => none

/-- `torch.cuda.synchronize` for the device of the tensor: the streams of the device are done. -/
def prefetchWait (s : Process) (t : ℕ) : Option (Process × ProcessAnswer) :=
  match s.tensors[t]? with
  | none => none
  | some T =>
    let queued := s.tensors.filter fun T' => T'.streamDevice = T.device
    if queued.any fun T' => T'.status = .inFlight then none
    else
      match queued.findSome? fun T' => T'.status.error? with
      | some error => some (s, .raised error)
      | none => some ({ s with waited := t :: s.waited }, .none)

/-- A step of the process, with what a call answers. -/
def step (s : Process) : ProcessAction → Option (Process × ProcessAnswer)
  | .offload tensorId version =>
    some ({ s with
      handles := s.handles ++ [{ tensorId := tensorId, version := version }]
      inflightD2H := s.inflightD2H ++ [(tensorId, version)] }, .none)
  | .finalizeD2H k =>
    (s.inflightD2H[k]?).map fun key =>
      ({ s with
        inflightD2H := s.inflightD2H.eraseIdx k
        offloaded := Function.update s.offloaded key true }, .none)
  | .dropD2H k =>
    (s.inflightD2H[k]?).map fun _ => ({ s with inflightD2H := s.inflightD2H.eraseIdx k }, .none)
  | .call h op device streamDevice => s.call h op device streamDevice
  | .refuse k message =>
    match s.calls[k]? with
    | some x =>
      if x.stage = .requesting ∧ x.op ≠ .discard then
        some ({ s with calls := s.calls.eraseIdx k }, .raised ("restore failed: " ++ message))
      else none
    | none => none
  | .issue k =>
    (s.calls[k]?).bind fun x => (s.handles[x.handle]?).bind fun H =>
      (s.issue k x H).map (·, .none)
  | .finish k =>
    (s.calls[k]?).bind fun x => (s.handles[x.handle]?).bind fun H => s.finish k x H
  | .copied t error =>
    match s.tensors[t]? with
    | some T =>
      if T.status = .inFlight then
        some ({ s with
          tensors := s.tensors.set t { T with status := error.elim .complete .failed } }, .none)
      else none
    | none => none
  | .prefetchWait t => s.prefetchWait t

/-! ## What is complete -/

variable {s s' : Process} {a : ProcessAction} {r : ProcessAnswer} {t : ℕ}

/-- The copy into a tensor is complete. -/
def Complete (s : Process) (t : ℕ) : Prop :=
  ∃ T : RestoredTensor, s.tensors[t]? = some T ∧ T.status = .complete

/-- If the copy into the tensor is queued on the device of the tensor, it is complete. -/
def Synchronized (s : Process) (t : ℕ) : Prop :=
  ∃ T : RestoredTensor, s.tensors[t]? = some T ∧
    (T.streamDevice = T.device → T.status = .complete)

/-- Tensors are kept, with their devices, and copies that are complete stay so. -/
def Keeps (s s' : Process) : Prop :=
  ∀ (t : ℕ) (T : RestoredTensor), s.tensors[t]? = some T →
    ∃ T' : RestoredTensor, s'.tensors[t]? = some T' ∧ T'.device = T.device ∧
      T'.streamDevice = T.streamDevice ∧ (T.status = .complete → T'.status = .complete)

theorem Keeps.of_eq (h : s'.tensors = s.tensors) : s.Keeps s' := by
  intro t T hT
  exact ⟨T, h ▸ hT, rfl, rfl, id⟩

theorem Complete.mono (h : s.Complete t) (hkeeps : s.Keeps s') : s'.Complete t := by
  obtain ⟨T, hT, hstatus⟩ := h
  obtain ⟨T', hT', -, -, hcomplete⟩ := hkeeps t T hT
  exact ⟨T', hT', hcomplete hstatus⟩

theorem Synchronized.mono (h : s.Synchronized t) (hkeeps : s.Keeps s') : s'.Synchronized t := by
  obtain ⟨T, hT, hsync⟩ := h
  obtain ⟨T', hT', hdevice, hstream, hcomplete⟩ := hkeeps t T hT
  refine ⟨T', hT', fun hsame => hcomplete (hsync ?_)⟩
  rw [← hdevice, ← hstream, hsame]

/-- A call on a handle leaves the tensors as they are. A restore that is about to wait has the
    prefetched tensor in hand. -/
theorem call_eq {h device streamDevice : ℕ} {op : HandleOp}
    (hcall : s.call h op device streamDevice = some (s', r)) :
    s'.tensors = s.tensors ∧ s'.waited = s.waited ∧ (∀ t, r ≠ .restored true t) ∧
    (s'.calls = s.calls ∨ ∃ x, s'.calls = s.calls ++ [x] ∧
      ∀ t, x.stage = .waitingOffloaded t →
        op = .restore true ∧ ∃ H, s.handles[h]? = some H ∧ H.prefetched = some t) := by
  rw [call] at hcall
  split at hcall
  · cases hcall
  next H hH =>
  split at hcall
  · split at hcall
    · cases hcall
      exact ⟨rfl, rfl, nofun, .inl rfl⟩
    · cases hcall
      exact ⟨rfl, rfl, nofun, .inr ⟨_, rfl, nofun⟩⟩
  · split at hcall
    · cases hcall
      exact ⟨rfl, rfl, nofun, .inl rfl⟩
    split at hcall
    · next t ht =>
      split at hcall
      · next hwait =>
        cases hcall
        refine ⟨rfl, rfl, nofun, .inr ⟨_, rfl, fun t' ht' => ?_⟩⟩
        cases ht'
        exact ⟨hwait ▸ rfl, H, hH, ht⟩
      · cases hcall
        exact ⟨rfl, rfl, nofun, .inl rfl⟩
    · cases hcall
      exact ⟨rfl, rfl, nofun, .inr ⟨_, rfl, nofun⟩⟩
  · split at hcall
    · cases hcall
      exact ⟨rfl, rfl, nofun, .inl rfl⟩
    · cases hcall
      exact ⟨rfl, rfl, nofun, .inr ⟨_, rfl, nofun⟩⟩

/-- A call that returns leaves the tensors as they are. What it hands back after a wait is the
    tensor that it took from the handle, or one whose event it waited for. -/
theorem finish_eq {k : ℕ} {x : HandleCall} {H : OffloadHandle}
    (hfinish : s.finish k x H = some (s', r)) :
    s'.tensors = s.tensors ∧ s'.waited = s.waited ∧ s'.calls = s.calls.eraseIdx k ∧
    ∀ t, r = .restored true t → x.stage = .waitingOffloaded t ∨ s.Complete t := by
  rw [finish] at hfinish
  split at hfinish
  · cases hfinish
    exact ⟨rfl, rfl, rfl, nofun⟩
  · cases hfinish
    exact ⟨rfl, rfl, rfl, nofun⟩
  · next t _ _ =>
    split at hfinish
    · next hstatus =>
      cases hfinish
      obtain ⟨T, hT, hcomplete⟩ := Option.map_eq_some_iff.1 hstatus
      refine ⟨rfl, rfl, rfl, fun t' ht' => .inr ?_⟩
      cases ht'
      exact ⟨T, hT, hcomplete⟩
    · cases hfinish
      exact ⟨rfl, rfl, rfl, nofun⟩
    · cases hfinish
  · next hstage =>
    split at hfinish
    · cases hfinish
      refine ⟨rfl, rfl, rfl, fun t' ht' => .inl ?_⟩
      cases ht'
      exact hstage
    · cases hfinish
  · cases hfinish
    exact ⟨rfl, rfl, rfl, nofun⟩
  · cases hfinish

/-- What the agent does for a call keeps the tensors, and is nothing that a restore waits for. -/
theorem issue_eq {k : ℕ} {x : HandleCall} {H : OffloadHandle} (hissue : s.issue k x H = some s') :
    s.Keeps s' ∧ s'.waited = s.waited ∧
    ∃ x', s'.calls = s.calls.set k x' ∧ ∀ t, x'.stage ≠ .waitingOffloaded t := by
  rw [issue] at hissue
  split at hissue
  · cases hissue
    exact ⟨.of_eq rfl, rfl, _, rfl, nofun⟩
  · cases hissue
    refine ⟨fun t T hT => ⟨T, ?_, rfl, rfl, id⟩, rfl, _, rfl, nofun⟩
    exact (List.getElem?_append_left (List.getElem?_eq_some_iff.1 hT).1).trans hT
  · cases hissue

/-- When a wait for a prefetch returns, nothing is left in the streams of the device. -/
theorem prefetchWait_eq (hwait : s.prefetchWait t = some (s', r)) :
    s'.tensors = s.tensors ∧ s'.calls = s.calls ∧ (∀ t', r ≠ .restored true t') ∧
    (s'.waited = s.waited ∨ s'.waited = t :: s.waited ∧ s.Synchronized t) := by
  rw [prefetchWait] at hwait
  split at hwait
  · cases hwait
  next T hT =>
  dsimp only at hwait
  split at hwait
  · cases hwait
  next hflight =>
  split at hwait
  · cases hwait
    exact ⟨rfl, rfl, nofun, .inl rfl⟩
  next hfailed =>
  cases hwait
  refine ⟨rfl, rfl, nofun, .inr ⟨rfl, T, hT, fun hsame => ?_⟩⟩
  have hqueued : T ∈ s.tensors.filter fun T' => T'.streamDevice = T.device :=
    List.mem_filter.2 ⟨List.mem_of_getElem? hT, decide_eq_true hsame⟩
  have hflight' : T.status ≠ .inFlight := by
    intro hstatus
    exact hflight (List.any_eq_true.2 ⟨T, hqueued, decide_eq_true hstatus⟩)
  have hfailed' : T.status.error? = none := List.findSome?_eq_none_iff.1 hfailed T hqueued
  cases hstatus : T.status with
  | inFlight => exact absurd hstatus hflight'
  | complete => rfl
  | failed error =>
    rw [hstatus] at hfailed'
    cases hfailed'

/-! ## Waiting for the prefetch -/

/-- Whoever restores a tensor that was prefetched, and wants to wait, has waited for the prefetch,
    whose copy was queued on the device of the tensor. -/
def WaitsFirst (s : Process) : ProcessAction → Prop
  | .call h (.restore true) _ _ => ∀ H ∈ s.handles[h]?, ∀ t ∈ H.prefetched,
      t ∈ s.waited ∧ ∀ T ∈ s.tensors[t]?, T.streamDevice = T.device
  | _ => True

/-- Prefetches that were waited for have ended, and restores that wait have nothing to wait for. -/
structure Sound (s : Process) : Prop where
  waited : ∀ t ∈ s.waited, s.Synchronized t
  calls : ∀ x ∈ s.calls, ∀ t, x.stage = .waitingOffloaded t → s.Complete t

theorem Sound.mono (h : s.Sound) (hkeeps : s.Keeps s') (hwaited : s'.waited = s.waited)
    (hcalls : ∀ x ∈ s'.calls, x ∈ s.calls ∨ ∀ t, x.stage = .waitingOffloaded t → s.Complete t) :
    s'.Sound where
  waited t ht := (h.waited t (hwaited ▸ ht)).mono hkeeps
  calls x hx t ht := by
    rcases hcalls x hx with hx | hx
    · exact (h.calls x hx t ht).mono hkeeps
    · exact (hx t ht).mono hkeeps

/-- A step keeps the process sound, and a restore that has waited hands back what is complete. -/
theorem Sound.step (h : s.Sound) (hok : s.WaitsFirst a) (hstep : s.step a = some (s', r)) :
    s'.Sound ∧ ∀ t, r = .restored true t → s.Complete t := by
  cases a with
  | offload =>
    cases hstep
    exact ⟨h.mono (.of_eq rfl) rfl fun x hx => .inl hx, nofun⟩
  | finalizeD2H | dropD2H =>
    obtain ⟨key, -, heq⟩ := Option.map_eq_some_iff.1 hstep
    cases heq
    exact ⟨h.mono (.of_eq rfl) rfl fun x hx => .inl hx, nofun⟩
  | call k op device streamDevice =>
    obtain ⟨htensors, hwaited, hr, hcalls⟩ := call_eq hstep
    refine ⟨h.mono (.of_eq htensors) hwaited fun x hx => ?_, fun t ht => absurd ht (hr t)⟩
    rcases hcalls with heq | ⟨x', heq, hx'⟩
    · exact .inl (heq ▸ hx)
    rw [heq] at hx
    rcases List.mem_append.1 hx with hx | hx
    · exact .inl hx
    · obtain rfl := List.mem_singleton.1 hx
      refine .inr fun t ht => ?_
      -- It was waited for, so that it is in sync with its device, where the copy was queued.
      obtain ⟨rfl, H, hH, hpre⟩ := hx' t ht
      obtain ⟨hmem, hsame⟩ := hok H hH t hpre
      obtain ⟨T, hT, hsync⟩ := h.waited t hmem
      exact ⟨T, hT, hsync (hsame T hT)⟩
  | refuse k message =>
    rw [Process.step] at hstep
    split at hstep
    · split at hstep
      · cases hstep
        exact ⟨h.mono (.of_eq rfl) rfl fun x hx => .inl (List.mem_of_mem_eraseIdx hx), nofun⟩
      · cases hstep
    · cases hstep
  | issue k =>
    obtain ⟨x, -, hstep⟩ := Option.bind_eq_some_iff.1 hstep
    obtain ⟨H, -, hstep⟩ := Option.bind_eq_some_iff.1 hstep
    obtain ⟨s₁, hissue, heq⟩ := Option.map_eq_some_iff.1 hstep
    cases heq
    obtain ⟨hkeeps, hwaited, x', hcalls, hx'⟩ := issue_eq hissue
    refine ⟨h.mono hkeeps hwaited fun y hy => ?_, nofun⟩
    rw [hcalls] at hy
    rcases List.mem_or_eq_of_mem_set hy with hy | rfl
    · exact .inl hy
    · exact .inr fun t ht => absurd ht (hx' t)
  | finish k =>
    obtain ⟨x, hx, hstep⟩ := Option.bind_eq_some_iff.1 hstep
    obtain ⟨H, -, hstep⟩ := Option.bind_eq_some_iff.1 hstep
    obtain ⟨htensors, hwaited, hcalls, hr⟩ := finish_eq hstep
    refine ⟨h.mono (.of_eq htensors) hwaited fun y hy => .inl ?_, fun t ht => ?_⟩
    · rw [hcalls] at hy
      exact List.mem_of_mem_eraseIdx hy
    · rcases hr t ht with hstage | hcomplete
      · exact h.calls x (List.mem_of_getElem? hx) t hstage
      · exact hcomplete
  | copied t error =>
    rw [Process.step] at hstep
    split at hstep
    · next T hT =>
      split at hstep
      · next hflight =>
        cases hstep
        refine ⟨h.mono (fun t' T' hT' => ?_) rfl fun x hx => .inl hx, nofun⟩
        by_cases heq : t = t'
        · -- The copy was in flight, so that nothing is said of its status.
          subst heq
          cases hT.symm.trans hT'
          have hlt := (List.getElem?_eq_some_iff.1 hT).1
          refine ⟨_, List.getElem?_set_self hlt, rfl, rfl, fun hcomplete => ?_⟩
          rw [hflight] at hcomplete
          cases hcomplete
        · exact ⟨T', (List.getElem?_set_ne heq).trans hT', rfl, rfl, id⟩
      · cases hstep
    · cases hstep
  | prefetchWait t =>
    obtain ⟨htensors, hcalls, hr, hwaited⟩ := prefetchWait_eq hstep
    refine ⟨?_, fun t' ht' => absurd ht' (hr t')⟩
    rcases hwaited with hwaited | ⟨hwaited, hsync⟩
    · exact h.mono (.of_eq htensors) hwaited fun x hx => .inl (hcalls ▸ hx)
    · refine ⟨fun t' ht' => ?_, fun x hx t' ht' => ?_⟩
      · rw [hwaited] at ht'
        rcases List.mem_cons.1 ht' with rfl | ht'
        · exact hsync.mono (.of_eq htensors)
        · exact (h.waited t' ht').mono (.of_eq htensors)
      · exact (h.calls x (hcalls ▸ hx) t' ht').mono (.of_eq htensors)

/-- The states of a process that starts with no handles. -/
abbrev Reachable (ok : Process → ProcessAction → Prop) : Process → Prop :=
  Reach (· = {}) ok Process.step

/-- Whatever is called on the handles, in whatever order the threads go on and the copies come to
    their end: if the prefetched tensors that are restored with `wait` were waited for, a restore
    with `wait` returns only when the copy into the tensor that it returns is complete. -/
theorem restore_waits (hs : Reachable WaitsFirst s) (hok : s.WaitsFirst a)
    (hstep : s.step a = some (s', .restored true t)) : s.Complete t := by
  have hsound : s.Sound := by
    refine Reach.invariant (fun s₀ hs₀ => ?_) (fun s₁ a s₂ r h hok hstep => ?_) hs
    · subst hs₀
      exact ⟨nofun, nofun⟩
    · exact (h.step hok hstep).1
  exact (hsound.step hok hstep).2 t rfl

instance (s : Process) : (a : ProcessAction) → Decidable (s.WaitsFirst a)
  | .call h (.restore true) _ _ =>
    inferInstanceAs (Decidable (∀ H ∈ s.handles[h]?, ∀ t ∈ H.prefetched,
      t ∈ s.waited ∧ ∀ T ∈ s.tensors[t]?, T.streamDevice = T.device))
  | .call _ (.restore false) _ _ | .call _ .prefetch _ _ | .call _ .discard _ _
  | .offload .. | .finalizeD2H .. | .dropD2H .. | .refuse .. | .issue .. | .finish .. | .copied ..
  | .prefetchWait .. => isTrue trivial

/-- A tensor is offloaded, and prefetched again: the copy into the tensor `0` is in flight. -/
def prefetches : List ProcessAction :=
  [.offload 1 1, .finalizeD2H 0, .call 0 .prefetch 0 0, .issue 0, .finish 0]

/-- The prefetch is waited for, and then the tensor is restored. -/
theorem restore_waits_prefetched :
    ∃ s s', Reachable WaitsFirst s ∧ s.WaitsFirst (.finish 0) ∧
      s.step (.finish 0) = some (s', .restored true 0) ∧ s.Complete 0 := by
  obtain ⟨s, hs, s', hstep, hok⟩ : ∃ s, Reachable WaitsFirst s ∧
      ∃ s', s.step (.finish 0) = some (s', .restored true 0) ∧ s.WaitsFirst (.finish 0) :=
    Reach.exists_of_any rfl
      (prefetches ++ [.copied 0 none, .prefetchWait 0, .call 0 (.restore true) 0 0]) (by decide)
  exact ⟨s, s', hs, hok, hstep, restore_waits hs hok hstep⟩

/-- The tensor that was prefetched is restored with `wait`, at once. The restore returns, since the
    tensor has been offloaded; but the copy is in flight. -/
theorem restore_skips_wait :
    ∃ s s' T, Reachable (fun _ _ => True) s ∧
      s.step (.finish 0) = some (s', .restored true 0) ∧ s.tensors[0]? = some T ∧
      T.status = .inFlight := by
  obtain ⟨s, hs, s', hstep, T, hp⟩ : ∃ s, Reachable (fun _ _ => True) s ∧
      ∃ s', s.step (.finish 0) = some (s', .restored true 0) ∧
        ∃ T, s.tensors[0]? = some T ∧ T.status = .inFlight :=
    Reach.exists_of_any rfl (prefetches ++ [.call 0 (.restore true) 0 0]) (by decide)
  exact ⟨s, s', T, hs, hstep, hp⟩

end Process

end StateSpectre
