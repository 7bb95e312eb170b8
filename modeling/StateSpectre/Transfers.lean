import StateSpectre.LeaseIds
import StateSpectre.Locations

/-!
# Runs that are copied to a GPU

While an H2D copy is under way from the run of a lease, nothing may take the run away. The
daemon marks the slots of the run, but a release or the end of a session asks only whose
lease it is: a second lease on the run is enough to free it under the copy
(`release_frees_copied_run`).

As long as runs are freed only when no live lease is left on them, and the lease of the copy
is not dropped itself (`transferGuards`), the run stays in use for its tensor and version
(`h2d_protected`).
-/

namespace StateSpectre

variable {c : Config} {s s₀ s₁ : State}

/-- A run is freed only when no live lease is left on it, a prefetch is bound only to
    slots that carry what it wants, and the lease `id` is neither dropped nor completed. -/
abbrev transferGuards (id : ℕ) : Guards :=
  { leaseGuards with dropLease := (· ≠ id), complete := (· ≠ id) }

instance {id : ℕ} : DecidableGuards (transferGuards id) where

theorem transferGuards_implies {id : ℕ} : (transferGuards id).Implies leaseGuards where
  reclaim h := h
  bind h := h

/-- An accepted submission is one of a lease of the rank. -/
theorem markSubmitted_accepted {now : ℕ} {req : MarkSubmittedRequest} {source target : SlotState}
    {refusal : String} {gauge : Gauges → ℕ → Gauges}
    (h : markSubmitted s₀ now req source target refusal gauge = (s₁, ack true "ok")) :
    ∃ L, s₁.store.leases.lookup req.leaseId = some L ∧ L.ownerRank = req.rankId := by
  simp only [markSubmitted] at h
  split at h
  · simp [ack] at h
  split at h
  · simp [ack] at h
  next L hL =>
    split at h
    · simp [ack] at h
    · obtain ⟨hlease, hrank, -⟩ := ownedLease_eq_some hL
      obtain rfl : _ = s₁ := congrArg Prod.fst h
      exact ⟨L, hlease, hrank⟩

/-- From an accepted submission of an H2D copy on, as long as the lease of the copy is
    there, its run is in use for the same tensor and version. -/
theorem h2d_protected {now : ℕ} {req : MarkSubmittedRequest}
    (h₀ : Reachable c (leaseGuards.ok c) s₀)
    (hsubmit : step c s₀ (.rpc now (.h2dSubmitted req)) = some (s₁, ack true "ok"))
    (h : Reach (· = s₁) ((transferGuards req.leaseId).ok c) (step c) s) :
    ∃ L, s₁.store.leases.lookup req.leaseId = some L ∧ L.ownerRank = req.rankId ∧
      s.store.leases.lookup req.leaseId = some L ∧
      ∀ i, InRun L.baseSlot L.slotCount i →
        (s.store.slots i).state ≠ .free ∧
        (s.store.slots i).tensorId = (s₁.store.slots i).tensorId ∧
        (s.store.slots i).version = (s₁.store.slots i).version := by
  have hok : leaseGuards.ok c s₀ (.rpc now (.h2dSubmitted req)) := trivial
  have h₁ : Reachable c (leaseGuards.ok c) s₁ := h₀.step hok hsubmit
  have haccepted : handleMarkH2DSubmitted s₀ now req = (s₁, ack true "ok") :=
    Option.some.inj hsubmit
  obtain ⟨L, hL, hrank⟩ := markSubmitted_accepted haccepted
  have hstays : ¬(transferGuards req.leaseId).dropLease req.leaseId := fun h => h rfl
  have hruns : ¬(transferGuards req.leaseId).complete req.leaseId := fun h => h rfl
  -- The lease is kept by every move, and leases are covered as before.
  have hinv : (LeaseIds (s, none, {}) ∧ s.store.leases.lookup req.leaseId = some L) ∧
      LeasesCovered s.store := by
    refine h.invariant (motive := fun s => (LeaseIds (s, none, {}) ∧
      s.store.leases.lookup req.leaseId = some L) ∧ LeasesCovered s.store) ?_ ?_
    · rintro _ rfl
      exact ⟨⟨h₁.leaseIds, hL⟩, h₁.leasesCovered⟩
    · intro s a s' r ⟨hlease, hcov⟩ hok hstep
      refine ⟨?_, ?_⟩
      · exact (step_moves hok (Rules.free_ok c s a) hstep).invariant
          (motive := fun x => LeaseIds x ∧ x.1.store.leases.lookup req.leaseId = some L)
          (fun x y hx hxy => ⟨hx.1.move hxy, hx.1.lease_kept hstays (hruns ·.1) hx.2 hxy⟩) hlease
      · exact (step_refines hok hstep).invariant (motive := fun x => LeasesCovered x.1)
          (fun x y hx hxy => hx.step (hxy.mono transferGuards_implies)) hcov
  obtain ⟨⟨-, hlease⟩, hcov⟩ := hinv
  refine ⟨L, hL, hrank, hlease, fun i hi => ?_⟩
  obtain ⟨-, ht₁, hv₁⟩ := h₁.leasesCovered _ L hL i hi
  obtain ⟨hused, ht, hv⟩ := hcov _ L hlease i hi
  exact ⟨hused, ht.trans ht₁.symm, hv.trans hv₁.symm⟩

/-- A tensor is offloaded and prefetched, and the H2D copy of the prefetch is under way
    when the lease of the offload is released: the slot is free. -/
theorem release_frees_copied_run :
    ∃ s₀ s₁, Reached oneSlot s₀ ∧
      step oneSlot s₀ (submitsH2D 3 2) = some (s₁, ack true "ok") ∧
      ∃ s₂, step oneSlot s₁ (releases 4 1) = some (s₂, ack true "ok") ∧
        s₂.epochValid 0 1 ∧ (s₂.store.leases.lookup 2).any (·.baseSlot = 0) ∧
        s₂.store.slotState 0 = .free :=
  exists_reachable₂ oneSlot _
    (registers :: offloads 1 1 1 1 [1] ++ [prefetches 2 1 1]) (by decide +kernel)

/-- The guards are met when the H2D copy of a prefetch is submitted, another lease on the
    slot completes its own, and a drain of the slot begins: the slot is kept. -/
theorem h2d_protected_shared :
    ∃ s₀ s₁ s, Reachable oneSlot (leaseGuards.ok oneSlot) s₀ ∧
      step oneSlot s₀ (submitsH2D 3 2) = some (s₁, ack true "ok") ∧
      Reach (· = s₁) ((transferGuards 2).ok oneSlot) (step oneSlot) s ∧
      (s.store.leases.lookup 1).isSome ∧ s.store.slotState 0 = .drainInFlight ∧
      ∃ L, s.store.leases.lookup 2 = some L := by
  obtain ⟨s₀, s₁, hs₀, hsubmit, hrun⟩ := exists_reachable₂ oneSlot (leaseGuards.ok oneSlot)
    (p := fun s₀ s₁ => step oneSlot s₀ (submitsH2D 3 2) = some (s₁, ack true "ok") ∧
      (runActions (fun s a => (transferGuards 2).ok oneSlot s a) (step oneSlot) s₁
        (completesH2D 4 1 1 1 :: (offloads 5 2 1 3 [2]).take 1)).any fun s =>
          (s.store.leases.lookup 1).isSome ∧ s.store.slotState 0 = .drainInFlight)
    (registers :: offloads 1 1 1 1 [1] ++ [prefetches 2 1 1]) (by decide +kernel)
  obtain ⟨s, hs, hlease, hdrain⟩ := Reach.exists_from hrun
  obtain ⟨L, -, -, hL, -⟩ := h2d_protected hs₀ hsubmit hs
  exact ⟨s₀, s₁, s, hs₀, hsubmit, hs, hlease, hdrain, L, hL⟩

end StateSpectre
