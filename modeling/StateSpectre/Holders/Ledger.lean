import Mathlib.Algebra.BigOperators.Group.Finset.Basic
import StateSpectre.Holders.Releases
import StateSpectre.Retention

/-!
# The ledger of holders

The ledger has, for every id, the ranks that created the object or were attached to it and have
not released it since, going by what the daemon answered (`Ledger.after`). Nothing else is in it:
an object is there as long as somebody holds it.

The tables of the daemon agree with the ledger (`Agrees`) after evicts and releases if they did
before, and the answer to a release tells what it does to the ledger, if the bytes can be counted
in 64 bits (`Agrees.reports_iff`).
-/

namespace StateSpectre

variable {c : Config} {s s' : State} {now : ℕ} {ans : ReleaseCanonicalResponse}

/-! ## The ledger -/

/-- Who holds what, as told by the answers: the shard that an id was created for, and the ranks
    that created it or were attached to it, and have not released it since. -/
structure Ledger where
  key : ℕ → CanonicalTensorKey
  holders : ℕ → Finset ℕ

/-- The ids that a release is for. -/
def Ledger.Names (L : Ledger) (req : ReleaseCanonicalRequest) (oid : ℕ) : Prop :=
  if req.objectId ≠ 0 then oid = req.objectId
  else (L.key oid).versionKey = ⟨req.job, req.modelRole, req.modelVersion⟩

instance {L : Ledger} {req : ReleaseCanonicalRequest} : DecidablePred (L.Names req) := fun oid => by
  unfold Ledger.Names
  infer_instance

def Ledger.release (L : Ledger) (req : ReleaseCanonicalRequest) : Ledger :=
  { L with holders := fun oid =>
      if L.Names req oid then (L.holders oid).erase req.rankId else L.holders oid }

/-- The ledger after an evict: the rank holds what it creates or is attached to, and not what it
    waits for. -/
def Ledger.evict (L : Ledger) (req : RequestCanonicalEvictRequest)
    (ans : RequestCanonicalEvictResponse) : Ledger :=
  match ans.action with
  | .needD2HCreate =>
    ⟨Function.update L.key ans.objectId req.key,
      Function.update L.holders ans.objectId {req.rankId}⟩
  | .attachedExisting =>
    { L with holders :=
        Function.update L.holders ans.objectId (insert req.rankId (L.holders ans.objectId)) }
  | _ => L

def Ledger.after (L : Ledger) : Action → Response → Ledger
  | .rpc _ (.evict req), .evict ans => L.evict req ans
  | .rpc _ (.releaseCanonical req), .releaseCanonical ans => if ans.ok then L.release req else L
  | _, _ => L

/-- What is to be seen of an object: its shard and size, who holds it, and that it is not in
    flight. -/
def CanonicalObject.shown (o : CanonicalObject) : CanonicalTensorKey × ℕ × Finset ℕ × Bool :=
  (o.key, o.nbytes, o.holders, o.inFlight)

def State.shown (s : State) (oid : ℕ) : Option (CanonicalTensorKey × ℕ × Finset ℕ × Bool) :=
  (s.catalog.objects.lookup oid).map CanonicalObject.shown

/-- What is to be seen of a held object that a rank lets go of. -/
theorem CanonicalObject.shown_releasedBy {r : ℕ} (o : CanonicalObject) (hne : o.holders ≠ ∅) :
    (o.releasedBy r).map shown = if o.holders.erase r = ∅ then none
      else some (o.key, o.nbytes, o.holders.erase r, o.inFlight) := by
  simp only [Finset.erase_eq_empty_iff, hne, false_or, releasedBy]
  by_cases hr : r ∈ o.holders
  · rw [if_pos hr]
    split <;> rfl
  · have hother : o.holders ≠ {r} := fun heq => hr (heq ▸ Finset.mem_singleton_self r)
    rw [if_neg hr, if_neg hother, Finset.erase_eq_of_notMem hr]
    rfl

/-- What the ledger has of an object. One that nobody holds is not there. -/
def Ledger.shown (L : Ledger) (oid : ℕ) : Option (CanonicalTensorKey × ℕ × Finset ℕ × Bool) :=
  if L.holders oid = ∅ then none
  else some (L.key oid, (L.key oid).nbytes, L.holders oid, false)

/-- The objects are those of the ledger, with the holders it has. -/
def Agrees (s : State) (L : Ledger) : Prop := ∀ oid, s.shown oid = L.shown oid

/-- The ids that a release goes through. -/
def releasedIds (s : State) (req : ReleaseCanonicalRequest) : List ℕ :=
  if req.objectId ≠ 0 then [req.objectId]
  else versionObjects s ⟨req.job, req.modelRole, req.modelVersion⟩

theorem releasedIds_nodup (s : State) (req : ReleaseCanonicalRequest) :
    (releasedIds s req).Nodup := by
  rw [releasedIds]
  split
  · exact List.nodup_singleton _
  · exact (Table.nodup_keys_rows _).sublist (List.filter_sublist.map _)

namespace Agrees

variable {L : Ledger} {oid : ℕ} {o : CanonicalObject}

/-- An object that is there is held. -/
theorem object (h : Agrees s L) (ho : s.catalog.objects.lookup oid = some o) :
    L.holders oid ≠ ∅ ∧ o.key = L.key oid ∧ o.nbytes = (L.key oid).nbytes ∧
      o.holders = L.holders oid ∧ o.inFlight = false := by
  have heq := h oid
  rw [State.shown, ho, Option.map_some, Ledger.shown] at heq
  split at heq
  · cases heq
  · next hne =>
    simp only [CanonicalObject.shown, Option.some.injEq, Prod.mk.injEq] at heq
    exact ⟨hne, heq⟩

/-- An object that is not there is held by nobody. -/
theorem missing (h : Agrees s L) (ho : s.catalog.objects.lookup oid = none) :
    L.holders oid = ∅ := by
  have heq := h oid
  rw [State.shown, ho, Option.map_none, Ledger.shown] at heq
  split at heq
  · next he => exact he
  · cases heq

theorem settled (h : Agrees s L) : s.Settled := fun _ _ ho => (h.object ho).2.2.2.2

/-- A step that changes nothing of what is seen. -/
theorem frame (h : Agrees s L) (hsame : ∀ oid, s'.shown oid = s.shown oid) : Agrees s' L :=
  fun oid => (hsame oid).trans (h oid)

theorem of_objects (h : Agrees s L) (hsame : s'.catalog.objects = s.catalog.objects) :
    Agrees s' L :=
  h.frame fun oid => by rw [State.shown, hsame, State.shown]

theorem of_sides (h : Agrees s L) (hsame : s'.sides = s.sides) : Agrees s' L :=
  h.of_objects (congrArg Catalog.objects (State.catalog_eq_of_sides hsame))

/-! ### Evicts -/

/-- The rank that creates an object holds it. -/
theorem grantCreate (h : Agrees s L) {req : RequestCanonicalEvictRequest} {base : ℕ} :
    Agrees (grantCreate c s now req oid base).1
      ⟨Function.update L.key oid req.key, Function.update L.holders oid {req.rankId}⟩ := by
  have hobj : (StateSpectre.grantCreate c s now req oid base).1.catalog.objects =
      s.catalog.objects.insert oid (newObject c req s.store.nextLeaseId base) := rfl
  intro oid'
  rw [State.shown, hobj, Table.lookup_insert]
  by_cases heq : oid' = oid
  · subst heq
    rw [if_pos rfl]
    simp [Ledger.shown, CanonicalObject.shown, newObject, CanonicalObject.inFlight]
  · rw [if_neg heq, ← State.shown, h oid']
    simp [Ledger.shown, heq]

/-- A rank that is attached to an object holds it, once. -/
theorem attach (h : Agrees s L) {r : ℕ} (ho : s.catalog.objects.lookup oid = some o) :
    Agrees (s.modifyObject oid (·.addHolder r))
      { L with holders := Function.update L.holders oid (insert r (L.holders oid)) } := by
  obtain ⟨-, hkey, hsize, hholders, hfl⟩ := h.object ho
  intro oid'
  rw [State.shown, State.modifyObject, Table.lookup_modify]
  by_cases heq : oid' = oid
  · subst heq
    have hfl' : (o.addHolder r).inFlight = false := hfl
    rw [if_pos rfl, ho, Option.map_some, Option.map_some, CanonicalObject.shown, hfl']
    simp [Ledger.shown, CanonicalObject.addHolder, hkey, hsize, hholders]
  · rw [if_neg heq, ← State.shown, h oid']
    simp [Ledger.shown, heq]

/-- A search for the run of a new object, or of a candidate. -/
theorem reserveWithin (h : Agrees s L) {req : RequestCanonicalEvictRequest} {j : JobRecord}
    {p : Purpose} (hp : (∃ oid, p = .create req oid) ∨ ∃ tid oid v, p = .candidate req tid oid v) :
    Agrees (reserveWithin c s now j p).1
      (L.after (.rpc now (.evict req)) (reserveWithin c s now j p).2) := by
  rw [StateSpectre.reserveWithin]
  split
  · rw [acquire]
    split
    · rcases hp with ⟨oid, rfl⟩ | ⟨tid, oid, v, rfl⟩
      · exact h.grantCreate
      · exact h.of_objects rfl
    · split
      · exact h.of_objects rfl
      · rcases hp with ⟨oid, rfl⟩ | ⟨tid, oid, v, rfl⟩ <;> exact h
  · rcases hp with ⟨oid, rfl⟩ | ⟨tid, oid, v, rfl⟩ <;> exact h

/-- An evict that creates an object, or is attached to one, makes its rank a holder; no other one
    does. -/
theorem evict (h : Agrees s L) {req : RequestCanonicalEvictRequest} :
    Agrees (handleRequestCanonicalEvict c s now req).1
      (L.after (.rpc now (.evict req)) (handleRequestCanonicalEvict c s now req).2) := by
  have hdrawn : Agrees s.drawObjectId L := h.of_objects rfl
  have hmissing : ∀ j, Agrees (evictMissing c s now req j).1
      (L.after (.rpc now (.evict req)) (evictMissing c s now req j).2) := by
    intro j
    rw [evictMissing]
    split
    · exact h
    · exact hdrawn.reserveWithin (.inl ⟨_, rfl⟩)
  rw [handleRequestCanonicalEvict]
  split
  · exact h
  split
  · exact h
  split
  · exact h
  split
  · exact h
  split
  · exact hmissing _
  next oid o hfind =>
  split
  · exact h
  split
  · rw [evictExisting]
    split
    · exact h
    split
    · exact hdrawn.reserveWithin (.inr ⟨_, _, _, rfl⟩)
    · exact h.attach (findObjectByKey_eq_some hfind).2
  split
  · rw [evictCreating]
    split
    · exact hdrawn.reserveWithin (.inr ⟨_, _, _, rfl⟩)
    · exact h
  · exact hmissing _

/-! ### Releases -/

/-- The objects that a release goes through are those that the ledger has under its name. -/
theorem mem_releasedIds (h : Agrees s L) {req : ReleaseCanonicalRequest}
    (ho : s.catalog.objects.lookup oid = some o) : oid ∈ releasedIds s req ↔ L.Names req oid := by
  rw [releasedIds, Ledger.Names]
  split
  · exact List.mem_singleton
  · rw [mem_versionObjects, ← (h.object ho).2.1]
    refine ⟨fun ⟨o', ho', hvk⟩ => ?_, fun hvk => ⟨o, ho, hvk⟩⟩
    rwa [Option.some.inj (ho.symm.trans ho')]

/-- A release takes the rank off the holders of what it names, and what is held no more is
    gone. -/
theorem release (h : Agrees s L) {req : ReleaseCanonicalRequest} (hans : ans.bytesFreed < 2 ^ 64) :
    Agrees ((releasedIds s req).foldl (releaseHold c now req.rankId) (s, ans)).1
      (L.release req) := by
  obtain ⟨hall, -⟩ := releaseHolds_spec c now req.rankId (releasedIds_nodup s req)
    (r := (s, ans)) h.settled hans
  intro oid
  rw [State.shown, hall]
  dsimp only
  rcases ho : s.catalog.objects.lookup oid with _ | o
  · rw [Option.bind_none, ite_self, Option.map_none, Ledger.shown, Ledger.release]
    simp [h.missing ho]
  · obtain ⟨hne, hkey, hsize, hholders, hfl⟩ := h.object ho
    have hsome : (if oid ∈ releasedIds s req then o.releasedBy req.rankId else some o).map
        CanonicalObject.shown = if L.Names req oid then (o.releasedBy req.rankId).map
          CanonicalObject.shown else some o.shown := by
      simp only [h.mem_releasedIds ho, apply_ite (Option.map CanonicalObject.shown),
        Option.map_some]
    rw [Option.bind_some, hsome, o.shown_releasedBy (hholders ▸ hne), Ledger.shown,
      Ledger.release, CanonicalObject.shown, hkey, hsize, hholders, hfl]
    by_cases hnames : L.Names req oid <;> simp [hnames, hne]

end Agrees

/-! ### Reports -/

/-- A release reports the holds that its rank drops from one ledger to the next, and the objects
    that are gone in it. -/
structure Ledger.Reports (L L' : Ledger) (r : ℕ) (ans : ReleaseCanonicalResponse) : Prop where
  released : ∃ F : Finset ℕ, (∀ oid, oid ∈ F ↔ r ∈ L.holders oid ∧ r ∉ L'.holders oid) ∧
    ans.releasedCount = F.card
  freed : ∃ F : Finset ℕ, (∀ oid, oid ∈ F ↔ L.holders oid ≠ ∅ ∧ L'.holders oid = ∅) ∧
    ans.freedCount = F.card ∧ ans.bytesFreed = ∑ oid ∈ F, (L.key oid).nbytes

/-- The bytes of the objects that a release names and that only its rank holds are counted in 64
    bits. -/
def Ledger.Fits (L : Ledger) (req : ReleaseCanonicalRequest) : Prop :=
  ∀ F : Finset ℕ, (∀ oid, oid ∈ F ↔ L.Names req oid ∧ L.holders oid = {req.rankId}) →
    ∑ oid ∈ F, (L.key oid).nbytes < 2 ^ 64

section Reports

variable {L : Ledger} {req : ReleaseCanonicalRequest} {oid : ℕ}

/-- The holds that a release drops. -/
theorem Ledger.mem_release : req.rankId ∈ L.holders oid ∧ req.rankId ∉ (L.release req).holders oid ↔
    L.Names req oid ∧ req.rankId ∈ L.holders oid := by
  rw [Ledger.release]
  by_cases hnames : L.Names req oid <;> simp [hnames]

/-- The objects that are gone after a release. -/
theorem Ledger.release_eq_empty : L.holders oid ≠ ∅ ∧ (L.release req).holders oid = ∅ ↔
    L.Names req oid ∧ L.holders oid = {req.rankId} := by
  rw [Ledger.release]
  by_cases hnames : L.Names req oid
  · simp only [hnames, if_true, Finset.erase_eq_empty_iff, true_and]
    constructor
    · rintro ⟨hne, he | he⟩
      · exact absurd he hne
      · exact he
    · intro he
      exact ⟨by simp [he], .inr he⟩
  · simp [hnames]

theorem Agrees.heldBy_iff (h : Agrees s L) : oid ∈ releasedIds s req ∧ s.heldBy req.rankId oid ↔
    L.Names req oid ∧ req.rankId ∈ L.holders oid := by
  rcases ho : s.catalog.objects.lookup oid with _ | o
  · simp [State.heldBy, ho, h.missing ho]
  · simp [State.heldBy, ho, h.mem_releasedIds ho, (h.object ho).2.2.2.1]

theorem Agrees.soleBy_iff (h : Agrees s L) : oid ∈ releasedIds s req ∧ s.soleBy req.rankId oid ↔
    L.Names req oid ∧ L.holders oid = {req.rankId} := by
  rcases ho : s.catalog.objects.lookup oid with _ | o
  · simp [State.soleBy, ho, h.missing ho, eq_comm (a := ∅)]
  · simp [State.soleBy, ho, h.mem_releasedIds ho, (h.object ho).2.2.2.1]

/-- A release is refused, or goes through the objects that it names. -/
theorem handleReleaseCanonical_cases (c : Config) (s : State) (now : ℕ)
    (req : ReleaseCanonicalRequest) :
    (∃ message, handleReleaseCanonical c s now req =
        (s, .releaseCanonical { message := message })) ∨
      ∃ r, r = (releasedIds s req).foldl (releaseHold c now req.rankId)
          (s, { ok := true, message := "ok" }) ∧
        handleReleaseCanonical c s now req = (r.1, .releaseCanonical r.2) := by
  simp only [handleReleaseCanonical]
  split
  · exact .inl ⟨_, rfl⟩
  split
  · exact .inl ⟨_, rfl⟩
  split
  · exact .inl ⟨_, rfl⟩
  · exact .inr ⟨_, rfl, rfl⟩

/-- A release reports what it does if and only if it can count the bytes. -/
theorem Agrees.reports_iff (h : Agrees s L)
    (hans : handleReleaseCanonical c s now req = (s', .releaseCanonical ans)) (hok : ans.ok) :
    L.Reports (L.release req) req.rankId ans ↔ L.Fits req := by
  have hnd := releasedIds_nodup s req
  obtain ⟨-, -, hreleased, hfreed, hbytes⟩ := releaseHolds_spec c now req.rankId hnd
    (r := (s, { ok := true, message := "ok" })) h.settled (Nat.two_pow_pos 64)
  obtain ⟨message, hno⟩ | ⟨r, hr, hyes⟩ := handleReleaseCanonical_cases c s now req
  · cases hans.symm.trans hno
    cases hok
  cases hans.symm.trans hyes
  rw [← hr] at hreleased hfreed hbytes
  dsimp only at hreleased hfreed hbytes
  rw [Nat.zero_add] at hreleased hfreed hbytes
  -- The objects that are gone, and their bytes.
  have hmem : ∀ oid, oid ∈ ((releasedIds s req).filter (s.soleBy req.rankId)).toFinset ↔
      L.Names req oid ∧ L.holders oid = {req.rankId} := by
    intro oid
    rw [List.mem_toFinset, List.mem_filter, h.soleBy_iff]
  have hsum : (((releasedIds s req).filter (s.soleBy req.rankId)).map s.sizeOf).sum =
      ∑ oid ∈ ((releasedIds s req).filter (s.soleBy req.rankId)).toFinset,
        (L.key oid).nbytes := by
    rw [List.sum_toFinset _ (hnd.filter _)]
    refine congrArg List.sum (List.map_congr_left fun oid hoid => ?_)
    obtain ⟨o, ho, -⟩ := (Option.any_eq_true _ _).1 (List.mem_filter.1 hoid).2
    rw [State.sizeOf, ho, Option.map_some, Option.getD_some, (h.object ho).2.2.1]
  rw [hsum] at hbytes
  constructor
  · rintro ⟨-, F, hF, -, hbytes'⟩ F' hF'
    have heq : F' = F := by
      ext oid
      rw [hF', hF, Ledger.release_eq_empty]
    have heq' : F' = ((releasedIds s req).filter (s.soleBy req.rankId)).toFinset := by
      ext oid
      rw [hF', hmem]
    rw [← heq, heq', hbytes] at hbytes'
    rw [heq', ← hbytes']
    exact Nat.mod_lt _ (Nat.two_pow_pos 64)
  · intro hfit
    refine ⟨⟨((releasedIds s req).filter (s.heldBy req.rankId)).toFinset, fun oid => ?_, ?_⟩,
      ⟨_, fun oid => (hmem oid).trans Ledger.release_eq_empty.symm, ?_, ?_⟩⟩
    · rw [List.mem_toFinset, List.mem_filter, h.heldBy_iff, Ledger.mem_release]
    · rw [hreleased, List.toFinset_card_of_nodup (hnd.filter _)]
    · rw [hfreed, List.toFinset_card_of_nodup (hnd.filter _)]
    · rw [hbytes, Nat.mod_eq_of_lt (hfit _ hmem)]

end Reports

end StateSpectre
