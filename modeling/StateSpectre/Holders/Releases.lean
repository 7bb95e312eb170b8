import StateSpectre.Refinement.Objects

/-!
# What a release does

A rank lets go of the objects that a request names, one after the other. Each of them keeps its
other holders, or is gone if there are none, and the answer counts the holds, the objects and
their bytes (`releaseHolds_spec`). This is as long as no object is in flight: one that is stays
without a holder.
-/

namespace StateSpectre

variable {c : Config} {s : State} {now : ℕ} {r : State × ReleaseCanonicalResponse}

/-! ## One object -/

/-- What becomes of an object that a rank lets go of. -/
def CanonicalObject.releasedBy (r : ℕ) (o : CanonicalObject) : Option CanonicalObject :=
  if r ∈ o.holders then if o.holders = {r} then none else some (o.dropHolder r) else some o

/-- A rank holds an object. -/
def State.heldBy (s : State) (r oid : ℕ) : Bool :=
  (s.catalog.objects.lookup oid).any fun o => r ∈ o.holders

/-- A rank is the only holder of an object. -/
def State.soleBy (s : State) (r oid : ℕ) : Bool :=
  (s.catalog.objects.lookup oid).any fun o => o.holders = {r}

/-- The size of an object. -/
def State.sizeOf (s : State) (oid : ℕ) : ℕ :=
  ((s.catalog.objects.lookup oid).map (·.nbytes)).getD 0

/-- No object is in flight. -/
def State.Settled (s : State) : Prop :=
  ∀ oid o, s.catalog.objects.lookup oid = some o → o.inFlight = false

/-- A rank lets go of an object that it holds, which is reclaimed if nobody else does. -/
theorem maybeFreeObject_dropHolder (c : Config) (now : ℕ) {r oid : ℕ} {o : CanonicalObject}
    (ho : s.catalog.objects.lookup oid = some o) (hr : r ∈ o.holders) (hfl : o.inFlight = false) :
    (maybeFreeObject c (s.modifyObject oid (·.dropHolder r)) now oid).2 =
        decide (o.holders = {r}) ∧
      ∀ oid', (maybeFreeObject c (s.modifyObject oid (·.dropHolder r)) now
        oid).1.catalog.objects.lookup oid' =
          if oid' = oid then o.releasedBy r else s.catalog.objects.lookup oid' := by
  have hlookup : (s.modifyObject oid (·.dropHolder r)).catalog.objects.lookup oid =
      some (o.dropHolder r) := Table.lookup_modify_self ho
  have hempty : (o.dropHolder r).holders = ∅ ↔ o.holders = {r} := by
    rw [CanonicalObject.dropHolder, Finset.erase_eq_empty_iff]
    exact or_iff_right (Finset.ne_empty_of_mem hr)
  have hfl' : (o.dropHolder r).inFlight = false := hfl
  rw [maybeFreeObject, hlookup]
  dsimp only
  by_cases hsole : o.holders = {r}
  · rw [if_pos (hempty.2 hsole)]
    refine ⟨by rw [releaseObject_snd, hfl', decide_eq_true hsole, Bool.not_false],
      fun oid' => ?_⟩
    rw [releaseObject_catalog, hfl', if_neg Bool.false_ne_true, CanonicalObject.releasedBy,
      if_pos hr, if_pos hsole]
    refine (Table.lookup_erase ..).trans ?_
    split
    · rfl
    · next hne => exact (Table.lookup_modify ..).trans (if_neg hne)
  · rw [if_neg (mt hempty.1 hsole), CanonicalObject.releasedBy, if_pos hr, if_neg hsole]
    refine ⟨(decide_eq_false hsole).symm, fun oid' => ?_⟩
    rw [State.modifyObject, Table.lookup_modify, ho, Option.map_some]

/-- A rank lets go of one object: it keeps its other holders, or is gone. -/
theorem releaseHold_spec (c : Config) (now rankId oid : ℕ) (h : r.1.Settled) :
    (∀ oid', (releaseHold c now rankId r oid).1.catalog.objects.lookup oid' =
      if oid' = oid then (r.1.catalog.objects.lookup oid).bind (·.releasedBy rankId)
      else r.1.catalog.objects.lookup oid') ∧
    (releaseHold c now rankId r oid).2 =
      { r.2 with
        releasedCount := r.2.releasedCount + if r.1.heldBy rankId oid then 1 else 0
        freedCount := r.2.freedCount + if r.1.soleBy rankId oid then 1 else 0
        bytesFreed := if r.1.soleBy rankId oid then addU64 r.2.bytesFreed (r.1.sizeOf oid)
          else r.2.bytesFreed } := by
  rw [releaseHold]
  split
  · next hnone =>
    refine ⟨fun oid' => ?_, by simp [State.heldBy, State.soleBy, hnone]⟩
    split
    · next heq => rw [heq, hnone, Option.bind_none]
    · rfl
  next o ho =>
    have hheld : r.1.heldBy rankId oid = decide (rankId ∈ o.holders) := by
      rw [State.heldBy, ho, Option.any_some]
    have hsole : r.1.soleBy rankId oid = decide (o.holders = {rankId}) := by
      rw [State.soleBy, ho, Option.any_some]
    have hsize : r.1.sizeOf oid = o.nbytes := by rw [State.sizeOf, ho]; rfl
    split
    · next hmem =>
      obtain ⟨hfree, hafter⟩ := maybeFreeObject_dropHolder c now ho hmem (h oid o ho)
      refine ⟨fun oid' => ?_, ?_⟩
      · rw [hafter, ho, Option.bind_some]
      · by_cases honly : o.holders = {rankId} <;> simp [hfree, hheld, hsole, hsize, hmem, honly]
    · next hmem =>
      have hne : o.holders ≠ {rankId} := fun heq => hmem (heq ▸ Finset.mem_singleton_self _)
      refine ⟨fun oid' => ?_, by simp [hheld, hsole, hmem, hne]⟩
      split
      · next heq => rw [heq, ho, Option.bind_some, CanonicalObject.releasedBy, if_neg hmem]
      · rfl

/-- A released object is in flight if it was. -/
theorem CanonicalObject.inFlight_releasedBy {r : ℕ} {o o' : CanonicalObject}
    (h : o.releasedBy r = some o') : o'.inFlight = o.inFlight := by
  rw [releasedBy] at h
  split at h
  · split at h
    · cases h
    · cases h
      rfl
  · cases h
    rfl

/-! ## Several objects -/

/-- A rank lets go of several objects, one after the other. -/
theorem releaseHolds_spec (c : Config) (now rankId : ℕ) {ids : List ℕ} (hnd : ids.Nodup)
    (h : r.1.Settled) (hfit : r.2.bytesFreed < 2 ^ 64) :
    (∀ oid, (ids.foldl (releaseHold c now rankId) r).1.catalog.objects.lookup oid =
      if oid ∈ ids then (r.1.catalog.objects.lookup oid).bind (·.releasedBy rankId)
      else r.1.catalog.objects.lookup oid) ∧
    (ids.foldl (releaseHold c now rankId) r).2.ok = r.2.ok ∧
    (ids.foldl (releaseHold c now rankId) r).2.releasedCount =
      r.2.releasedCount + (ids.filter (r.1.heldBy rankId)).length ∧
    (ids.foldl (releaseHold c now rankId) r).2.freedCount =
      r.2.freedCount + (ids.filter (r.1.soleBy rankId)).length ∧
    (ids.foldl (releaseHold c now rankId) r).2.bytesFreed =
      (r.2.bytesFreed + ((ids.filter (r.1.soleBy rankId)).map r.1.sizeOf).sum) % 2 ^ 64 := by
  induction ids generalizing r with
  | nil => exact ⟨fun _ => rfl, rfl, rfl, rfl, (Nat.mod_eq_of_lt hfit).symm⟩
  | cons oid ids ih =>
    obtain ⟨hnew, hnd⟩ := List.nodup_cons.1 hnd
    obtain ⟨hone, hrep⟩ := releaseHold_spec c now rankId oid h
    rw [List.foldl_cons]
    generalize releaseHold c now rankId r oid = r₁ at hone hrep ⊢
    have hsettled : r₁.1.Settled := by
      intro oid' o' ho'
      rw [hone] at ho'
      split at ho'
      · obtain ⟨o, ho, ho'⟩ := Option.bind_eq_some_iff.1 ho'
        rw [CanonicalObject.inFlight_releasedBy ho', h oid o ho]
      · exact h oid' o' ho'
    have hfit₁ : r₁.2.bytesFreed < 2 ^ 64 := by
      rw [hrep]
      dsimp only
      split
      · exact Nat.mod_lt _ (Nat.two_pow_pos 64)
      · exact hfit
    -- The objects that come later are as they were.
    have hsame : ∀ oid' ∈ ids, r₁.1.catalog.objects.lookup oid' =
        r.1.catalog.objects.lookup oid' := fun oid' hm =>
      (hone oid').trans (if_neg (ne_of_mem_of_not_mem hm hnew))
    have hheld : ids.filter (r₁.1.heldBy rankId) = ids.filter (r.1.heldBy rankId) :=
      List.filter_congr fun oid' hm => by rw [State.heldBy, hsame oid' hm, State.heldBy]
    have hsole : ids.filter (r₁.1.soleBy rankId) = ids.filter (r.1.soleBy rankId) :=
      List.filter_congr fun oid' hm => by rw [State.soleBy, hsame oid' hm, State.soleBy]
    have hsize : (ids.filter (r.1.soleBy rankId)).map r₁.1.sizeOf =
        (ids.filter (r.1.soleBy rankId)).map r.1.sizeOf :=
      List.map_congr_left fun oid' hm => by
        rw [State.sizeOf, hsame oid' (List.mem_of_mem_filter hm), State.sizeOf]
    obtain ⟨hall, hok, hreleased, hfreed, hbytes⟩ := ih hnd hsettled hfit₁
    refine ⟨fun oid' => ?_, ?_, ?_, ?_, ?_⟩
    · rw [hall, hone]
      by_cases heq : oid' = oid
      · rw [if_neg (heq ▸ hnew), if_pos heq, if_pos (heq ▸ List.mem_cons_self), heq]
      · simp [heq]
    · rw [hok, hrep]
    · rw [hreleased, hheld, hrep, List.filter_cons]
      cases r.1.heldBy rankId oid
      · simp
      · simp only [if_true, List.length_cons]
        omega
    · rw [hfreed, hsole, hrep, List.filter_cons]
      cases r.1.soleBy rankId oid
      · simp
      · simp only [if_true, List.length_cons]
        omega
    · rw [hbytes, hsole, hsize, hrep, List.filter_cons]
      cases r.1.soleBy rankId oid
      · simp
      · simp only [if_true, List.map_cons, List.sum_cons, addU64]
        omega

end StateSpectre
