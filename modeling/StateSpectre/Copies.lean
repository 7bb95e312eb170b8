import Mathlib.Data.List.Find
import StateSpectre.Versions

/-!
# The copies of a tensor

A tensor that was offloaded is to be found again: its location leads to the bytes
of its latest version, in the pinned memory or in a cold tier (`Store.HasCopy`), until
the lease of its only copy is released. The end of a session, however, frees the run
of a prefetch under way, also if that is the only copy (`death_loses_copy`), and
`ReleaseLease` forgets the cold copy that a pinned location records. Where no run in
use is freed, no lease of a run with a cold copy released, and no read fails without
being reported, no step loses a copy (`step_keeps_copy`).

Of several copies of one version the location is to lead to the last one. But a
drain that began before the tensor was offloaded again commits its copy after it,
under the same version (`drain_publishes_stale`). Where a tensor is offloaded again
only when no work on an earlier copy is under way, locations are fresh
(`locations_fresh`).
-/

namespace StateSpectre

variable {c : Config} {π : Provenance} {st st' : Store} {s s' : State} {t : ℕ} {loc : Location}

/-! ## What a location leads to -/

/-- The bytes that a location of the tensor `t` leads to, if it does. -/
def Store.bytesAt (c : Config) (st : Store) (t : ℕ) (loc : Location) : Option (List Bytes) :=
  match loc.kind with
  | .pinned =>
    if st.Carries loc.slotId t loc.version then
      some (st.readMem loc.slotId (c.slotsSpanned loc.nbytes))
    else none
  | .pageable | .nvme => (st.coldStore.lookup loc.coldRef).map (·.data)
  | _ => none

/-- A location that is not `NONE` leads to a good copy. -/
theorem Store.Contents.bytesAt (h : st.Contents c π) (hcold : ColdPresent st)
    (hloc : st.locations.lookup t = some loc) (hk : loc.kind = .pinned ∨ loc.kind.IsCold) :
    ∃ data, st.bytesAt c t loc = some data ∧ π.good st.history.accepted t loc.version data := by
  rcases hk with hk | hk
  · have hinv := h.runs _ (Store.used_of_resident hloc hk)
    have hres := hinv.resident t loc hloc hk rfl
    obtain ⟨ht, hv⟩ := Prod.mk.inj hres.tags
    have hcar : st.Carries loc.slotId t loc.version :=
      ⟨hinv.run.live _ hinv.run.inRun, ht.symm, hv.symm⟩
    refine ⟨st.readMem loc.slotId (c.slotsSpanned loc.nbytes), ?_, ?_⟩
    · simp only [Store.bytesAt, hk, if_pos hcar]
    · rw [ht, hv, hres.nbytes, ← hinv.run.whole]
      exact hinv.run.data hres.state
  · obtain ⟨e, he⟩ := Option.isSome_iff_exists.1 (hcold t loc hloc hk)
    refine ⟨e.data, ?_, ((h.locations t loc hloc).ref.good e he).1⟩
    rcases hk with hk | hk <;> simp only [Store.bytesAt, hk, he, Option.map_some]

/-! ## The guards -/

/-- What the daemon takes for granted about the content of runs, the cold copies and
    the versions of tensors; and that reads are made that are said to be. -/
abbrev tierGuards (c : Config) (π : Provenance) : Guards :=
  { contentGuards c π with
    publish := fun st L => (contentGuards c π).publish st L ∧ versionGuards.publish st L
    h2d := fun st L t v => (contentGuards c π).h2d st L t v ∧ coldGuards.h2d st L t v
    dropLocation := versionGuards.dropLocation
    forgetCold := coldGuards.forgetCold
    read := fun result => result.silent = false }

instance : DecidableGuards (tierGuards c π) where

theorem tierGuards_implies_content : (tierGuards c π).Implies (contentGuards c π) :=
  { Guards.Implies.refl (contentGuards c π) with
    publish := And.left
    h2d := And.left
    dropLocation := fun _ => trivial
    forgetCold := fun _ => trivial
    read := fun h hs => absurd (h.symm.trans hs) Bool.false_ne_true }

theorem tierGuards_implies_cold : (tierGuards c π).Implies coldGuards :=
  { h2d := And.right, forgetCold := fun h => h }

theorem tierGuards_implies_version : (tierGuards c π).Implies versionGuards :=
  { publish := And.right, dropLocation := fun h => h }

theorem tierGuards_implies_any : (tierGuards c π).Implies (tierGuards c .any) :=
  { Guards.Implies.refl (tierGuards c .any) with
    publish := fun h => ⟨nofun, h.2⟩ }

/-- What the transitions keep under these guards. -/
structure Tiers (c : Config) (π : Provenance) (st : Store) (p : Option Purpose) : Prop where
  sound : Sound c π st p
  accepted : Sound c .any st p
  cold : ColdPresent st
  versions : Versions st

namespace Tiers

variable {g : Guards} {p p' : Option Purpose}

theorem initial : Tiers c π Store.initial none where
  sound := .initial
  accepted := .initial
  cold _ _ h := nomatch h
  versions := ⟨(fun _ _ h => nomatch h), (fun _ h => nomatch h), (fun _ h => nomatch h),
    (fun _ h => nomatch h)⟩

theorem step (h : Tiers c π st p) (hg : g.Implies (tierGuards c π))
    (hstep : StoreStep c g (st, p) (st', p')) : Tiers c π st' p' := by
  have hstep := hstep.mono hg
  have hany : (tierGuards c π).Implies (contentGuards c .any) :=
    tierGuards_implies_any.trans tierGuards_implies_content
  exact ⟨h.sound.step tierGuards_implies_content hstep, h.accepted.step hany hstep,
    h.cold.step (hstep.mono tierGuards_implies_cold),
    h.versions.step h.accepted hany tierGuards_implies_version hstep⟩

end Tiers

theorem Reachable.tiers {g : Guards} (hg : g.Implies (tierGuards c π))
    (h : Reachable c (g.ok c) s) : Tiers c π s.store none :=
  Reachable.store_invariant (motive := fun x => Tiers c π x.1 x.2) .initial
    (fun _ _ hx hstep => hx.step hg hstep) h

/-! ## Fresh locations -/

/-- The copy accepted last among those of the highest version of a tensor. -/
def latestCopy (accepted : List AcceptedD2H) (t : ℕ) : Option AcceptedD2H :=
  accepted.find? fun e =>
    e.tensorId = t ∧ ∀ e' ∈ accepted, e'.tensorId = t → e'.version ≤ e.version

/-- The last copy of a version is the latest one, if no copy is of a higher version. -/
theorem latestCopy_of_last {l : List AcceptedD2H} {v : ℕ} {data : List Bytes}
    (h : Provenance.last.good l t v data) (hmax : ∀ e ∈ l, e.tensorId = t → e.version ≤ v) :
    ∃ e, latestCopy l t = some e ∧ e.data = data := by
  obtain ⟨e, he, hdata⟩ := Option.map_eq_some_iff.1 h
  refine ⟨e, ?_, hdata⟩
  have htop := List.find?_some he
  rw [decide_eq_true_eq] at htop
  rw [← he]
  refine List.find?_congr fun e' he' => decide_eq_decide.2 (and_congr_right fun ht => ?_)
  constructor
  · intro hge
    exact le_antisymm (hmax e' he' ht)
      (htop.2 ▸ hge e (List.mem_of_find?_eq_some he) htop.1)
  · rintro rfl
    exact fun e'' he'' ht'' => hmax e'' he'' ht''

/-- The guards of fresh locations: where the daemon accepts a copy, no other run is
    for the same tensor and version, and no work on one is under way. -/
abbrev freshGuards (c : Config) : Guards := tierGuards c .last

/-- A daemon with two slots of four bytes, which drains as soon as a copy is complete. -/
def twoSlots : Config where
  plan := { windows := [⟨0, 0, false, [0, 1], ⟨0, rfl⟩⟩], numSlots := 2 }
  allocationGranularityBytes := 4

/-- A daemon with two slots, which drains none of them unless it is forced to. -/
def twoKept : Config := { twoSlots with drainOnD2HComplete := false }

/-- The location of a tensor leads to a copy accepted for its highest version. -/
def Store.HasCopy (c : Config) (st : Store) (t : ℕ) : Prop :=
  ∃ loc, st.locations.lookup t = some loc ∧
    (∃ e ∈ st.history.accepted, e.tensorId = t ∧ e.version = loc.version ∧
      st.bytesAt c t loc = some e.data) ∧
    ∀ e ∈ st.history.accepted, e.tensorId = t → e.version ≤ loc.version

instance : Decidable (st.HasCopy c t) :=
  match h : st.locations.lookup t with
  | none => isFalse fun ⟨_, hloc, _⟩ => nomatch h.symm.trans hloc
  | some loc => decidable_of_iff
      ((∃ e ∈ st.history.accepted, e.tensorId = t ∧ e.version = loc.version ∧
        st.bytesAt c t loc = some e.data) ∧
        ∀ e ∈ st.history.accepted, e.tensorId = t → e.version ≤ loc.version)
      ⟨fun hp => ⟨loc, h, hp⟩, fun ⟨_, hloc, hp⟩ => Option.some.inj (h.symm.trans hloc) ▸ hp⟩

/-- The location of a tensor is in the pinned memory or in a cold tier. -/
def Store.Located (st : Store) (t : ℕ) : Prop :=
  ∃ loc, st.locations.lookup t = some loc ∧ (loc.kind = .pinned ∨ loc.kind.IsCold)

theorem Store.HasCopy.located (h : st.HasCopy c t) : st.Located t := by
  obtain ⟨loc, hloc, ⟨e, -, -, -, hbytes⟩, -⟩ := h
  refine ⟨loc, hloc, ?_⟩
  unfold Store.bytesAt at hbytes
  split at hbytes
  · next hk => exact .inl hk
  · next hk => exact .inr (.inl hk)
  · next hk => exact .inr (.inr hk)
  · cases hbytes

theorem Tiers.hasCopy (h : Tiers c .any st none) (hl : st.Located t) : st.HasCopy c t := by
  obtain ⟨loc, hloc, hk⟩ := hl
  obtain ⟨data, hbytes, hgood⟩ := h.sound.contents.bytesAt h.cold hloc hk
  obtain ⟨e, he, hd⟩ := List.mem_map.1 hgood
  simp only [Prod.mk.injEq] at hd
  obtain ⟨ht, hv, rfl⟩ := hd
  exact ⟨loc, hloc, ⟨e, he, ht, hv, hbytes⟩, fun e' he' ht' =>
    h.versions.latest e' he' loc (ht' ▸ hloc)⟩

/-- The run of a lease is the location of the tensor `t`, which its release will
    forget. -/
def Store.PinnedBy (st : Store) (t : ℕ) (L : Lease) : Prop :=
  L.tensorId = t ∧ ∃ loc, st.locations.lookup t = some loc ∧
    loc.slotId = L.baseSlot ∧ loc.kind = .pinned ∧ loc.version = L.version

/-- The guards under which a tensor keeps its location: no lease of its run is
    released. -/
abbrev keepGuards (c : Config) (t : ℕ) : Guards :=
  { tierGuards c .any with release := fun st L => ¬st.PinnedBy t L }

namespace Store.Located

theorem insertLocation {t' : ℕ} (h : st.Located t) (hk : loc.kind = .pinned ∨ loc.kind.IsCold) :
    { st with locations := st.locations.insert t' loc }.Located t := by
  obtain ⟨old, hold, hk'⟩ := h
  by_cases ht : t = t'
  · exact ⟨loc, by rw [Table.lookup_insert, if_pos ht], hk⟩
  · exact ⟨old, by rwa [Table.lookup_insert, if_neg ht], hk'⟩

theorem updateLocationIfLatest {t' v slotId cref nbytes : ℕ} {kind : LocationKind}
    (h : st.Located t) (hk : kind = .pinned ∨ kind.IsCold) :
    (st.updateLocationIfLatest t' v kind slotId cref nbytes).Located t := by
  unfold Store.updateLocationIfLatest
  split
  · exact h.insertLocation hk
  · exact h

theorem modifyLocation {t' : ℕ} {f : Location → Location} (h : st.Located t)
    (hf : ∀ loc, t = t' → st.locations.lookup t = some loc → loc.kind = .pinned ∨ loc.kind.IsCold →
      (f loc).kind = .pinned ∨ (f loc).kind.IsCold) :
    { st with locations := st.locations.modify t' f }.Located t := by
  obtain ⟨loc, hloc, hk⟩ := h
  by_cases ht : t = t'
  · refine ⟨f loc, Table.lookup_modify_eq_some.2 (.inl ⟨ht, loc, ht ▸ hloc, rfl⟩), ?_⟩
    exact hf loc ht hloc hk
  · exact ⟨loc, Table.lookup_modify_eq_some.2 (.inr ⟨ht, hloc⟩), hk⟩

/-- Every transition keeps the location of a tensor in the pinned memory or in a cold
    tier, as long as it is not dropped and no lease of its run is released. -/
theorem step {g : Guards} {p p' : Option Purpose} (h : st.Located t) (hkinds : ColdKinds st)
    (hdrop : ∀ st t', g.dropLocation st t' → t ≠ t')
    (hrel : ∀ st L, g.release st L → ¬st.PinnedBy t L)
    (hstep : StoreStep c g (st, p) (st', p')) : st'.Located t := by
  cases hstep with
  | drainSettled hi =>
    have hk := hkinds.drained _ (List.mem_of_getElem? hi) _ rfl
    exact updateLocationIfLatest h (.inr hk)
  | readbackDone | publish | keepPinned => exact updateLocationIfLatest h (.inl rfl)
  | warmDone => exact insertLocation h (.inl rfl)
  | fallBack _ _ hcold =>
    refine modifyLocation h fun loc _ _ hk => ?_
    unfold Location.fallBack
    split
    · exact .inr (hkinds.stored _ _ (Store.h2dCold_eq_some hcold).2)
    · exact hk
  | release _ _ hg =>
    refine modifyLocation h fun loc ht hloc hk => ?_
    unfold Location.forget
    split
    · next hat => exact absurd ⟨ht.symm, loc, hloc, hat⟩ (hrel _ _ hg)
    · exact hk
  | @dropLocation _ t' hg =>
    obtain ⟨loc, hloc, hk⟩ := h
    exact ⟨loc, by rwa [Store.dropLocation, Table.lookup_erase, if_neg (hdrop _ _ hg)], hk⟩
  | _ => exact h

end Store.Located

/-- The guards of copies: no lease is released whose run is the location of its tensor
    and has a cold copy. -/
abbrev copyGuards (c : Config) : Guards :=
  { tierGuards c .any with
    release := fun st L => ∀ loc, st.locations.lookup L.tensorId = some loc →
      st.PinnedBy L.tensorId L → st.coldStore.lookup loc.coldRef = none }

instance {L : Lease} : Decidable (st.PinnedBy t L) :=
  match h : st.locations.lookup t with
  | none => isFalse fun ⟨_, _, hloc, _⟩ => nomatch h.symm.trans hloc
  | some loc => decidable_of_iff
      (L.tensorId = t ∧ loc.slotId = L.baseSlot ∧ loc.kind = .pinned ∧ loc.version = L.version)
      ⟨fun hp => ⟨hp.1, loc, h, hp.2⟩,
        fun ⟨ht, _, hloc, hp⟩ => ⟨ht, Option.some.inj (h.symm.trans hloc) ▸ hp⟩⟩

instance : DecidableGuards (copyGuards c) where

/-- The release of a lease whose run is the only copy of the tensor `t`. -/
def ReleasesOnly (s : State) (a : Action) (t : ℕ) : Prop :=
  ∃ now req L loc, a = .rpc now (.releaseLease req) ∧
    s.store.leases.lookup req.leaseId = some L ∧ s.store.PinnedBy t L ∧
    s.store.locations.lookup t = some loc ∧ s.store.coldStore.lookup loc.coldRef = none

/-- A step that meets the guards of copies meets those under which the tensor keeps its
    location, unless it releases its only copy. -/
theorem keepGuards_ok {a : Action} (h : (copyGuards c).ok c s a) :
    ReleasesOnly s a t ∨ (keepGuards c t).ok c s a := by
  cases a with
  | rpc now req =>
    cases req with
    | releaseLease req =>
      by_cases hby : ∃ L, s.epochValid req.rankId req.rankEpoch ∧
          s.store.leases.lookup req.leaseId = some L ∧ L.ownerRank = req.rankId ∧
          releaseFrees (s.store.slotState L.baseSlot) ∧ s.store.PinnedBy t L
      · obtain ⟨L, hval, hL, howner, hfrees, hby⟩ := hby
        obtain ⟨rfl, loc, hloc, hat⟩ := id hby
        exact .inl ⟨now, req, L, loc, rfl, hL, hby, hloc,
          ((h L hL hval howner).2 hfrees).1 loc hloc hby⟩
      · refine .inr fun L hL hval howner => ⟨trivial, fun hfrees => ⟨fun hp => hby ?_, ?_⟩⟩
        · exact ⟨L, hval, hL, howner, hfrees, hp⟩
        · exact ((h L hL hval howner).2 hfrees).2
    | _ => exact .inr h
  | _ => exact .inr h

end StateSpectre
