import StateSpectre.Manifests

/-!
# Cold copies that nobody refers to

A drain stores a cold copy and records it in the location of its tensor. There is one place
only where a cold copy is forgotten, the reclaim of an object that is not pinned. But a
location is given up, or moves on, at many places: when a later version is offloaded, the
location of the earlier one is overwritten with its cold copy (`offload_orphans_cold`); when a
drain of an earlier version ends after the later one is known; when the lease of a tensor that
was read back is released, or an object that is both pinned and cold reclaimed.

As long as no location is given up that records a stored copy, except for the reclaim of an
object that is not pinned (`orphanGuards`, `orphanRules`), every cold copy is referred to by a
location that leads to it (`cold_copies_referred`).
-/

namespace StateSpectre

variable {c : Config} {st : Store} {s : State} {x y : Scene} {loc : Location}

/-! ## References -/

/-- A location from which a tensor can be read. -/
def Location.Live (loc : Location) : Prop := loc.kind = .pinned ∨ loc.kind.IsCold

/-- The location of some tensor leads to a cold copy. -/
def Store.LeadsTo (st : Store) (ref : ℕ) : Prop :=
  ∃ t loc, st.locations.lookup t = some loc ∧ loc.Live ∧ loc.coldRef = ref

/-- The location of a tensor records no stored copy. -/
abbrev Store.NoCopy (st : Store) (t : ℕ) : Prop :=
  ∀ loc, st.locations.lookup t = some loc → st.coldStore.lookup loc.coldRef = none

/-- A location that is overwritten by a D2H copy, forgotten with a lease, or dropped while it
    is pinned, records no stored copy. -/
abbrev orphanGuards : Guards where
  publish st L := st.isLatest L.tensorId L.version → st.NoCopy L.tensorId
  release st L := ∀ loc, st.locations.lookup L.tensorId = some loc →
    loc.forget L.baseSlot L.version ≠ loc → st.coldStore.lookup loc.coldRef = none
  dropLocation st t := ∀ loc, st.locations.lookup t = some loc → loc.kind = .pinned →
    st.coldStore.lookup loc.coldRef = none

instance : DecidableGuards orphanGuards where

/-- A drain settles for the latest version, which has no stored copy yet; a readback is
    recorded with the copy that the location has; a candidate that is thrown away has none. -/
def orphanRules : Rules := fun s e =>
  match e with
  | .settle w => s.store.isLatest w.tensorId w.version ∧ s.store.NoCopy w.tensorId
  | .readback job => ∀ loc,
      s.store.locations.lookup (s.store.slots job.baseSlot).tensorId = some loc →
      loc.coldRef = job.coldRef ∨ s.store.coldStore.lookup loc.coldRef = none
  | .discard _ L => s.store.NoCopy L.tensorId
  | _ => True

instance {e : Event} : Decidable (orphanRules s e) := by
  induction e using Event.casesOn <;> dsimp only [orphanRules] <;> infer_instance

/-! ## Every copy is referred to -/

/-- Every cold copy is referred to, or is to be forgotten. -/
structure ColdKept (x : Scene) : Prop where
  refers : ∀ ref e, x.1.store.coldStore.lookup ref = some e →
    x.1.store.LeadsTo ref ∨ ref ∈ x.2.2.forgetting
  pos : ∀ ref e, x.1.store.coldStore.lookup ref = some e → 0 < ref
  next : 0 < x.1.store.nextColdRef

/-- No copy is stored, and no reference to one is lost. The fields that are not given say that
    nothing changes. -/
structure ColdChange (x y : Scene) : Prop where
  stored : ∀ ref e, y.1.store.coldStore.lookup ref = some e →
    x.1.store.coldStore.lookup ref = some e := by exact fun _ _ h => h
  location : ∀ t loc, x.1.store.locations.lookup t = some loc → loc.Live →
    (x.1.store.coldStore.lookup loc.coldRef).isSome →
    (∃ loc', y.1.store.locations.lookup t = some loc' ∧ loc'.Live ∧ loc'.coldRef = loc.coldRef) ∨
      loc.coldRef ∈ y.2.2.forgetting := by
        exact fun _ loc h hl _ => .inl ⟨loc, h, hl, rfl⟩
  forgetting : ∀ ref ∈ x.2.2.forgetting, (y.1.store.coldStore.lookup ref).isSome →
    ref ∈ y.2.2.forgetting := by exact fun _ h _ => h
  next : x.1.store.nextColdRef ≤ y.1.store.nextColdRef := by exact le_rfl

theorem ColdKept.change (h : ColdKept x) (hc : ColdChange x y) : ColdKept y where
  refers ref e he := by
    have he' := hc.stored ref e he
    rcases h.refers ref e he' with ⟨t, loc, hloc, hlive, rfl⟩ | hforget
    · refine (hc.location t loc hloc hlive (by rw [he']; rfl)).imp_left ?_
      rintro ⟨loc', hloc', hlive', href⟩
      exact ⟨t, loc', hloc', hlive', href⟩
    · exact .inr (hc.forgetting ref hforget (by rw [he]; rfl))
  pos ref e he := h.pos ref e (hc.stored ref e he)
  next := h.next.trans_le hc.next

/-- The location of a tensor after it may have moved on. -/
theorem Store.lookup_update_eq_some (st : Store) {t t' v slotId cref nbytes : ℕ}
    {kind : LocationKind} (hloc : st.locations.lookup t' = some loc)
    (h : t' = t → st.isLatest t v → (⟨v, kind, slotId, cref, nbytes⟩ : Location).Live ∧
      cref = loc.coldRef) (hlive : loc.Live) :
    ∃ loc', (st.updateLocationIfLatest t v kind slotId cref nbytes).locations.lookup t' =
      some loc' ∧ loc'.Live ∧ loc'.coldRef = loc.coldRef := by
  by_cases ht : t' = t
  · subst ht
    rw [updateLocationIfLatest]
    split
    · next hv => exact ⟨_, (Table.lookup_insert ..).trans (if_pos rfl), h rfl hv⟩
    · exact ⟨loc, hloc, hlive, rfl⟩
  · exact ⟨loc, (lookup_updateLocationIfLatest ht).trans hloc, hlive, rfl⟩

/-- A location that is changed keeps its cold copy. -/
theorem ColdKept.modify {t : ℕ} {f : Location → Location} (h : ColdKept x)
    (hlocs : y.1.store.locations = x.1.store.locations.modify t f)
    (hcold : y.1.store.coldStore = x.1.store.coldStore)
    (hf : ∀ loc, x.1.store.locations.lookup t = some loc → loc.Live →
      (x.1.store.coldStore.lookup loc.coldRef).isSome →
      (f loc).Live ∧ (f loc).coldRef = loc.coldRef)
    (hforget : y.2.2.forgetting = x.2.2.forgetting)
    (hnext : y.1.store.nextColdRef = x.1.store.nextColdRef) : ColdKept y := by
  refine h.change
    { stored := fun ref e he => hcold ▸ he, location := fun t' loc hloc hlive hsome => .inl ?_
      forgetting := fun ref hr _ => hforget ▸ hr, next := hnext.ge }
  rw [hlocs, Table.lookup_modify]
  split
  · next ht =>
    subst ht
    exact ⟨f loc, by rw [hloc]; rfl, hf loc hloc hlive hsome⟩
  · exact ⟨loc, hloc, hlive, rfl⟩

/-- A drain settles: the new copy is referred to, and no other one was. -/
theorem ColdKept.settle {p : Option Purpose} {hand hand' : Hand} {i : ℕ} {w : DrainWork}
    {cold : ColdEntry} {p' : Option Purpose} {gauges : Gauges} (h : ColdKept (s, p, hand))
    (hk : cold.kind.IsCold) (hlatest : s.store.isLatest w.tensorId w.version)
    (hnone : s.store.NoCopy w.tensorId) (hforget : hand'.forgetting = hand.forgetting) :
    ColdKept
      ({ s with store := (s.store.dropTask i).settleDrain w cold, gauges := gauges }, p',
        hand') := by
  have hlocs : ((s.store.dropTask i).settleDrain w cold).locations =
      s.store.locations.insert w.tensorId
        ⟨w.version, cold.kind, w.baseSlot, s.store.nextColdRef, w.nbytes⟩ := if_pos hlatest
  have hnew : (s.store.dropTask i |>.settleDrain w cold).LeadsTo s.store.nextColdRef := by
    refine ⟨w.tensorId, ⟨w.version, cold.kind, w.baseSlot, s.store.nextColdRef, w.nbytes⟩, ?_,
      .inr hk, rfl⟩
    rw [hlocs]
    exact (Table.lookup_insert ..).trans (if_pos rfl)
  refine ⟨fun ref e he => ?_, fun ref e he => ?_, Nat.succ_pos _⟩
  · rcases Table.lookup_insert_eq_some.1 he with ⟨rfl, -⟩ | ⟨-, he⟩
    · exact .inl hnew
    rcases h.refers ref e he with ⟨t, loc, hloc, hlive, rfl⟩ | hforget'
    · refine .inl ⟨t, loc, ?_, hlive, rfl⟩
      dsimp only
      rw [hlocs, Table.lookup_insert, if_neg]
      · exact hloc
      · rintro rfl
        exact nomatch (hnone loc hloc).symm.trans he
    · exact .inr (hforget ▸ hforget')
  · rcases Table.lookup_insert_eq_some.1 he with ⟨rfl, -⟩ | ⟨-, he⟩
    · exact h.next
    · exact h.pos ref e he

/-- The cold copy of an object that is not pinned goes with it. -/
theorem State.mem_objectCopy {oid : ℕ} {o : CanonicalObject}
    (hloc : s.store.locations.lookup (canonicalTid oid) = some loc) (hk : loc.kind ≠ .pinned)
    (hne : loc.coldRef ≠ 0) : loc.coldRef ∈ s.objectCopy oid o :=
  mem_objectCopy_iff.2 ⟨loc, hloc, fun h => hk h.1, hne, rfl⟩

/-- Every move keeps it that every cold copy is referred to. -/
theorem ColdKept.move (h : ColdKept x) (hk : ColdKinds x.1.store)
    (hm : Move c orphanGuards orphanRules x y) : ColdKept y := by
  cases hm with
  | drainSettled hi _ _ hsettle =>
    exact h.settle (hk.drained _ (List.mem_of_getElem? hi) _ rfl) hsettle.1 hsettle.2 rfl
  | readbackDone hi _ hrb =>
    refine h.change { location := fun t loc hloc hlive hsome => .inl ?_ }
    refine Store.lookup_update_eq_some (Store.setRunState _ _ _ _ _) hloc ?_ hlive
    rintro rfl -
    refine ⟨.inl rfl, ((hrb loc hloc).resolve_right fun hnone => ?_).symm⟩
    cases hsome.symm.trans (congrArg Option.isSome hnone)
  | publish _ _ hnone =>
    refine h.change { location := fun t loc hloc hlive hsome => .inl ?_ }
    refine Store.lookup_update_eq_some (Store.mapRun _ _ _ _) hloc ?_ hlive
    rintro rfl hv
    rw [hnone hv loc hloc] at hsome
    cases hsome
  | @keepPinned _ _ _ L _ t _ _ =>
    refine h.change { location := fun t' loc hloc hlive hsome => .inl ?_ }
    refine Store.lookup_update_eq_some (Store.mapRun _ _ _ _) hloc ?_ hlive
    rintro rfl -
    obtain ⟨e, he⟩ := Option.isSome_iff_exists.1 hsome
    refine ⟨.inl rfl, ?_⟩
    rw [Store.h2dColdRef, hloc]
    exact if_pos (h.pos _ e he).ne'
  | fallBack _ _ hcold =>
    refine h.modify rfl rfl (fun loc _ hlive _ => ?_) rfl rfl
    rw [Location.fallBack]
    split
    · exact ⟨.inr (hk.stored _ _ (Store.h2dCold_eq_some hcold).2), rfl⟩
    · exact ⟨hlive, rfl⟩
  | @release _ _ _ L _ _ hnone =>
    refine h.modify rfl rfl (fun loc hloc hlive hsome => ?_) rfl rfl
    by_cases hsame : loc.forget L.baseSlot L.version = loc
    · rw [hsame]
      exact ⟨hlive, rfl⟩
    · cases hsome.symm.trans (congrArg Option.isSome (hnone loc hloc hsame))
  | @warmDone s _ i req _ _ _ _ hi =>
    refine h.change { location := fun t loc hloc hlive _ => .inl ?_ }
    by_cases ht : t = canonicalTid req.objectId
    · subst ht
      refine ⟨_, (Table.lookup_insert ..).trans (if_pos rfl), .inl rfl, ?_⟩
      exact congrArg (fun l => (l.getD {}).coldRef) hloc
    · exact ⟨loc, (Table.lookup_insert ..).trans ((if_neg ht).trans hloc), hlive, rfl⟩
  | forgetCold =>
    exact h.change { stored := fun _ _ => Table.lookup_of_lookup_erase }
  | forgot hforget hnone =>
    refine h.change { forgetting := fun ref hr hsome => ?_ }
    rw [hforget] at hr
    rcases List.mem_cons.1 hr with rfl | hr
    · rw [hnone] at hsome
      cases hsome
    · exact hr
  | @unlinkObject s hand oid o _ _ _ hpinned =>
    refine h.change { location := fun t loc hloc hlive hsome => ?_
                      forgetting := fun _ hr _ => List.mem_append_right _ hr }
    by_cases ht : t = canonicalTid oid
    · subst ht
      obtain ⟨e, he⟩ := Option.isSome_iff_exists.1 hsome
      have hnot : loc.kind ≠ .pinned := fun hp => by
        cases (hpinned loc hloc hp).symm.trans he
      exact .inr (List.mem_append_left _ (State.mem_objectCopy hloc hnot (h.pos _ e he).ne'))
    · exact .inl ⟨loc, (Table.lookup_erase ..).trans ((if_neg ht).trans hloc), hlive, rfl⟩
  | @discard _ _ _ L _ _ _ _ hnone =>
    refine h.change { location := fun t loc hloc hlive hsome => .inl ?_ }
    by_cases ht : t = L.tensorId
    · subst ht
      cases hsome.symm.trans (congrArg Option.isSome (hnone loc hloc))
    · exact ⟨loc, (Table.lookup_erase ..).trans ((if_neg ht).trans hloc), hlive, rfl⟩
  | _ => exact h.change {}

/-! ## Runs -/

/-- In every run in which no location is given up that records a stored copy, apart from that of
    an object that is reclaimed while it is not pinned, some location leads to every cold copy. -/
theorem cold_copies_referred
    (h : Reachable c (fun s a => orphanGuards.ok c s a ∧ orphanRules.ok c s a) s) {ref : ℕ}
    {e : ColdEntry} (he : s.store.coldStore.lookup ref = some e) : s.store.LeadsTo ref := by
  have hinv : ColdKinds s.store ∧ ColdKept (s, none, {}) := by
    refine h.invariant (motive := fun x => ColdKinds x.1.store ∧ ColdKept x) ?_ ?_
    · exact ⟨⟨nofun, fun _ ht => nomatch ht⟩, ⟨nofun, nofun, Nat.one_pos⟩⟩
    · rintro x y ⟨hk, hkept⟩ hxy
      exact ⟨hxy.store.invariant (motive := fun a => ColdKinds a.1)
        (fun _ _ ha hab => ha.step hab) hk,
        hkept.move hk hxy⟩
  exact (hinv.2.refers ref e he).resolve_right (List.not_mem_nil)

/-- A tensor is drained, and then offloaded again in a later version: nothing leads to the cold
    copy of the earlier one, whatever the daemon is doing. -/
theorem offload_orphans_cold :
    ∃ s e, Reached oneSlot s ∧
      (s.store.coldStore.lookup 1 = some e ∧
        (∀ t loc, s.store.locations.lookup t = some loc → loc.coldRef ≠ 1) ∧
        s.store.tasks = [] ∧ s.store.readbackQueue = []) ∧ ¬s.store.LeadsTo 1 := by
  refine exists_reachable₂_and oneSlot _ (registers :: offloads 1 1 1 1 [1] ++
    offloadsDraining 2 2 1 2 [2] ++ offloadsDraining 3 1 2 3 [3]) (by decide +kernel) ?_
  rintro s e - ⟨-, hnone, -⟩ ⟨t, loc, hloc, -, href⟩
  exact hnone t loc hloc href

/-- An object and a tensor are drained, and the object is reclaimed: its copy is gone, and the
    location of the tensor leads to the other one. -/
theorem cold_copies_referred_dropped :
    ∃ s e, Reachable oneSlot
        (fun s a => orphanGuards.ok oneSlot s a ∧ orphanRules.ok oneSlot s a) s ∧
      (s.store.coldStore.lookup 2 = some e ∧ s.store.coldStore.lookup 1 = none) ∧
      s.store.LeadsTo 2 :=
  exists_reachable₂_and oneSlot _ ([registers, registersJob] ++ creates 1 1 1 [1] ++
    offloadsDraining 2 2 1 2 [2] ++ offloadsDraining 3 3 1 3 [3] ++ [releasesHolds 4])
    (by decide +kernel) fun _ _ hs hp => cold_copies_referred hs hp.1

end StateSpectre
