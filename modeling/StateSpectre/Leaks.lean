import StateSpectre.Drains
import StateSpectre.Holds
import StateSpectre.LeaseIds

/-!
# Slots that are lost

A slot that is not free should belong to somebody who will free it: a live lease, a drain,
readback or restore that is queued or under way, or an object whose run it is, as the object
frees it when it is reclaimed (`State.Backed`).

Each of these can be the last one, and go without freeing the run. A lease whose slots are in
`ERROR` is dropped when it is released, and its slots stay as they are for ever
(`failed_readback_leaks`); a drain that fails leaves a valid run to nobody if its lease was
released meanwhile; an object that is dropped before its first copy drops its lease alone.
If a lease or a drain lets go only of runs that somebody else has, and no location is taken from
a run that only an object has (`backGuards`, `backRules`), no slot is lost (`no_slot_lost`).
-/

namespace StateSpectre

variable {c : Config} {g : Guards} {k : Rules} {x y : Scene} {s : State} {st : Store} {b n i : ℕ}

/-! ## Who has a slot -/

/-- An object is recorded at the run of `n` slots at `b`, which is its location. It frees this run
    when it is reclaimed. -/
def State.recordedAt (c : Config) (s : State) (b n : ℕ) : Bool :=
  s.catalog.objects.rows.any fun r =>
    (s.store.locations.lookup (canonicalTid r.1)).any fun loc =>
      decide (loc.kind = .pinned ∧ loc.slotId = b ∧ c.slotsForBytes loc.nbytes = n ∧
        r.2.baseSlot = b ∧ r.2.slotCount = n ∧ b ≠ noIndex)

/-- Somebody has the slot, and will free it. -/
inductive State.Backed (c : Config) (s : State) (i : ℕ) : Prop
  | lease {id : ℕ} {L : Lease} : s.store.leases.lookup id = some L →
      InRun L.baseSlot L.slotCount i → Backed c s i
  | work {w : Work} : w ∈ s.store.works → InRun w.base w.count i → Backed c s i
  | object {b n : ℕ} : s.recordedAt c b n → s.store.slotState b = .pinnedValid → InRun b n i →
      Backed c s i

/-- The tensor is not pinned elsewhere than at the slot `b`. -/
abbrev Store.OnlyAt (st : Store) (t b : ℕ) : Prop :=
  ∀ loc, st.locations.lookup t = some loc → loc.kind = .pinned → loc.slotId = b

/-- Beside what the contents of runs ask for, copies are completed only for tensors that are
    not pinned elsewhere. -/
abbrev backGuards (c : Config) : Guards :=
  { contentGuards c .all with
    publish := fun st L => st.OnlyAt L.tensorId L.baseSlot
    h2d := fun st L t v => (contentGuards c .all).h2d st L t v ∧ st.OnlyAt t L.baseSlot }

instance : DecidableGuards (backGuards c) where

theorem backGuards_implies : (backGuards c).Implies (contentGuards c .all) :=
  { Guards.Implies.refl (contentGuards c .all) with
    publish := fun _ h => nomatch h
    h2d := And.left }

/-- A drain or a readback moves the location of a tensor only from its own run, and a candidate
    that is thrown away takes it only from its own; a restore ends for an object that is there and
    not pinned. A drain that fails leaves its run to a lease or to its object; a lease that is
    dropped leaves its run to a drain or to its object. -/
def backRules (c : Config) : Rules := fun s e =>
  match e with
  | .seek (.create _ oid) => oid < canonicalTidBit
  | .settle w => s.store.OnlyAt w.tensorId w.baseSlot
  | .readback job => s.store.OnlyAt (s.store.slots job.baseSlot).tensorId job.baseSlot
  | .discard _ L => s.store.OnlyAt L.tensorId L.baseSlot
  | .warm req base => (s.catalog.objects.lookup req.objectId).isSome ∧ base ≠ noIndex ∧
      ∀ loc, s.store.locations.lookup (canonicalTid req.objectId) = some loc → loc.kind ≠ .pinned
  | .failDrain w => (∃ r ∈ s.store.leases.rows, r.2.baseSlot = w.baseSlot) ∨
      s.recordedAt c w.baseSlot w.slotCount
  | .abandon b n =>
      (∀ i, InRun b n i → s.store.slotState i = .free ∨ s.store.slotState i = .drainInFlight) ∨
        s.recordedAt c b n ∧ s.store.slotState b = .pinnedValid
  | _ => True

instance {e : Event} : Decidable (backRules c s e) := by
  induction e using Event.casesOn with
  | seek p => induction p using Purpose.casesOn <;> dsimp only [backRules] <;> infer_instance
  | _ =>
    dsimp only [backRules]
    infer_instance

theorem State.recordedAt_iff : s.recordedAt c b n ↔
    ∃ oid o loc, s.catalog.objects.lookup oid = some o ∧
      s.store.locations.lookup (canonicalTid oid) = some loc ∧ loc.kind = .pinned ∧
      loc.slotId = b ∧ c.slotsForBytes loc.nbytes = n ∧ o.baseSlot = b ∧ o.slotCount = n ∧
      b ≠ noIndex := by
  simp only [recordedAt, List.any_eq_true, Option.any_eq_true, decide_eq_true_eq, Prod.exists,
    Table.mem_rows]
  constructor
  · rintro ⟨oid, o, ho, loc, hloc, h⟩
    exact ⟨oid, o, loc, ho, hloc, h⟩
  · rintro ⟨oid, o, loc, ho, hloc, h⟩
    exact ⟨oid, o, ho, loc, hloc, h⟩

/-! ## Within a step -/

/-- Somebody has the slot, or its run is still to be looked at. The readbacks need not have any:
    their leases do. -/
inductive Covered (c : Config) (x : Scene) (i : ℕ) : Prop
  | lease {id : ℕ} {L : Lease} : x.1.store.leases.lookup id = some L →
      InRun L.baseSlot L.slotCount i → Covered c x i
  | work {w : Work} : w ∈ x.1.store.works → w.coldRef = none → InRun w.base w.count i →
      Covered c x i
  | object {b n : ℕ} : x.1.recordedAt c b n → x.1.store.slotState b = .pinnedValid →
      InRun b n i → Covered c x i
  | freeing {r : ℕ × ℕ} : r ∈ x.2.2.freeing → InRun r.1 r.2 i → Covered c x i
  | left {r : ℕ × ℕ} : r ∈ x.2.2.left → InRun r.1 r.2 i → Covered c x i

/-- No slot is lost. -/
def NoneLost (c : Config) (x : Scene) : Prop :=
  ∀ i, x.1.store.slotState i ≠ .free → Covered c x i

/-- What a drain works on is not read back. -/
theorem Store.coldRef_of_drain {w : Work} (hw : w ∈ st.works) (hq : w.state = .drainInFlight) :
    w.coldRef = none := by
  simp only [works, List.mem_append, List.mem_map, List.mem_filterMap] at hw
  obtain (⟨job, -, rfl⟩ | ⟨job, -, rfl⟩) | ⟨t, -, ht⟩ := hw
  · rfl
  · cases hq
  · cases t <;> cases ht
    all_goals first | rfl | cases hq

/-- A lease stays, or its run is looked at. -/
theorem Move.lease_end {id : ℕ} {L : Lease} (hm : Move c g k x y) (hids : LeaseIds x)
    (hL : x.1.store.leases.lookup id = some L) :
    y.1.store.leases.lookup id = some L ∨ (L.baseSlot, L.slotCount) ∈ y.2.2.freeing ∨
      (L.baseSlot, L.slotCount) ∈ y.2.2.left := by
  -- The ids of leases are not given to others.
  have hinsert : ∀ {L'}, (x.1.store.leases.insert x.1.store.nextLeaseId L').lookup id = some L :=
    (AList.lookup_insert_ne (hids.live id L hL).ne).trans hL
  have herase : ∀ {id'}, id ≠ id' → (x.1.store.leases.erase id').lookup id = some L :=
    fun hne => (AList.lookup_erase_ne hne).trans hL
  have hrun : (L.baseSlot, L.slotCount) ∈ x.1.store.leaseRun id := by simp [Store.leaseRun, hL]
  cases hm with
  | lend | create | candidate | bind => exact .inl hinsert
  | @readback s h' req loc version ownerPid id' =>
    have hne : id ≠ id' := by
      rintro rfl
      exact nomatch hL.symm.trans (hids.drawn id (List.mem_cons_self ..)).2
    exact .inl ((AList.lookup_insert_ne hne).trans hL)
  | @drainSettled s h' j w =>
    by_cases he : id = w.leaseId
    · exact .inr (.inr (List.mem_append_left _ (he ▸ hrun)))
    · exact .inl (herase he)
  | @fallBack s h' id' L' t v cold hL' | @release s h' id' L' hL' =>
    by_cases he : id = id'
    · subst he
      cases hL.symm.trans hL'
      exact .inr (.inl (List.mem_cons_self ..))
    · exact .inl (herase he)
  | @dropLease s h' id' L' hL' | @discard s h' id' L' o hL' =>
    by_cases he : id = id'
    · subst he
      cases hL.symm.trans hL'
      exact .inr (.inr (List.mem_cons_self ..))
    · exact .inl (herase he)
  | @unlinkObject s h' oid o =>
    by_cases he : id = o.leaseId
    · refine .inr (.inr ?_)
      exact List.mem_append_left _ (List.mem_append_left _ (he ▸ hrun))
    · exact .inl (herase he)
  | @endSession s h' rankId ses =>
    by_cases hd : id ∈ (sessionLeases s rankId ses.rankEpoch).map (·.1)
    · obtain ⟨r, hr, rfl⟩ := List.mem_map.1 hd
      obtain rfl := Option.some.inj
        (hL.symm.trans (Table.mem_rows.1 (List.mem_filter.1 hr).1))
      exact .inr (.inr (List.mem_append_left _ (List.mem_map_of_mem hr)))
    · exact .inl (Table.lookup_eraseAll_eq_some.2 ⟨hd, hL⟩)
  | rehash hr => exact .inl ((hr.lookup_eq id).trans hL)
  | _ => exact .inl hL

/-- A run that may be left is looked at, or it is left. -/
theorem Move.left_end {r : ℕ × ℕ} (hm : Move c g k x y) (hr : r ∈ x.2.2.left) :
    r ∈ y.2.2.left ∨ y.1.store.RunFree r.1 r.2 ∨ k y.1 (.abandon r.1 r.2) := by
  cases hm with
  | drainSettled | endSession | unlinkObject => exact .inl (List.mem_append_right _ hr)
  | dropLease | discard => exact .inl (List.mem_cons_of_mem _ hr)
  | leaveRun hl hk =>
    rw [hl] at hr
    rcases List.mem_cons.1 hr with rfl | hr
    · exact .inr hk
    · exact .inl hr
  | _ => exact .inl hr

/-! ## Moves -/

/-- A run that an object has stays with it, or it is that of a lease, or is looked at. -/
theorem Covered.object_move {oid : ℕ} {o : CanonicalObject} {loc : Location}
    (hs : Sound c .all x.1.store x.2.1) (hsmall : x.SmallIds) (horder : x.Orderly)
    (hm : Move c (backGuards c) (backRules c) x y) (hobj : x.1.catalog.objects.lookup oid = some o)
    (hloc : x.1.store.locations.lookup (canonicalTid oid) = some loc) (hkind : loc.kind = .pinned)
    (hbase : o.baseSlot = loc.slotId) (hcount : o.slotCount = c.slotsForBytes loc.nbytes)
    (hne : loc.slotId ≠ noIndex) (hst : x.1.store.slotState loc.slotId = .pinnedValid)
    (hi : InRun loc.slotId (c.slotsForBytes loc.nbytes) i) : Covered c y i := by
  have hc := hs.contents
  have hu := Store.used_of_resident hloc hkind
  have hext : x.1.store.extent c loc.slotId = c.slotsForBytes loc.nbytes := by
    rw [((hc.runs _ hu).resident _ loc hloc hkind rfl).nbytes]
    rfl
  -- A lease on the slot where the run starts is one on the run.
  have hlease : ∀ {id L}, x.1.store.leases.lookup id = some L → loc.slotId = L.baseSlot →
      InRun L.baseSlot L.slotCount i := by
    intro id L hL hb
    rwa [((hc.runs _ (Store.used_of_lease hL)).lease id L hL rfl).count, ← hb, hext]
  rcases hm.valid_or_leased backGuards_implies hc hu hst with hslot | ⟨id, L, hL, hb, hn⟩
  swap
  · refine .lease hL ?_
    rwa [hb, hn, hext]
  -- The run stays as it is: the object and its location may change.
  have hvalid : y.1.store.slotState loc.slotId = .pinnedValid :=
    (congrArg SlotEntry.state hslot).trans hst
  have hkeep : ∀ {o'}, y.1.catalog.objects.lookup oid = some o' →
      o'.baseSlot = o.baseSlot ∧ o'.slotCount = o.slotCount →
      y.1.store.locations.lookup (canonicalTid oid) = some loc → Covered c y i := by
    rintro o' ho' ⟨hb', hn'⟩ hloc'
    refine .object (State.recordedAt_iff.2 ⟨oid, o', loc, ho', hloc', hkind, rfl, rfl, ?_, ?_,
      hne⟩) hvalid hi
    · rw [hb', hbase]
    · rw [hn', hcount]
  have hnowork : ∀ w ∈ x.1.store.works, w.base ≠ loc.slotId :=
    hc.no_work (by rw [← Store.slotState, hst]; decide) (by rw [← Store.slotState, hst]; decide)
  have hlinked : x.1.catalog.objects.Linked
      (fun o o' => o'.baseSlot = o.baseSlot ∧ o'.slotCount = o.slotCount) y.1.catalog.objects →
      y.1.store.locations.lookup (canonicalTid oid) = some loc → Covered c y i := by
    intro hl hloc'
    obtain ⟨o', ho', hsame⟩ := hl.lookup hobj
    exact hkeep ho' hsame hloc'
  have hrefl : ∀ o : CanonicalObject, o.baseSlot = o.baseSlot ∧ o.slotCount = o.slotCount :=
    fun _ => ⟨rfl, rfl⟩
  cases hm with
  | restore | endRestore | startPull | failPull | endPull | attach | letGo | commit =>
    exact hlinked (.modify hrefl fun _ _ => ⟨rfl, rfl⟩) hloc
  | refusePull => exact hlinked (.modify_modify hrefl fun _ _ => ⟨rfl, rfl⟩) hloc
  | rehash _ _ ho => exact hlinked (ho.linked hrefl) hloc
  | sealVersion =>
    exact hlinked (sealVersion_linked _ hrefl fun _ _ _ _ => ⟨rfl, rfl⟩) hloc
  | @create s h' req oid' base now =>
    have hnew := (horder.indexed.created oid' (List.mem_cons_self ..)).2
    have hne' : oid ≠ oid' := by
      rintro rfl
      cases hobj.symm.trans hnew
    exact hkeep ((AList.lookup_insert_ne hne').trans hobj) ⟨rfl, rfl⟩ hloc
  | @unlinkObject s h' oid' o' hobj' =>
    by_cases he : oid = oid'
    · subst he
      cases hobj.symm.trans hobj'
      refine .left (r := (o.baseSlot, o.slotCount)) ?_ (by rwa [hbase, hcount])
      refine List.mem_append_left _ (List.mem_append_right _ ?_)
      simp [State.objectRun, hloc, hkind, hbase]
    · have htid : canonicalTid oid ≠ canonicalTid oid' := fun heq =>
        he (canonicalTid_inj (hsmall.object oid o hobj) (hsmall.object oid' o' hobj') heq)
      exact hkeep ((AList.lookup_erase_ne he).trans hobj) ⟨rfl, rfl⟩
        ((AList.lookup_erase_ne htid).trans hloc)
  | @warmDone s h' j req base count nbytes now hj _ hk =>
    obtain ⟨hsome, -, hunpinned⟩ := hk
    obtain ⟨o', ho'⟩ := Option.isSome_iff_exists.1 hsome
    have he : oid ≠ req.objectId := by
      rintro rfl
      exact hunpinned loc hloc hkind
    have htid : canonicalTid oid ≠ canonicalTid req.objectId := fun heq =>
      he (canonicalTid_inj (hsmall.object oid o hobj) (hsmall.object _ o' ho') heq)
    refine hkeep ((Table.lookup_modify ..).trans ((if_neg he).trans hobj)) ⟨rfl, rfl⟩ ?_
    exact (AList.lookup_insert_ne htid).trans hloc
  | @publish s h' id L now seq hL _ hg =>
    by_cases htid : canonicalTid oid = L.tensorId
    · exact .lease hL (hlease hL (hg loc (htid ▸ hloc) hkind))
    · exact hkeep hobj ⟨rfl, rfl⟩ ((Store.lookup_updateLocationIfLatest htid).trans hloc)
  | @keepPinned s h' id L now t v seq hL _ hg =>
    by_cases htid : canonicalTid oid = t
    · exact .lease hL (hlease hL (hg.2 loc (htid ▸ hloc) hkind))
    · exact hkeep hobj ⟨rfl, rfl⟩ ((Store.lookup_updateLocationIfLatest htid).trans hloc)
  | @readbackDone s h' j job now hj _ hk =>
    by_cases htid : canonicalTid oid = (s.store.slots job.baseSlot).tensorId
    · exact absurd (hk loc (htid ▸ hloc) hkind).symm (hnowork _ (Store.mem_works hj rfl))
    · exact hkeep hobj ⟨rfl, rfl⟩ ((Store.lookup_updateLocationIfLatest htid).trans hloc)
  | @drainSettled s h' j w cold hj _ _ hk =>
    by_cases htid : canonicalTid oid = w.tensorId
    · exact absurd (hk loc (htid ▸ hloc) hkind).symm (hnowork _ (Store.mem_works hj rfl))
    · exact hkeep hobj ⟨rfl, rfl⟩ ((Store.lookup_updateLocationIfLatest htid).trans hloc)
  | @discard s h' id L o' hL _ _ hk =>
    by_cases htid : canonicalTid oid = L.tensorId
    · exact .left (List.mem_cons_self ..) (hlease hL (hk loc (htid ▸ hloc) hkind))
    · exact hkeep hobj ⟨rfl, rfl⟩ ((AList.lookup_erase_ne htid).trans hloc)
  | @fallBack s h' id L t v cold hL =>
    by_cases hb : loc.slotId = L.baseSlot
    · exact .freeing (List.mem_cons_self ..) (hlease hL hb)
    · refine hkeep hobj ⟨rfl, rfl⟩ ((Table.lookup_modify_of_lookup hloc).trans ?_)
      simp [Location.fallBack, hb]
  | @release s h' id L hL =>
    by_cases hb : loc.slotId = L.baseSlot
    · exact .freeing (List.mem_cons_self ..) (hlease hL hb)
    · refine hkeep hobj ⟨rfl, rfl⟩ ((Table.lookup_modify_of_lookup hloc).trans ?_)
      simp [Location.forget, hb]
  | _ => exact hkeep hobj ⟨rfl, rfl⟩ hloc

/-- The run of a drain that failed is left to a lease, or to its object. -/
theorem Covered.drainFailed {j now : ℕ} {w : DrainWork} (hc : x.1.store.Contents c .all)
    (hj : x.1.store.tasks[j]? = some (.drainCommit w none))
    (hk : backRules c { x.1 with store := x.1.store.dropTask j } (.failDrain w))
    (hy : y.1 =
      { x.1.drainDone w.nbytes with
        store := (x.1.store.dropTask j).setRunState now w.baseSlot w.slotCount .pinnedValid })
    (hi : InRun w.baseSlot w.slotCount i) : Covered c y i := by
  have hw := Store.mem_works hj rfl
  have hcount : w.slotCount = x.1.store.extent c w.baseSlot :=
    ((hc.runs _ (Store.used_of_work hw)).work _ hw rfl).count
  rcases hk with ⟨⟨id, L⟩, hL, hb⟩ | hrec
  · have hL := Table.mem_rows.1 hL
    have hL' : y.1.store.leases.lookup id = some L := by
      rw [hy]
      exact hL
    refine .lease hL' ?_
    rw [((hc.runs _ (Store.used_of_lease hL)).lease id L hL rfl).count, hb]
    rwa [← hcount]
  · refine .object (b := w.baseSlot) (n := w.slotCount) ?_ ?_ hi
    · rw [hy]
      exact hrec
    · rw [hy]
      exact congrArg SlotEntry.state (if_pos ⟨le_rfl, by have := hi.1; have := hi.2; omega⟩)

/-- A run that was warmed is that of its object. -/
theorem Covered.warmed {j now : ℕ} {req : RequestCanonicalRestoreRequest} {nbytes : ℕ}
    (hc : x.1.store.Contents c .all)
    (hj : x.1.store.tasks[j]? = some (.restoreCommit req b n nbytes true))
    (hk : backRules c { x.1 with store := x.1.store.dropTask j } (.warm req b))
    (hy : y.1 = (restoreCommit c { x.1 with store := x.1.store.dropTask j } now req b n nbytes
      true).1)
    (hi : InRun b n i) : Covered c y i := by
  obtain ⟨hsome, hne, -⟩ := hk
  obtain ⟨o, ho⟩ := Option.isSome_iff_exists.1 hsome
  have hw := Store.mem_works hj rfl
  have hok := (hc.runs _ (Store.used_of_work hw)).work _ hw rfl
  have hn : nbytes = (x.1.store.slots b).nbytes := hok.nbytes nbytes rfl
  have hcount : c.slotsForBytes nbytes = n := by
    rw [hn]
    exact hok.count.symm
  refine .object (b := b) (n := n) ?_ ?_ hi
  · rw [hy]
    exact State.recordedAt_iff.2 ⟨req.objectId, _, _, Table.lookup_modify_self ho,
      AList.lookup_insert _, rfl, rfl, hcount, rfl, rfl, hne⟩
  · rw [hy]
    exact congrArg SlotEntry.state (if_pos ⟨le_rfl, by have := hi.1; have := hi.2; omega⟩)

/-- Who has a slot keeps it, or leaves it to somebody else. -/
theorem Covered.move (h : Covered c x i) (hs : Sound c .all x.1.store x.2.1)
    (hids : LeaseIds x) (hsmall : x.SmallIds) (horder : x.Orderly) (hdrains : DrainsCovered y)
    (hm : Move c (backGuards c) (backRules c) x y) (hi : y.1.store.slotState i ≠ .free) :
    Covered c y i := by
  have hc := hs.contents
  cases h with
  | @lease id L hL hrun =>
    rcases hm.lease_end hids hL with hL | hr | hr
    · exact .lease hL hrun
    · exact .freeing hr hrun
    · exact .left hr hrun
  | @work w hw hcold hrun =>
    rcases hm.workEnd hc hw with ⟨w', hw', hf⟩ | hend
    · exact .work hw' (hf.coldRef.trans hcold) (by rwa [hf.base, hf.count])
    cases hend with
    | settled _ _ _ hr | warmFailed _ hr => exact .freeing hr hrun
    | drainFailed hj hb hn _ hk hy => exact .drainFailed hc hj hk hy (by rwa [hb, hn])
    | read _ hr => exact nomatch hr.symm.trans hcold
    | warmed hj _ hk hy => exact .warmed hc hj hk hy hrun
  | object hrec hst hrun =>
    obtain ⟨oid, o, loc, hobj, hloc, hkind, rfl, rfl, hb, hn, hne⟩ := State.recordedAt_iff.1 hrec
    exact Covered.object_move hs hsmall horder hm hobj hloc hkind hb hn hne hst hrun
  | freeing hr hrun =>
    rcases hm.freeing hr with hr | hfree
    · exact .freeing hr hrun
    · exact absurd (hfree i hrun) hi
  | left hr hrun =>
    rcases hm.left_end hr with hr | hfree | hk
    · exact .left hr hrun
    · exact absurd (hfree i hrun) hi
    · rcases hk with hk | ⟨hrec, hst⟩
      · -- The run is left to a drain.
        rcases hdrains i ((hk i hrun).resolve_left hi) with ⟨w, hw, hq, hrun⟩ | ⟨r, hr, hrun⟩
        · exact .work hw (Store.coldRef_of_drain hw hq) hrun
        · exact .freeing hr hrun
      · exact .object hrec hst hrun

/-- Every move that meets the conditions keeps it that no slot is lost. -/
theorem NoneLost.move (h : NoneLost c x) (hs : Sound c .all x.1.store x.2.1)
    (hids : LeaseIds x) (hsmall : x.SmallIds) (horder : x.Orderly) (hdrains : DrainsCovered y)
    (hm : Move c (backGuards c) (backRules c) x y) : NoneLost c y := by
  intro i hi
  have hkept : x.1.store.slotState i ≠ .free → Covered c y i := fun hx =>
    (h i hx).move hs hids hsmall horder hdrains hm hi
  rcases hm.slotChange fun _ _ _ hr => hr.1 with hsame | hch
  · exact hkept fun hx => hi ((congrArg SlotEntry.state hsame).trans hx)
  cases hch with
  | lent _ hL hrun => exact .lease hL hrun
  | taken _ hw hrun _ hcold => exact .work hw hcold hrun
  | leased _ hL hrun => exact .lease hL hrun
  | settled _ _ hrun _ hr => exact .freeing hr hrun
  | drainFailed hj hk hrun hy => exact .drainFailed hs.contents hj hk hy hrun
  | read hj ht hrun =>
    -- The run of a readback is in use.
    obtain ⟨w, hw, hb, hn, -⟩ := Task.work_of_readback ht
    have hmem := Store.mem_works hj hw
    have hinv := hs.contents.runs _ (Store.used_of_work hmem)
    rw [← hb, ← hn, (hinv.work w hmem rfl).count] at hrun
    exact hkept (hinv.run.live i hrun)
  | warmed hj hk hrun hy => exact .warmed hs.contents hj hk hy hrun
  | freed _ _ hfree => exact absurd hfree hi

/-! ## Runs -/

/-- In every run in which leases and drains let go only of runs that somebody else has, and no
    location is taken from a run that only an object has, no slot is lost. -/
theorem no_slot_lost
    (h : Reachable c (fun s a => (backGuards c).ok c s a ∧ (backRules c).ok c s a) s)
    (hi : s.store.slotState i ≠ .free) : s.Backed c i := by
  have hinv : Orderly s ∧ Scene.SmallIds (s, none, {}) ∧
      LeaseIds (s, none, {}) ∧ Sound c .all s.store none ∧ DrainsCovered (s, none, {}) ∧
        NoneLost c (s, none, {}) := by
    refine h.invariant (motive := fun x => x.Orderly ∧ x.SmallIds ∧ LeaseIds x ∧
      Sound c .all x.1.store x.2.1 ∧ DrainsCovered x ∧ NoneLost c x) ?_ ?_
    · exact ⟨.initial, .initial, .initial, .initial, nofun, fun i hi => absurd rfl hi⟩
    · rintro x y ⟨ho, hsmall, hids, hs, hdrains, hnone⟩ hxy
      have hdrains' := hdrains.move hs.contents hxy fun _ _ _ hr => hr.1
      exact ⟨ho.move hxy, hsmall.move ho (fun _ _ _ hk => hk) hxy, hids.move hxy,
        hs.move backGuards_implies hxy, hdrains', hnone.move hs hids hsmall ho hdrains' hxy⟩
  cases hinv.2.2.2.2.2 i hi with
  | lease hL hrun => exact .lease hL hrun
  | work hw _ hrun => exact .work hw hrun
  | object hrec hst hrun => exact .object hrec hst hrun
  | freeing hr | left hr => cases hr

/-- A slot of a state without leases, work and pinned locations is lost. -/
theorem State.not_backed (hleases : s.store.leases.rows = []) (hworks : s.store.works = [])
    (hloc : ∀ r ∈ s.store.locations.rows, r.2.kind ≠ .pinned) : ¬s.Backed c i := by
  intro h
  cases h with
  | lease hL =>
    have hmem := Table.mem_rows.2 hL
    rw [hleases] at hmem
    cases hmem
  | work hw =>
    rw [hworks] at hw
    cases hw
  | object hrec =>
    obtain ⟨oid, o, loc, -, hl, hkind, -⟩ := State.recordedAt_iff.1 hrec
    exact hloc _ (Table.mem_rows.2 hl) hkind

/-- A tensor is drained to NVMe and prefetched, and cannot be read. When its lease is released,
    nobody has the slot, which is not free. -/
theorem failed_readback_leaks :
    ∃ s, Reached oneSlotNvme s ∧
      (s.store.slotState 0 = .error ∧ s.store.leases.rows = [] ∧ s.store.works.length = 0 ∧
        ∀ r ∈ s.store.locations.rows, r.2.kind ≠ .pinned) ∧ ¬s.Backed oneSlotNvme 0 := by
  refine exists_reachable_and oneSlotNvme _ (registers :: offloads 1 1 1 1 [1] ++
    offloadsDraining 2 2 1 2 [2] ++ [releases 3 2, prefetches 4 1 1, .takeReadback, .proceed 5 0,
      .io 0 (.failed [] "read error"), .proceed 6 0, releases 7 3]) (by decide +kernel) ?_
  rintro s - ⟨-, hleases, hworks, hloc⟩
  exact State.not_backed hleases (List.length_eq_zero_iff.1 hworks) hloc

/-- A lease is released while its run is being drained: the drain has the slot. -/
theorem no_slot_lost_released :
    ∃ s, Reachable oneSlot
        (fun s a => (backGuards oneSlot).ok oneSlot s a ∧ (backRules oneSlot).ok oneSlot s a) s ∧
      (s.store.slotState 0 = .drainInFlight ∧ s.store.leases.rows = []) ∧ s.Backed oneSlot 0 :=
  exists_reachable_and oneSlot _
    (registers :: offloads 1 1 1 1 [1] ++ (offloads 2 2 1 2 [2]).take 1 ++ [releases 3 1])
    (by decide +kernel) fun _ hs hp => no_slot_lost hs (by rw [hp.1]; nofun)

end StateSpectre
