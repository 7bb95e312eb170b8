import StateSpectre.Contents.Workers

/-!
# The life of a lease and the contents

The ranks copy into the runs of their leases, and the daemon accepts the copies,
binds prefetches to resident runs, and frees runs. A copy is accepted with what is
in the run: as long as the owner of a lease may copy into it, no one else does.
-/

namespace StateSpectre

variable {c : Config} {π : Provenance} {st : Store} {b n : ℕ} {data : List Bytes} {loc : Location}

namespace Store

/-! ## Accepting a copy -/

/-- A copy is accepted. -/
def accept (st : Store) (e : AcceptedD2H) : Store :=
  { st with history := { st.history with accepted := e :: st.history.accepted } }

variable {e : AcceptedD2H}

theorem RefOk.accept {t v nbytes ref : ℕ} (h : st.RefOk c π t v nbytes ref)
    (hne : π.strict → (t, v) ≠ (e.tensorId, e.version)) :
    (st.accept e).RefOk c π t v nbytes ref :=
  ⟨h.drawn, fun ce hce => ⟨π.old (h.good ce hce).1 hne, (h.good ce hce).2⟩⟩

theorem d2hOpen_iff {q : SlotState} :
    d2hOpen q ↔ q = .reservedD2H ∨ q = .d2hInFlight := by
  cases q <;> simp [d2hOpen]

/-- A run is not concerned if it is for another tensor or version, or holds nothing
    yet. -/
theorem Contents.runInv_accept (h : st.Contents c π) (hu : st.Used b)
    (hne : π.strict → d2hOpen (st.slots b).state ∨
      ((st.slots b).tensorId, (st.slots b).version) ≠ (e.tensorId, e.version)) :
    (st.accept e).RunInv c π b := by
  obtain ⟨hrun, hlease, hres, hwork⟩ := h.runs b hu
  have hlease : ∀ id L, st.leases.lookup id = some L → L.baseSlot = b →
      (st.accept e).LeaseOk c id L := fun id L hL hb => { hlease id L hL hb with }
  have hres : ∀ t loc, st.locations.lookup t = some loc → loc.kind = .pinned → loc.slotId = b →
      (st.accept e).ResidentOk t loc := fun t loc hloc hk hb => { hres t loc hloc hk hb with }
  by_cases hopen : d2hOpen (st.slots b).state
  · -- The run holds no data, has no cold copy, and no work is under way.
    have hstate := d2hOpen_iff.1 hopen
    refine ⟨⟨hrun.whole, hrun.live, fun hd => ?_, ?_, hrun.blank⟩, hlease, hres,
      fun w hw hb => ?_⟩
    · have hd : (st.slots b).state.hasData := hd
      rcases hstate with hs | hs <;> rw [hs] at hd <;> cases hd
    · refine ⟨hrun.ref.drawn, fun ce hce => ?_⟩
      have hce : st.coldStore.lookup (st.slots b).coldRef = some ce := hce
      rw [hrun.blank hopen] at hce
      exact absurd (h.stored 0 ce hce).1 (lt_irrefl 0)
    · refine absurd hb (h.no_work ?_ ?_ w hw) <;> rcases hstate with hs | hs <;> rw [hs] <;> decide
  · have hne := fun hs => (hne hs).resolve_left hopen
    have hgood : ∀ {data}, st.GoodAt π b data → (st.accept e).GoodAt π b data :=
      fun h => π.old h hne
    refine ⟨⟨hrun.whole, hrun.live, fun hd => hgood (hrun.data hd), hrun.ref.accept hne,
        hrun.blank⟩,
      hlease, hres, fun w hw hb => ?_⟩
    have hok := hwork w hw hb
    subst hb
    exact ⟨hok.state, hok.count, hok.tags, hok.nbytes, hok.coldRef,
      fun d hd => ⟨hgood (hok.copy d hd).1, (hok.copy d hd).2⟩, fun hr => hgood (hok.read hr)⟩

/-- A copy is accepted. Where it makes the copies before it stale, there are none
    that count. -/
theorem Contents.accept (h : st.Contents c π)
    (hruns : π.strict → ∀ b, st.Used b → d2hOpen (st.slots b).state ∨
      ((st.slots b).tensorId, (st.slots b).version) ≠ (e.tensorId, e.version))
    (hlocs : π.strict → ∀ t loc, st.locations.lookup t = some loc →
      (t, loc.version) ≠ (e.tensorId, e.version))
    (hpurposes : π.strict → ∀ task ∈ st.tasks, ∀ p ∈ task.purpose,
      p.tags ≠ some (e.tensorId, e.version)) : (st.accept e).Contents c π where
  runs b hu := h.runInv_accept hu fun hs => hruns hs b hu
  apart := h.apart
  exclusive := h.exclusive
  locations t loc hloc :=
    ⟨(h.locations t loc hloc).whole,
      (h.locations t loc hloc).ref.accept fun hs => hlocs hs t loc hloc⟩
  purposes task htask p hp := by
    have hok := h.purposes task htask p hp
    have hne := fun hs => hpurposes hs task htask p hp
    cases p with
    | prefetch req loc v pid id =>
      obtain ⟨rfl, hok⟩ := hok
      exact ⟨rfl, hok.whole, hok.ref.accept fun hs he => hne hs (congrArg some he)⟩
    | restore req cold nbytes =>
      exact ⟨hok.1, π.old hok.2.1 fun hs he => hne hs (congrArg some he), hok.2.2⟩
    | _ => trivial
  unused := h.unused
  stored := h.stored
  drawn := h.drawn

/-! ## Copies of the ranks -/

variable {id now seq : ℕ} {L : Lease}

/-- What the copy of a lease is noted to have brought is in its run. -/
theorem Contents.copiedBytes_eq (h : st.Contents c π) (hL : st.leases.lookup id = some L)
    (hopen : d2hOpen (st.slots L.baseSlot).state) :
    st.copiedBytes c id L = st.readMem L.baseSlot (st.extent c L.baseSlot) := by
  have hinv := h.runs _ (used_of_lease hL)
  have hok := hinv.lease id L hL rfl
  unfold copiedBytes
  cases hcopied : st.history.copied.lookup id with
  | some data => exact hok.copied hopen data hcopied
  | none =>
    rw [Option.getD_none, hok.nbytes, ← hinv.run.whole]
    rfl

/-- The location that a copy of the tensor and version will replace is dropped. -/
def supersede (st : Store) (tensorId version : ℕ) : Store :=
  { st with
    locations := if st.isLatest tensorId version then st.locations.erase tensorId
      else st.locations }

theorem lookup_supersede {t v t' : ℕ} (h : (st.supersede t v).locations.lookup t' = some loc) :
    st.locations.lookup t' = some loc ∧ (t', loc.version) ≠ (t, v) := by
  simp only [supersede] at h
  split at h
  · obtain ⟨hne, h⟩ := Table.lookup_erase_eq_some.1 h
    exact ⟨h, fun he => hne (congrArg Prod.fst he)⟩
  · next hlate =>
    refine ⟨h, fun he => hlate ?_⟩
    obtain ⟨rfl, hv⟩ := Prod.mk.inj he
    simp [isLatest, h, hv]

theorem lookup_update_supersede {t v slotId cref nbytes : ℕ} {kind : LocationKind} (t' : ℕ) :
    ((st.supersede t v).updateLocationIfLatest t v kind slotId cref nbytes).locations.lookup t' =
      (st.updateLocationIfLatest t v kind slotId cref nbytes).locations.lookup t' := by
  by_cases hlate : st.isLatest t v
  · have hsup : (st.supersede t v).locations = st.locations.erase t := if_pos hlate
    have hlate' : (st.supersede t v).isLatest t v := by
      simp [isLatest, hsup]
    simp only [updateLocationIfLatest, if_pos hlate, if_pos hlate', hsup, Table.lookup_insert,
      Table.lookup_erase]
    split <;> rfl
  · have hsup : st.supersede t v = st := by simp [supersede, if_neg hlate]
    rw [hsup]

/-- A copy of the tensor and version of a lease is accepted, which has no location
    and, if it makes older copies stale, no other run. -/
theorem Contents.acceptSole (h : st.Contents c π) (hopen : d2hOpen (st.slots L.baseSlot).state)
    (hloc : ∀ t loc, st.locations.lookup t = some loc →
      (t, loc.version) ≠ (L.tensorId, L.version)) (hg : π.strict → st.Sole L)
    (id : ℕ) (data : List Bytes) :
    (st.accept ⟨L.tensorId, L.version, id, data⟩).Contents c π := by
  refine h.accept (fun hs b hu => ?_) (fun _ => hloc) fun hs => (hg hs).2.2
  by_cases he : ((st.slots b).tensorId, (st.slots b).version) = (L.tensorId, L.version)
  · obtain ⟨id', L', hL', rfl⟩ | ⟨t, loc, hlook, hk, rfl⟩ | ⟨w, hw, rfl⟩ := used_iff.1 hu
    · have htags := ((h.runs _ hu).lease id' L' hL' rfl).tags
      rw [(hg hs).1 id' L' hL' (htags.trans he)]
      exact .inl hopen
    · have htags := ((h.runs _ hu).resident t loc hlook hk rfl).tags
      exact absurd (htags.trans he) (hloc t loc hlook)
    · exact absurd he ((hg hs).2.1 w hw)
  · exact .inr he

/-- A D2H copy is accepted and published. The location that it replaces is dropped
    before the copy is accepted. -/
theorem Contents.publishD2H (h : st.Contents c π) (hL : st.leases.lookup id = some L)
    (hst : st.slotState L.baseSlot = .d2hInFlight) (hg : π.strict → st.Sole L) :
    (st.publishD2H c now id L seq).Contents c π := by
  have hst : (st.slots L.baseSlot).state = .d2hInFlight := hst
  have hopen : d2hOpen (st.slots L.baseSlot).state := by rw [hst]; rfl
  have hok := (h.runs _ (used_of_lease hL)).lease id L hL rfl
  have hw := h.no_work (b := L.baseSlot) (by rw [hst]; decide) (by rw [hst]; decide)
  have h₀ : (st.supersede L.tensorId L.version).Contents c π :=
    h.frame fun _ => change_locations fun t loc hloc => .inl (lookup_supersede hloc).1
  have h₁ := h₀.acceptSole hopen (fun _ _ hloc => (lookup_supersede hloc).2) hg id
    (st.copiedBytes c id L)
  have hgood : ((st.supersede L.tensorId L.version).accept
      ⟨L.tensorId, L.version, id, st.copiedBytes c id L⟩).GoodAt π L.baseSlot
      (st.readMem L.baseSlot (st.extent c L.baseSlot)) := by
    rw [← h.copiedBytes_eq hL hopen]
    obtain ⟨ht, hv⟩ := Prod.mk.inj hok.tags
    change π.good _ (st.slots L.baseSlot).tensorId (st.slots L.baseSlot).version _
    rw [← ht, ← hv]
    exact π.new
  have h₂ := (h₁.at (used_of_lease hL)).pinIfLatest hok.count hw (pins_complete now seq) hgood
    hok.tags hok.nbytes fun _ => ⟨h.drawn, fun ce hce => absurd (h.stored 0 ce hce).1 (lt_irrefl 0)⟩
  exact h₂.toContents.frame fun _ => change_locations fun t loc hloc =>
    .inl ((lookup_update_supersede t).trans hloc)

/-- The owner of a lease copies into its run. It is noted what, for the one lease
    that is on the run. -/
theorem Contents.copyD2H (h : st.Contents c π) (hL : st.leases.lookup id = some L)
    (hopen : d2hOpen (st.slotState L.baseSlot)) (hlen : data.length = c.slotsSpanned L.nbytes) :
    { st.writeMem L.baseSlot (c.slotsSpanned L.nbytes) data with
      history :=
        { st.history with copied := st.history.copied.insert id data } }.Contents c π := by
  have hinv := h.runs _ (used_of_lease hL)
  have hok := hinv.lease id L hL rfl
  have hspan : c.slotsSpanned L.nbytes = st.extent c L.baseSlot := by
    rw [hok.nbytes]
    exact hinv.run.whole.symm
  have hopen' : (st.slots L.baseSlot).state = .reservedD2H ∨
      (st.slots L.baseSlot).state = .d2hInFlight := d2hOpen_iff.1 hopen
  refine ((h.at (used_of_lease hL)).writeMem hspan ?_ (h.no_work ?_ ?_) ?_ ?_).toContents
  · rcases hopen' with hs | hs <;> rw [hs] <;> decide
  · rcases hopen' with hs | hs <;> rw [hs] <;> decide
  · rcases hopen' with hs | hs <;> rw [hs] <;> decide
  · intro id' L' hL' hne
    rw [Table.lookup_insert, if_neg]
    rintro rfl
    exact hne (congrArg Lease.baseSlot (Option.some.inj (hL'.symm.trans hL)))
  · intro id' L' hL' hb ho d hd
    have hid : id' = id := by
      have hown := ((h.runs _ (used_of_lease hL')).lease id' L' hL' rfl).owner
      rw [hb] at hown
      exact (hown ho).symm.trans (hok.owner ho)
    rw [hid, Table.lookup_insert, if_pos rfl] at hd
    cases hd
    exact (readRun_writeRun hlen).symm

/-- A copy is submitted. -/
theorem Contents.submit {source target : SlotState} (h : st.Contents c π)
    (hL : st.leases.lookup id = some L) (hst : st.slotState L.baseSlot = source)
    (hq : source = .reservedD2H ∧ target = .d2hInFlight ∨
      source = .pinnedValid ∧ target = .h2dInFlight) :
    (st.mapRun L.baseSlot L.slotCount fun _ e =>
      { e with submitSeq := seq, state := target, lastTouchNs := now }).Contents c π := by
  have h₀ := h.at (used_of_lease hL)
  have hok := h₀.runInv.lease id L hL rfl
  have hst : (st.slots L.baseSlot).state = source := hst
  have hkeeps : KeepsRun fun _ e =>
      { e with submitSeq := seq, state := target, lastTouchNs := now } :=
    ⟨fun _ _ => rfl, fun _ _ => rfl, fun _ _ => rfl, fun _ _ => rfl⟩
  have hw := h.no_work (b := L.baseSlot) (by rw [hst]; rintro rfl; simp at hq)
    (by rw [hst]; rintro rfl; simp at hq)
  obtain ⟨hlive, hdata, hblank⟩ : target ≠ .free ∧
      target.hasData = (st.slots L.baseSlot).state.hasData ∧
      d2hOpen target = d2hOpen (st.slots L.baseSlot).state := by
    rw [hst]
    obtain ⟨rfl, rfl⟩ | ⟨rfl, rfl⟩ := hq <;> decide
  exact (h₀.setState hok.count hw hkeeps (fun _ _ => rfl) (fun _ _ => rfl) hlive
    (hdata ▸ h₀.run.data) (hblank ▸ fun h => h) (hdata ▸ fun h => h)).toContents

/-! ## Leases -/

/-- A run is lent, to be copied into. -/
theorem Contents.lend {gran flags : ℕ} (h : st.Contents c π)
    (hfree : st.RunFree L.baseSlot L.slotCount) (hcount : L.slotCount = c.slotsForBytes L.nbytes)
    (hwhole : c.slotsForBytes L.nbytes = c.slotsSpanned L.nbytes) :
    { st.reserve gran now st.nextLeaseId L flags .reservedD2H none with
      nextLeaseId := st.nextLeaseId + 1 }.Contents c π :=
  (h.reserve gran now st.nextLeaseId flags (q := .reservedD2H) (r := none) hfree hcount hwhole
    (by decide) (by decide) (fun _ h => nomatch h) fun _ => rfl).1.toContents.frame fun _ => {}

/-- A resident run is leased once more. -/
theorem Contents.bind {t : ℕ} (h : st.Contents c π) (hloc : st.locations.lookup t = some loc)
    (hk : loc.kind = .pinned) (hst : st.slotState loc.slotId = .pinnedValid)
    (hbase : L.baseSlot = loc.slotId) (ht : L.tensorId = t) (hv : L.version = loc.version)
    (hn : L.nbytes = loc.nbytes) (hcount : L.slotCount = c.slotsForBytes L.nbytes) :
    { st with
      leases := st.leases.insert st.nextLeaseId L
      nextLeaseId := st.nextLeaseId + 1 }.Contents c π := by
  have h₀ := h.at (used_of_resident hloc hk)
  have hok := h₀.runInv.resident t loc hloc hk rfl
  have hst : (st.slots loc.slotId).state = .pinnedValid := hst
  have hclosed : ¬d2hOpen (st.slots L.baseSlot).state := by
    rw [hbase, hst]
    decide
  refine (h₀.insertLease hbase ⟨?_, ?_, ?_, ?_, ?_⟩).toContents.frame fun _ => {}
  · rw [hcount, hn, hok.nbytes, hbase, extent]
  · rw [hn, hok.nbytes, hbase]
  · rw [ht, hv, hbase]
    exact hok.tags
  · exact fun ho => absurd ho hclosed
  · exact fun ho => absurd ho hclosed

/-- The run of a lease is kept after the copy to the GPU. -/
theorem Contents.keepPinned {t v : ℕ} (h : st.Contents c π) (hL : st.leases.lookup id = some L)
    (hst : st.slotState L.baseSlot = .h2dInFlight) (hg : (contentGuards c π).h2d st L t v) :
    (st.keepPinned now L t v seq).Contents c π := by
  have h₀ := h.at (used_of_lease hL)
  have hok := h₀.runInv.lease id L hL rfl
  have hst : (st.slots L.baseSlot).state = .h2dInFlight := hst
  have hw := h.no_work (b := L.baseSlot) (by rw [hst]; decide) (by rw [hst]; decide)
  refine (h₀.pinIfLatest hok.count hw (pins_complete now seq) (h₀.run.data (by rw [hst]; rfl))
    (hg.1.trans hok.tags) hok.nbytes fun hlate => ?_).toContents
  have hslot : st.RefOk c π t v L.nbytes (st.slots L.baseSlot).coldRef := by
    have href := h₀.run.ref
    rwa [← hok.nbytes, ← (Prod.mk.inj (hg.1.trans hok.tags)).1,
      ← (Prod.mk.inj (hg.1.trans hok.tags)).2] at href
  unfold h2dColdRef
  split
  · next loc hloc =>
    split
    · next hne =>
      obtain hv | hz | ⟨hv, hn⟩ := hg.2 loc hloc
      · simp [isLatest, hloc, hv] at hlate
      · exact absurd hz hne
      · have href := (h.locations t loc hloc).ref
        rwa [hv, hn] at href
    · exact hslot
  · exact hslot

/-- A lease is dropped, and the location of a tensor has no run any more. -/
theorem Contents.unlink {t : ℕ} {f : Location → Location} (h : st.Contents c π)
    (hf : ∀ loc, f loc = loc ∨ (f loc).kind ≠ .pinned ∧ (f loc).version = loc.version ∧
      (f loc).nbytes = loc.nbytes ∧ (f loc).coldRef = loc.coldRef) :
    (st.unlink id t f).Contents c π := by
  have h₁ := h.frame fun _ => change_dropLease id
  refine h₁.frame fun _ => change_locations fun t' loc hloc => ?_
  obtain ⟨rfl, old, hold, rfl⟩ | ⟨-, hloc⟩ := Table.lookup_modify_eq_some.1 hloc
  · obtain hsame | ⟨hk, hv, hn, hr⟩ := hf old
    · exact .inl (hsame.symm ▸ hold)
    · have hok := h₁.locations _ old hold
      refine .inr ⟨⟨?_, ?_⟩, hk⟩
      · rw [hn]
        exact hok.whole
      · rw [hv, hn, hr]
        exact hok.ref
  · exact .inl hloc

/-- An export is staged over slots that are not in use. -/
theorem Contents.stageOver (h : st.Contents c π) (hun : st.Unused c 0 n) :
    (st.writeMem 0 n data).Contents c π := by
  rcases Nat.eq_zero_or_pos n with rfl | hn
  · exact h.frame fun _ =>
      { mem := fun i _ => by simp only [writeMem, writeRun, onRun_of_not_mem not_inRun_zero] }
  · exact h.giveUp hun hn
      { mem := fun i hi => onRun_of_not_mem hi
        unused := fun i _ => h.unused i } fun hu => hu

end Store

end StateSpectre
