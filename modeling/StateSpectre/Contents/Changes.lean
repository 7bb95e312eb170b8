import StateSpectre.Contents.Basic

/-!
# Changes that keep the contents

The transitions of the store are made of a few kinds of changes, and each keeps the
contents (`Store.Contents`) under a condition of its own:

* the tables change without a new use of a run (`Store.Contents.frame`, with the
  changes `change_dropTask` and so on);
* a run in use goes to another state (`ContentsAt.mapRun`, `ContentsAt.setState`),
  or is written (`ContentsAt.writeMem`);
* a run gets a new use: a work, a location, a lease (`ContentsAt.addTask`,
  `ContentsAt.insertLocation`, `ContentsAt.insertLease`);
* a free run is put to use (`Contents.reserve`, `Contents.warmRun`), and a run that
  is not in use is given up (`Contents.giveUp`).

A change of a run keeps it a run that may be put to use (`Store.ContentsAt`), so that
they can be put one after the other.
-/

namespace StateSpectre

variable {c : Config} {π : Provenance} {st st' : Store} {b n : ℕ} {f : ℕ → SlotEntry → SlotEntry}
  {q : SlotState} {t v cref nbytes : ℕ} {w : Work}

namespace Store

/-! ## Tables -/

theorem mem_works_dropTask {i : ℕ} (hw : w ∈ (st.dropTask i).works) : w ∈ st.works := by
  simp only [works, List.mem_append, List.mem_filterMap] at hw ⊢
  obtain hw | ⟨t, ht, hw⟩ := hw
  · exact .inl hw
  · exact .inr ⟨t, List.mem_of_mem_eraseIdx ht, hw⟩

/-- A task is over. -/
theorem change_dropTask (i : ℕ) : Change c π st (st.dropTask i) b 0 where
  work _ hw _ := mem_works_dropTask hw
  exclusive hnd := hnd.sublist (((List.eraseIdx_sublist _ _).filterMap _).append_left _ |>.map _)
  purpose t ht p hp := .inl ⟨t, List.mem_of_mem_eraseIdx ht, hp⟩

theorem change_dropLease (id : ℕ) : Change c π st (st.dropLease id) b 0 where
  lease _ _ h _ := ⟨Table.lookup_of_lookup_erase h, rfl⟩

/-- The locations change, and no new one is pinned. -/
theorem change_locations {locations : Table ℕ Location}
    (hl : ∀ t loc, locations.lookup t = some loc → st.locations.lookup t = some loc ∨
      st.LocationOk c π t loc ∧ loc.kind ≠ .pinned) :
    Change c π st { st with locations := locations } b 0 where
  location t loc hloc := (hl t loc hloc).imp id fun h =>
    ⟨h.1.mono fun h => ⟨h.drawn, h.good⟩, fun hk => absurd hk h.2⟩

/-- A cold copy is stored. -/
theorem change_addCold (h : st.Contents c π) (cold : ColdEntry) :
    Change c π st (st.addCold cold) b 0 where
  ref {t v n r} hr := by
    refine ⟨hr.drawn.trans (Nat.lt_succ_self _), fun e he => hr.good e ?_⟩
    rwa [Store.addCold, Table.lookup_insert, if_neg hr.drawn.ne] at he
  purpose t ht p hp := .inl ⟨t, ht, hp⟩
  stored hs ref e he := by
    rcases Table.lookup_insert_eq_some.1 he with ⟨rfl, -⟩ | ⟨-, he⟩
    · exact ⟨h.drawn, Nat.lt_succ_self _⟩
    · exact ⟨(hs ref e he).1, (hs ref e he).2.trans (Nat.lt_succ_self _)⟩
  drawn := Nat.le_succ _

/-- A cold copy is forgotten. -/
theorem change_forgetCold (cref : ℕ) :
    Change c π st { st with coldStore := st.coldStore.erase cref } b 0 where
  ref hr := ⟨hr.drawn, fun e he => hr.good e (Table.lookup_of_lookup_erase he)⟩
  stored hs ref e he := hs ref e (Table.lookup_of_lookup_erase he)

/-! ## Runs -/

/-- What the slots of a run are for, and how large it is, stays the same. -/
structure KeepsRun (f : ℕ → SlotEntry → SlotEntry) : Prop where
  tensorId : ∀ k e, (f k e).tensorId = e.tensorId
  version : ∀ k e, (f k e).version = e.version
  nbytes : ∀ k e, (f k e).nbytes = e.nbytes
  leaseId : ∀ k e, (f k e).leaseId = e.leaseId

theorem RunOk.mapRun_base (h : st.RunOk c π b)
    (hn : n = st.extent c b) : (st.mapRun b n f).slots b = f 0 (st.slots b) := by
  subst hn
  simp only [Store.mapRun, onRun_of_mem h.inRun, Nat.sub_self]

/-- The slots of the run change, but not what they are for. No work is under way on
    it. -/
theorem ContentsAt.mapRun (h : st.ContentsAt c π b)
    (hn : n = st.extent c b) (hf : KeepsRun f) (hw : ∀ w ∈ st.works, w.base ≠ b)
    (hlive : ∀ k e, e.state ≠ .free → (f k e).state ≠ .free)
    (hdata : (f 0 (st.slots b)).state.hasData → st.GoodAt π b (st.readMem b (st.extent c b)))
    (href : st.RefOk c π (st.slots b).tensorId (st.slots b).version (st.slots b).nbytes
      (f 0 (st.slots b)).coldRef)
    (hblank : d2hOpen (f 0 (st.slots b)).state →
      d2hOpen (st.slots b).state ∧ (f 0 (st.slots b)).coldRef = 0)
    (hres : (st.slots b).state.hasData → (f 0 (st.slots b)).state.hasData) :
    (st.mapRun b n f).ContentsAt c π b := by
  subst hn
  have hb : (st.mapRun b (st.extent c b) f).slots b = f 0 (st.slots b) := h.run.mapRun_base rfl
  have hext : (st.mapRun b (st.extent c b) f).extent c b = st.extent c b := by
    rw [extent, hb, hf.nbytes, ← extent]
  have hlive' : ∀ i, InRun b (st.extent c b) i →
      ((st.mapRun b (st.extent c b) f).slots i).state ≠ .free := fun i hi => by
    simp only [Store.mapRun, onRun_of_mem hi]
    exact hlive _ _ (h.run.live i hi)
  have href' : ∀ {t v n r}, st.RefOk c π t v n r →
      (st.mapRun b (st.extent c b) f).RefOk c π t v n r := fun h => ⟨h.drawn, h.good⟩
  have hc : Change c π st (st.mapRun b (st.extent c b) f) b (st.extent c b) :=
    { slots := fun i hi => by simp only [Store.mapRun, onRun_of_not_mem hi]
      unused := fun i hi hfree => absurd hfree (hlive' i hi) }
  refine h.change hc hext ⟨⟨?_, ?_, ?_, ?_, ?_⟩, ?_, ?_, fun w hmem hwb => absurd hwb (hw w hmem)⟩
  · rw [hb, hf.nbytes]
    exact h.run.whole
  · rwa [hext]
  · intro hd
    rw [hb] at hd
    rw [GoodAt, hext, hb, hf.tensorId, hf.version]
    exact hdata hd
  · rw [hb, hf.tensorId, hf.version, hf.nbytes]
    exact href' href
  · intro hd
    rw [hb] at hd ⊢
    exact (hblank hd).2
  · rintro id L hL rfl
    have hok := h.runInv.lease id L hL rfl
    refine ⟨?_, ?_, ?_, ?_, ?_⟩
    · rw [hext]
      exact hok.count
    · rw [hb, hf.nbytes]
      exact hok.nbytes
    · rw [hb, hf.tensorId, hf.version]
      exact hok.tags
    · intro hd
      rw [hb] at hd
      rw [hb, hf.leaseId]
      exact hok.owner (hblank hd).1
    · intro hd
      rw [hb] at hd
      rw [hext]
      exact hok.copied (hblank hd).1
  · rintro t loc hloc hk rfl
    have hok := h.runInv.resident t loc hloc hk rfl
    refine ⟨?_, ?_, ?_⟩
    · rw [hb]
      exact hres hok.state
    · rw [hb, hf.nbytes]
      exact hok.nbytes
    · rw [hb, hf.tensorId, hf.version]
      exact hok.tags

/-- A run goes to the state `q`. -/
theorem ContentsAt.setState
    (h : st.ContentsAt c π b) (hn : n = st.extent c b) (hw : ∀ w ∈ st.works, w.base ≠ b)
    (hf : KeepsRun f) (hq : ∀ k e, (f k e).state = q) (hcold : ∀ k e, (f k e).coldRef = e.coldRef)
    (hlive : q ≠ .free) (hdata : q.hasData → st.GoodAt π b (st.readMem b (st.extent c b)))
    (hblank : d2hOpen q → d2hOpen (st.slots b).state)
    (hres : (st.slots b).state.hasData → q.hasData) :
    (st.mapRun b n f).ContentsAt c π b := by
  refine h.mapRun hn hf hw (fun k e _ => hq k e ▸ hlive) ?_ ?_ ?_ ?_
  · rw [hq]
    exact hdata
  · rw [hcold]
    exact h.run.ref
  · rw [hq, hcold]
    exact fun hd => ⟨hblank hd, h.run.blank (hblank hd)⟩
  · rw [hq]
    exact hres

/-! ## New uses -/

/-- The tables change in what uses the run, and no run changes. -/
theorem ContentsAt.tables (h : st.ContentsAt c π b) (hc : Change c π st st' b 0)
    (hl : ∀ id L, st'.leases.lookup id = some L → L.baseSlot = b → st.LeaseOk c id L ∧
      st'.history.copied.lookup id = st.history.copied.lookup id)
    (hloc : ∀ t loc, st'.locations.lookup t = some loc → loc.kind = .pinned → loc.slotId = b →
      st.ResidentOk t loc)
    (hw : ∀ w ∈ st'.works, w.base = b → st.WorkOk c π w) : st'.ContentsAt c π b := by
  have hslots : ∀ i, st'.slots i = st.slots i := fun i => hc.slots i not_inRun_zero
  have hs : SameRun c π st st' b := hc.sameRun fun hm => (meet_iff.1 hm).1.false
  have hc' : Change c π st st' b (st.extent c b) :=
    { hc with
      slots := fun i _ => hslots i
      mem := fun i _ => hc.mem i not_inRun_zero
      unused := fun i _ => by
        rw [hslots]
        exact h.unused i }
  have hi := h.run.inRun
  refine h.change hc' (hs.extent_eq hi) ⟨hs.runOk hi h.run, ?_, ?_, ?_⟩
  · intro id L hL hb
    exact hs.leaseOk hi (hl id L hL hb).1 hb (hl id L hL hb).2
  · intro t loc hlook hk hb
    exact hs.residentOk hi (hloc t loc hlook hk hb) hb
  · intro w hmem hb
    exact hs.workOk hi (hw w hmem hb) hb

/-- The store with other work queued and under way. -/
def withWork (st : Store) (drainQueue : List DrainJob) (readbackQueue : List ReadbackJob)
    (tasks : List Task) : Store :=
  { st with drainQueue := drainQueue, readbackQueue := readbackQueue, tasks := tasks }

/-- The run is put to work. -/
theorem ContentsAt.addWork {drainQueue : List DrainJob} {readbackQueue : List ReadbackJob}
    {tasks : List Task} (h : st.ContentsAt c π b)
    (hperm : (st.withWork drainQueue readbackQueue tasks).works.Perm (w :: st.works))
    (hbase : w.base = b) (hok : st.WorkOk c π w) (hw : ∀ w ∈ st.works, w.base ≠ b)
    (hp : ∀ t ∈ tasks, ∀ p ∈ t.purpose, (∃ t ∈ st.tasks, p ∈ t.purpose) ∨ st.PurposeOk c π p) :
    (st.withWork drainQueue readbackQueue tasks).ContentsAt c π b := by
  have hmem : ∀ w', w' ∈ (st.withWork drainQueue readbackQueue tasks).works →
      w' = w ∨ w' ∈ st.works := fun w' hw' =>
    List.mem_cons.1 (hperm.mem_iff.1 hw')
  refine h.tables ?_ (fun id L hL hb => ⟨h.runInv.lease id L hL hb, rfl⟩) h.runInv.resident ?_
  · exact
      { work := fun w' hw' hne => (hmem w' hw').resolve_left fun he => hne (he ▸ hbase)
        exclusive := fun hnd => by
          rw [(hperm.map _).nodup_iff, List.map_cons, List.nodup_cons]
          refine ⟨fun hm => ?_, hnd⟩
          obtain ⟨w', hw', hb'⟩ := List.mem_map.1 hm
          exact hw w' hw' (hb'.trans hbase)
        purpose := fun t ht p hpt => (hp t ht p hpt).imp id fun hok =>
          hok.mono rfl fun h => ⟨h.drawn, h.good⟩ }
  · intro w' hw' hb'
    obtain rfl | hw' := hmem w' hw'
    · exact hok
    · exact absurd hb' (hw w' hw')

theorem ContentsAt.addTask (h : st.ContentsAt c π b) (t : Task) (ht : t.work = some w)
    (hbase : w.base = b) (hok : st.WorkOk c π w) (hw : ∀ w ∈ st.works, w.base ≠ b)
    (hp : ∀ p ∈ t.purpose, st.PurposeOk c π p) : (st.addTask t).ContentsAt c π b := by
  have hperm := st.works_addTask t
  rw [ht] at hperm
  refine h.addWork hperm hbase hok hw fun t' ht' p hpt => ?_
  rcases List.mem_cons.1 ht' with rfl | ht'
  · exact .inr (hp p hpt)
  · exact .inl ⟨t', ht', hpt⟩

/-- The run becomes the location of a tensor, or the tensor has one that is not
    pinned. -/
theorem ContentsAt.insertLocation {t : ℕ} {loc : Location} (h : st.ContentsAt c π b)
    (hok : st.LocationOk c π t loc)
    (hres : loc.kind = .pinned → loc.slotId = b ∧ st.ResidentOk t loc) :
    { st with locations := st.locations.insert t loc }.ContentsAt c π b := by
  refine h.tables { location := fun t' loc' hloc => ?_ }
    (fun id L hL hb => ⟨h.runInv.lease id L hL hb, rfl⟩) ?_ h.runInv.work
  · obtain ⟨rfl, rfl⟩ | ⟨-, hloc⟩ := Table.lookup_insert_eq_some.1 hloc
    · exact .inr ⟨hok.mono fun h => ⟨h.drawn, h.good⟩, fun hk => (hres hk).1⟩
    · exact .inl hloc
  · intro t' loc' hloc hk hb
    obtain ⟨rfl, rfl⟩ | ⟨-, hloc⟩ := Table.lookup_insert_eq_some.1 hloc
    · exact (hres hk).2
    · exact h.runInv.resident t' loc' hloc hk hb

theorem ContentsAt.updateLocationIfLatest {t v slotId cref nbytes : ℕ} {kind : LocationKind}
    (h : st.ContentsAt c π b)
    (hok : st.isLatest t v → st.LocationOk c π t ⟨v, kind, slotId, cref, nbytes⟩)
    (hres : kind = .pinned → slotId = b ∧ st.ResidentOk t ⟨v, kind, slotId, cref, nbytes⟩) :
    (st.updateLocationIfLatest t v kind slotId cref nbytes).ContentsAt c π b := by
  unfold Store.updateLocationIfLatest
  split
  · next hv => exact h.insertLocation (hok hv) hres
  · exact h

/-- A change of slots that makes a run valid. -/
structure Pins (f : ℕ → SlotEntry → SlotEntry) : Prop extends KeepsRun f where
  state : ∀ k e, (f k e).state = .pinnedValid
  coldRef : ∀ k e, (f k e).coldRef = e.coldRef

theorem pins_setRunState (now : ℕ) :
    Pins fun _ e => { e with state := .pinnedValid, lastTouchNs := now } :=
  ⟨⟨fun _ _ => rfl, fun _ _ => rfl, fun _ _ => rfl, fun _ _ => rfl⟩, fun _ _ => rfl, fun _ _ => rfl⟩

theorem pins_complete (now seq : ℕ) :
    Pins fun _ e => { e with completeSeq := seq, state := .pinnedValid, lastTouchNs := now } :=
  ⟨⟨fun _ _ => rfl, fun _ _ => rfl, fun _ _ => rfl, fun _ _ => rfl⟩, fun _ _ => rfl, fun _ _ => rfl⟩

/-- A run with good data in it is valid. -/
theorem ContentsAt.pin (h : st.ContentsAt c π b)
    (hn : n = st.extent c b) (hw : ∀ w ∈ st.works, w.base ≠ b) (hf : Pins f)
    (hdata : st.GoodAt π b (st.readMem b (st.extent c b))) :
    (st.mapRun b n f).ContentsAt c π b :=
  h.setState (q := .pinnedValid) hn hw hf.toKeepsRun hf.state hf.coldRef (by decide)
    (fun _ => hdata) (fun h => nomatch h) fun _ => rfl

/-- A run with good data in it is valid, and becomes the location of its tensor and
    version. -/
theorem ContentsAt.pinAt (h : st.ContentsAt c π b) (hn : n = st.extent c b)
    (hw : ∀ w ∈ st.works, w.base ≠ b)
    (hf : Pins f) (hdata : st.GoodAt π b (st.readMem b (st.extent c b)))
    (htags : (t, v) = ((st.slots b).tensorId, (st.slots b).version))
    (hnbytes : nbytes = (st.slots b).nbytes) (href : st.RefOk c π t v nbytes cref) :
    { st.mapRun b n f with
      locations := st.locations.insert t ⟨v, .pinned, b, cref, nbytes⟩ }.ContentsAt c π b := by
  have hbase := h.run.mapRun_base (f := f) hn
  refine (h.pin hn hw hf hdata).insertLocation ⟨?_, href.drawn, href.good⟩
    fun _ => ⟨rfl, ?_, ?_, ?_⟩
  · rw [hnbytes]
    exact h.run.whole
  · rw [hbase, hf.state]
    rfl
  · rwa [hbase, hf.nbytes]
  · rwa [hbase, hf.tensorId, hf.version]

theorem ContentsAt.pinIfLatest (h : st.ContentsAt c π b) (hn : n = st.extent c b)
    (hw : ∀ w ∈ st.works, w.base ≠ b)
    (hf : Pins f) (hdata : st.GoodAt π b (st.readMem b (st.extent c b)))
    (htags : (t, v) = ((st.slots b).tensorId, (st.slots b).version))
    (hnbytes : nbytes = (st.slots b).nbytes)
    (href : st.isLatest t v → st.RefOk c π t v nbytes cref) :
    ((st.mapRun b n f).updateLocationIfLatest t v .pinned b cref nbytes).ContentsAt c π b := by
  unfold Store.updateLocationIfLatest
  split
  · next hv => exact h.pinAt hn hw hf hdata htags hnbytes (href hv)
  · exact h.pin hn hw hf hdata

/-- The run is leased once more. -/
theorem ContentsAt.insertLease {id : ℕ} {L : Lease} (h : st.ContentsAt c π b)
    (hbase : L.baseSlot = b) (hok : st.LeaseOk c id L) :
    { st with leases := st.leases.insert id L }.ContentsAt c π b := by
  refine h.tables { lease := fun id' L' hL hne => ?_ } ?_ h.runInv.resident h.runInv.work
  · obtain ⟨-, rfl⟩ | ⟨-, hL⟩ := Table.lookup_insert_eq_some.1 hL
    · exact absurd hbase hne
    · exact ⟨hL, rfl⟩
  · intro id' L' hL hb
    obtain ⟨rfl, rfl⟩ | ⟨-, hL⟩ := Table.lookup_insert_eq_some.1 hL
    · exact ⟨hok, rfl⟩
    · exact ⟨h.runInv.lease id' L' hL hb, rfl⟩

/-! ## Writing a run -/

/-- A run that holds no data yet is written. Where a rank copies into it, what it
    copied is noted. -/
theorem ContentsAt.writeMem {data : List Bytes} {copied : Table ℕ (List Bytes)}
    (h : st.ContentsAt c π b) (hn : n = st.extent c b) (hd : ¬(st.slots b).state.hasData)
    (hw : ∀ w ∈ st.works, w.base ≠ b)
    (hoff : ∀ id L, st.leases.lookup id = some L → L.baseSlot ≠ b →
      copied.lookup id = st.history.copied.lookup id)
    (hon : ∀ id L, st.leases.lookup id = some L → L.baseSlot = b → d2hOpen (st.slots b).state →
      ∀ d ∈ copied.lookup id, d = readRun (writeRun b n data st.mem) b n) :
    { st.writeMem b n data with
      history := { st.history with copied := copied } }.ContentsAt c π b := by
  subst hn
  refine h.change
    { mem := fun i hi => onRun_of_not_mem hi
      lease := fun id L hL hne => ⟨hL, hoff id L hL hne⟩
      unused := fun i _ => h.unused i }
    rfl ⟨?_, ?_, ?_, fun w hmem hwb => absurd hwb (hw w hmem)⟩
  · exact ⟨h.run.whole, h.run.live, fun hd' => absurd hd' hd, ⟨h.run.ref.drawn, h.run.ref.good⟩,
      h.run.blank⟩
  · rintro id L hL rfl
    have hok := h.runInv.lease id L hL rfl
    exact ⟨hok.count, hok.nbytes, hok.tags, hok.owner, hon id L hL rfl⟩
  · rintro t loc hloc hk rfl
    exact absurd (h.runInv.resident t loc hloc hk rfl).state hd

/-! ## New runs -/

/-- A free run is not in use, and apart from those that are. -/
theorem Contents.unused_of_free (h : st.Contents c π) (hfree : st.RunFree b n) :
    st.Unused c b n := by
  rintro b' hu ⟨i, hi, hi'⟩
  exact (h.runs b' hu).run.live i hi' (hfree i hi)

theorem Contents.not_used (h : st.Contents c π) (hun : st.Unused c b n) (hn : 0 < n) :
    ¬st.Used b := by
  intro hu
  exact hun b hu ⟨b, ⟨le_rfl, by omega⟩, (h.runs b hu).run.inRun⟩

/-- A free run is put to use: its slots are changed by `f`, and go to the state `q`. -/
theorem Contents.newRun (h : st.Contents c π)
    (hfree : st.RunFree b n) (hslots : st'.slots = onRun b n f st.slots)
    (hcount : n = c.slotsForBytes (f 0 (st.slots b)).nbytes)
    (hwhole : c.slotsForBytes (f 0 (st.slots b)).nbytes = c.slotsSpanned (f 0 (st.slots b)).nbytes)
    (hstate : ∀ k e, (f k e).state = q) (hq : q ≠ .free) (hdata : ¬q.hasData)
    (href : st'.RefOk c π (f 0 (st.slots b)).tensorId (f 0 (st.slots b)).version
      (f 0 (st.slots b)).nbytes (f 0 (st.slots b)).coldRef)
    (hblank : d2hOpen q → (f 0 (st.slots b)).coldRef = 0)
    (hc : (∀ i, ¬InRun b n i → st'.slots i = st.slots i) →
      (∀ i, InRun b n i → (st'.slots i).state ≠ .free) → Change c π st st' b n)
    (hl : ∀ id L, st'.leases.lookup id = some L → L.baseSlot = b →
      st.leases.lookup id = some L ∨ (st'.slots b = f 0 (st.slots b) → st'.LeaseOk c id L))
    (hloc : st'.locations = st.locations) (hw : st'.works = st.works) :
    st'.ContentsAt c π b ∧ st'.slots b = f 0 (st.slots b) := by
  have hpos : 0 < n := hcount ▸ c.slotsForBytes_pos hwhole
  have hbase : st'.slots b = f 0 (st.slots b) := by
    rw [hslots, onRun_of_mem ⟨le_rfl, by omega⟩, Nat.sub_self]
  have hext : st'.extent c b = n := by rw [extent, hbase, hcount]
  have hlive : ∀ i, InRun b n i → (st'.slots i).state ≠ .free := fun i hi => by
    rw [hslots, onRun_of_mem hi, hstate]
    exact hq
  have hc := hc (fun i hi => by rw [hslots, onRun_of_not_mem hi]) hlive
  have hun := h.unused_of_free hfree
  have hnot := h.not_used hun hpos
  have hrun : st'.RunOk c π b := by
    refine ⟨?_, ?_, ?_, ?_, ?_⟩
    · rwa [hbase]
    · rwa [hext]
    · rw [hbase, hstate]
      exact fun hd => absurd hd hdata
    · rwa [hbase]
    · rwa [hbase, hstate]
  have hinv : st'.RunInv c π b := by
    refine ⟨hrun, ?_, ?_, ?_⟩
    · intro id L hL hb
      obtain hold | hok := hl id L hL hb
      · exact absurd (hb ▸ used_of_lease hold) hnot
      · exact hok hbase
    · intro t loc hlook hk hb
      exact absurd (hb ▸ used_of_resident (hloc ▸ hlook) hk) hnot
    · intro w hmem hb
      exact absurd (hb ▸ used_of_work (hw ▸ hmem)) hnot
  refine ⟨⟨h.change hc (fun b' hu _ => hun b' hu) fun _ => ⟨hinv, hext.le⟩, hrun, ?_⟩, hbase⟩
  intro b' hu hne
  have hu' := hc.used_of_used hu hne
  rw [hext, (hc.sameRun (hun b' hu')).extent_eq (h.runs b' hu').run.inRun]
  exact hun b' hu'

/-- A free run is leased. -/
theorem Contents.reserve {L : Lease} {r : Option ℕ} (h : st.Contents c π) (gran now id flags : ℕ)
    (hfree : st.RunFree L.baseSlot L.slotCount) (hcount : L.slotCount = c.slotsForBytes L.nbytes)
    (hwhole : c.slotsForBytes L.nbytes = c.slotsSpanned L.nbytes) (hq : q ≠ .free)
    (hdata : ¬q.hasData) (href : ∀ ref ∈ r, st.RefOk c π L.tensorId L.version L.nbytes ref)
    (hblank : d2hOpen q → r = none) :
    (st.reserve gran now id L flags q r).ContentsAt c π L.baseSlot ∧
      (st.reserve gran now id L flags q r).slots L.baseSlot =
        leaseSlot gran now id L flags q r 0 (st.slots L.baseSlot) := by
  have hpos : 0 < L.slotCount := hcount ▸ c.slotsForBytes_pos hwhole
  -- The free slots have no cold reference to be kept.
  have hcold : (st.slots L.baseSlot).coldRef = 0 :=
    h.unused _ (hfree _ ⟨le_rfl, by omega⟩)
  refine h.newRun (f := leaseSlot gran now id L flags q r) hfree rfl hcount hwhole
    (fun _ _ => rfl) hq hdata ?_ ?_ (fun hs hf => ?_) ?_ rfl rfl
  · cases r with
    | none =>
      simp only [leaseSlot, Option.getD_none, hcold]
      exact ⟨h.drawn, fun e he => absurd (h.stored 0 e he).1 (lt_irrefl 0)⟩
    | some ref => exact ⟨(href ref rfl).drawn, (href ref rfl).good⟩
  · intro ho
    rw [leaseSlot, hblank ho]
    exact hcold
  · refine { slots := hs, unused := fun i hi h => absurd h (hf i hi), lease := ?_ }
    intro id' L' hL' hne
    rcases Table.lookup_insert_eq_some.1 hL' with ⟨-, rfl⟩ | ⟨hid, hL'⟩
    · exact absurd rfl hne
    · exact ⟨hL', by rw [Store.reserve, Table.lookup_erase, if_neg hid]⟩
  · intro id' L' hL' hb
    rcases Table.lookup_insert_eq_some.1 hL' with ⟨rfl, rfl⟩ | ⟨-, hL'⟩
    · refine .inr fun hbase => ⟨?_, ?_, ?_, fun _ => ?_, fun _ data hdata => ?_⟩
      · rw [extent, hbase]
        exact hcount
      · rw [hbase]
        rfl
      · rw [hbase]
        rfl
      · rw [hbase]
        rfl
      · rw [Store.reserve, Table.lookup_erase, if_pos rfl] at hdata
        cases hdata
    · exact .inl hL'

/-- A free run is warmed. -/
theorem Contents.warmRun {base nbytes : ℕ} (h : st.Contents c π) (gran now pid : ℕ)
    (req : RequestCanonicalRestoreRequest) (hfree : st.RunFree base (c.slotsForBytes nbytes))
    (hwhole : c.slotsForBytes nbytes = c.slotsSpanned nbytes) :
    (st.warmRun gran now req pid base (c.slotsForBytes nbytes) nbytes).ContentsAt c π base ∧
      (st.warmRun gran now req pid base (c.slotsForBytes nbytes) nbytes).slots base =
        warmSlot gran now req pid nbytes 0 (st.slots base) := by
  have hpos : 0 < c.slotsForBytes nbytes := c.slotsForBytes_pos hwhole
  have hcold : (st.slots base).coldRef = 0 := h.unused _ (hfree _ ⟨le_rfl, by omega⟩)
  refine h.newRun (f := warmSlot gran now req pid nbytes) hfree rfl rfl hwhole (fun _ _ => rfl)
    (by decide) (by decide) ?_ (fun _ => hcold) (fun hs hf => ?_) (fun _ _ hL _ => .inl hL) rfl rfl
  · simp only [warmSlot, hcold]
    exact ⟨h.drawn, fun e he => absurd (h.stored 0 e he).1 (lt_irrefl 0)⟩
  · exact { slots := hs, unused := fun i hi h => absurd h (hf i hi) }

/-! ## Runs that are given up -/

/-- A run that is not in use is written over, or freed. -/
theorem Contents.giveUp (h : st.Contents c π) (hun : st.Unused c b n) (hn : 0 < n)
    (hc : Change c π st st' b n) (hused : st'.Used b → st.Used b) : st'.Contents c π :=
  h.change hc (fun b' hu _ => hun b' hu) fun hu => absurd (hused hu) (h.not_used hun hn)

theorem Contents.freeSlots {now : ℕ} (h : st.Contents c π) (hun : st.Unused c b n) (hn : 0 < n) :
    (st.freeSlots now b n).Contents c π :=
  h.giveUp hun hn
    { slots := fun i hi => by simp only [Store.freeSlots, Store.mapRun, onRun_of_not_mem hi]
      unused := fun i hi _ => by simp only [Store.freeSlots, Store.mapRun, onRun_of_mem hi] } id

/-- A run is marked at its base before it is freed. -/
theorem Contents.freeMarked {now : ℕ} (h : st.Contents c π) (hun : st.Unused c b n) (hn : 0 < n) :
    ((st.setRunState now b 1 q).freeSlots now b n).Contents c π := by
  refine h.giveUp hun hn { slots := fun i hi => ?_, unused := fun i hi _ => ?_ } id
  · have hi' : ¬InRun b 1 i := by
      simp only [InRun] at hi ⊢
      omega
    simp only [Store.freeSlots, Store.setRunState, Store.mapRun, onRun_of_not_mem hi,
      onRun_of_not_mem hi']
  · simp only [Store.freeSlots, Store.mapRun, onRun_of_mem hi]

end Store

end StateSpectre
