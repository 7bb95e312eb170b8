import Mathlib.Data.Fintype.EquivFin
import StateSpectre.Locations

/-!
# What runs contain

The bytes in a run, in a cold copy or on their way between the two are those of a
D2H copy that the daemon accepted, for the tensor and version that the slots are
tagged with. This file states the invariant that says so (`Contents`), and how it
survives a change to one run.

Whoever counts on a run *uses* it: a lease, a pinned location, or the work of a
drain, a readback or a restore that is queued or under way (`Work`). All uses know
a run by its first slot. The runs in use are apart from each other, and every one
of them is as its uses expect it (`RunInv`); at most one of them is a work.

Which bytes are good for a tensor and version is left open (`Provenance`): those of
any copy that was accepted, those of the one accepted last, or all.
-/

namespace StateSpectre

/-! ## Good copies -/

/-- Which bytes are good for a tensor and version, given the copies accepted so
    far, the last one first. -/
structure Provenance where
  good : List AcceptedD2H → (tensorId version : ℕ) → List Bytes → Prop
  /-- Whether a new copy makes those before it, of the same version, stale. -/
  strict : Bool
  new : ∀ {l e}, good (e :: l) e.tensorId e.version e.data
  old : ∀ {l e t v data}, good l t v data → (strict → (t, v) ≠ (e.tensorId, e.version)) →
    good (e :: l) t v data
  /-- Whether all bytes are good, also those that a read leaves that is not made. -/
  blind : Bool := false
  unread : blind → ∀ l t v data, good l t v data := by exact fun h => nomatch h

/-- All bytes are good, where it only matters which runs are in use. -/
def Provenance.all : Provenance where
  good _ _ _ _ := True
  strict := false
  new := trivial
  old _ _ := trivial
  blind := true
  unread _ _ _ _ _ := trivial

/-- Any copy accepted for the tensor and version. -/
def Provenance.any : Provenance where
  good l t v data := ⟨t, v, data⟩ ∈ l.map fun e => (e.tensorId, e.version, e.data)
  strict := false
  new := List.mem_cons_self
  old h _ := List.mem_cons_of_mem _ h

/-- The copy accepted last for the tensor and version. -/
def Provenance.last : Provenance where
  good l t v data :=
    (l.find? fun e => e.tensorId = t ∧ e.version = v).map (·.data) = some data
  strict := true
  new := by simp
  old {l e t v data} h hne := by
    rw [List.find?_cons_of_neg]
    · exact h
    · intro he
      obtain ⟨rfl, rfl⟩ := of_decide_eq_true he
      exact hne rfl rfl

/-! ## Uses of a run -/

/-- The states in which a run holds the data of its tensor. -/
def SlotState.hasData : SlotState → Bool
  | .pinnedValid | .drainInFlight | .h2dInFlight => true
  | _ => false

/-- What a queued or running drain, readback or restore counts on: the run, the
    state it stays in, what was noted of its slots, the bytes to be stored or read
    into it, and whether they have been. -/
structure Work where
  base : ℕ
  count : ℕ
  state : SlotState
  tags : Option (ℕ × ℕ) := none
  nbytes : Option ℕ := none
  coldRef : Option ℕ := none
  copy : Option (List Bytes) := none
  read : Bool := false

def DrainJob.work (job : DrainJob) : Work where
  base := job.baseSlot
  count := job.slotCount
  state := .drainInFlight

def ReadbackJob.work (job : ReadbackJob) : Work where
  base := job.baseSlot
  count := job.slotCount
  state := .readbackInFlight
  nbytes := some job.nbytes
  coldRef := some job.coldRef

def DrainWork.work (w : DrainWork) : Work where
  base := w.baseSlot
  count := w.slotCount
  state := .drainInFlight
  tags := some (w.tensorId, w.version)
  nbytes := some w.nbytes

def warmWork (req : RequestCanonicalRestoreRequest) (base count nbytes : ℕ) : Work where
  base := base
  count := count
  state := .readbackInFlight
  tags := some (canonicalTid req.objectId, canonicalVersion)
  nbytes := some nbytes

/-- The work of a task, if it counts on a run. -/
def Task.work : Task → Option Work
  | .drainTaken job => some job.work
  | .drainIo w => some w.work
  | .drainCommit w cold => some { w.work with copy := cold.map (·.data) }
  | .readbackTaken job | .readbackMissing job => some job.work
  | .readbackIo job cold => some { job.work with copy := some cold.data }
  | .readbackCommit job ok => some { job.work with read := ok }
  | .restoreIo req base count cold nbytes =>
    some { warmWork req base count nbytes with copy := some cold.data }
  | .restoreCommit req base count nbytes ok =>
    some { warmWork req base count nbytes with read := ok }
  | .pullStageIo .. | .pullReadIo .. | .pullStaged .. | .pullSendIo .. | .pullSent .. => none

namespace Store

variable (c : Config) (π : Provenance) (st : Store) {loc : Location} {b' : ℕ} {t : ℕ}

/-- All work queued or under way. -/
def works : List Work :=
  st.drainQueue.map DrainJob.work ++ st.readbackQueue.map ReadbackJob.work ++
    st.tasks.filterMap Task.work

/-- The first slots of the runs in use. -/
def usedBases : List ℕ :=
  st.leases.rows.map (·.2.baseSlot) ++
    (st.locations.rows.filter (·.2.kind = .pinned)).map (·.2.slotId) ++ st.works.map Work.base

/-- The run that starts at the slot `b` is in use. -/
def Used (b : ℕ) : Prop := b ∈ st.usedBases

/-- The number of slots of the run that starts at the slot `b`. -/
def extent (b : ℕ) : ℕ := c.slotsForBytes (st.slots b).nbytes

/-- No run in use has a slot in common with a given one. -/
def Unused (b n : ℕ) : Prop := ∀ b', st.Used b' → ¬Meet b n b' (st.extent c b')

/-- Bytes that are good for the tensor and version of a slot. -/
def GoodAt (b : ℕ) (data : List Bytes) : Prop :=
  π.good st.history.accepted (st.slots b).tensorId (st.slots b).version data

/-- What is stored under a cold reference, if anything, is good for the tensor and
    version, and of that size. -/
structure RefOk (t v nbytes ref : ℕ) : Prop where
  drawn : ref < st.nextColdRef
  good : ∀ e, st.coldStore.lookup ref = some e →
    π.good st.history.accepted t v e.data ∧ e.data.length = c.slotsSpanned nbytes

/-- The run that starts at the slot `b` is one: its slots are in use, and it holds
    good data if it holds any. -/
structure RunOk (b : ℕ) : Prop where
  whole : c.slotsForBytes (st.slots b).nbytes = c.slotsSpanned (st.slots b).nbytes
  live : ∀ i, InRun b (st.extent c b) i → (st.slots i).state ≠ .free
  data : (st.slots b).state.hasData → st.GoodAt π b (st.readMem b (st.extent c b))
  ref : st.RefOk c π (st.slots b).tensorId (st.slots b).version (st.slots b).nbytes
    (st.slots b).coldRef
  blank : d2hOpen (st.slots b).state → (st.slots b).coldRef = 0

/-- A lease is one on the run that starts at its first slot. As long as its owner
    may copy into the run, it is the only one. -/
structure LeaseOk (id : ℕ) (L : Lease) : Prop where
  count : L.slotCount = st.extent c L.baseSlot
  nbytes : L.nbytes = (st.slots L.baseSlot).nbytes
  tags : (L.tensorId, L.version) =
    ((st.slots L.baseSlot).tensorId, (st.slots L.baseSlot).version)
  owner : d2hOpen (st.slots L.baseSlot).state → (st.slots L.baseSlot).leaseId = id
  copied : d2hOpen (st.slots L.baseSlot).state → ∀ data ∈ st.history.copied.lookup id,
    data = st.readMem L.baseSlot (st.extent c L.baseSlot)

/-- A pinned location names a run that holds its data. -/
structure ResidentOk (t : ℕ) (loc : Location) : Prop where
  state : (st.slots loc.slotId).state.hasData
  nbytes : loc.nbytes = (st.slots loc.slotId).nbytes
  tags : (t, loc.version) = ((st.slots loc.slotId).tensorId, (st.slots loc.slotId).version)

/-- A work finds the run as it expects it. -/
structure WorkOk (w : Work) : Prop where
  state : (st.slots w.base).state = w.state
  count : w.count = st.extent c w.base
  tags : ∀ x ∈ w.tags, x = ((st.slots w.base).tensorId, (st.slots w.base).version)
  nbytes : ∀ n ∈ w.nbytes, n = (st.slots w.base).nbytes
  coldRef : ∀ r ∈ w.coldRef, r = (st.slots w.base).coldRef
  copy : ∀ data ∈ w.copy, st.GoodAt π w.base data ∧ data.length = st.extent c w.base
  read : w.read → st.GoodAt π w.base (st.readMem w.base (st.extent c w.base))

/-- The run that starts at the slot `b` is as all its uses expect it. -/
structure RunInv (b : ℕ) : Prop where
  run : st.RunOk c π b
  lease : ∀ id L, st.leases.lookup id = some L → L.baseSlot = b → st.LeaseOk c id L
  resident : ∀ t loc, st.locations.lookup t = some loc → loc.kind = .pinned → loc.slotId = b →
    st.ResidentOk t loc
  work : ∀ w ∈ st.works, w.base = b → st.WorkOk c π w

/-- A location is of a tensor that fits into slots, and its cold copy, if it has
    one, is good. -/
structure LocationOk (t : ℕ) (loc : Location) : Prop where
  whole : c.slotsForBytes loc.nbytes = c.slotsSpanned loc.nbytes
  ref : st.RefOk c π t loc.version loc.nbytes loc.coldRef

/-- What a search will read into the run it finds is good. -/
def PurposeOk : Purpose → Prop
  | .prefetch req loc version _ _ => version = loc.version ∧ st.LocationOk c π req.tensorId loc
  | .restore req cold nbytes =>
    c.slotsForBytes nbytes = c.slotsSpanned nbytes ∧
      π.good st.history.accepted (canonicalTid req.objectId) canonicalVersion cold.data ∧
      cold.data.length = c.slotsSpanned nbytes
  | .offload .. | .create .. | .candidate .. => True

/-- Runs, cold copies and copies under way contain what they should. -/
structure Contents : Prop where
  runs : ∀ b, st.Used b → st.RunInv c π b
  apart : ∀ b b', st.Used b → st.Used b' → b ≠ b' →
    ¬Meet b (st.extent c b) b' (st.extent c b')
  exclusive : (st.works.map Work.base).Nodup
  locations : ∀ t loc, st.locations.lookup t = some loc → st.LocationOk c π t loc
  purposes : ∀ task ∈ st.tasks, ∀ p ∈ task.purpose, st.PurposeOk c π p
  unused : ∀ i, (st.slots i).state = .free → (st.slots i).coldRef = 0
  stored : ∀ ref e, st.coldStore.lookup ref = some e → 0 < ref ∧ ref < st.nextColdRef
  drawn : 0 < st.nextColdRef

end Store

variable {c : Config} {π : Provenance} {st st' : Store} {b n : ℕ}

/-! ## Uses and work -/

theorem Store.used_iff : st.Used b ↔ (∃ id L, st.leases.lookup id = some L ∧ L.baseSlot = b) ∨
    (∃ t loc, st.locations.lookup t = some loc ∧ loc.kind = .pinned ∧ loc.slotId = b) ∨
    ∃ w ∈ st.works, w.base = b := by
  simp only [Used, usedBases, List.append_assoc, List.mem_append, List.mem_map, List.mem_filter,
    decide_eq_true_eq, Prod.exists, Table.mem_rows, and_assoc]

theorem Store.used_of_lease {id : ℕ} {L : Lease} (h : st.leases.lookup id = some L) :
    st.Used L.baseSlot := used_iff.2 (.inl ⟨id, L, h, rfl⟩)

theorem Store.used_of_resident (h : st.locations.lookup t = some loc) (hk : loc.kind = .pinned) :
    st.Used loc.slotId := used_iff.2 (.inr (.inl ⟨t, loc, h, hk, rfl⟩))

theorem Store.used_of_work {w : Work} (h : w ∈ st.works) : st.Used w.base :=
  used_iff.2 (.inr (.inr ⟨w, h, rfl⟩))

/-- The work of a task. -/
theorem Store.mem_works {i : ℕ} {t : Task} {w : Work} (hi : st.tasks[i]? = some t)
    (ht : t.work = some w) : w ∈ st.works :=
  List.mem_append_right _ (List.mem_filterMap.2 ⟨t, List.mem_of_getElem? hi, ht⟩)

theorem Store.works_addTask (st : Store) (t : Task) :
    (st.addTask t).works.Perm (t.work.toList ++ st.works) := by
  simp only [works, addTask, List.filterMap_cons]
  cases t.work with
  | none => rfl
  | some w => exact List.perm_middle

theorem Store.works_dropTask {i : ℕ} {t : Task} (h : st.tasks[i]? = some t) :
    st.works.Perm (t.work.toList ++ (st.dropTask i).works) := by
  refine ((filterMap_dropTask Task.work h).append_left _).trans ?_
  rw [← filterMap_addTask]
  exact (st.dropTask i).works_addTask t

/-- A run is in the same state for all the time of a work on it. -/
theorem Store.work_state {w : Work} (h : w ∈ st.works) :
    w.state = .drainInFlight ∨ w.state = .readbackInFlight := by
  simp only [works, List.mem_append, List.mem_map, List.mem_filterMap] at h
  obtain (⟨job, -, rfl⟩ | ⟨job, -, rfl⟩) | ⟨t, -, ht⟩ := h
  · exact .inl rfl
  · exact .inr rfl
  · cases t <;> cases ht
    all_goals first | exact .inl rfl | exact .inr rfl

/-! ## Runs that do not change -/

/-- A size that is not cut is of at least one slot. -/
theorem Config.slotsForBytes_pos {nbytes : ℕ}
    (h : c.slotsForBytes nbytes = c.slotsSpanned nbytes) : 0 < c.slotsForBytes nbytes := by
  by_contra h0
  have h0 : c.slotsSpanned nbytes = 0 := by omega
  have hle :
      (nbytes + c.allocationGranularityBytes - 1) % 2 ^ 64 / c.allocationGranularityBytes = 0 :=
    Nat.le_zero.1 (h0 ▸ Nat.div_le_div_right (Nat.mod_le _ _))
  rw [h0, Config.slotsForBytes, hle] at h
  simp at h

namespace Store

theorem RunOk.pos (h : st.RunOk c π b) : 0 < st.extent c b := c.slotsForBytes_pos h.whole

theorem RunOk.inRun (h : st.RunOk c π b) : InRun b (st.extent c b) b :=
  ⟨le_rfl, Nat.lt_add_of_pos_right h.pos⟩

/-- What the facts about a run depend on, apart from its uses, does not change. -/
structure SameRun (c : Config) (π : Provenance) (st st' : Store) (b : ℕ) : Prop where
  slots : ∀ i, InRun b (st.extent c b) i → st'.slots i = st.slots i
  mem : ∀ i, InRun b (st.extent c b) i → st'.mem i = st.mem i
  accepted : st'.history.accepted = st.history.accepted
  ref : ∀ {t v n r}, st.RefOk c π t v n r → st'.RefOk c π t v n r

namespace SameRun

variable (h : SameRun c π st st' b) (hb : InRun b (st.extent c b) b)

include h hb

theorem extent_eq : st'.extent c b = st.extent c b := by
  rw [extent, h.slots b hb, ← extent]

theorem readMem_eq : st'.readMem b (st'.extent c b) = st.readMem b (st.extent c b) := by
  rw [h.extent_eq hb]
  exact readRun_congr h.mem

theorem goodAt_iff {data : List Bytes} : st'.GoodAt π b data ↔ st.GoodAt π b data := by
  rw [GoodAt, GoodAt, h.accepted, h.slots b hb]

theorem runOk (hr : st.RunOk c π b) : st'.RunOk c π b where
  whole := by
    rw [h.slots b hb]
    exact hr.whole
  live i hi := by
    rw [h.extent_eq hb] at hi
    rw [h.slots i hi]
    exact hr.live i hi
  data hd := by
    rw [h.slots b hb] at hd
    rw [h.goodAt_iff hb, h.readMem_eq hb]
    exact hr.data hd
  ref := by
    rw [h.slots b hb]
    exact h.ref hr.ref
  blank hd := by
    rw [h.slots b hb] at hd ⊢
    exact hr.blank hd

theorem leaseOk {id : ℕ} {L : Lease} (hL : st.LeaseOk c id L) (hbase : L.baseSlot = b)
    (hcopied : st'.history.copied.lookup id = st.history.copied.lookup id) :
    st'.LeaseOk c id L := by
  subst hbase
  refine ⟨?_, ?_, ?_, ?_, ?_⟩
  · rw [h.extent_eq hb]
    exact hL.count
  · rw [h.slots _ hb]
    exact hL.nbytes
  · rw [h.slots _ hb]
    exact hL.tags
  · rw [h.slots _ hb]
    exact hL.owner
  · rw [h.slots _ hb, hcopied, h.readMem_eq hb]
    exact hL.copied

theorem residentOk (hloc : st.ResidentOk t loc) (hbase : loc.slotId = b) :
    st'.ResidentOk t loc := by
  subst hbase
  refine ⟨?_, ?_, ?_⟩ <;> rw [h.slots _ hb]
  · exact hloc.state
  · exact hloc.nbytes
  · exact hloc.tags

theorem workOk {w : Work} (hw : st.WorkOk c π w) (hbase : w.base = b) : st'.WorkOk c π w := by
  subst hbase
  refine ⟨?_, ?_, ?_, ?_, ?_, fun data hd => ?_, fun hr => ?_⟩
  · rw [h.slots _ hb]
    exact hw.state
  · rw [h.extent_eq hb]
    exact hw.count
  · rw [h.slots _ hb]
    exact hw.tags
  · rw [h.slots _ hb]
    exact hw.nbytes
  · rw [h.slots _ hb]
    exact hw.coldRef
  · rw [h.goodAt_iff hb, h.extent_eq hb]
    exact hw.copy data hd
  · rw [h.goodAt_iff hb, h.readMem_eq hb]
    exact hw.read hr

end SameRun

/-- A run that does not change is as its uses expect it, if they are old ones. -/
theorem RunInv.frame (h : st.RunInv c π b) (hs : SameRun c π st st' b)
    (hl : ∀ id L, st'.leases.lookup id = some L → L.baseSlot = b →
      st.leases.lookup id = some L ∧ st'.history.copied.lookup id = st.history.copied.lookup id)
    (hloc : ∀ t loc, st'.locations.lookup t = some loc → loc.kind = .pinned → loc.slotId = b →
      st.locations.lookup t = some loc)
    (hw : ∀ w ∈ st'.works, w.base = b → w ∈ st.works) : st'.RunInv c π b where
  run := hs.runOk h.run.inRun h.run
  lease id L hL hb :=
    have hold := hl id L hL hb
    hs.leaseOk h.run.inRun (h.lease id L hold.1 hb) hb hold.2
  resident t loc hlook hk hb :=
    hs.residentOk h.run.inRun (h.resident t loc (hloc t loc hlook hk hb) hk hb) hb
  work w hmem hb := hs.workOk h.run.inRun (h.work w (hw w hmem hb) hb) hb

/-! ## Changing one run -/

/-- The store changes only in the run of `n` slots that starts at `b`, and in the
    uses of that run. The fields that are not given say that a part of the store
    does not change at all. -/
structure Change (c : Config) (π : Provenance) (st st' : Store) (b n : ℕ) : Prop where
  slots : ∀ i, ¬InRun b n i → st'.slots i = st.slots i := by exact fun _ _ => rfl
  mem : ∀ i, ¬InRun b n i → st'.mem i = st.mem i := by exact fun _ _ => rfl
  accepted : st'.history.accepted = st.history.accepted := by rfl
  ref : ∀ {t v n r}, st.RefOk c π t v n r → st'.RefOk c π t v n r := by
    exact fun h => ⟨h.drawn, h.good⟩
  lease : ∀ id L, st'.leases.lookup id = some L → L.baseSlot ≠ b →
    st.leases.lookup id = some L ∧ st'.history.copied.lookup id = st.history.copied.lookup id := by
      exact fun _ _ h _ => ⟨h, rfl⟩
  location : ∀ t loc, st'.locations.lookup t = some loc → st.locations.lookup t = some loc ∨
    st'.LocationOk c π t loc ∧ (loc.kind = .pinned → loc.slotId = b) := by
      exact fun _ _ h => .inl h
  work : ∀ w ∈ st'.works, w.base ≠ b → w ∈ st.works := by exact fun _ h _ => h
  exclusive : (st.works.map Work.base).Nodup → (st'.works.map Work.base).Nodup := by
    exact fun h => h
  purpose : ∀ task ∈ st'.tasks, ∀ p ∈ task.purpose,
    (∃ task ∈ st.tasks, p ∈ task.purpose) ∨ st'.PurposeOk c π p := by
      exact fun task h p hp => .inl ⟨task, h, hp⟩
  unused : ∀ i, InRun b n i → (st'.slots i).state = .free → (st'.slots i).coldRef = 0 := by
    exact fun _ hi => absurd hi not_inRun_zero
  stored : (∀ ref e, st.coldStore.lookup ref = some e → 0 < ref ∧ ref < st.nextColdRef) →
    ∀ ref e, st'.coldStore.lookup ref = some e → 0 < ref ∧ ref < st'.nextColdRef := by
      exact fun h => h
  drawn : st.nextColdRef ≤ st'.nextColdRef := by exact le_rfl

theorem LocationOk.mono (h : st.LocationOk c π t loc)
    (href : ∀ {t v n r}, st.RefOk c π t v n r → st'.RefOk c π t v n r) : st'.LocationOk c π t loc :=
  ⟨h.whole, href h.ref⟩

theorem PurposeOk.mono {p : Purpose} (h : st.PurposeOk c π p)
    (hacc : st'.history.accepted = st.history.accepted)
    (href : ∀ {t v n r}, st.RefOk c π t v n r → st'.RefOk c π t v n r) : st'.PurposeOk c π p := by
  cases p with
  | prefetch req loc v pid id => exact ⟨h.1, h.2.mono href⟩
  | restore req cold nbytes =>
    rw [PurposeOk, hacc]
    exact h
  | _ => trivial

namespace Change

variable (hc : Change c π st st' b n)

include hc

/-- A run apart from the one that changes does not change. -/
theorem sameRun (hfar : ¬Meet b n b' (st.extent c b')) : SameRun c π st st' b' where
  slots i hi := hc.slots i fun hi' => hfar ⟨i, hi', hi⟩
  mem i hi := hc.mem i fun hi' => hfar ⟨i, hi', hi⟩
  accepted := hc.accepted
  ref := hc.ref

/-- The uses of another run are not new. -/
theorem used_of_used (h : st'.Used b') (hne : b' ≠ b) : st.Used b' := by
  obtain ⟨id, L, hL, rfl⟩ | ⟨t, loc, hloc, hk, rfl⟩ | ⟨w, hw, rfl⟩ := used_iff.1 h
  · exact used_of_lease (hc.lease id L hL hne).1
  · obtain hloc | ⟨-, hb⟩ := hc.location t loc hloc
    · exact used_of_resident hloc hk
    · exact absurd (hb hk) hne
  · exact used_of_work (hc.work w hw hne)

theorem runInv (h : st.RunInv c π b') (hne : b' ≠ b) (hfar : ¬Meet b n b' (st.extent c b')) :
    st'.RunInv c π b' := by
  refine h.frame (hc.sameRun hfar) ?_ ?_ ?_
  · rintro id L hL rfl
    exact hc.lease id L hL hne
  · rintro t loc hloc hk rfl
    exact (hc.location t loc hloc).resolve_right fun h => hne (h.2 hk)
  · rintro w hw rfl
    exact hc.work w hw hne

end Change

/-- A change of one run that is apart from the others in use, and that leaves it as
    its uses expect it. -/
theorem Contents.change (h : st.Contents c π) (hc : Change c π st st' b n)
    (hfar : ∀ b', st.Used b' → b' ≠ b → ¬Meet b n b' (st.extent c b'))
    (hb : st'.Used b → st'.RunInv c π b ∧ st'.extent c b ≤ n) : st'.Contents c π where
  runs b' hu := by
    by_cases hne : b' = b
    · exact hne ▸ (hb (hne ▸ hu)).1
    · have hu' := hc.used_of_used hu hne
      exact hc.runInv (h.runs b' hu') hne (hfar b' hu' hne)
  apart := by
    -- A run that did not change keeps its extent; the changed one is within `n`.
    have hext : ∀ b', st'.Used b' → b' ≠ b →
        st'.extent c b' = st.extent c b' ∧ ¬Meet b n b' (st.extent c b') := fun b' hu hne =>
      have hu' := hc.used_of_used hu hne
      ⟨(hc.sameRun (hfar b' hu' hne)).extent_eq (h.runs b' hu').run.inRun, hfar b' hu' hne⟩
    have hmeet : ∀ b', st'.Used b → st'.Used b' → b' ≠ b →
        ¬Meet b (st'.extent c b) b' (st'.extent c b') := by
      rintro b' hu hu' hne ⟨i, hi, hi'⟩
      rw [(hext b' hu' hne).1] at hi'
      exact (hext b' hu' hne).2 ⟨i, ⟨hi.1, by have := (hb hu).2; have := hi.2; omega⟩, hi'⟩
    intro b₁ b₂ hu₁ hu₂ hne
    by_cases h₁ : b₁ = b
    · subst h₁
      exact hmeet b₂ hu₁ hu₂ hne.symm
    by_cases h₂ : b₂ = b
    · subst h₂
      exact fun hm => hmeet b₁ hu₂ hu₁ h₁ hm.symm
    rw [(hext b₁ hu₁ h₁).1, (hext b₂ hu₂ h₂).1]
    exact h.apart b₁ b₂ (hc.used_of_used hu₁ h₁) (hc.used_of_used hu₂ h₂) hne
  exclusive := hc.exclusive h.exclusive
  locations t loc hloc :=
    (hc.location t loc hloc).elim (fun hl => (h.locations t loc hl).mono hc.ref) (·.1)
  purposes task ht p hp := by
    obtain ⟨task', ht', hp'⟩ | hok := hc.purpose task ht p hp
    · exact (h.purposes task' ht' p hp').mono hc.accepted hc.ref
    · exact hok
  unused i hfree := by
    by_cases hi : InRun b n i
    · exact hc.unused i hi hfree
    · rw [hc.slots i hi] at hfree ⊢
      exact h.unused i hfree
  stored := hc.stored h.stored
  drawn := h.drawn.trans_le hc.drawn

/-! ## A run to work with -/

/-- The contents, with a run that may be put to use: it is a run, apart from those
    in use. -/
structure ContentsAt (c : Config) (π : Provenance) (st : Store) (b : ℕ) : Prop
    extends st.Contents c π where
  run : st.RunOk c π b
  far : ∀ b', st.Used b' → b' ≠ b → ¬Meet b (st.extent c b) b' (st.extent c b')

theorem Contents.at (h : st.Contents c π) (hu : st.Used b) : st.ContentsAt c π b :=
  ⟨h, (h.runs b hu).run, fun b' hu' hne => h.apart b b' hu hu' hne.symm⟩

theorem ContentsAt.runInv (h : st.ContentsAt c π b) : st.RunInv c π b where
  run := h.run
  lease id L hL hb := (h.runs b (hb ▸ used_of_lease hL)).lease id L hL hb
  resident t loc hloc hk hb := (h.runs b (hb ▸ used_of_resident hloc hk)).resident t loc hloc hk hb
  work w hw hb := (h.runs b (hb ▸ used_of_work hw)).work w hw hb

/-- A change of the run that leaves it as its uses expect it. -/
theorem ContentsAt.change (h : st.ContentsAt c π b) (hc : Change c π st st' b (st.extent c b))
    (hext : st'.extent c b = st.extent c b) (hrun : st'.RunInv c π b) : st'.ContentsAt c π b where
  toContents := h.toContents.change hc h.far fun _ => ⟨hrun, hext.le⟩
  run := hrun.run
  far b' hu hne := by
    have hu' := hc.used_of_used hu hne
    rw [hext, (hc.sameRun (h.far b' hu' hne)).extent_eq (h.runs b' hu').run.inRun]
    exact h.far b' hu' hne

/-- No run changes, and no run gets a new use. -/
theorem Contents.frame (h : st.Contents c π) (hc : ∀ b, Change c π st st' b 0) :
    st'.Contents c π := by
  -- It is a change of an empty run at a slot that is not in use.
  obtain ⟨b, hb⟩ := Infinite.exists_notMem_finset st'.usedBases.toFinset
  rw [List.mem_toFinset] at hb
  exact h.change (hc b) (fun b' _ _ hm => (meet_iff.1 hm).1.false) fun hu => absurd hu hb

theorem ContentsAt.frame (h : st.ContentsAt c π b) (hc : ∀ b, Change c π st st' b 0) :
    st'.ContentsAt c π b := by
  have hsame : ∀ b', SameRun c π st st' b' := fun b' =>
    (hc b').sameRun fun hm => (meet_iff.1 hm).1.false
  refine ⟨h.toContents.frame hc, (hsame b).runOk h.run.inRun h.run, fun b' hu hne => ?_⟩
  have hu' := (hc (b' + 1)).used_of_used hu (Nat.lt_succ_self b').ne
  rw [(hsame b).extent_eq h.run.inRun, (hsame b').extent_eq (h.runs b' hu').run.inRun]
  exact h.far b' hu' hne

end Store

end StateSpectre
