import StateSpectre.Reserve

/-!
# The drain and readback workers

A worker takes a job from its queue, looks at the run under the mutex, copies
without it, and takes it again to commit, if the run is still in the state it
was. The copies themselves are steps of their own (`doDrainToCold`,
`doReadbackFromCold`), between which anything can happen.
-/

namespace StateSpectre

variable (c : Config) (s : State)

/-! ## Copies -/

/-- The tier the drains copy to. -/
def drainKind : LocationKind :=
  match c.drainTarget with
  | .pageableOnly => .pageable
  | .nvmeOnly => if c.nvmeEnabled then .nvme else .pageable
  | .pageableThenNvme => .pageable

/-- The cold copy of a run, when the copy succeeds. -/
def doDrainToCold (st : Store) (base nbytes : ℕ) : ColdEntry where
  kind := drainKind c
  nbytes := nbytes
  data := st.readMem base (c.slotsSpanned nbytes)

/-- A cold copy is read into a run, or what a failed read leaves there is. -/
def doReadbackFromCold (st : Store) (base nbytes : ℕ) (data : List Bytes) : Store :=
  st.writeMem base (c.slotsSpanned nbytes) data

/-- The outcome of a copy. One that fails can leave anything behind. -/
inductive IoResult
  | ok
  | failed (garbage : List Bytes) (message : String)
  /-- A read that fails and is not reported. -/
  | unread (garbage : List Bytes)

def IoResult.silent : IoResult → Bool
  | .unread _ => true
  | _ => false

/-- Whether a read from NVMe can fail without being reported: `nvme_read_pwrite` returns true
    whatever its reads do, and with more than 64 blocks in flight `nvme_read_uring` reads blocks
    into each other's buffers. -/
def Config.readsBlindly : Bool := !c.useUringEngine || decide (64 < c.nvmeQueueDepth)

/-- Only a read from NVMe can fail. -/
def readCold (cold : ColdEntry) : IoResult → Option (List Bytes × Bool)
  | .ok => some (cold.data, true)
  | .failed garbage _ => if cold.kind = .nvme then some (garbage, false) else none
  | .unread garbage => if cold.kind = .nvme ∧ c.readsBlindly then some (garbage, true) else none

/-! ## Drain worker -/

/-- A drain worker takes the first job. -/
def takeDrain : Option State :=
  match s.store.drainQueue with
  | [] => none
  | job :: rest =>
    some { s with store := { s.store with drainQueue := rest }.addTask (.drainTaken job) }

/-- What a drain worker notes of a run. -/
def drainSnapshot (st : Store) (job : DrainJob) : DrainWork :=
  let e := st.slots job.baseSlot
  { baseSlot := job.baseSlot, slotCount := job.slotCount, tensorId := e.tensorId
    version := e.version, nbytes := e.nbytes, leaseId := e.leaseId, forced := none }

/-- The worker notes the metadata of the run, if it is still to be drained. -/
def drainBegin (job : DrainJob) : State :=
  if s.store.slotState job.baseSlot = .drainInFlight then
    { s with store := s.store.addTask (.drainIo (drainSnapshot s.store job)) }
  else s.drainDone (s.store.slots job.baseSlot).nbytes

/-- The worker commits its copy, if the run is still to be drained. -/
def drainCommit (now : ℕ) (w : DrainWork) (cold : Option ColdEntry) : State :=
  let s' := s.drainDone w.nbytes
  if s.store.slotState w.baseSlot = .drainInFlight then
    match cold with
    | none => failDrain s' now w
    | some cold => finishDrain c s' now w cold
  else s'

/-! ## Readback worker -/

/-- A readback worker takes the first job. -/
def takeReadback : Option State :=
  match s.store.readbackQueue with
  | [] => none
  | job :: rest =>
    some { s with store := { s.store with readbackQueue := rest }.addTask (.readbackTaken job) }

/-- The worker looks for the cold copy, if the run still waits for it. -/
def readbackBegin (job : ReadbackJob) : State :=
  if s.store.slotState job.baseSlot = .readbackInFlight then
    match s.store.coldStore.lookup job.coldRef with
    | some cold => { s with store := s.store.addTask (.readbackIo job cold) }
    | none => { s with store := s.store.addTask (.readbackMissing job) }
  else s

/-- Without a cold copy the run is in error, whatever has become of it. -/
def readbackMissing (now : ℕ) (job : ReadbackJob) : State :=
  { s with store := s.store.setRunState now job.baseSlot job.slotCount .error }

/-- The worker commits its read, if the run still waits for it: the run is the
    location of the tensor it carries, and the cold copy is kept. -/
def readbackCommit (now : ℕ) (job : ReadbackJob) (ok : Bool) : State :=
  if s.store.slotState job.baseSlot = .readbackInFlight then
    if ok then
      let e := s.store.slots job.baseSlot
      { s with
        store := (s.store.setRunState now job.baseSlot job.slotCount .pinnedValid
          ).updateLocationIfLatest e.tensorId e.version .pinned job.baseSlot job.coldRef
            job.nbytes }
    else { s with store := s.store.setRunState now job.baseSlot job.slotCount .error }
  else s

end StateSpectre
