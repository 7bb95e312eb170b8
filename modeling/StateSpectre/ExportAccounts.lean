import Mathlib.Algebra.BigOperators.Group.List.Basic
import StateSpectre.Pulls

/-!
# The accounts of the exports

An object counts its pulls that are under way, and a job their bytes, with a limit. A pull takes
part in both from when it is accepted until it ends, in one of three ways: nothing is found to be
staged, the staging fails, or the bytes have been sent, or not. Meanwhile it releases the mutex
twice, and finds the object and the job again.

The counts are exact, in every state (`exports_accounted`), as an object stays as long as it is
exported, and jobs are never forgotten. The limit is checked only if bytes are in flight already,
so that a job may export a single object above it. But bytes of no number are no bytes: behind an
empty object any object is let through (`empty_pull_ignores_limit`). Two pulls that have bytes are
within the limit.
-/

namespace StateSpectre

variable {c : Config} {g : Guards} {x y : Scene} {s s' : State} {uid : JobUID} {oid : ℕ}
  {ps ps' : List PullLocals} {l : PullLocals}

/-! ## The bytes of the pulls -/

def pulledBytes (ps : List PullLocals) (uid : JobUID) : ℕ :=
  (ps.map fun l => if l.req.job = uid then l.nbytes else 0).sum

/-- The number of the pulls of a job that have bytes. -/
def busyPulls (ps : List PullLocals) (uid : JobUID) : ℕ :=
  ps.countP fun l => l.req.job = uid ∧ 0 < l.nbytes

theorem pulledBytes_cons : pulledBytes (l :: ps) uid =
    (if l.req.job = uid then l.nbytes else 0) + pulledBytes ps uid := rfl

theorem busyPulls_cons : busyPulls (l :: ps) uid =
    busyPulls ps uid + if l.req.job = uid ∧ 0 < l.nbytes then 1 else 0 := by
  simp [busyPulls, List.countP_cons]

theorem pulledBytes_perm (h : ps'.Perm ps) : pulledBytes ps' uid = pulledBytes ps uid :=
  (h.map _).sum_eq

theorem busyPulls_perm (h : ps'.Perm ps) : busyPulls ps' uid = busyPulls ps uid := h.countP_eq _

/-- Pulls that have bytes have some. -/
theorem pulledBytes_pos (h : 0 < busyPulls ps uid) : 0 < pulledBytes ps uid := by
  induction ps with
  | nil => exact absurd h (lt_irrefl 0)
  | cons l ps ih =>
    rw [busyPulls_cons] at h
    rw [pulledBytes_cons]
    split at h
    · next hl =>
      rw [if_pos hl.1]
      omega
    · have := ih (by omega)
      omega

theorem pulledBytes_eq_zero (h : ∀ l ∈ ps, l.req.job ≠ uid) : pulledBytes ps uid = 0 := by
  refine List.sum_eq_zero fun n hn => ?_
  obtain ⟨l, hl, rfl⟩ := List.mem_map.1 hn
  exact if_neg (h l hl)

/-! ## The counts of the jobs -/

/-- The jobs count the bytes of their pulls, and keep their limits. All jobs are running, and only
    registered ones have pulls. -/
structure JobCounts (c : Config) (jobs : Table JobUID JobRecord) (ps : List PullLocals) :
    Prop where
  job : ∀ uid j, jobs.lookup uid = some j →
    j.inflightExportBytes = pulledBytes ps uid ∧ j.state = .running ∧
      j.maxInflightExportBytes = c.quotaMaxInflightExportBytes
  bounded : ∀ uid, pulledBytes ps uid < 2 ^ 64
  registered : ∀ l ∈ ps, (jobs.lookup l.req.job).isSome
  within : 0 < c.maxConcurrentExportsPerJob → 0 < c.quotaMaxInflightExportBytes → ∀ uid,
    2 ≤ busyPulls ps uid → pulledBytes ps uid ≤ c.quotaMaxInflightExportBytes

/-- A job after a change that has nothing to do with exports. -/
structure JobRecord.SameExports (j j' : JobRecord) : Prop where
  state : j'.state = j.state := by rfl
  bytes : j'.inflightExportBytes = j.inflightExportBytes := by rfl
  limit : j'.maxInflightExportBytes = j.maxInflightExportBytes := by rfl

namespace JobCounts

variable {jobs jobs' : Table JobUID JobRecord} {j : JobRecord} {f : JobRecord → JobRecord}

theorem change (h : JobCounts c jobs ps) (hjobs : jobs.Linked JobRecord.SameExports jobs')
    (hps : ps'.Perm ps) : JobCounts c jobs' ps' where
  job uid j' hj' := by
    obtain ⟨j, hj, hsame⟩ := hjobs.of_lookup hj'
    rw [hsame.bytes, hsame.state, hsame.limit, pulledBytes_perm hps]
    exact h.job uid j hj
  bounded uid := by
    rw [pulledBytes_perm hps]
    exact h.bounded uid
  registered l hl := by
    rw [hjobs.isSome]
    exact h.registered l (hps.mem_iff.1 hl)
  within hmax hquota uid hbusy := by
    rw [busyPulls_perm hps] at hbusy
    rw [pulledBytes_perm hps]
    exact h.within hmax hquota uid hbusy

/-- A job registers, with the limit of the configuration. -/
theorem register (h : JobCounts c jobs ps) (hnew : jobs.lookup uid = none)
    (hstate : j.state = .running) (hzero : j.inflightExportBytes = 0)
    (hlimit : j.maxInflightExportBytes = c.quotaMaxInflightExportBytes) :
    JobCounts c (jobs.insert uid j) ps where
  job uid' j' hj' := by
    rcases Table.lookup_insert_eq_some.1 hj' with ⟨rfl, rfl⟩ | ⟨-, hj'⟩
    · refine ⟨?_, hstate, hlimit⟩
      rw [hzero, pulledBytes_eq_zero]
      intro l hl hjob
      have hsome := h.registered l hl
      rw [hjob, hnew] at hsome
      exact nomatch hsome
    · exact h.job uid' j' hj'
  bounded := h.bounded
  registered l hl := Table.isSome_lookup_insert (h.registered l hl)
  within := h.within

/-- The pulls of one job change, and its count with them. -/
theorem modify (h : JobCounts c jobs ps)
    (hf : ∀ j, jobs.lookup uid = some j → (f j).state = j.state ∧
      (f j).maxInflightExportBytes = j.maxInflightExportBytes ∧
      (f j).inflightExportBytes = pulledBytes ps' uid)
    (hother : ∀ uid', uid' ≠ uid → pulledBytes ps' uid' = pulledBytes ps uid')
    (hbound : pulledBytes ps' uid < 2 ^ 64) (hreg : ∀ l ∈ ps', (jobs.lookup l.req.job).isSome)
    (hwithin : 0 < c.maxConcurrentExportsPerJob → 0 < c.quotaMaxInflightExportBytes → ∀ uid,
      2 ≤ busyPulls ps' uid → pulledBytes ps' uid ≤ c.quotaMaxInflightExportBytes) :
    JobCounts c (jobs.modify uid f) ps' where
  job uid' j' hj' := by
    rcases Table.lookup_modify_eq_some.1 hj' with ⟨rfl, j, hj, rfl⟩ | ⟨hne, hj'⟩
    · obtain ⟨hstate, hlimit, hbytes⟩ := hf j hj
      obtain ⟨-, hrun, hmax⟩ := h.job _ j hj
      exact ⟨hbytes, hstate.trans hrun, hlimit.trans hmax⟩
    · rw [hother uid' hne]
      exact h.job uid' j' hj'
  bounded uid' := by
    by_cases hne : uid' = uid
    · exact hne ▸ hbound
    · rw [hother uid' hne]
      exact h.bounded uid'
  registered l hl := Table.isSome_lookup_modify (hreg l hl)
  within := hwithin

/-- A pull is accepted. -/
theorem start (h : JobCounts c jobs ps) (hj : jobs.lookup l.req.job = some j)
    (hroom : pulledBytes ps l.req.job + l.nbytes < 2 ^ 64)
    (hchecked : ¬(0 < c.maxConcurrentExportsPerJob ∧ 0 < j.inflightExportBytes ∧
      0 < j.maxInflightExportBytes ∧
      j.maxInflightExportBytes < addU64 j.inflightExportBytes l.nbytes)) :
    JobCounts c (jobs.modify l.req.job fun j =>
      { j with inflightExportBytes := addU64 j.inflightExportBytes l.nbytes }) (l :: ps) := by
  have hself : pulledBytes (l :: ps) l.req.job = l.nbytes + pulledBytes ps l.req.job := by
    rw [pulledBytes_cons, if_pos rfl]
  have hadd : addU64 (pulledBytes ps l.req.job) l.nbytes = pulledBytes (l :: ps) l.req.job := by
    rw [addU64, Nat.mod_eq_of_lt hroom, hself, Nat.add_comm]
  have hother : ∀ uid, uid ≠ l.req.job → pulledBytes (l :: ps) uid = pulledBytes ps uid := by
    intro uid hne
    rw [pulledBytes_cons, if_neg (Ne.symm hne), Nat.zero_add]
  refine h.modify (fun j' hj' => ⟨rfl, rfl, ?_⟩) hother (by omega) ?_ ?_
  · dsimp only
    rw [(h.job _ j' hj').1, hadd]
  · exact List.forall_mem_cons.2 ⟨by rw [hj]; rfl, h.registered⟩
  · intro hmax hquota uid hbusy
    rw [busyPulls_cons] at hbusy
    by_cases hl : l.req.job = uid ∧ 0 < l.nbytes
    · -- Another pull has bytes, so that the limit was checked.
      obtain ⟨rfl, hbytes⟩ := hl
      rw [if_pos ⟨rfl, hbytes⟩] at hbusy
      have hpos := pulledBytes_pos (show 0 < busyPulls ps l.req.job by omega)
      obtain ⟨hexact, -, hlimit⟩ := h.job _ j hj
      rw [hexact, hlimit, hadd] at hchecked
      by_contra hlt
      exact hchecked ⟨hmax, hpos, hquota, by omega⟩
    · rw [if_neg hl] at hbusy
      have hle := h.within hmax hquota uid (by omega)
      rw [pulledBytes_cons]
      split
      · next hjob =>
        have hzero : l.nbytes = 0 := Nat.eq_zero_of_not_pos fun hpos => hl ⟨hjob, hpos⟩
        omega
      · omega

/-- A pull ends. -/
theorem finish (h : JobCounts c jobs ps) (hps : ps.Perm (l :: ps'))
    (hf : ∀ j : JobRecord, l.nbytes ≤ j.inflightExportBytes → j.inflightExportBytes < 2 ^ 64 →
      f j = { j with inflightExportBytes := j.inflightExportBytes - l.nbytes }) :
    JobCounts c (jobs.modify l.req.job f) ps' := by
  have hcons : ∀ uid, pulledBytes ps uid =
      (if l.req.job = uid then l.nbytes else 0) + pulledBytes ps' uid :=
    fun uid => (pulledBytes_perm hps).trans pulledBytes_cons
  have hself := hcons l.req.job
  rw [if_pos rfl] at hself
  have hbound := h.bounded l.req.job
  refine h.modify (fun j hj => ?_) (fun uid hne => ?_) (by omega) (fun l' hl' => ?_) ?_
  · have hexact := (h.job _ j hj).1
    rw [hf j (by omega) (by omega)]
    exact ⟨rfl, rfl, by dsimp only; omega⟩
  · rw [hcons, if_neg (Ne.symm hne), Nat.zero_add]
  · exact h.registered l' (hps.mem_iff.2 (List.mem_cons_of_mem _ hl'))
  · intro hmax hquota uid hbusy
    have hbusy' : busyPulls ps uid = _ := (busyPulls_perm hps).trans busyPulls_cons
    have hle := h.within hmax hquota uid (by omega)
    have := hcons uid
    omega

theorem initial : JobCounts c State.initial.catalog.jobs State.initial.store.pulling :=
  ⟨nofun, fun _ => Nat.two_pow_pos 64, nofun,
    fun _ _ _ hbusy => absurd hbusy (Nat.not_succ_le_zero 1)⟩

end JobCounts

/-! ## Moves -/

/-- The bytes of the pulls of a job stay within 64 bits, and the number of those of an object
    within 32 bits. -/
def pullRules : Rules := fun s e =>
  match e with
  | .pull l => pulledBytes s.store.pulling l.req.job + l.nbytes < 2 ^ 64 ∧
      pullsOf s.store.pulling l.req.objectId + 1 < 2 ^ 32
  | _ => True

instance {e : Event} : Decidable (pullRules s e) := by
  induction e using Event.casesOn <;> dsimp only [pullRules] <;> infer_instance

/-- A change that has nothing to do with the exports of the jobs. The fields that are not given
    say that nothing changes. -/
structure SameExports (s s' : State) : Prop where
  jobs : s.catalog.jobs.Linked JobRecord.SameExports s'.catalog.jobs := by
    exact .refl (fun _ => {}) _
  pulling : s'.store.pulling.Perm s.store.pulling := by exact .refl _

/-- Every move keeps the counts of the jobs. -/
theorem JobCounts.move (h : JobCounts c x.1.catalog.jobs x.1.store.pulling)
    (hm : Move c g pullRules x y) : JobCounts c y.1.catalog.jobs y.1.store.pulling := by
  have hsame (hs : SameExports x.1 y.1) : JobCounts c y.1.catalog.jobs y.1.store.pulling :=
    h.change hs.jobs hs.pulling
  cases hm with
  -- Tasks that export nothing.
  | drainBegin hi | drainCopied hi | readbackFound hi | readbackLost hi | readbackRead hi
  | warmRead hi | stage hi => exact hsame { pulling := pulling_nextTask hi rfl }
  | nextPull hi ht ht' => exact hsame { pulling := pulling_nextTask hi (ht'.trans ht.symm) }
  | drainSettled hi | drainFailed hi | readbackMissing hi | readbackFailed hi | readbackDone hi
  | warmDone hi | warmFailed hi => exact hsame { pulling := pulling_dropTask hi rfl }
  | dropTask hi _ hw => exact hsame { pulling := pulling_dropTask hi (Task.pull_of_awaits hw) }
  -- Exports.
  | startPull hpull ht hk =>
    obtain ⟨j, -, hj, -, -, -, -, -, hlimit⟩ := pullCheck_eq_ok hpull
    dsimp only
    rw [pulling_addTask ht]
    exact h.start hj hk.1 hlimit
  | @refusePull s h' req o =>
    refine hsame { jobs := .modify_modify (fun _ => {}) fun j hj => { bytes := ?_ } }
    have hbound := h.bounded (o.pullLocals req).req.job
    rw [← (h.job _ j hj).1] at hbound
    exact (subU64_mod ..).trans (Nat.mod_eq_of_lt hbound)
  | failPull hi =>
    exact h.finish (pulling_finish hi rfl) fun j hle hlt => by rw [subU64_of_le hle hlt]
  | endPull hi => exact h.finish (pulling_finish hi rfl) fun j hle _ => if_pos hle
  -- Jobs.
  | create => exact hsame { jobs := .modify_modify (fun _ => {}) fun _ _ => {} }
  | candidate | unlinkObject => exact hsame { jobs := .modify (fun _ => {}) fun _ _ => {} }
  | discard =>
    refine hsame { jobs := .modify (fun _ => {}) fun j _ => ?_ }
    split <;> exact {}
  | @registerJob s h' uid j epoch hterm hst _ _ hzero hlimit =>
    have hnew : s.catalog.jobs.lookup uid = none := by
      refine Option.eq_none_iff_forall_ne_some.2 fun j' hj' => ?_
      cases (hterm j' hj').symm.trans (h.job uid j' hj').2.1
    exact h.register hnew hst hzero hlimit
  | rehash _ _ _ hj => exact hsame { jobs := hj.linked fun _ => {} }
  | _ => exact hsame {}

/-! ## Every run -/

/-- In every state, however the pulls of the job are interleaved and end, the bytes that a job
    has in flight are those of its pulls in progress, and the count of an object is the number
    of its pulls. With a limit on the bytes and one on the number of exports, the pulls of a job
    stay within the limit as soon as two of them have bytes. -/
theorem exports_accounted (h : Reachable c (pullRules.ok c) s) :
    (∀ uid j, s.catalog.jobs.lookup uid = some j →
      j.inflightExportBytes = pulledBytes s.store.pulling uid) ∧
    (∀ oid o, s.catalog.objects.lookup oid = some o →
      o.exportRefcount = pullsOf s.store.pulling oid) ∧
    (0 < c.maxConcurrentExportsPerJob → 0 < c.quotaMaxInflightExportBytes → ∀ uid,
      2 ≤ busyPulls s.store.pulling uid →
      pulledBytes s.store.pulling uid ≤ c.quotaMaxInflightExportBytes) := by
  have hs : Orderly s ∧
      ObjectCounts (2 ^ 32 - 1) s.catalog.objects s.store.pulling ∧
      JobCounts c s.catalog.jobs s.store.pulling := by
    refine h.invariant_of_rules (motive := fun x => x.Orderly ∧
      ObjectCounts (2 ^ 32 - 1) x.1.catalog.objects x.1.store.pulling ∧
      JobCounts c x.1.catalog.jobs x.1.store.pulling) ⟨.initial, .initial, .initial⟩ ?_
    rintro x y ⟨hord, hobjects, hjobs⟩ hxy
    exact ⟨hord.move hxy, hobjects.move (by decide) hord hxy
      fun _ _ _ hk => Nat.lt_sub_of_add_lt hk.2, hjobs.move hxy⟩
  obtain ⟨-, hobjects, hjobs⟩ := hs
  exact ⟨fun uid j hj => (hjobs.job uid j hj).1, hobjects.count, hjobs.within⟩

/-- A daemon with two slots that lets a job have so many bytes in flight. -/
def limitedTo (limit : ℕ) : Config := { twoKept with quotaMaxInflightExportBytes := limit }

/-- The two objects of a sealed version are being pulled, and counted, up to the limit. -/
theorem exports_accounted_pulled :
    ∃ s j o, Reachable (limitedTo 8) (pullRules.ok (limitedTo 8)) s ∧
      (s.catalog.jobs.lookup theJob = some j ∧ s.catalog.objects.lookup 2 = some o ∧
        pulledBytes s.store.pulling theJob = 8 ∧ pullsOf s.store.pulling 2 = 1 ∧
        busyPulls s.store.pulling theJob = 2) ∧
      j.inflightExportBytes = pulledBytes s.store.pulling theJob ∧
      o.exportRefcount = pullsOf s.store.pulling 2 ∧ pulledBytes s.store.pulling theJob ≤ 8 := by
  refine exists_reachable₃_and (limitedTo 8) _ ([registers, registersJob] ++
    createsIn 0 1 1 1 4 [[1]] ++ createsIn 1 2 2 2 4 [[2]] ++ [seals 3, pulls 4 1, pulls 4 2])
    (by decide +kernel) ?_
  rintro s j o hs ⟨hj, ho, -, -, hbusy⟩
  obtain ⟨hjobs, hobjects, hlimit⟩ := exports_accounted hs
  exact ⟨hjobs _ _ hj, hobjects _ _ ho, hlimit (by decide) (by decide) theJob hbusy.ge⟩

/-- An object of no bytes is pulled, and with it another one of four. The limit of two bytes is
    not looked at, since the job has no bytes in flight. -/
theorem empty_pull_ignores_limit :
    ∃ s l l', Reachable (limitedTo 2) (pullRules.ok (limitedTo 2)) s ∧ s.store.pulling = [l, l'] ∧
      l.req.job = theJob ∧ l'.req.job = theJob ∧ 0 < (limitedTo 2).maxConcurrentExportsPerJob ∧
      0 < (limitedTo 2).quotaMaxInflightExportBytes ∧
      (limitedTo 2).quotaMaxInflightExportBytes < pulledBytes s.store.pulling theJob := by
  obtain ⟨s, hs, hp⟩ := exists_reachable (limitedTo 2) (pullRules.ok (limitedTo 2))
    (p := fun s => (match s.store.pulling with
      | [l, l'] => decide (l.req.job = theJob ∧ l'.req.job = theJob ∧
          2 < pulledBytes s.store.pulling theJob)
      | _ => false) = true)
    ([registers, registersJob] ++ createsIn 0 1 1 1 0 [] ++ createsIn 1 2 2 2 4 [[2]] ++
      [seals 3, pulls 4 1, pulls 4 2]) (by decide +kernel)
  split at hp
  · next l l' hpulling =>
    obtain ⟨hl, hl', hlt⟩ := of_decide_eq_true hp
    exact ⟨s, l, l', hs, hpulling, hl, hl', by decide, by decide, hlt⟩
  · cases hp

end StateSpectre
