import StateSpectre.Candidates
import StateSpectre.LeaseIds
import StateSpectre.Lib.Total

/-!
# The quota of a job

The bytes that a job may pin are limited. An evict charges the bytes of the run that it is
given, be it for a new object or for a candidate, and they are given back when the object is
reclaimed, or when the candidate is committed and thrown away. So the count should be that of
the objects of the job and of its outstanding candidates (`chargedBytes`).

It is not when the lease of a candidate goes in another way: its rank releases it, its run is
drained, or its rank dies. Then the bytes are never given back (`released_candidate_charged`).
Besides, the quota is checked before a search releases the mutex and not again when it goes on,
and in 64 bits. If every run is charged within the quota (`quotaRules`), and no candidate is
lost (`candidateGuards`), the count is exact and within the quota in every state
(`pinned_bytes_exact`).
-/

namespace StateSpectre

variable {c : Config} {g : Guards} {k : Rules} {x y : Scene} {s s' : State} {st st' : Store}
  {p : Purpose} {uid : JobUID} {jobs jobs' : Table JobUID JobRecord} {bytes bytes' : JobUID → ℕ}
  {j j' : JobRecord} {f : JobRecord → JobRecord} {n : ℕ}

/-! ## What is charged to a job -/

def Catalog.objectBytes (k : Catalog) (uid : JobUID) : ℕ :=
  k.objects.total fun _ o => if o.key.job = uid then o.nbytes else 0

/-- The bytes of the outstanding candidates of a job: those whose lease is live. -/
def Store.candidateBytes (st : Store) (uid : JobUID) : ℕ :=
  st.leases.total fun id L => if st.history.charged.lookup id = some uid then L.nbytes else 0

/-- The bytes that a job should be charged for. -/
def State.chargedBytes (s : State) (uid : JobUID) : ℕ :=
  s.catalog.objectBytes uid + s.store.candidateBytes uid

/-- A job is within its quota. -/
def JobRecord.WithinQuota (j : JobRecord) : Prop :=
  j.pinnedBytes < 2 ^ 64 ∧ (j.maxPinnedBytes = 0 ∨ j.pinnedBytes ≤ j.maxPinnedBytes)

/-- There is room for `n` more bytes: their sum does not wrap, and the quota allows it. -/
abbrev JobRecord.HasRoom (j : JobRecord) (n : ℕ) : Prop :=
  j.pinnedBytes + n < 2 ^ 64 ∧ quotaAllowsPinned j n

/-- If a lease is live, it is not that of a candidate. -/
abbrev Store.NoCandidate (st : Store) (id : ℕ) : Prop :=
  (st.leases.lookup id).isSome → st.history.charged.lookup id = none

/-- A candidate's lease is not released, and not dropped at the end of an H2D copy. -/
abbrev candidateGuards : Guards where
  h2d st L t _ := (st.h2dCold t L.baseSlot).isSome →
    ∀ id L', st.leases.lookup id = some L' → L' = L → st.history.charged.lookup id = none
  release st L :=
    ∀ id L', st.leases.lookup id = some L' → L' = L → st.history.charged.lookup id = none

/-- Runs are charged to a job that has room for them. The lease of a candidate is dropped only
    when the candidate is committed, to an object of the job that it was charged to and of its
    size. -/
def quotaRules : Rules := fun s e =>
  match e with
  | .charge uid nbytes => ∀ j, s.catalog.jobs.lookup uid = some j → j.HasRoom nbytes
  | .refund id L o => s.store.history.charged.lookup id = some o.key.job ∧ L.nbytes = o.nbytes
  | .dropLease id => s.store.NoCandidate id
  | .settle w => s.store.NoCandidate w.leaseId
  | .endSession rankId => ∀ ses, s.sessions.lookup rankId = some ses →
      ∀ r ∈ sessionLeases s rankId ses.rankEpoch, s.store.NoCandidate r.1
  | _ => True

instance : DecidableGuards candidateGuards where

instance {e : Event} : Decidable (quotaRules s e) := by
  induction e using Event.casesOn <;> dsimp only [quotaRules] <;> infer_instance

/-! ## Accounts -/

/-- The counts of all jobs are exact and within the quota; all jobs are running, and only
    registered ones are charged. -/
structure Balanced (jobs : Table JobUID JobRecord) (bytes : JobUID → ℕ) : Prop where
  job : ∀ uid j, jobs.lookup uid = some j →
    j.pinnedBytes = bytes uid ∧ j.WithinQuota ∧ j.state = .running
  registered : ∀ uid, bytes uid ≠ 0 → (jobs.lookup uid).isSome

/-- A job after a change has the same account. -/
structure JobRecord.SameAccount (j j' : JobRecord) : Prop where
  state : j'.state = j.state := by rfl
  pinned : j'.pinnedBytes = j.pinnedBytes := by rfl
  quota : j'.maxPinnedBytes = j.maxPinnedBytes := by rfl

namespace Balanced

theorem change (h : Balanced jobs bytes) (hj : jobs.Linked JobRecord.SameAccount jobs')
    (hb : ∀ uid, bytes' uid = bytes uid) : Balanced jobs' bytes' := by
  obtain rfl : bytes' = bytes := funext hb
  refine ⟨fun uid j' hj' => ?_, fun uid hu => ?_⟩
  · obtain ⟨j, hu, hs⟩ := hj.of_lookup hj'
    rw [JobRecord.WithinQuota, hs.pinned, hs.quota, hs.state]
    exact h.job _ _ hu
  · rw [hj.isSome]
    exact h.registered uid hu

/-- A job is charged for `n` bytes that it has room for. -/
theorem charge (h : Balanced jobs bytes) (hjob : (jobs.lookup uid).isSome)
    (hroom : ∀ j, jobs.lookup uid = some j → j.HasRoom n)
    (hf : ∀ j, (f j).state = j.state ∧ (f j).maxPinnedBytes = j.maxPinnedBytes ∧
      (f j).pinnedBytes = addU64 j.pinnedBytes n)
    (hb : ∀ u, bytes' u = bytes u + if u = uid then n else 0) :
    Balanced (jobs.modify uid f) bytes' := by
  have hpinned : ∀ j, jobs.lookup uid = some j → (f j).pinnedBytes = j.pinnedBytes + n :=
    fun j hj => (hf j).2.2.trans (Nat.mod_eq_of_lt (hroom j hj).1)
  refine ⟨fun u j' hj' => ?_, fun u hu => ?_⟩
  · rw [hb]
    rcases Table.lookup_modify_eq_some.1 hj' with ⟨rfl, j, hj, rfl⟩ | ⟨hne, hj⟩
    · obtain ⟨hfits, hquota⟩ := hroom j hj
      rw [quotaAllowsPinned, Bool.or_eq_true, beq_iff_eq, decide_eq_true_eq, addU64,
        Nat.mod_eq_of_lt hfits] at hquota
      obtain ⟨hexact, -, hrun⟩ := h.job u j hj
      rw [JobRecord.WithinQuota, hpinned j hj, (hf j).1, (hf j).2.1, if_pos rfl, hexact]
      exact ⟨rfl, hexact ▸ ⟨hfits, hquota⟩, hrun⟩
    · rw [if_neg hne]
      exact h.job _ _ hj
  · by_cases hne : u = uid
    · exact Table.isSome_lookup_modify (hne ▸ hjob)
    · rw [hb, if_neg hne, Nat.add_zero] at hu
      exact Table.isSome_lookup_modify (h.registered u hu)

/-- A job is given back `n` of the bytes that it was charged for. -/
theorem refund (h : Balanced jobs bytes)
    (hf : ∀ j, (f j).state = j.state ∧ (f j).maxPinnedBytes = j.maxPinnedBytes ∧
      (f j).pinnedBytes = if n ≤ j.pinnedBytes then j.pinnedBytes - n else j.pinnedBytes)
    (hb : ∀ u, bytes u = bytes' u + if u = uid then n else 0) :
    Balanced (jobs.modify uid f) bytes' := by
  have hpinned : ∀ j, jobs.lookup uid = some j → (f j).pinnedBytes + n = j.pinnedBytes := by
    intro j hj
    have hle := (h.job uid j hj).1
    rw [hb, if_pos rfl] at hle
    rw [(hf j).2.2, if_pos (by omega)]
    omega
  refine ⟨fun u j' hj' => ?_, fun u hu => ?_⟩
  · rcases Table.lookup_modify_eq_some.1 hj' with ⟨rfl, j, hj, rfl⟩ | ⟨hne, hj⟩
    · have hle := hpinned j hj
      obtain ⟨he, ⟨hfits, hquota⟩, hrun⟩ := h.job _ _ hj
      rw [hb, if_pos rfl] at he
      rw [JobRecord.WithinQuota, (hf j).1, (hf j).2.1]
      exact ⟨by omega, ⟨by omega, hquota.imp_right fun hq => by omega⟩, hrun⟩
    · have he := h.job _ _ hj
      rwa [hb, if_neg hne] at he
  · refine Table.isSome_lookup_modify (h.registered u ?_)
    have := hb u
    omega

/-- A job registers that was not registered, and so was not charged. -/
theorem register (h : Balanced jobs bytes) (hnew : jobs.lookup uid = none)
    (hstate : j.state = .running) (hzero : j.pinnedBytes = 0) :
    Balanced (jobs.insert uid j) bytes := by
  have hnone : bytes uid = 0 := by
    by_contra hne
    have hreg := h.registered uid hne
    rw [hnew] at hreg
    cases hreg
  refine ⟨fun u j' hj' => ?_, fun u hu => Table.isSome_lookup_insert (h.registered u hu)⟩
  rcases Table.lookup_insert_eq_some.1 hj' with ⟨rfl, rfl⟩ | ⟨-, hj⟩
  · rw [JobRecord.WithinQuota, hzero, hnone]
    exact ⟨rfl, ⟨by decide, .inr (Nat.zero_le _)⟩, hstate⟩
  · exact h.job _ _ hj

end Balanced

/-! ## Candidates -/

/-- Leases that are not those of candidates may come and go. -/
theorem Store.candidateBytes_eq (hc : st'.history.charged = st.history.charged)
    (hl : ∀ id, (st.history.charged.lookup id).isSome →
      st'.leases.lookup id = st.leases.lookup id) :
    st'.candidateBytes uid = st.candidateBytes uid := by
  refine Table.total_congr fun id => ?_
  rw [hc]
  rcases hid : st.history.charged.lookup id with _ | u
  · cases st'.leases.lookup id <;> cases st.leases.lookup id <;> rfl
  · rw [hl id (by rw [hid]; rfl)]

theorem Store.candidateBytes_erase {id : ℕ} (h : st.NoCandidate id) :
    (st.dropLease id).candidateBytes uid = st.candidateBytes uid := by
  refine candidateBytes_eq rfl fun id' hid' => ?_
  refine (Table.lookup_erase ..).trans ?_
  split
  · next he =>
    subst he
    rcases hL : st.leases.lookup id' with _ | L
    · rfl
    · rw [h (by rw [hL]; rfl)] at hid'
      cases hid'
  · rfl

theorem Store.candidateBytes_insert {id : ℕ} {L : Lease} (h : st.history.charged.lookup id = none)
    (hc : st'.history.charged = st.history.charged) (hl : st'.leases = st.leases.insert id L) :
    st'.candidateBytes uid = st.candidateBytes uid := by
  refine candidateBytes_eq hc fun id' hid' => ?_
  rw [hl]
  refine AList.lookup_insert_ne ?_
  rintro rfl
  rw [h] at hid'
  cases hid'

/-- A candidate is granted under an id that no lease has. -/
theorem Store.candidateBytes_grant {id : ℕ} {L : Lease} {u : JobUID}
    (h : st.leases.lookup id = none) (hc : st'.history.charged = st.history.charged.insert id u)
    (hl : st'.leases = st.leases.insert id L) :
    st'.candidateBytes uid = st.candidateBytes uid + if uid = u then L.nbytes else 0 := by
  rw [candidateBytes, hl, Table.total_insert h, hc, AList.lookup_insert]
  refine congrArg₂ (· + ·) (Table.total_congr fun id' => ?_) (by simp [eq_comm])
  by_cases he : id' = id
  · rw [he, h]
    rfl
  · rw [AList.lookup_insert_ne he]

/-- A candidate is thrown away. -/
theorem Store.candidateBytes_discard {id : ℕ} {L : Lease} {u : JobUID}
    (hL : st.leases.lookup id = some L) (hc : st.history.charged.lookup id = some u) :
    st.candidateBytes uid =
      (st.dropLease id).candidateBytes uid + if uid = u then L.nbytes else 0 := by
  have htotal := Table.total_erase (f := fun id L =>
    if st.history.charged.lookup id = some uid then L.nbytes else 0) hL
  rw [candidateBytes, ← htotal, hc]
  simp [candidateBytes, Store.dropLease, eq_comm]

/-! ## Objects -/

/-- An object after a change is of the same job and size, and has the same lease. -/
structure CanonicalObject.SameCharge (o o' : CanonicalObject) : Prop where
  job : o'.key.job = o.key.job := by rfl
  nbytes : o'.nbytes = o.nbytes := by rfl
  leaseId : o'.leaseId = o.leaseId := by rfl

theorem Catalog.objectBytes_eq {k k' : Catalog}
    (h : k.objects.Linked CanonicalObject.SameCharge k'.objects) :
    k'.objectBytes uid = k.objectBytes uid :=
  h.total_eq fun _ o o' ho => by rw [ho.job, ho.nbytes]

theorem Catalog.objectBytes_insert {k k' : Catalog} {oid : ℕ} {o : CanonicalObject}
    (h : k.objects.lookup oid = none) (ho : k'.objects = k.objects.insert oid o) :
    k'.objectBytes uid = k.objectBytes uid + if uid = o.key.job then o.nbytes else 0 := by
  rw [objectBytes, ho, Table.total_insert h, objectBytes]
  simp [eq_comm]

theorem Catalog.objectBytes_erase {k k' : Catalog} {oid : ℕ} {o : CanonicalObject}
    (h : k.objects.lookup oid = some o) (ho : k'.objects = k.objects.erase oid) :
    k.objectBytes uid = k'.objectBytes uid + if uid = o.key.job then o.nbytes else 0 := by
  rw [objectBytes, objectBytes, ho, ← Table.total_erase h]
  simp [eq_comm]

/-! ## Charges -/

section Charges

variable {req : RequestCanonicalEvictRequest} {o : CanonicalObject} {L : Lease}
  {id oid tid base now : ℕ}

/-- The job of a new object is charged for it. -/
theorem Balanced.create (h : Balanced s.catalog.jobs s.chargedBytes)
    (hjob : (s.catalog.jobs.lookup req.key.job).isSome)
    (hroom : ∀ j, s.catalog.jobs.lookup req.key.job = some j → j.HasRoom req.key.nbytes)
    (hnew : s.catalog.objects.lookup oid = none)
    (hnext : s.store.history.charged.lookup s.store.nextLeaseId = none) :
    Balanced (grantCreate c s now req oid base).1.catalog.jobs
      (grantCreate c s now req oid base).1.chargedBytes := by
  have hobj : ∀ u, (grantCreate c s now req oid base).1.catalog.objectBytes u =
      s.catalog.objectBytes u + if u = req.key.job then req.key.nbytes else 0 :=
    fun _ => Catalog.objectBytes_insert (o := newObject c req _ base) hnew rfl
  have hcand : ∀ u, (grantCreate c s now req oid base).1.store.candidateBytes u =
      s.store.candidateBytes u := fun _ => Store.candidateBytes_insert hnext rfl rfl
  -- The job is told twice: of the bytes, and of the object.
  have hjobs : (grantCreate c s now req oid base).1.catalog.jobs =
      s.catalog.jobs.modify req.key.job fun j =>
        { j with
          pinnedBytes := addU64 j.pinnedBytes req.key.nbytes
          canonicalObjectCount := addU64 j.canonicalObjectCount 1 } := Table.modify_modify ..
  rw [hjobs]
  refine h.charge (n := req.key.nbytes) hjob hroom (fun _ => ⟨rfl, rfl, rfl⟩) fun u => ?_
  rw [State.chargedBytes, hcand, hobj, State.chargedBytes, Nat.add_right_comm]

/-- The job of a candidate is charged for it. -/
theorem Balanced.candidate (h : Balanced s.catalog.jobs s.chargedBytes) (verify : Bool)
    (hjob : (s.catalog.jobs.lookup req.key.job).isSome)
    (hroom : ∀ j, s.catalog.jobs.lookup req.key.job = some j → j.HasRoom req.key.nbytes)
    (hnext : s.store.leases.lookup s.store.nextLeaseId = none) :
    Balanced (grantCandidate c s now req tid oid verify base).1.catalog.jobs
      (grantCandidate c s now req tid oid verify base).1.chargedBytes := by
  have hcand : ∀ u,
      (grantCandidate c s now req tid oid verify base).1.store.candidateBytes u =
        s.store.candidateBytes u + if u = req.key.job then req.key.nbytes else 0 :=
    fun _ => Store.candidateBytes_grant (L := evictLease c s req tid base) hnext rfl rfl
  refine h.charge (n := req.key.nbytes) hjob hroom (fun _ => ⟨rfl, rfl, rfl⟩) fun u => ?_
  rw [State.chargedBytes, hcand, State.chargedBytes, ← Nat.add_assoc]
  rfl

/-- The job of an object that leaves the catalog is given its bytes back. -/
theorem Balanced.unlink (h : Balanced s.catalog.jobs s.chargedBytes)
    (hobj : s.catalog.objects.lookup oid = some o) (hlease : s.store.NoCandidate o.leaseId) :
    Balanced (unlinkObject s oid o).catalog.jobs (unlinkObject s oid o).chargedBytes := by
  refine h.refund (n := o.nbytes) (fun _ => ⟨rfl, rfl, rfl⟩) fun u => ?_
  have hobjs : s.catalog.objectBytes u = (unlinkObject s oid o).catalog.objectBytes u +
      if u = o.key.job then o.nbytes else 0 := Catalog.objectBytes_erase hobj rfl
  have hcand : (unlinkObject s oid o).store.candidateBytes u =
      s.store.candidateBytes u := Store.candidateBytes_erase hlease
  rw [State.chargedBytes, State.chargedBytes, hcand, hobjs, Nat.add_right_comm]

/-- The job of a candidate that is thrown away is given its bytes back. -/
theorem Balanced.discard (h : Balanced s.catalog.jobs s.chargedBytes)
    (hL : s.store.leases.lookup id = some L)
    (hcharged : s.store.history.charged.lookup id = some o.key.job) (hsize : L.nbytes = o.nbytes) :
    Balanced (s.unlinkCandidate id L o).catalog.jobs (s.unlinkCandidate id L o).chargedBytes := by
  refine h.refund (n := o.nbytes) (fun j => ?_) fun u => ?_
  · split <;> exact ⟨rfl, rfl, rfl⟩
  · have hcand : s.store.candidateBytes u = (s.unlinkCandidate id L o).store.candidateBytes u +
        if u = o.key.job then L.nbytes else 0 := Store.candidateBytes_discard hL hcharged
    rw [hsize] at hcand
    rw [State.chargedBytes, State.chargedBytes, hcand, ← Nat.add_assoc]
    rfl

end Charges

/-! ## Moves -/

/-- A search will not bring the accounts into disorder: it has not drawn the id of a candidate,
    and it will be charged to a job that is registered. -/
def Purpose.Accounted (s : State) : Purpose → Prop
  | prefetch _ _ _ _ id => s.store.history.charged.lookup id = none
  | create req _ | candidate req .. => (s.catalog.jobs.lookup req.key.job).isSome
  | offload .. | restore .. => True

/-- A move charges no candidate but one with the next id. -/
theorem Move.charged_lookup {id : ℕ} (h : Move c g k x y) (hid : id ≠ x.1.store.nextLeaseId) :
    y.1.store.history.charged.lookup id = x.1.store.history.charged.lookup id := by
  cases h with
  | candidate => exact AList.lookup_insert_ne hid
  | _ => rfl

/-- The accounts of the jobs balance, and will after the searches that are under way. The leases
    of objects are not those of candidates. -/
structure Accounts (x : Scene) : Prop where
  balanced : Balanced x.1.catalog.jobs x.1.chargedBytes
  searches : ∀ p ∈ x.purposes, p.Accounted x.1
  objects : ∀ oid o, x.1.catalog.objects.lookup oid = some o →
    x.1.store.history.charged.lookup o.leaseId = none ∧ o.leaseId < x.1.store.nextLeaseId
  drawn : ∀ id, x.1.store.nextLeaseId ≤ id → x.1.store.history.charged.lookup id = none

/-- Nothing is charged, and nothing is given back. -/
structure SameCharges (s s' : State) : Prop where
  jobs : s.catalog.jobs.Linked JobRecord.SameAccount s'.catalog.jobs := by
    exact .refl (fun _ => {}) _
  objects : s.catalog.objects.Linked CanonicalObject.SameCharge s'.catalog.objects := by
    exact .refl (fun _ => {}) _
  candidates : ∀ uid, s'.store.candidateBytes uid = s.store.candidateBytes uid := by
    exact fun _ => rfl
  charged : s'.store.history.charged = s.store.history.charged := by rfl
  ids : s.store.nextLeaseId ≤ s'.store.nextLeaseId := by exact le_rfl

theorem Accounts.change (h : Accounts x) (hs : ∀ p ∈ y.purposes, p.Accounted y.1)
    (hc : SameCharges x.1 y.1) : Accounts y := by
  refine ⟨h.balanced.change hc.jobs fun uid => ?_, hs, fun oid o' ho' => ?_, fun id hid => ?_⟩
  · rw [State.chargedBytes, Catalog.objectBytes_eq hc.objects, hc.candidates]
    rfl
  · obtain ⟨o, ho, hoo⟩ := hc.objects.of_lookup ho'
    rw [hc.charged, hoo.leaseId]
    exact ⟨(h.objects oid o ho).1, (h.objects oid o ho).2.trans_le hc.ids⟩
  · rw [hc.charged]
    exact h.drawn id (hc.ids.trans hid)

/-- The searches after a move. -/
theorem Accounts.searches_move (h : Accounts x) (hids : LeaseIds x) (ho : x.Orderly)
    (hm : Move c g k x y) : ∀ p ∈ y.purposes, p.Accounted y.1 := by
  intro p hp
  rcases hm.mem_purposes hp with hp | ⟨hb, hh⟩
  · have hacc := h.searches p hp
    cases p with
    | prefetch req loc version ownerPid id =>
      have hlt := (hids.drawn id (List.mem_filterMap.2 ⟨_, hp, rfl⟩)).1
      exact (hm.charged_lookup hlt.ne).trans hacc
    | create | candidate => exact ho.jobs hm hacc
    | offload | restore => trivial
  · cases p with
    | prefetch req loc version ownerPid id =>
      rw [Purpose.Accounted, hh]
      exact h.drawn id hb.ge
    | create => exact ho.jobs hm hb.1
    | candidate => exact ho.jobs hm hb
    | offload | restore => trivial

/-- Every move that meets the rules keeps the accounts. -/
theorem Accounts.move (h : Accounts x) (hids : LeaseIds x) (ho : x.Orderly)
    (hm : Move c candidateGuards quotaRules x y) : Accounts y := by
  have hs := h.searches_move hids ho hm
  have hnext := h.drawn _ le_rfl
  cases hm with
  | seekPrefetch => exact h.change hs { ids := Nat.le_succ _ }
  | lend | bind =>
    exact h.change hs
      { candidates := fun _ => Store.candidateBytes_insert hnext rfl rfl, ids := Nat.le_succ _ }
  | readback =>
    have hid := h.searches _ (List.mem_cons_self ..)
    exact h.change hs { candidates := fun _ => Store.candidateBytes_insert hid rfl rfl }
  | @create s h' req oid base now _ _ hroom =>
    have hjob := h.searches _ (List.mem_cons_self ..)
    have hnew := (ho.indexed.created oid (List.mem_cons_self ..)).2
    refine ⟨?_, hs, fun oid' o' ho' => ?_, fun id hid => h.drawn id (Nat.le_of_succ_le hid)⟩
    · exact h.balanced.create hjob hroom hnew hnext
    · rcases Table.lookup_insert_eq_some.1 ho' with ⟨-, rfl⟩ | ⟨-, ho'⟩
      · exact ⟨hnext, Nat.lt_succ_self _⟩
      · exact ⟨(h.objects oid' o' ho').1, Nat.lt_succ_of_lt (h.objects oid' o' ho').2⟩
  | @candidate s h' req tid oid verify base now _ _ hroom =>
    have hjob := h.searches _ (List.mem_cons_self ..)
    have hnone : s.store.leases.lookup s.store.nextLeaseId = none :=
      Option.eq_none_iff_forall_ne_some.2 fun L hL => (hids.live _ L hL).false
    refine ⟨?_, hs, fun oid' o' ho' => ?_, fun id hid => ?_⟩
    · exact h.balanced.candidate verify hjob hroom hnone
    · obtain ⟨hc, hlt⟩ := h.objects oid' o' ho'
      exact ⟨(AList.lookup_insert_ne hlt.ne).trans hc, Nat.lt_succ_of_lt hlt⟩
    · have hlt : s.store.nextLeaseId < id := hid
      exact (AList.lookup_insert_ne hlt.ne').trans (h.drawn id hlt.le)
  | @fallBack s h' id L t v cold hL _ hcold hg =>
    have hid : s.store.NoCandidate id := fun _ => hg (by rw [hcold]; rfl) id L hL rfl
    exact h.change hs { candidates := fun _ => Store.candidateBytes_erase hid }
  | @release s h' id L hL _ hg =>
    have hid : s.store.NoCandidate id := fun _ => hg id L hL rfl
    exact h.change hs { candidates := fun _ => Store.candidateBytes_erase hid }
  | drainSettled _ _ _ hk | dropLease _ _ _ hk =>
    exact h.change hs { candidates := fun _ => Store.candidateBytes_erase hk }
  | @endSession s h' rankId ses hses _ _ hk =>
    refine h.change hs { candidates := fun _ => Store.candidateBytes_eq rfl fun id hid => ?_ }
    refine (Table.lookup_eraseAll ..).trans ?_
    split
    · next hm =>
      obtain ⟨r, hr, rfl⟩ := List.mem_map.1 hm
      rcases hL : s.store.leases.lookup r.1 with _ | L
      · rfl
      · rw [hk ses hses r hr (by rw [hL]; rfl)] at hid
        cases hid
    · rfl
  | @unlinkObject s h' oid o hobj =>
    have hlease : s.store.NoCandidate o.leaseId := fun _ => (h.objects oid o hobj).1
    refine ⟨h.balanced.unlink hobj hlease, hs, fun oid' o' ho' => ?_, h.drawn⟩
    exact h.objects oid' o' (Table.lookup_of_lookup_erase ho')
  | discard hL _ _ _ hk =>
    exact ⟨h.balanced.discard hL hk.1 hk.2, hs, h.objects, h.drawn⟩
  | @registerJob s h' uid j epoch hterm hst _ hzero =>
    have hnew : s.catalog.jobs.lookup uid = none := by
      refine Option.eq_none_iff_forall_ne_some.2 fun j' hj' => ?_
      cases (hterm j' hj').symm.trans (h.balanced.job uid j' hj').2.2
    exact ⟨h.balanced.register hnew hst hzero, hs, h.objects, h.drawn⟩
  | warmDone | restore | endRestore | attach | letGo | commit =>
    exact h.change hs { objects := .modify (fun _ => {}) fun _ _ => {} }
  | startPull | failPull =>
    exact h.change hs
      { objects := .modify (fun _ => {}) fun _ _ => {}
        jobs := .modify (fun _ => {}) fun _ _ => {} }
  | endPull =>
    refine h.change hs
      { objects := .modify (fun _ => {}) fun _ _ => {}
        jobs := .modify (fun _ => {}) fun j _ => ?_ }
    split <;> exact {}
  | refusePull =>
    exact h.change hs
      { objects := .modify_modify (fun _ => {}) fun _ _ => {}
        jobs := .modify_modify (fun _ => {}) fun _ _ => {} }
  | sealVersion =>
    exact h.change hs { objects := sealVersion_linked _ (fun _ => {}) fun _ _ _ _ => {} }
  | rehash hl _ hobj hj =>
    exact h.change hs
      { objects := hobj.linked fun _ => {}
        jobs := hj.linked fun _ => {}
        candidates := fun _ => Store.candidateBytes_eq rfl fun id _ => hl.lookup_eq id }
  | _ => exact h.change hs {}

/-! ## Runs -/

theorem Accounts.initial : Accounts (State.initial, none, {}) :=
  ⟨⟨fun _ _ hj => (nomatch hj), fun _ hne => (hne rfl).elim⟩, fun _ hp => (nomatch hp),
    fun _ _ ho => (nomatch ho), fun _ _ => rfl⟩

/-- In every run in which runs are charged to jobs that have room for them, and the leases of
    candidates are dropped only with the candidates, the bytes that a job has pinned are those of
    its objects and of its outstanding candidates, and they are within its quota. -/
theorem pinned_bytes_exact
    (h : Reachable c (fun s a => candidateGuards.ok c s a ∧ quotaRules.ok c s a) s)
    (hj : s.catalog.jobs.lookup uid = some j) :
    j.pinnedBytes = s.catalog.objectBytes uid + s.store.candidateBytes uid ∧ j.WithinQuota := by
  have hs : LeaseIds (s, none, {}) ∧ Orderly s ∧ Accounts (s, none, {}) := by
    refine h.invariant (motive := fun x => LeaseIds x ∧ x.Orderly ∧ Accounts x)
      ⟨.initial, .initial, .initial⟩
      fun x y hx hxy => ⟨hx.1.move hxy, hx.2.1.move hxy, hx.2.2.move hx.1 hx.2.1 hxy⟩
  obtain ⟨hexact, hquota, -⟩ := hs.2.2.balanced.job uid j hj
  exact ⟨hexact, hquota⟩

/-- A rank releases the lease of its candidate: its job stays charged for it. -/
theorem released_candidate_charged :
    ∃ s j, Reached twoKept s ∧ s.catalog.jobs.lookup theJob = some j ∧
      s.store.candidateBytes theJob = 0 ∧
      s.catalog.objectBytes theJob + s.store.candidateBytes theJob < j.pinnedBytes :=
  exists_reachable₂ twoKept _
    (stagesBoth ++ [.rpc 3 (.releaseLease { rankId := 1, rankEpoch := 2, leaseId := 2 })])
    (by decide +kernel)

/-- A candidate is outstanding, and both it and the object are charged. -/
theorem pinned_bytes_exact_candidate :
    ∃ s j, Reachable twoKept
        (fun s a => candidateGuards.ok twoKept s a ∧ quotaRules.ok twoKept s a) s ∧
      (s.catalog.jobs.lookup theJob = some j ∧ s.store.candidateBytes theJob ≠ 0) ∧
      j.pinnedBytes = s.catalog.objectBytes theJob + s.store.candidateBytes theJob ∧
      j.WithinQuota :=
  exists_reachable₂_and twoKept _ stagesBoth (by decide +kernel)
    fun _ _ hs hp => pinned_bytes_exact hs hp.1

end StateSpectre
