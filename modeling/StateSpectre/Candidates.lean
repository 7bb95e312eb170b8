import StateSpectre.Commit
import StateSpectre.Occasions
import StateSpectre.Tables

/-!
# What becomes of candidates

A rank that finds an object still being created may copy its own bytes into a candidate, and so
may a rank that wants the bytes compared before it is attached to an object. The first commit of
valid bytes should make the object valid, and the later ones should be compared with it and
attach their ranks (`FirstWins`). A rank that asked for the comparison should be attached only
if there were two hashes to compare, and a copy to take one of (`AttachesVerified`).

But only the commit of the creator can make an object valid: a candidate that is committed
earlier is thrown away, with the only valid bytes there are (`candidate_discarded_first`). The
first commit wins if and only if no candidate with a lease or bytes is committed before the
creator (`first_commit_wins_iff`). And a hash that is not given agrees with any
(`attach_unverified`): ranks are attached after a comparison if and only if both hashes are given
and the copy of the candidate was accepted (`attach_verified_iff`).
-/

namespace StateSpectre

variable {c : Config} {s s' : State} {req : CommitCanonicalObjectRequest} {o : CanonicalObject}
  {a : Action} {now r oid : ℕ}

/-! ## Commits -/

theorem discarded_objects :
    (discarded c s now req o).catalog.objects = s.catalog.objects := by
  rw [discarded]
  split
  · rfl
  · simp only [discardCandidate]
    split <;> rfl

theorem discarded_leases :
    (discarded c s now req o).store.leases.lookup req.leaseId = none := by
  rw [discarded]
  split
  · next hL => exact hL
  · simp only [discardCandidate]
    split <;> exact AList.lookup_erase _ _

/-- The commit of a creator is checked against the location of its object. -/
theorem handleCommit_of_createdBy (he : c.enableCanonicalStore)
    (hv : s.epochValid req.rankId req.rankEpoch)
    (ho : s.catalog.objects.lookup req.objectId = some o) (hc : o.createdBy req.leaseId) :
    handleCommitCanonicalObject c s now req = commitCreator s req := by
  rw [handleCommitCanonicalObject, he, hv, ho]
  exact if_pos hc

/-- Any other commit is one of a candidate. -/
theorem handleCommit_of_not_createdBy (he : c.enableCanonicalStore)
    (hv : s.epochValid req.rankId req.rankEpoch)
    (ho : s.catalog.objects.lookup req.objectId = some o) (hc : o.createdBy req.leaseId = false) :
    handleCommitCanonicalObject c s now req = commitCandidate c s now req o := by
  rw [handleCommitCanonicalObject, he, hv, ho]
  exact if_neg (ne_true_of_eq_false hc)

/-! ## The first commit -/

/-- The tensor that the bytes of a commit are under: that of the object if the lease is the one
    it was created with, and else the one of a copy that was accepted for the lease. -/
def StagedUnder (s : State) (req : CommitCanonicalObjectRequest) (o : CanonicalObject) (t : ℕ) :
    Prop :=
  if req.leaseId = o.leaseId then t = canonicalTid req.objectId
  else ∃ e ∈ s.store.history.accepted, e.leaseId = req.leaseId ∧ e.tensorId = t

/-- The bytes of a tensor are in some tier. -/
def Store.HasBytes (st : Store) (t : ℕ) : Prop :=
  ∃ loc, st.locations.lookup t = some loc ∧ loc.kind ≠ .none ∧ loc.kind ≠ .deleted

/-- The commit of an object comes out as its bytes and those before it have it. -/
structure FirstWins (s : State) (req : CommitCanonicalObjectRequest) (o : CanonicalObject)
    (r : State × CommitCanonicalObjectResponse) : Prop where
  /-- The first bytes that are there become those of the object. -/
  first : o.state = .creating → ∀ t, StagedUnder s req o t → s.store.HasBytes t →
    r.2.ok ∧ (∃ o', r.1.catalog.objects.lookup req.objectId = some o' ∧ o'.state.attachable ∧
      o'.contentHashLo = req.contentHashLo ∧ o'.contentHashHi = req.contentHashHi) ∧
    r.1.store.locations.lookup (canonicalTid req.objectId) = s.store.locations.lookup t
  /-- Later ones that agree with them attach their rank. -/
  later : o.state.attachable → hashMatches o req → ∀ t, StagedUnder s req o t →
    s.store.HasBytes t →
    r.2.ok ∧ ∃ o', r.1.catalog.objects.lookup req.objectId = some o' ∧ req.rankId ∈ o'.holders
  /-- As long as the object is being created nobody is refused and loses its lease. -/
  kept : r.2.ok = false → (∃ o', r.1.catalog.objects.lookup req.objectId = some o' ∧
      o'.state = .creating) →
    (s.store.leases.lookup req.leaseId).isSome → (r.1.store.leases.lookup req.leaseId).isSome

theorem committedState_attachable (kind : LocationKind) : (committedState kind).attachable := by
  cases kind <;> rfl

/-- The commit of the creator makes the object valid if its bytes are there. -/
theorem firstWins_commitCreator (ho : s.catalog.objects.lookup req.objectId = some o)
    (hc : o.createdBy req.leaseId) : FirstWins s req o (commitCreator s req) := by
  have hcreating : o.state = .creating ∧ o.leaseId = req.leaseId := by
    simpa [CanonicalObject.createdBy] using hc
  rw [commitCreator]
  refine ⟨fun _ t ht => ?_, fun hatt => ?_, fun hno _ hL => ?_⟩
  · rw [StagedUnder, if_pos hcreating.2.symm] at ht
    rintro ⟨loc, hloc, hkind⟩
    subst ht
    rw [hloc]
    dsimp only
    rw [if_neg (not_or.2 hkind)]
    exact ⟨rfl, ⟨_, Table.lookup_modify_self ho, committedState_attachable _, rfl, rfl⟩, hloc⟩
  · rw [hcreating.1] at hatt
    cases hatt
  · split at hno
    · exact hL
    · split at hno
      · next h => rw [if_pos h]; exact hL
      · cases hno

/-- What a candidate should have for the order to be kept: if the object is still being created
    it has neither a lease to lose nor bytes to win with. -/
def Awaits (s : State) (req : CommitCanonicalObjectRequest) (o : CanonicalObject) : Prop :=
  s.store.leases.lookup req.leaseId = none ∧ ∀ t, StagedUnder s req o t → ¬s.store.HasBytes t

/-- The commit of a candidate of an object that is being created is refused, whatever bytes there
    are. -/
theorem firstWins_commitCandidate_creating (ho : s.catalog.objects.lookup req.objectId = some o)
    (hcr : o.state = .creating) :
    FirstWins s req o (commitCandidate c s now req o) ↔ Awaits s req o := by
  have hatt : o.state.attachable = false := by
    rw [hcr]
    rfl
  rw [commitCandidate_eq, hatt, Bool.not_false, if_pos rfl]
  constructor
  · intro h
    refine ⟨?_, fun t ht hb => Bool.noConfusion (h.first hcr t ht hb).1⟩
    by_contra hL
    have ho' : (discarded c s now req o).catalog.objects.lookup req.objectId = some o := by
      rw [discarded_objects, ho]
    have hkept := h.kept rfl ⟨o, ho', hcr⟩ (Option.isSome_iff_ne_none.2 hL)
    rw [discarded_leases] at hkept
    cases hkept
  · rintro ⟨hL, hb⟩
    refine ⟨fun _ t ht hb' => absurd hb' (hb t ht), fun h => ?_, fun _ _ h => ?_⟩
    · cases hatt.symm.trans h
    · rw [hL] at h
      cases h

/-- The commit of a candidate of an object that is not being created is compared with it. -/
theorem firstWins_commitCandidate (ho : s.catalog.objects.lookup req.objectId = some o)
    (hcr : o.state ≠ .creating) : FirstWins s req o (commitCandidate c s now req o) := by
  have ho' : (discarded c s now req o).catalog.objects.lookup req.objectId = some o :=
    (congrArg _ discarded_objects).trans ho
  rw [commitCandidate_eq]
  refine ⟨fun h => absurd h hcr, fun hatt hmatch _ _ _ => ?_, ?_⟩
  · rw [hatt, hmatch]
    exact ⟨rfl, _, Table.lookup_modify_self ho', Finset.mem_insert_self ..⟩
  · rintro hno ⟨o', hobj, hcr'⟩
    split at hno
    · next h =>
      rw [if_pos h, ho'] at hobj
      exact absurd (Option.some.inj hobj ▸ hcr') hcr
    · split at hno
      · next h h' =>
        rw [if_neg h, if_pos h', ho'] at hobj
        exact absurd (Option.some.inj hobj ▸ hcr') hcr
      · cases hno

/-- In every state, whatever has been completed and committed before: the first commit of valid
    bytes makes the object valid with them, later ones attach their ranks, and nobody loses what
    it staged while the object is being created, if and only if no candidate that has a lease or
    bytes is committed while the object is being created. -/
theorem first_commit_wins_iff (he : c.enableCanonicalStore)
    (hv : s.epochValid req.rankId req.rankEpoch)
    (ho : s.catalog.objects.lookup req.objectId = some o) :
    FirstWins s req o (handleCommitCanonicalObject c s now req) ↔
      (o.state = .creating → req.leaseId ≠ o.leaseId → Awaits s req o) := by
  rcases hc : o.createdBy req.leaseId
  · rw [handleCommit_of_not_createdBy he hv ho hc]
    by_cases hcr : o.state = .creating
    · have hne : req.leaseId ≠ o.leaseId := by
        rintro heq
        simp [CanonicalObject.createdBy, hcr, heq] at hc
      rw [firstWins_commitCandidate_creating ho hcr]
      exact ⟨fun h _ _ => h, fun h => h hcr hne⟩
    · exact ⟨fun _ h => absurd h hcr, fun _ => firstWins_commitCandidate ho hcr⟩
  · rw [handleCommit_of_createdBy he hv ho hc]
    refine ⟨fun _ _ hne => absurd ?_ hne, fun _ => firstWins_commitCreator ho hc⟩
    have hboth : o.state = .creating ∧ o.leaseId = req.leaseId := by
      simpa [CanonicalObject.createdBy] using hc
    exact hboth.2.symm

/-- The rank `r` copies its bytes into the slot that it was lent, for a tensor of one slot. -/
def stages (now r leaseId tensorId slotId : ℕ) (data : Bytes) : List Action :=
  [.rpc now (.d2hSubmitted
      { rankId := r, rankEpoch := r + 1, leaseId := leaseId, slotId := slotId }),
    .copyD2H leaseId [data],
    .rpc now (.d2hComplete
      { rankId := r, rankEpoch := r + 1, leaseId := leaseId, tensorId := tensorId
        version := canonicalVersion, slotId := slotId })]

/-- The rank 0 creates the object 1, and the rank 1 is handed a candidate for it, both of which
    are filled. -/
def stagesBoth : List Action :=
  [registersJob, registersRank 0, registersRank 1, evicts 1 0 1,
    .rpc 1 (.evict
      { rankId := 1, rankEpoch := 2, key := shardKey 1, allowDuplicateCandidate := true })] ++
    stages 2 0 1 (canonicalTid 1) 0 [1] ++ stages 2 1 2 (candidateTid 2) 1 [1]

/-- The rank 1 commits its candidate for the object 1. -/
def candidateCommit : CommitCanonicalObjectRequest :=
  { rankId := 1, rankEpoch := 2, objectId := 1, leaseId := 2 }

/-- A rank commits its candidate before the creator does. It is refused, and its bytes are thrown
    away though they are valid and the object is still being created. -/
theorem candidate_discarded_first :
    ∃ s o, Reached twoKept s ∧
      (s.catalog.objects.lookup 1 = some o ∧ o.state = .creating ∧
        s.store.locations.lookup (candidateTid 2) = some ⟨1, .pinned, 1, 0, 4⟩ ∧
        (s.store.leases.lookup 2).isSome ∧
        let r := handleCommitCanonicalObject twoKept s 3 candidateCommit
        r.2.ok = false ∧ r.1.store.locations.lookup (candidateTid 2) = none ∧
          r.1.store.leases.lookup 2 = none ∧
          ∃ o', r.1.catalog.objects.lookup 1 = some o' ∧ o'.state = .creating) ∧
      ¬FirstWins s candidateCommit o (handleCommitCanonicalObject twoKept s 3 candidateCommit) := by
  refine exists_reachable₂_and twoKept _ stagesBoth (by decide +kernel) ?_
  rintro s o - ⟨-, -, -, hL, hok, -, hnone, hcr⟩ hwins
  exact Bool.noConfusion ((hwins.kept hok hcr hL).symm.trans (congrArg Option.isSome hnone))

/-- The creator commits first: then the candidate attaches its rank. -/
theorem first_commit_wins_creator :
    ∃ s o, Reached twoKept s ∧
      (s.catalog.objects.lookup 1 = some o ∧ o.state = .validPinned ∧ s.epochValid 1 2 ∧
        (handleCommitCanonicalObject twoKept s 3 candidateCommit).2.ok) ∧
      FirstWins s candidateCommit o (handleCommitCanonicalObject twoKept s 3 candidateCommit) := by
  refine exists_reachable₂_and twoKept _ (stagesBoth ++ [commits 3 1 1]) (by decide +kernel) ?_
  rintro s o - ⟨ho, hst, hv, -⟩
  refine (first_commit_wins_iff rfl hv ho).2 fun hcr => ?_
  cases hst.symm.trans hcr

/-! ## Verified attachment -/

/-- The ranks are attached as `P` tells. -/
def attachRules (P : ℕ → ℕ → Prop) : Rules := fun _ e => ∀ r oid, e = .attach r oid → P r oid

/-- The id is drawn and not to be created under, and the rank holds the object only if it held it
    at first or was attached to it. -/
structure HeldSince (k₀ : Catalog) (P : ℕ → ℕ → Prop) (r oid : ℕ) (x : Scene) : Prop where
  orderly : x.Orderly
  descends : Descends k₀ (x.1.catalog, x.purposes) oid
  holder : ∀ o', x.1.catalog.objects.lookup oid = some o' → r ∈ o'.holders →
    P r oid ∨ ∃ o, k₀.objects.lookup oid = some o ∧ r ∈ o.holders

theorem HeldSince.move {k₀ : Catalog} {P : ℕ → ℕ → Prop} {g : Guards} {x y : Scene}
    (h : HeldSince k₀ P r oid x) (hm : Move c g (attachRules P) x y) : HeldSince k₀ P r oid y where
  orderly := h.orderly.move hm
  descends := h.descends.move h.orderly hm
  holder o' ho' hr := by
    rcases hm.holder_origin ho' hr with ⟨o, ho, hr⟩ | ⟨hk, -⟩ | ⟨req, hp, -⟩
    · exact h.holder o ho hr
    · exact .inl (hk r oid rfl)
    -- The id was drawn before, so no search creates an object under it.
    · have hmem : .create req oid ∈ x.purposes :=
        List.mem_append_left _ (hp ▸ List.mem_singleton_self _)
      exact (h.descends.fresh (List.mem_filterMap.2 ⟨_, hmem, rfl⟩)).elim

/-- A rank that holds an object after a step held it before, or was attached to it. -/
theorem Orderly.holder_origin {resp : Response} {o' : CanonicalObject} (h : Orderly s)
    (hstep : StateSpectre.step c s a = some (s', resp)) (ho : s.catalog.objects.lookup oid = some o)
    (ho' : s'.catalog.objects.lookup oid = some o') (hr : r ∈ o'.holders) :
    r ∈ o.holders ∨ ∃ s₁, Occasion c s a (s₁, .attach r oid) := by
  have hrules : (attachRules fun r oid => ∃ s₁, Occasion c s a (s₁, .attach r oid)).ok c s a := by
    rintro ⟨s₁, e⟩ hm r oid rfl
    exact ⟨s₁, .of_mem hm rfl⟩
  have hsince := (step_moves Guards.unguarded_ok hrules hstep).invariant
    (motive := HeldSince s.catalog (fun r oid => ∃ s₁, Occasion c s a (s₁, .attach r oid)) r oid)
    (fun _ _ hx hxy => hx.move hxy)
    ⟨h, h.descends_self ho, fun o ho hr => .inr ⟨o, ho, hr⟩⟩
  rcases hsince.holder o' ho' hr with hocc | ⟨o₀, ho₀, hr₀⟩
  · exact .inr hocc
  · rw [Option.some.inj (ho.symm.trans ho₀)]
    exact .inl hr₀

/-- The evicts of the rank that find the object ask for its bytes to be verified. -/
def AsksVerified (s : State) (r oid : ℕ) (a : Action) : Prop :=
  ∀ now req o, a = .rpc now (.evict req) → req.rankId = r →
    findObjectByKey s (canonicalKeyString req.key) = some (oid, o) →
    req.dedupMode = .hashVerified ∨ req.dedupMode = .sampledHash

/-- A commit of a candidate that was handed out to the rank for the object and whose copy was
    accepted, with two hashes that are given. -/
structure Verifiable (s : State) (req : CommitCanonicalObjectRequest) (o : CanonicalObject) :
    Prop where
  object_hash : o.contentHashLo ≠ 0 ∨ o.contentHashHi ≠ 0
  request_hash : req.contentHashLo ≠ 0 ∨ req.contentHashHi ≠ 0
  granted : s.store.history.grants.lookup req.leaseId = some (req.rankId, req.objectId)
  accepted : ∃ e ∈ s.store.history.accepted, e.leaseId = req.leaseId

/-- If the rank becomes a holder of the object in a step, then by the commit of a candidate with
    the hash of the object. -/
def AttachesVerified (s : State) (a : Action) (s' : State) (r oid : ℕ) : Prop :=
  ∀ o o', s.catalog.objects.lookup oid = some o → r ∉ o.holders →
    s'.catalog.objects.lookup oid = some o' → r ∈ o'.holders →
    ∃ now req, a = .rpc now (.commit req) ∧ req.rankId = r ∧ req.objectId = oid ∧
      Verifiable s req o ∧ o.contentHashLo = req.contentHashLo ∧
      o.contentHashHi = req.contentHashHi

/-- The commit of a candidate passes the checks of the daemon. -/
structure Attaches (c : Config) (s : State) (req : CommitCanonicalObjectRequest)
    (o : CanonicalObject) : Prop where
  enabled : c.enableCanonicalStore
  valid : s.epochValid req.rankId req.rankEpoch
  object : s.catalog.objects.lookup req.objectId = some o
  candidate : o.createdBy req.leaseId = false
  attachable : o.state.attachable
  agrees : hashMatches o req

theorem Attaches.attached (h : Attaches c s req o) (now : ℕ) :
    ∃ o', (handleCommitCanonicalObject c s now req).1.catalog.objects.lookup req.objectId =
      some o' ∧ req.rankId ∈ o'.holders := by
  rw [handleCommit_of_not_createdBy h.enabled h.valid h.object h.candidate, commitCandidate_eq,
    h.attachable, h.agrees]
  exact ⟨_, Table.lookup_modify_self ((congrArg _ discarded_objects).trans h.object),
    Finset.mem_insert_self ..⟩

/-- Given hashes that match are equal. -/
theorem Verifiable.equal (h : Verifiable s req o) (hmatch : hashMatches o req) :
    o.contentHashLo = req.contentHashLo ∧ o.contentHashHi = req.contentHashHi := by
  have hobj := h.object_hash
  have hreq := h.request_hash
  simp only [hashMatches, Bool.or_eq_true, Bool.and_eq_true, beq_iff_eq] at hmatch
  omega

/-- In every state reached, and for every step of a rank that asked for verification: it becomes
    a holder of an object only by the commit of a candidate whose copy was accepted, with a hash
    equal to the one recorded, if and only if the commits that pass the checks of the daemon are
    of candidates whose copies were accepted and the hashes are given on both sides. -/
theorem attach_verified_iff {resp : Response} (h : Reached c s)
    (hstep : step c s a = some (s', resp)) (hasks : AsksVerified s r oid a) :
    AttachesVerified s a s' r oid ↔
      ∀ now req o, a = .rpc now (.commit req) → req.rankId = r → req.objectId = oid →
        Attaches c s req o → r ∉ o.holders → Verifiable s req o := by
  constructor
  · rintro hver now req o rfl rfl rfl hatt hnew
    obtain ⟨o', ho', hr⟩ := hatt.attached now
    cases hstep
    obtain ⟨now', req', heq, -, -, hv, -⟩ := hver o o' hatt.object hnew ho' hr
    cases heq
    exact hv
  · intro hcond o o' ho hnew ho' hr
    obtain ⟨s₁, hocc⟩ := (h.orderly.holder_origin hstep ho ho' hr).resolve_left hnew
    cases hocc with
    | @evict now req _ o₁ _ hfind _ hmode => exact absurd (hasks now req o₁ rfl rfl hfind) hmode
    | @commit now req o₁ hv ho₁ hc hatt hmatch =>
      cases ho.symm.trans ho₁
      have hon : c.enableCanonicalStore := by
        by_contra hoff
        have hs' : (handleCommitCanonicalObject c s now req).1 = s' :=
          congrArg Prod.fst (Option.some.inj hstep)
        rw [handleCommitCanonicalObject, if_pos (by simpa using hoff)] at hs'
        exact hnew (Option.some.inj (ho.symm.trans (hs' ▸ ho')) ▸ hr)
      have hver := hcond now req o rfl rfl rfl ⟨hon, hv, ho, hc, hatt, hmatch⟩ hnew
      exact ⟨now, req, rfl, rfl, rfl, hver, hver.equal hmatch⟩

/-- The rank 0 creates the object 1 and commits it with a hash. The rank 1 asks for it to be
    verified, and is handed a candidate. -/
def verifies (hash : ℕ) : List Action :=
  [registersJob, registersRank 0, registersRank 1, evicts 1 0 1] ++
    stages 1 0 1 (canonicalTid 1) 0 [1] ++
    [.rpc 1 (.commit
      { rankId := 0, rankEpoch := 1, objectId := 1, leaseId := 1, contentHashLo := hash }),
    .rpc 2 (.evict
      { rankId := 1, rankEpoch := 2, key := shardKey 1, dedupMode := .hashVerified })]

/-- An object was committed without a hash. A rank that asked for verification is attached to it
    without copying anything. -/
theorem attach_unverified :
    ∃ s s' resp, Reached twoKept s ∧
      (step twoKept s (.rpc 3 (.commit candidateCommit)) = some (s', resp) ∧
        s.store.history.accepted.length = 1 ∧
        (∃ o, s.catalog.objects.lookup 1 = some o ∧ 1 ∉ o.holders ∧ o.contentHashLo = 0 ∧
          o.contentHashHi = 0) ∧
        ∃ o', s'.catalog.objects.lookup 1 = some o' ∧ 1 ∈ o'.holders) ∧
      ¬AttachesVerified s (.rpc 3 (.commit candidateCommit)) s' 1 1 := by
  refine exists_reachable₃_and twoKept _ (verifies 0) (by decide +kernel) ?_
  rintro s s' resp - ⟨-, -, ⟨o, ho, hnew, hlo, hhi⟩, o', ho', hr⟩ hver
  obtain ⟨now, req, -, -, -, hver, -⟩ := hver o o' ho hnew ho' hr
  exact hver.object_hash.elim (absurd hlo) (absurd hhi)

/-- A rank is attached to an object that was committed with the hash of its candidate. -/
theorem attach_verified_equal :
    ∃ s s' resp, Reached twoKept s ∧
      (step twoKept s (.rpc 3 (.commit { candidateCommit with contentHashLo := 9 })) =
          some (s', resp) ∧
        (∃ o, s.catalog.objects.lookup 1 = some o ∧ o.contentHashLo = 9) ∧
        (∃ o', s'.catalog.objects.lookup 1 = some o' ∧ 1 ∈ o'.holders) ∧
        s.store.history.grants.lookup 2 = some (1, 1) ∧
        ∃ e ∈ s.store.history.accepted, e.leaseId = 2) ∧
      AttachesVerified s (.rpc 3 (.commit { candidateCommit with contentHashLo := 9 })) s' 1 1 := by
  refine exists_reachable₃_and twoKept _ (verifies 9 ++ stages 2 1 2 (candidateTid 2) 1 [1])
    (by decide +kernel) ?_
  rintro s s' resp hs ⟨hstep, ⟨o, ho, hlo⟩, -, hgrant, hacc⟩
  refine (attach_verified_iff hs hstep ?_).2 ?_
  · rintro _ _ _ ⟨⟩
  · rintro now req o₁ ⟨⟩ - - hatt -
    cases ho.symm.trans hatt.object
    exact ⟨.inl (by simp [hlo]), .inl (by simp), hgrant, hacc⟩

end StateSpectre
