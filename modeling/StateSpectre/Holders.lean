import StateSpectre.Holders.Ledger
import StateSpectre.Tables

/-!
# Who holds an object

Ranks create objects, are attached to them and release them. As long as sessions stay alive and
there is no drop, no retention, no transfer and no forced drain (`HolderStep`), the holders of an
object are the ranks of the ledger, and it is there exactly as long as it has one. A release
reports what it did, except that it counts bytes in 64 bits: objects of `2 ^ 63` bytes can be
created, as the number of their slots wraps around to none, and two of them are freed as no bytes
at all (`release_miscounts`). It reports exactly what it did if and only if the bytes fit
(`holders_exact`).
-/

namespace StateSpectre

variable {c : Config} {s s' : State} {now : ℕ} {a : Action} {req : CommitCanonicalObjectRequest}
  {rankId rankEpoch : ℕ} {resp : Response}

/-! ## Steps that leave the objects alone -/

theorem handleRegisterJob_objects {req : RegisterJobRequest} :
    (handleRegisterJob c s req).1.catalog.objects = s.catalog.objects := by
  simp only [handleRegisterJob]
  repeat' split
  all_goals rfl

/-- A registration that ends no session. -/
theorem invalidateSessions_of_dead {req : RegisterRankRequest}
    (h : ∀ r ses, s.sessions.lookup r = some ses → ses.alive →
      r ≠ req.rankId ∧ ses.pid ≠ req.pid) : invalidateSessions c s now req = s := by
  have hnone : ranksOfPid s req.rankId req.pid = [] := by
    refine List.map_eq_nil_iff.2 (List.filter_eq_nil_iff.2 fun x hx => ?_)
    have := h x.1 x.2 (Table.mem_rows.1 hx)
    simp only [decide_eq_true_eq]
    exact fun ⟨_, ha, hp⟩ => (this ha).2 hp
  rw [invalidateSessions, hnone, List.foldl_cons, List.foldl_nil, invalidateSession]
  split
  · rfl
  next ses hses => exact if_neg fun ha => (h _ ses hses ha).1 rfl

/-- A sweep that finds no session expired. -/
theorem heartbeatSweep_of_fresh
    (h : ∀ r ses, s.sessions.lookup r = some ses → ses.expired c now = false) :
    heartbeatSweep c s now = s := by
  refine foldl_invariant (f := checkSession c now) (motive := fun s' => s' = s) ?_ _ rfl
  rintro _ r rfl
  rw [checkSession]
  split
  · rfl
  next ses hses => exact if_neg (by simp [h r ses hses])

/-! ## Runs -/

/-- The sessions stay alive, the commits are those of creators, and there is no drop, no
    retention, no transfer and no forced drain that ends. -/
def HolderStep (c : Config) (s : State) : Action → Prop
  | .rpc _ (.register req) => ∀ r ses, s.sessions.lookup r = some ses → ses.alive →
    r ≠ req.rankId ∧ ses.pid ≠ req.pid
  | .rpc _ (.commit req) => ∀ o, s.catalog.objects.lookup req.objectId = some o →
    o.createdBy req.leaseId
  | .rpc _ (.seal req) => req.promote = false
  | .rpc _ (.drop _) | .rpc _ (.pull _) | .rpc _ (.restore _) | .rpc _ (.releaseRestore _) => False
  | .proceed _ i => ∀ t, s.store.tasks[i]? = some t → t.isWorker
  | .heartbeatSweep now => ∀ r ses, s.sessions.lookup r = some ses → ses.expired c now = false
  | _ => True

section Steps

variable {L : Ledger}

/-- The commit of a creator does not change who holds the object. -/
theorem Agrees.commitCreator (h : Agrees s L) : Agrees (commitCreator s req).1 L := by
  rw [StateSpectre.commitCreator]
  split
  · exact h
  split
  · exact h
  · refine h.frame fun oid => ?_
    rw [State.shown, State.modifyObject, Table.lookup_modify]
    split
    · next heq => rw [heq, State.shown, Option.map_map]; rfl
    · rfl

theorem Agrees.commit (h : Agrees s L)
    (hc : ∀ o, s.catalog.objects.lookup req.objectId = some o → o.createdBy req.leaseId) :
    Agrees (handleCommitCanonicalObject c s now req).1 L := by
  rw [handleCommitCanonicalObject]
  split
  · exact h
  split
  · exact h
  split
  · exact h
  next o ho =>
    rw [if_pos (hc o ho)]
    exact h.commitCreator

/-- Nor does a seal. -/
theorem Agrees.seal (h : Agrees s L) {req : SealModelVersionRequest} (hp : req.promote = false) :
    Agrees (handleSealModelVersion c s now req).1 L := by
  simp only [handleSealModelVersion, hp, Bool.false_eq_true, if_false]
  split
  · exact h
  split
  · exact h.of_objects rfl
  · refine h.frame fun oid => ?_
    rw [State.shown, lookup_sealVersion, Option.map_map, State.shown]
    refine congrArg (Option.map · _) (funext fun o => ?_)
    dsimp only [Function.comp]
    split <;> rfl

theorem Agrees.releaseCanonical (h : Agrees s L) {req : ReleaseCanonicalRequest} :
    Agrees (handleReleaseCanonical c s now req).1
      (L.after (.rpc now (.releaseCanonical req)) (handleReleaseCanonical c s now req).2) := by
  obtain ⟨message, hno⟩ | ⟨r, hr, hyes⟩ := handleReleaseCanonical_cases c s now req
  · rw [hno]
    exact h
  · obtain ⟨-, hok, -⟩ := releaseHolds_spec c now req.rankId (releasedIds_nodup s req)
      (r := (s, { ok := true, message := "ok" })) h.settled (Nat.two_pow_pos 64)
    rw [hyes, Ledger.after, hr, if_pos hok]
    exact h.release (Nat.two_pow_pos 64)

theorem Agrees.handle (h : Agrees s L) {req : Request} (hok : HolderStep c s (.rpc now req)) :
    Agrees (handle c s now req).1 (L.after (.rpc now req) (handle c s now req).2) := by
  cases req with
  | evict req => exact h.evict
  | releaseCanonical req => exact h.releaseCanonical
  | commit req => exact h.commit hok
  | «seal» req => exact h.seal hok
  | drop | pull | restore | releaseRestore => exact hok.elim
  | register req =>
    refine h.of_objects (congrArg Catalog.objects ?_)
    simp only [StateSpectre.handle, handleRegister, openSession]
    rw [invalidateSessions_of_dead hok]
  | heartbeat req =>
    refine h.of_objects ?_
    simp only [StateSpectre.handle, handleHeartbeat]
    split <;> rfl
  | registerJob => exact h.of_objects handleRegisterJob_objects
  | _ => exact h.of_sides (handle_sides rfl)

/-- Every step of such a run keeps the objects those of the ledger. -/
theorem Agrees.step (h : Agrees s L) (hok : HolderStep c s a)
    (hstep : step c s a = some (s', resp)) : Agrees s' (L.after a resp) := by
  cases a with
  | rpc now req =>
    have hhandle : StateSpectre.handle c s now req = (s', resp) := Option.some.inj hstep
    have hagrees := h.handle hok
    rwa [hhandle] at hagrees
  | proceed now i =>
    exact h.of_sides (step_sides (a := .proceed now i) ((Option.all_eq_true _ _).2 hok) hstep)
  | heartbeatSweep now =>
    cases hstep
    rw [heartbeatSweep_of_fresh hok]
    exact h
  | pushRing i e =>
    obtain ⟨s₁, hpush, heq⟩ := Option.map_eq_some_iff.1 hstep
    cases heq
    obtain ⟨rings, rfl⟩ := pushRing_eq hpush
    exact h.of_objects rfl
  | pollRing now i =>
    obtain ⟨s₁, hpoll, heq⟩ := Option.map_eq_some_iff.1 hstep
    cases heq
    simp only [pollRing] at hpoll
    split at hpoll
    · cases hpoll
    split at hpoll
    · cases hpoll
      exact h.of_objects (congrArg (·.2.objects) applyBatchCompletion_sides)
    · cases hpoll
  | rehash =>
    obtain ⟨⟨-, -, hobj, -⟩, heq⟩ := Option.ite_none_right_eq_some.1 hstep
    cases heq
    refine h.frame fun oid => ?_
    rw [State.shown, State.shown, ← hobj.lookup_eq oid]
  | _ => exact h.of_sides (step_sides rfl hstep)

end Steps

/-- The daemon beside the ledger of its answers. -/
def ledgerStep (c : Config) (x : State × Ledger) (a : Action) :
    Option ((State × Ledger) × Response) :=
  (step c x.1 a).map fun r => ((r.1, x.2.after a r.2), r.2)

/-- The states reached by such steps, from any in which the objects are those of the ledger. -/
abbrev LedgerReachable (c : Config) : State × Ledger → Prop :=
  Reach (fun x : State × Ledger => Agrees x.1 x.2) (fun x a => HolderStep c x.1 a) (ledgerStep c)

theorem LedgerReachable.agrees {x : State × Ledger} (h : LedgerReachable c x) :
    Agrees x.1 x.2 := by
  refine h.invariant (motive := fun x : State × Ledger => Agrees x.1 x.2) (fun _ hx => hx) ?_
  intro y a y' resp hy hok hstep
  obtain ⟨r, hr, heq⟩ := Option.map_eq_some_iff.1 hstep
  cases heq
  exact hy.step hok hr

/-- In every state reached the objects are those that somebody holds by the ledger, with the
    holders it has. And a release reports the holds that it drops and the objects that it removes,
    if and only if the bytes of these can be counted in 64 bits. -/
theorem holders_exact {x : State × Ledger} (h : LedgerReachable c x) :
    Agrees x.1 x.2 ∧ ∀ now req s' ans,
      handleReleaseCanonical c x.1 now req = (s', .releaseCanonical ans) → ans.ok →
        (x.2.Reports (x.2.release req) req.rankId ans ↔ x.2.Fits req) :=
  ⟨h.agrees, fun _ _ _ _ hans hok => h.agrees.reports_iff hans hok⟩

instance {s : State} : DecidablePred (HolderStep c s) := fun a => by
  induction a using Action.casesOn with
  | rpc now req =>
    induction req using Request.casesOn <;> dsimp only [HolderStep] <;> infer_instance
  | _ =>
    dsimp only [HolderStep]
    infer_instance

/-- The ledger in which nobody holds anything. -/
def Ledger.empty : Ledger := ⟨fun _ => shardKey 0, fun _ => ∅⟩

/-- What a list of actions from startup leads to, beside the ledger. -/
theorem exists_ledger {p : State × Ledger → Prop} [DecidablePred p] (as : List Action)
    (h : (runActions (fun x a => HolderStep c x.1 a) (ledgerStep c) (State.initial, .empty) as).any
      (p ·)) :
    ∃ x, LedgerReachable c x ∧ p x :=
  Reach.exists_of_any (fun _ => rfl) as h

/-- The rank `r` lets go of the version 1. -/
def releaseVersion (r : ℕ) : ReleaseCanonicalRequest :=
  { rankId := r, rankEpoch := r + 1, job := theJob, modelRole := 0, modelVersion := 1
    objectId := 0 }

/-- Two objects of `2 ^ 63` bytes are created in no slots at all. They are removed by one release,
    which reports that it freed no bytes. -/
theorem release_miscounts :
    ∃ x s' ans, LedgerReachable twoKept x ∧
      handleReleaseCanonical twoKept x.1 2 (releaseVersion 0) = (s', .releaseCanonical ans) ∧
      ans.ok ∧ ans.freedCount = 2 ∧ ans.bytesFreed = 0 ∧
      ¬x.2.Reports (x.2.release (releaseVersion 0)) 0 ans := by
  obtain ⟨x, hx, s', ans, hans, hok, hfreed, hbytes, hsize⟩ := exists_ledger (c := twoKept)
    (p := fun x => ∃ s' ans,
      handleReleaseCanonical twoKept x.1 2 (releaseVersion 0) = (s', .releaseCanonical ans) ∧
      ans.ok ∧ ans.freedCount = 2 ∧ ans.bytesFreed = 0 ∧
      ∀ oid o, x.1.catalog.objects.lookup oid = some o → o.nbytes ≠ 0)
    [registersJob, registersRank 0,
      .rpc 1 (.evict { rankId := 0, rankEpoch := 1, key := { shardKey 1 with nbytes := 2 ^ 63 } }),
      .rpc 1 (.evict { rankId := 0, rankEpoch := 1, key := { shardKey 2 with nbytes := 2 ^ 63 } })]
    (by decide +kernel)
  refine ⟨x, s', ans, hx, hans, hok, hfreed, hbytes, ?_⟩
  rintro ⟨-, F, hF, hcard, hsum⟩
  -- One of the objects that are gone had bytes.
  obtain ⟨oid, hoid⟩ : F.Nonempty := Finset.card_pos.1 (by omega)
  rcases ho : x.1.catalog.objects.lookup oid with _ | o
  · exact ((hF oid).1 hoid).1 (hx.agrees.missing ho)
  · have hzero := Finset.sum_eq_zero_iff.1 (hsum.symm.trans hbytes) oid hoid
    exact hsize oid o ho ((hx.agrees.object ho).2.2.1.trans hzero)

/-- Two ranks hold an object, and the first lets go of it. Then the second one does, and the
    object is gone. -/
theorem holders_exact_last :
    ∃ x s' ans, LedgerReachable twoKept x ∧ Agrees x.1 x.2 ∧ x.2.holders 1 = {1} ∧
      handleReleaseCanonical twoKept x.1 4 (releaseVersion 1) = (s', .releaseCanonical ans) ∧
      ans = ⟨true, "ok", 1, 1, 4⟩ ∧ x.2.Reports (x.2.release (releaseVersion 1)) 1 ans := by
  obtain ⟨x, hx, s', _, hans, hholds, rfl, hsize⟩ := exists_ledger (c := twoKept)
    (p := fun x => ∃ s' ans,
      handleReleaseCanonical twoKept x.1 4 (releaseVersion 1) = (s', .releaseCanonical ans) ∧
      x.2.holders 1 = {1} ∧ ans = ⟨true, "ok", 1, 1, 4⟩ ∧
      ∀ oid o, x.1.catalog.objects.lookup oid = some o → oid = 1 ∧ o.nbytes = 4)
    ([registersJob, registersRank 0, registersRank 1] ++ creates 1 1 1 [1] ++
      [evicts 2 1 1, .rpc 3 (.releaseCanonical (releaseVersion 0))])
    (by decide +kernel)
  obtain ⟨hagrees, hreports⟩ := holders_exact hx
  refine ⟨x, s', _, hx, hagrees, hholds, hans, rfl, (hreports 4 _ s' _ hans rfl).2 ?_⟩
  intro F hF
  have hone : ∀ oid ∈ F, oid = 1 ∧ (x.2.key oid).nbytes = 4 := by
    intro oid hoid
    rcases ho : x.1.catalog.objects.lookup oid with _ | o
    · exact absurd ((hagrees.missing ho).symm.trans ((hF oid).1 hoid).2)
        (Finset.singleton_ne_empty _).symm
    · exact ⟨(hsize oid o ho).1, (hagrees.object ho).2.2.1.symm.trans (hsize oid o ho).2⟩
  have hcard : F.card ≤ 1 :=
    Finset.card_le_one.2 fun a ha b hb => (hone a ha).1.trans (hone b hb).1.symm
  rw [Finset.sum_const_nat fun oid hoid => (hone oid hoid).2]
  omega

end StateSpectre
