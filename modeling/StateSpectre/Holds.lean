import StateSpectre.Ownership
import StateSpectre.Pulls

/-!
# Who keeps an object

An object is kept by the ranks that hold it, by its exports and by its restores, and is
reclaimed once there are none. The daemon looks whether there are any at the places where the
last one may have gone, but not at all of them: when the staging of an export fails, the object
is let go of without a look (`failed_pull_forgets`). Restores are counted only, and the count is
not told when a rank dies in the middle of one, or when a rank releases a restore that it does
not have.

If none of this happens (`keepRules`), every object is kept by somebody, and the restores it
counts are those that live sessions have been answered and have not released
(`objects_kept`).
-/

namespace StateSpectre

variable {c : Config} {g : Guards} {k : Rules} {x y : Scene} {s s' : State} {oid : ℕ} {lost : ℕ → ℕ}
  {f : CanonicalObject → CanonicalObject} {o : CanonicalObject} {oid' : ℕ}

/-! ## Objects that nobody keeps -/

/-- Nobody keeps the object. -/
def CanonicalObject.Idle (o : CanonicalObject) : Prop :=
  o.holders = ∅ ∧ o.exportRefcount = 0 ∧ o.restoreRefcount = 0

theorem CanonicalObject.idle_iff : o.Idle ↔ o.holders = ∅ ∧ o.inFlight = false := by
  simp [Idle, inFlight]

/-- The restores of an object that have been answered and not released. -/
def Store.restores (st : Store) (oid : ℕ) : ℕ :=
  st.history.holds.countP fun r => r.objectId = oid

/-- Those of live sessions. -/
def State.liveRestores (s : State) (oid : ℕ) : ℕ :=
  s.store.history.holds.countP fun r => r.objectId = oid ∧ s.epochValid r.rankId r.rankEpoch

/-- The object is there, and can count another restore in 32 bits. -/
def State.restorable (s : State) (oid : ℕ) : Bool :=
  (s.catalog.objects.lookup oid).any fun o => o.restoreRefcount + 1 < 2 ^ 32

theorem State.restorable_iff : s.restorable oid ↔
    ∃ o, s.catalog.objects.lookup oid = some o ∧ o.restoreRefcount + 1 < 2 ^ 32 := by
  simp [restorable, Option.any_eq_true]

/-- Restores are released only by who has been answered them, and before its session ends;
    they are answered only for objects that are there and count less than 2^32 - 1 of them, to
    sessions that are there; and the staging of an export fails only while the object is kept by
    another. -/
def keepRules : Rules := fun s e =>
  match e with
  | .serve o _ => o.restoreRefcount + 1 < 2 ^ 32
  | .warm req _ => s.restorable req.objectId ∧ s.epochValid req.rankId req.rankEpoch
  | .endRestore req => ∃ r ∈ s.store.history.holds,
      r.rankId = req.rankId ∧ r.rankEpoch = req.rankEpoch ∧ r.objectId = req.objectId
  | .failStaging l => ∀ o, s.catalog.objects.lookup l.req.objectId = some o →
      o.holders ≠ ∅ ∨ 0 < o.restoreRefcount
  | .endSession rankId => ∀ r ∈ s.store.history.holds, r.rankId ≠ rankId
  | _ => True

instance {e : Event} : Decidable (keepRules s e) := by
  induction e using Event.casesOn <;> dsimp only [keepRules] <;> infer_instance

/-! ## Reclaiming -/

/-- Objects that nobody keeps are still to be looked at. -/
def Remembered (x : Scene) : Prop :=
  ∀ oid o, x.1.catalog.objects.lookup oid = some o → o.Idle → oid ∈ x.2.2.due

/-- No object is newly idle. The fields that are not given say that nothing changes. -/
structure RememberedChange (x y : Scene) : Prop where
  objects : x.1.catalog.objects.Linked (fun o o' => o'.Idle → o.Idle) y.1.catalog.objects := by
    exact .refl (fun _ => id) _
  due : x.2.2.due ⊆ y.2.2.due := by exact fun _ h => h

theorem Remembered.change (h : Remembered x) (hc : RememberedChange x y) : Remembered y := by
  intro oid o' ho' hidle
  obtain ⟨o, ho, hoo⟩ := hc.objects.of_lookup ho'
  exact hc.due (h oid o ho (hoo hidle))

/-- An object changes that is looked at later. -/
theorem Remembered.modify (h : Remembered x)
    (hobj : y.1.catalog.objects = x.1.catalog.objects.modify oid f)
    (hdue : y.2.2.due = oid :: x.2.2.due) : Remembered y := by
  intro oid' o' ho' hidle
  rw [hobj] at ho'
  rw [hdue]
  rcases Table.lookup_modify_eq_some.1 ho' with ⟨rfl, -⟩ | ⟨-, ho⟩
  · exact List.mem_cons_self ..
  · exact List.mem_cons_of_mem _ (h oid' o' ho hidle)

/-- Every move keeps it that objects that nobody keeps are still to be looked at. -/
theorem Remembered.move (h : Remembered x) (hm : Move c g keepRules x y) : Remembered y := by
  have hfail : ∀ {o o' : CanonicalObject}, o.holders ≠ ∅ ∨ 0 < o.restoreRefcount →
      o'.holders = o.holders → o'.restoreRefcount = o.restoreRefcount → ¬o'.Idle := by
    rintro o o' hkept hh hr ⟨hnone, -, hzero⟩
    rcases hkept with hkept | hkept
    · exact hkept (hh ▸ hnone)
    · exact hkept.ne' (hr ▸ hzero)
  cases hm with
  | create =>
    intro oid o ho hidle
    rcases Table.lookup_insert_eq_some.1 ho with ⟨-, rfl⟩ | ⟨-, ho⟩
    · exact absurd hidle.1 (Finset.singleton_ne_empty _)
    · exact h oid o ho hidle
  | unlinkObject => exact fun oid o ho hidle => h oid o (Table.lookup_of_lookup_erase ho) hidle
  | endRestore | letGo | endPull => exact h.modify rfl rfl
  | restore _ hobj _ _ _ _ hk =>
    refine h.change { objects := .modify (fun _ => id) fun o ho hidle => ?_ }
    cases hobj.symm.trans ho
    exact absurd ((Nat.mod_eq_of_lt hk).symm.trans hidle.2.2) (Nat.succ_ne_zero _)
  | warmDone _ _ hk =>
    obtain ⟨o, hobj, hfew⟩ := State.restorable_iff.1 hk.1
    refine h.change { objects := .modify (fun _ => id) fun o ho hidle => ?_ }
    cases hobj.symm.trans ho
    exact absurd ((Nat.mod_eq_of_lt hfew).symm.trans hidle.2.2) (Nat.succ_ne_zero _)
  | startPull =>
    exact h.change { objects := .modify (fun _ => id) fun o _ hidle => nomatch hidle.2.1 }
  | @refusePull s h' req o hpull hk =>
    refine h.change { objects := .modify_modify (fun _ => id) fun o' hobj' hidle => ?_ }
    exact absurd hidle (hfail (hk _ (Table.lookup_modify_self hobj')) rfl rfl)
  | @failPull s h' i l buf hi hk =>
    refine h.change { objects := .modify (fun _ => id) fun o hobj hidle => ?_ }
    exact absurd hidle (hfail (hk o hobj) rfl rfl)
  | attach =>
    refine h.change { objects := .modify (fun _ => id) fun o _ hidle => ?_ }
    exact absurd hidle.1 (Finset.insert_ne_empty _ _)
  | check hdue hkept =>
    intro oid' o ho hidle
    have hmem := h oid' o ho hidle
    rw [hdue, List.mem_append, List.mem_cons] at hmem
    rcases hmem with hmem | rfl | hmem
    · exact List.mem_append_left _ hmem
    · -- The object that was looked at is kept by somebody.
      obtain ⟨hnone, hidle⟩ := CanonicalObject.idle_iff.1 hidle
      rcases hkept o ho with hkept | hkept
      · exact absurd hnone hkept
      · rw [hidle] at hkept
        cases hkept
    · exact List.mem_append_right _ hmem
  | commit => exact h.change { objects := .modify (fun _ => id) fun o _ hidle => hidle }
  | sealVersion =>
    exact h.change { objects := sealVersion_linked _ (fun _ => id) fun _ _ _ _ hidle => hidle }
  | rehash _ _ hr => exact h.change { objects := hr.linked fun _ => id }
  | _ => exact h.change {}

/-! ## Restores -/

/-- The restores that an object counts; an object that is not there counts none. -/
def State.restoresOf (s : State) (oid : ℕ) : ℕ :=
  ((s.catalog.objects.lookup oid).map (·.restoreRefcount)).getD 0

theorem State.restoresOf_eq (h : s.catalog.objects.lookup oid = some o) :
    s.restoresOf oid = o.restoreRefcount := by
  rw [restoresOf, h]
  rfl

/-- What the count of the restores depends on: they are answered only for objects that are
    there and have not counted 2^32 - 1 of them, and are released only by who has been answered
    them. -/
def restoreRules : Rules := fun s e =>
  match e with
  | .serve o _ => o.restoreRefcount + 1 < 2 ^ 32
  | .warm req _ => s.restorable req.objectId
  | .endRestore req => ∃ r ∈ s.store.history.holds,
      r.rankId = req.rankId ∧ r.rankEpoch = req.rankEpoch ∧ r.objectId = req.objectId
  | _ => True

theorem restoreRules_of_keepRules {e : Event} (h : keepRules s e) : restoreRules s e := by
  cases e with
  | warm req base => exact h.1
  | serve o base | endRestore req => exact h
  | _ => trivial

/-- Objects count their restores, which are of live sessions, and a number of others that
    nobody will release. -/
structure RestoresCounted (lost : ℕ → ℕ) (s : State) : Prop where
  count : ∀ oid, s.restoresOf oid = s.store.restores oid + lost oid
  live : ∀ r ∈ s.store.history.holds, s.epochValid r.rankId r.rankEpoch

theorem RestoresCounted.liveRestores_eq (h : RestoresCounted lost s) :
    s.liveRestores oid = s.store.restores oid := by
  refine List.countP_congr fun r hr => ?_
  simp [h.live r hr]

/-- An object after a change counts the same restores. -/
structure CanonicalObject.SameRestores (o o' : CanonicalObject) : Prop where
  count : o'.restoreRefcount = o.restoreRefcount := by rfl

/-- No restore begins or ends. The fields that are not given say that nothing changes. -/
structure RestoresChange (s s' : State) : Prop where
  objects : s.catalog.objects.Linked CanonicalObject.SameRestores s'.catalog.objects := by
    exact .refl (fun _ => {}) _
  holds : s'.store.history.holds = s.store.history.holds := by rfl
  sessions : ∀ r ses, s.sessions.lookup r = some ses → ses.alive →
    ∃ ses', s'.sessions.lookup r = some ses' ∧ ses'.alive ∧ ses'.rankEpoch = ses.rankEpoch := by
      exact fun _ ses h ha => ⟨ses, h, ha, rfl⟩

theorem RestoresCounted.change (h : RestoresCounted lost s) (hc : RestoresChange s s') :
    RestoresCounted lost s' := by
  refine ⟨fun oid => ?_, fun r hr => ?_⟩
  · rw [Store.restores, hc.holds, ← Store.restores, ← h.count, State.restoresOf, State.restoresOf]
    rcases ho : s.catalog.objects.lookup oid with _ | o
    · rw [hc.objects.lookup_eq_none.2 ho]
    · obtain ⟨o', ho', hoo⟩ := hc.objects.lookup ho
      simp [ho', hoo.count]
  · rw [hc.holds] at hr
    obtain ⟨ses, hses, ha, he⟩ := State.epochValid_iff.1 (h.live r hr)
    obtain ⟨ses', hses', ha', he'⟩ := hc.sessions _ ses hses ha
    exact State.epochValid_iff.2 ⟨ses', hses', ha', he'.trans he⟩

theorem State.restoresOf_modify (hobj : s'.catalog.objects = s.catalog.objects.modify oid f) :
    s'.restoresOf oid' = if oid' = oid
      then ((s.catalog.objects.lookup oid).map fun o => (f o).restoreRefcount).getD 0
      else s.restoresOf oid' := by
  rw [restoresOf, restoresOf, hobj, Table.lookup_modify]
  split
  · rw [Option.map_map]
    rfl
  · rfl

theorem State.restoresOf_insert (hobj : s'.catalog.objects = s.catalog.objects.insert oid o) :
    s'.restoresOf oid' = if oid' = oid then o.restoreRefcount else s.restoresOf oid' := by
  rw [restoresOf, restoresOf, hobj, Table.lookup_insert]
  split <;> rfl

theorem State.restoresOf_erase (hobj : s'.catalog.objects = s.catalog.objects.erase oid) :
    s'.restoresOf oid' = if oid' = oid then 0 else s.restoresOf oid' := by
  rw [restoresOf, restoresOf, hobj, Table.lookup_erase]
  split <;> rfl

/-- A live session is answered a restore of an object. -/
theorem RestoresCounted.answered {r : RestoreHold}
    (h : RestoresCounted lost s) (hholds : s'.store.history.holds = r :: s.store.history.holds)
    (hlive : s.epochValid r.rankId r.rankEpoch) (hthere : s.restorable r.objectId)
    (hobj : s'.catalog.objects = s.catalog.objects.modify r.objectId f)
    (hf : ∀ o, (f o).restoreRefcount = (o.restoreRefcount + 1) % 2 ^ 32)
    (hses : s'.sessions = s.sessions) : RestoresCounted lost s' := by
  obtain ⟨o, ho, hfew⟩ := State.restorable_iff.1 hthere
  refine ⟨fun oid => ?_, fun r' hr' => ?_⟩
  · have hcount := h.count oid
    rw [State.restoresOf_modify hobj, Store.restores, hholds, List.countP_cons,
      ← Store.restores, ho]
    by_cases hne : oid = r.objectId
    · subst hne
      rw [State.restoresOf_eq ho] at hcount
      simp only [hf, if_pos, decide_true, Option.map_some, Option.getD_some, hcount]
      omega
    · simp [hne, Ne.symm hne, hcount]
  · rw [State.epochValid, hses, ← State.epochValid]
    rw [hholds] at hr'
    rcases List.mem_cons.1 hr' with rfl | hr'
    · exact hlive
    · exact h.live r' hr'

/-- An object counts a restore that nobody is answered. -/
theorem RestoresCounted.unanswered
    (h : RestoresCounted lost s) (hholds : s'.store.history.holds = s.store.history.holds)
    (hthere : s.restorable oid)
    (hobj : s'.catalog.objects = s.catalog.objects.modify oid f)
    (hf : ∀ o, (f o).restoreRefcount = (o.restoreRefcount + 1) % 2 ^ 32)
    (hses : s'.sessions = s.sessions) :
    RestoresCounted (fun oid' => lost oid' + if oid' = oid then 1 else 0) s' := by
  obtain ⟨o, ho, hfew⟩ := State.restorable_iff.1 hthere
  refine ⟨fun oid' => ?_, fun r hr => ?_⟩
  · have hcount := h.count oid'
    rw [State.restoresOf_modify hobj, Store.restores, hholds, ← Store.restores, ho]
    by_cases hne : oid' = oid
    · subst hne
      rw [State.restoresOf_eq ho] at hcount
      simp only [hf, if_pos, Option.map_some, Option.getD_some, hcount]
      omega
    · simp [hne, hcount]
  · rw [State.epochValid, hses, ← State.epochValid]
    exact h.live r (hholds ▸ hr)

/-- A restore is released by who was answered it. -/
theorem RestoresCounted.released {req : ReleaseCanonicalRestoreRequest}
    (h : RestoresCounted lost s) (hhas : ∃ r ∈ s.store.history.holds,
      r.rankId = req.rankId ∧ r.rankEpoch = req.rankEpoch ∧ r.objectId = req.objectId) :
    RestoresCounted lost
      (endRestore (dropHold s req.rankId req.rankEpoch req.objectId) req.objectId) := by
  obtain ⟨r, hr, hreq⟩ := hhas
  obtain ⟨a, l₁, l₂, -, ha, hsplit, herase⟩ := List.exists_of_eraseP hr
    (p := fun r => r.rankId = req.rankId ∧ r.rankEpoch = req.rankEpoch ∧ r.objectId = req.objectId)
    (decide_eq_true hreq)
  obtain ⟨-, -, hoid⟩ := of_decide_eq_true ha
  refine ⟨fun oid => ?_, fun r' hr' => h.live r' (List.eraseP_subset hr')⟩
  have hcount := h.count oid
  have hless : ((s.catalog.objects.lookup oid).map fun o => o.restoreRefcount - 1).getD 0 =
      s.restoresOf oid - 1 := by
    rw [State.restoresOf]
    rcases s.catalog.objects.lookup oid with _ | o <;> rfl
  have hholds : Store.restores (endRestore (dropHold s req.rankId req.rankEpoch req.objectId)
      req.objectId).store oid = (l₁ ++ l₂).countP fun r => r.objectId = oid :=
    congrArg (List.countP _) herase
  rw [Store.restores, hsplit, List.countP_append, List.countP_cons, hoid] at hcount
  rw [State.restoresOf_modify rfl, hholds, List.countP_append]
  by_cases hne : oid = req.objectId
  · rw [if_pos hne, ← hne]
    refine hless.trans ?_
    simp only [hne, decide_true, if_true] at hcount ⊢
    omega
  · rw [if_neg hne]
    refine Eq.trans (b := s.restoresOf oid) rfl ?_
    simpa [Ne.symm hne] using hcount

/-- The restores of a rank. -/
def Store.restoresBy (st : Store) (rankId oid : ℕ) : ℕ :=
  st.history.holds.countP fun r => r.objectId = oid ∧ r.rankId = rankId

/-- The restores of a session that ends are lost. -/
theorem RestoresCounted.endSession {rankId rankEpoch : ℕ} (h : RestoresCounted lost s) :
    RestoresCounted (fun oid => lost oid + s.store.restoresBy rankId oid)
      (s.leaveSession rankId rankEpoch) := by
  refine ⟨fun oid => (h.count oid).trans ?_, fun r hr => ?_⟩
  · -- The restores of the object are those of the rank and the others.
    have hsplit := List.countP_eq_countP_filter_add s.store.history.holds
      (fun r => decide (r.objectId = oid)) fun r => decide (r.rankId ≠ rankId)
    have hkept : (s.leaveSession rankId rankEpoch).store.restores oid =
        (s.store.history.holds.filter fun r => r.rankId ≠ rankId).countP
          fun r => r.objectId = oid := rfl
    have hlost : s.store.restoresBy rankId oid =
        (s.store.history.holds.filter fun r => !decide (r.rankId ≠ rankId)).countP
          fun r => r.objectId = oid := by
      simp [Store.restoresBy, List.countP_filter]
    rw [Store.restores, hsplit, hkept, hlost]
    omega
  · obtain ⟨hr, hne⟩ := List.mem_filter.1 hr
    obtain ⟨ses, hses, ha, he⟩ := State.epochValid_iff.1 (h.live r hr)
    refine State.epochValid_iff.2 ⟨ses, ?_, ha, he⟩
    exact (Table.lookup_modify ..).trans ((if_neg (of_decide_eq_true hne)).trans hses)

/-- Every move keeps the count of the restores. -/
theorem RestoresCounted.move (h : RestoresCounted lost x.1) (ho : x.Orderly)
    (hk : ∀ s e, k s e → restoreRules s e) (hm : Move c g k x y) :
    ∃ lost', RestoresCounted lost' y.1 ∧ ((∀ s e, k s e → keepRules s e) → lost' = lost) := by
  have hsame : RestoresCounted lost y.1 →
      ∃ lost', RestoresCounted lost' y.1 ∧ ((∀ s e, k s e → keepRules s e) → lost' = lost) :=
    fun h => ⟨lost, h, fun _ => rfl⟩
  cases hm with
  | restore hv hobj _ _ _ _ hserve =>
    exact hsame (h.answered (noteHold_holds c _ hv) hv
      (State.restorable_iff.2 ⟨_, hobj, hk _ _ hserve⟩) rfl (fun _ => rfl) rfl)
  | @warmDone s h' i req base count nbytes now hi hg hwarm =>
    have hthere := hk _ _ hwarm
    by_cases hv : s.epochValid req.rankId req.rankEpoch
    · exact hsame (h.answered (noteHold_holds c _ hv) hv hthere rfl (fun _ => rfl) rfl)
    · -- The session has ended, and will not release the restore it is answered.
      exact ⟨_, h.unanswered (if_neg hv) hthere rfl (fun _ => rfl) rfl,
        fun hkeep => absurd (hkeep _ _ hwarm).2 hv⟩
  | endRestore _ hend => exact hsame (h.released (hk _ _ hend))
  | @create s h' req oid base now =>
    have hnew := (ho.indexed.created oid (List.mem_cons_self ..)).2
    refine hsame ⟨fun oid' => Eq.trans ?_ (h.count oid'), h.live⟩
    rw [State.restoresOf_insert rfl]
    split
    · next hne => rw [hne, State.restoresOf, hnew]; rfl
    · rfl
  | @unlinkObject s h' oid o hobj hidle =>
    simp only [CanonicalObject.inFlight, Bool.or_eq_false_iff, decide_eq_false_iff_not, not_lt,
      Nat.le_zero] at hidle
    refine hsame ⟨fun oid' => Eq.trans ?_ (h.count oid'), h.live⟩
    rw [State.restoresOf_erase rfl]
    split
    · next hne => rw [hne, State.restoresOf_eq hobj, hidle.2]
    · rfl
  | attach | letGo | startPull | failPull | endPull | commit =>
    exact hsame (h.change { objects := .modify (fun _ => {}) fun _ _ => {} })
  | refusePull =>
    exact hsame (h.change { objects := .modify_modify (fun _ => {}) fun _ _ => {} })
  | sealVersion =>
    exact hsame (h.change { objects := sealVersion_linked _ (fun _ => {}) fun _ _ _ _ => {} })
  | @endSession s h' rankId ses hses ha hd hend =>
    refine ⟨_, h.endSession, fun hkeep => funext fun oid => ?_⟩
    have hnone : s.store.restoresBy rankId oid = 0 :=
      List.countP_eq_zero.2 fun r hr => by simp [hkeep _ _ hend r hr]
    rw [hnone, Nat.add_zero]
  | openSession hdead =>
    refine hsame (h.change { sessions := fun r ses hses ha => ?_ })
    refine ⟨ses, (Table.lookup_insert ..).trans ((if_neg ?_).trans hses), ha, rfl⟩
    rintro rfl
    rw [hdead ses hses] at ha
    cases ha
  | heartbeat =>
    refine hsame (h.change { sessions := fun r ses hses ha => ?_ })
    refine ⟨_, Table.lookup_modify_of_lookup hses, ?_⟩
    split <;> exact ⟨ha, rfl⟩
  | rehash _ hs hr =>
    exact hsame (h.change
      { objects := hr.linked fun _ => {}
        sessions := fun r ses hses ha => ⟨ses, (hs.lookup_eq r).trans hses, ha, rfl⟩ })
  | _ => exact hsame (h.change {})

/-! ## Runs -/

/-- In every run in which restores are released by who has them and before its session ends,
    are answered only for objects and sessions that are there, and the staging of an export
    fails only while the object is kept by another: no object is kept by nobody, and objects
    count the restores of live sessions. -/
theorem objects_kept (h : Reachable c (keepRules.ok c) s) {o : CanonicalObject}
    (ho : s.catalog.objects.lookup oid = some o) :
    ¬(o.holders = ∅ ∧ o.exportRefcount = 0 ∧ o.restoreRefcount = 0) ∧
      o.restoreRefcount = s.liveRestores oid := by
  have hs : Orderly s ∧ Remembered (s, none, {}) ∧ RestoresCounted 0 s := by
    refine h.invariant_of_rules
      (motive := fun x => x.Orderly ∧ Remembered x ∧ RestoresCounted 0 x.1) ?_ ?_
    · exact ⟨.initial, nofun, fun _ => rfl, nofun⟩
    · intro x y hx hxy
      obtain ⟨lost', hcount, hlost⟩ :=
        hx.2.2.move hx.1 (fun _ _ => restoreRules_of_keepRules) hxy
      exact ⟨hx.1.move hxy, hx.2.1.move hxy, hlost (fun _ _ => id) ▸ hcount⟩
  obtain ⟨-, hrem, hcount⟩ := hs
  refine ⟨fun hidle => (nomatch hrem oid o ho hidle), ?_⟩
  rw [hcount.liveRestores_eq, ← State.restoresOf_eq ho, hcount.count, Pi.zero_apply, Nat.add_zero]

/-- A daemon with one slot that drains to NVMe. -/
def oneSlotNvme : Config := { oneSlot with drainTarget := .nvmeOnly }

/-- The only holder of an object lets go of it while it is pulled from NVMe. Then the read
    fails: nobody keeps the object, and nobody will look at it. -/
theorem failed_pull_forgets :
    ∃ s o, Reached oneSlotNvme s ∧ s.catalog.objects.lookup 1 = some o ∧
      o.holders = ∅ ∧ o.exportRefcount = 0 ∧ o.restoreRefcount = 0 ∧ s.store.tasks = [] :=
  exists_reachable₂ oneSlotNvme _
    ([registers, registersJob] ++ creates 1 1 1 [1] ++ [seals 2] ++ offloadsDraining 3 2 1 2 [2] ++
      [pulls 4 1, releasesHolds 5, .io 0 .ok, .io 0 (.failed [] "read error"), .proceed 6 0])
    (by decide +kernel)

/-- The only holder of an object lets go of it while it has a restore of it: it is kept by the
    restore. -/
theorem objects_kept_restored :
    ∃ s o, Reachable oneSlot (keepRules.ok oneSlot) s ∧
      (s.catalog.objects.lookup 1 = some o ∧ o.holders = ∅ ∧ o.restoreRefcount = 1) ∧
      s.liveRestores 1 = 1 :=
  exists_reachable₂_and oneSlot _
    ([registers, registersJob] ++ creates 1 1 1 [1] ++ [restores 2 1, releasesHolds 3])
    (by decide +kernel) fun _ _ hs hp => (objects_kept hs hp.1).2.symm.trans hp.2.2

end StateSpectre
