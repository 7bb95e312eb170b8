import StateSpectre.Refinement.Catalog

/-!
# Who owns leases and objects

A lease belongs to the session of a rank, and an object is held by ranks with a session. When
a session ends, its leases are dropped and its holds are given up, so that nothing is left
of it. But a request looks at its session only when it comes in: one that is inside a
forced drain when its session ends goes on afterwards, and its lease is never recovered
(`lease_outlives_session`).

If the session is still there whenever a search goes on (`ownerRules`), every lease is of a
live session and every holder has one (`owners_live`).
-/

namespace StateSpectre

variable {c : Config} {g : Guards} {k : Rules} {x y : Scene} {s : State} {rankId rankEpoch : ℕ}

/-! ## Sessions -/

/-- A rank has a live session. -/
def State.Alive (s : State) (rankId : ℕ) : Prop :=
  ∃ ses, s.sessions.lookup rankId = some ses ∧ ses.alive

theorem State.epochValid_iff : s.epochValid rankId rankEpoch ↔
    ∃ ses, s.sessions.lookup rankId = some ses ∧ ses.alive ∧ ses.rankEpoch = rankEpoch := by
  rw [State.epochValid]
  rcases s.sessions.lookup rankId with _ | ses <;> simp

theorem State.alive_of_epochValid (h : s.epochValid rankId rankEpoch) : s.Alive rankId := by
  obtain ⟨ses, hses, ha, -⟩ := State.epochValid_iff.1 h
  exact ⟨ses, hses, ha⟩

/-- A search goes on only if the session it is for is still there. -/
def ownerRules : Rules := fun s e =>
  match e with
  | .resume p => s.epochValid p.rankId p.rankEpoch
  | _ => True

instance {e : Event} : Decidable (ownerRules s e) := by
  induction e using Event.casesOn <;> dsimp only [ownerRules] <;> infer_instance

/-! ## Moves -/

/-- Leases, holders and the search under way are of live sessions, but for the holds of a
    session that has just ended. -/
structure Owned (x : Scene) : Prop where
  leases : ∀ id L, x.1.store.leases.lookup id = some L → x.1.epochValid L.ownerRank L.rankEpoch
  holders : ∀ oid o, x.1.catalog.objects.lookup oid = some o → ∀ r ∈ o.holders,
    x.1.Alive r ∨ x.2.2.leaving = some r
  search : ∀ p ∈ x.2.1, x.1.epochValid p.rankId p.rankEpoch

/-- Live sessions go on, and what is new is of a live one. The fields that are not given
    say that nothing is. -/
structure OwnedChange (x y : Scene) : Prop where
  sessions : ∀ r ses, x.1.sessions.lookup r = some ses → ses.alive →
    ∃ ses', y.1.sessions.lookup r = some ses' ∧ ses'.alive ∧ ses'.rankEpoch = ses.rankEpoch := by
      exact fun _ ses h ha => ⟨ses, h, ha, rfl⟩
  leaving : y.2.2.leaving = x.2.2.leaving := by rfl
  leases : ∀ id L, y.1.store.leases.lookup id = some L →
    x.1.store.leases.lookup id = some L ∨ x.1.epochValid L.ownerRank L.rankEpoch := by
      exact fun _ _ h => .inl h
  search : ∀ p ∈ y.2.1, p ∈ x.2.1 ∨ x.1.epochValid p.rankId p.rankEpoch := by
    first | exact fun _ h => .inl h | exact fun _ h => nomatch h

theorem Owned.change (h : Owned x) (hm : Move c g k x y) (hc : OwnedChange x y) : Owned y := by
  have hvalid : ∀ r e, x.1.epochValid r e → y.1.epochValid r e := by
    intro r e hv
    obtain ⟨ses, hses, ha, rfl⟩ := State.epochValid_iff.1 hv
    exact State.epochValid_iff.2 (hc.sessions r ses hses ha)
  have halive : ∀ r, x.1.Alive r → y.1.Alive r := by
    rintro r ⟨ses, hses, ha⟩
    obtain ⟨ses', hses', ha', -⟩ := hc.sessions r ses hses ha
    exact ⟨ses', hses', ha'⟩
  refine ⟨fun id L hL => ?_, fun oid o ho r hr => ?_, fun p hp => ?_⟩
  · exact hvalid _ _ ((hc.leases id L hL).elim (h.leases id L) fun h => h)
  · rw [hc.leaving]
    rcases hm.holder_origin ho hr with ⟨o₀, ho₀, hr₀⟩ | ⟨-, e, hv⟩ | ⟨req, hp, rfl⟩
    · exact (h.holders oid o₀ ho₀ r hr₀).imp_left (halive r)
    · exact .inl (halive r (State.alive_of_epochValid hv))
    · exact .inl (halive _ (State.alive_of_epochValid (h.search _ hp)))
  · exact hvalid _ _ ((hc.search p hp).elim (h.search p) fun h => h)

/-- The session of a rank ends: its leases are dropped, and its holds are still to be. -/
theorem Owned.endSession {rankId : ℕ} {ses : Session} {h h' : Hand} (hx : Owned (s, none, h))
    (hses : s.sessions.lookup rankId = some ses) (hleaving : h.leaving = none)
    (hleaving' : h'.leaving = some rankId) :
    Owned (s.leaveSession rankId ses.rankEpoch, none, h') := by
  have hsame : ∀ r, r ≠ rankId →
      (s.leaveSession rankId ses.rankEpoch).sessions.lookup r = s.sessions.lookup r :=
    fun r hr => (Table.lookup_modify ..).trans (if_neg hr)
  refine ⟨fun id L hL => ?_, fun oid o ho r hr => ?_, fun _ hp => nomatch hp⟩
  · -- A lease of the session was dropped, as all its leases have its epoch.
    obtain ⟨hkept, hL⟩ := Table.lookup_eraseAll_eq_some.1 hL
    obtain ⟨ses', hses', ha, he⟩ := State.epochValid_iff.1 (hx.leases id L hL)
    have hne : L.ownerRank ≠ rankId := by
      rintro rfl
      cases hses.symm.trans hses'
      refine hkept (List.mem_map.2 ⟨(id, L), List.mem_filter.2 ⟨Table.mem_rows.2 hL, ?_⟩, rfl⟩)
      simp [he]
    exact State.epochValid_iff.2 ⟨ses', (hsame _ hne).trans hses', ha, he⟩
  · by_cases hne : r = rankId
    · exact .inr (hne ▸ hleaving')
    · obtain ⟨ses', hses', ha⟩ := (hx.holders oid o ho r hr).resolve_right (by simp [hleaving])
      exact .inl ⟨ses', (hsame r hne).trans hses', ha⟩

/-- A session is opened for a rank that has none. -/
theorem Owned.openSession {now : ℕ} {req : RegisterRankRequest} {ring : Option ℕ} {h : Hand}
    (hx : Owned (s, none, h))
    (hdead : ∀ ses, s.sessions.lookup req.rankId = some ses → ses.alive = false) :
    Owned (openSession s now req ring, none, h) := by
  have hsame : ∀ r, r ≠ req.rankId →
      (StateSpectre.openSession s now req ring).sessions.lookup r = s.sessions.lookup r :=
    fun r hr => (Table.lookup_insert ..).trans (if_neg hr)
  refine ⟨fun id L hL => ?_, fun oid o ho r hr => ?_, fun _ hp => nomatch hp⟩
  · obtain ⟨ses, hses, ha, he⟩ := State.epochValid_iff.1 (hx.leases id L hL)
    have hne : L.ownerRank ≠ req.rankId := by
      intro heq
      rw [heq] at hses
      simp [hdead ses hses] at ha
    exact State.epochValid_iff.2 ⟨ses, (hsame _ hne).trans hses, ha, he⟩
  · by_cases hne : r = req.rankId
    · exact .inl ⟨_, (Table.lookup_insert ..).trans (if_pos hne), rfl⟩
    · refine (hx.holders oid o ho r hr).imp_left fun ⟨ses, hses, ha⟩ => ?_
      exact ⟨ses, (hsame r hne).trans hses, ha⟩

/-- Every move keeps what is owned by live sessions, if searches go on only for them. -/
theorem Owned.move (h : Owned x) (hm : Move c g ownerRules x y) : Owned y := by
  have hinsert : ∀ {t : Table ℕ Lease} {L' : Lease} {id' : ℕ} {s : State},
      s.epochValid L'.ownerRank L'.rankEpoch → ∀ id L, (t.insert id' L').lookup id = some L →
        t.lookup id = some L ∨ s.epochValid L.ownerRank L.rankEpoch := by
    intro t L' id' s hv id L hL
    rcases Table.lookup_insert_eq_some.1 hL with ⟨-, rfl⟩ | ⟨-, hL⟩
    · exact .inr hv
    · exact .inl hL
  have hchange := h.change hm
  cases hm with
  | seek _ _ hv => exact hchange { search := fun _ hp => .inr (Option.some.inj hp ▸ hv) }
  | seekPrefetch _ hv | seekCreate hv | seekCandidate hv =>
    exact hchange { search := fun _ hp => .inr (Option.some.inj hp ▸ hv) }
  | lend | readback | candidate | create =>
    exact hchange { leases := hinsert (h.search _ rfl) }
  | bind hv => exact hchange { leases := hinsert hv }
  | drainSettled _ _ _ _ hk =>
    exact hchange
      { leases := fun _ _ hL => .inl (Table.lookup_of_lookup_erase hL)
        search := fun p hp => .inr (hk p hp) }
  | fallBack | release | dropLease | discard | unlinkObject =>
    exact hchange { leases := fun _ _ hL => .inl (Table.lookup_of_lookup_erase hL) }
  | endSession hses _ _ _ hleaving => exact h.endSession hses hleaving rfl
  | purged hleaving hgone =>
    refine ⟨h.leases, fun oid o ho r hr => .inl ?_, fun _ hp => nomatch hp⟩
    refine (h.holders oid o ho r hr).resolve_right fun heq => hgone oid o ho ?_
    rwa [← Option.some.inj (hleaving.symm.trans heq)] at hr
  | openSession hdead => exact h.openSession hdead
  | heartbeat =>
    refine hchange { sessions := fun r ses hses ha => ?_ }
    refine ⟨_, Table.lookup_modify_of_lookup hses, ?_⟩
    split <;> exact ⟨ha, rfl⟩
  | rehash hl hs =>
    exact hchange
      { sessions := fun r ses hses ha => ⟨ses, (hs.lookup_eq r).trans hses, ha, rfl⟩
        leases := fun id L hL => .inl ((hl.lookup_eq id).symm.trans hL) }
  | _ => exact hchange {}

/-! ## Runs -/

/-- In every run in which searches go on only for sessions that are still there, every lease
    is of a live session and every holder of an object has one. -/
theorem owners_live (h : Reachable c (ownerRules.ok c) s) :
    (∀ id L, s.store.leases.lookup id = some L → s.epochValid L.ownerRank L.rankEpoch) ∧
      ∀ oid o, s.catalog.objects.lookup oid = some o → ∀ r ∈ o.holders, s.Alive r := by
  have hs : Owned (s, none, {}) := by
    refine h.invariant_of_rules ⟨nofun, nofun, ?_⟩ fun _ _ hx hxy => hx.move hxy
    exact fun _ hp => nomatch hp
  exact ⟨hs.leases, fun oid o ho r hr => (hs.holders oid o ho r hr).resolve_right nofun⟩

/-- The rank 0 registers again while its offload is inside a forced drain: the offload
    goes on, and is lent a run in the name of the session that has ended. -/
theorem lease_outlives_session :
    ∃ s L, Reached oneSlot s ∧ s.store.leases.lookup 2 = some L ∧
      ¬s.epochValid L.ownerRank L.rankEpoch :=
  exists_reachable₂ oneSlot _
    (registers :: offloads 1 1 1 1 [1] ++ (offloads 2 2 1 2 [2]).take 1 ++
      [registers, .io 0 .ok, .proceed 3 0]) (by decide +kernel)

/-- An offload goes on after a forced drain, and then its rank registers again: the lease
    goes with the session, and one of the next session stays. -/
theorem owners_live_again :
    ∃ s, Reachable oneSlot (ownerRules.ok oneSlot) s ∧ (s.store.leases.lookup 3).isSome ∧
      (∀ id L, s.store.leases.lookup id = some L → s.epochValid L.ownerRank L.rankEpoch) ∧
      ∀ oid o, s.catalog.objects.lookup oid = some o → ∀ r ∈ o.holders, s.Alive r :=
  exists_reachable_and oneSlot _ (registers :: offloads 1 1 1 1 [1] ++
    (offloadsDraining 2 2 1 2 [2]).take 3 ++ [registers,
      .rpc 4 (.offload { rankId := 0, rankEpoch := 2, tensorId := 3, version := 1, nbytes := 4 })])
    (by decide +kernel) fun _ hs _ => owners_live hs

end StateSpectre
