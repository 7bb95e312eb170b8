import StateSpectre.Contents.Leases

/-!
# The contents in every state

Every transition that meets the guards keeps the contents (`Sound.step`), so that
they hold in every state the daemon reaches under them (`Reachable.contents`).
-/

namespace StateSpectre

variable {c : Config} {π : Provenance} {st st' : Store} {s : State} {g : Guards}

/-- What the transitions keep: the contents, the tiers of the cold copies, and what
    the search under way will read. -/
structure Sound (c : Config) (π : Provenance) (st : Store) (p : Option Purpose) : Prop where
  contents : st.Contents c π
  kinds : ColdKinds st
  purpose : ∀ q ∈ p, st.PurposeOk c π q

theorem Task.work_of_pull {t : Task} {l : PullLocals} (h : t.pull = some l) : t.work = none := by
  cases t <;> first | rfl | cases h

namespace Store

/-- What a search will read is good as long as the cold store keeps the copy. -/
theorem Contents.purposeOk {p : Purpose} (h : st.Contents c π)
    (hg : g.Implies (contentGuards c π)) (hp : p.Sought g st) : st.PurposeOk c π p := by
  cases p with
  | prefetch req loc v pid id => exact hp.elim
  | restore req cold nbytes =>
    obtain ⟨loc, hloc, -, hcold, hw⟩ := hp
    obtain ⟨hv, rfl⟩ := hg.warm hw
    have hok := h.locations _ _ hloc
    obtain ⟨hgood, hlen⟩ := hok.ref.good cold hcold
    exact ⟨hok.whole, hv ▸ hgood, hlen⟩
  | _ => trivial

/-- Every transition keeps the contents. -/
theorem Contents.step {p : Option Purpose} (h : st.Contents c π)
    (hk : ColdKinds st) (hp : ∀ q ∈ p, st.PurposeOk c π q) (hg : g.Implies (contentGuards c π))
    {p' : Option Purpose} (hstep : StoreStep c g (st, p) (st', p')) : st'.Contents c π := by
  cases hstep with
  | seek | giveUp => exact h
  | seekPrefetch => exact h.frame fun _ => {}
  | lend hfree hcount hl => exact h.lend hfree hcount (hg.lend hl)
  | readback hfree => exact h.readback hfree (hp _ rfl)
  | warm hfree => exact h.warm hfree (hp _ rfl)
  | force hL hst => exact h.forceDrain hL hst (hp _ rfl)
  | enqueue hL hst => exact h.enqueueDrain hL hst
  | takeDrain hq => exact h.takeDrain hq
  | drainBegin hi => exact h.drainBegin hi
  | drainCopied hi hcopy => exact h.drainCopied hi hcopy
  | drainSettled hi =>
    exact h.settleDrain (hk.drained _ (List.mem_of_getElem? hi) _ rfl).ne_pinned hi
  | drainFailed hi => exact h.failDrain hi
  | takeReadback hq => exact h.takeReadback hq
  | readbackFound hi _ hcold => exact h.readbackFound hi hcold
  | readbackLost hi => exact h.readbackLost hi
  | readbackRead hi hread hr => exact h.readbackRead hi hread (hg.read hr)
  | readbackMissing hi | readbackFailed hi =>
    obtain ⟨h₀, hok, hw⟩ := h.finish hi rfl
    exact h₀.setError hok.count (hok.not_hasData fun h => nomatch h) hw
  | readbackDone hi => exact h.readbackDone hi
  | warmRead hi hread hr => exact h.warmRead hi hread (hg.read hr)
  | warmDone hi hb => exact h.bindWarm hi (hg.bindWarm hb)
  | addPull ht => exact h.addTask (Task.work_of_pull ht) (Task.purpose_of_pull ht)
  | stage _ _ hs =>
    exact ((h.frame fun _ => change_dropTask _).stageOver (hg.stage hs)).addTask rfl rfl
  | copyD2H hL _ hopen hlen => exact h.copyD2H hL hopen hlen
  | submit hL hst hq => exact h.submit hL hst hq
  | publish hL hst hs => exact h.publishD2H hL hst (hg.publish hs)
  | bind hloc hkind hst hb ht hv hn hcount => exact h.bind hloc hkind hst hb ht hv hn hcount
  | keepPinned hL hst hh => exact h.keepPinned hL hst (hg.h2d hh)
  | fallBack _ _ hcold =>
    refine h.unlink fun loc => ?_
    unfold Location.fallBack
    split
    · exact .inr ⟨(hk.stored _ _ (Store.h2dCold_eq_some hcold).2).ne_pinned, rfl, rfl, rfl⟩
    · exact .inl rfl
  | release =>
    refine h.unlink fun loc => ?_
    unfold Location.forget
    split
    · exact .inr ⟨(nomatch ·), rfl, rfl, rfl⟩
    · exact .inl rfl
  | dropTask => exact h.frame fun _ => change_dropTask _
  | dropLease => exact h.frame fun _ => change_dropLease _
  | dropLocation =>
    exact h.frame fun _ => change_locations fun _ _ h => .inl (Table.lookup_of_lookup_erase h)
  | forgetCold => exact h.frame fun _ => change_forgetCold _
  | reclaim hr => exact h.freeSlots (hg.reclaim hr).2 (hg.reclaim hr).1
  | reclaimMarked hr => exact h.freeMarked (hg.reclaim hr).2 (hg.reclaim hr).1
  | noteGrant | noteHolds => exact h.frame fun _ => {}
  | rehash hr =>
    exact h.frame fun _ => { lease := fun id L hL _ => ⟨hr.lookup_eq id ▸ hL, rfl⟩ }

end Store

/-- Every transition that meets the guards keeps what is sound. -/
theorem Sound.step {p p' : Option Purpose} (h : Sound c π st p)
    (hg : g.Implies (contentGuards c π)) (hstep : StoreStep c g (st, p) (st', p')) :
    Sound c π st' p' := by
  refine ⟨h.contents.step h.kinds h.purpose hg hstep, h.kinds.step hstep, ?_⟩
  -- A search begins, or goes on while the store changes around it.
  cases hstep with
  | seek hp =>
    rintro _ ⟨⟩
    exact h.contents.purposeOk hg hp
  | seekPrefetch hloc =>
    rintro _ ⟨⟩
    have hok := h.contents.locations _ _ hloc
    exact ⟨rfl, hok.whole, hok.ref.drawn, hok.ref.good⟩
  | @drainSettled _ i w cold hi =>
    intro q hq
    have h₀ := h.contents.frame fun _ => Store.change_dropTask i
    have hok := h.contents.purposes _ (List.mem_of_getElem? hi) q hq
    have hcold : ((st.dropTask i).addCold cold).PurposeOk c π q := hok.mono rfl fun hr =>
      (Store.change_addCold (b := 0) h₀ cold).ref ⟨hr.drawn, hr.good⟩
    exact hcold.mono rfl fun hr => ⟨hr.drawn, hr.good⟩
  | drainFailed hi =>
    intro q hq
    exact (h.contents.purposes _ (List.mem_of_getElem? hi) q hq).mono rfl
      fun hr => ⟨hr.drawn, hr.good⟩
  | reclaim | reclaimMarked | noteGrant | noteHolds =>
    exact fun q hq => (h.purpose q hq).mono rfl fun hr => ⟨hr.drawn, hr.good⟩
  | _ => exact fun _ h => nomatch h

theorem Sound.initial : Sound c π Store.initial none := by
  have hused : ∀ b, ¬Store.initial.Used b := fun _ h => nomatch h
  refine ⟨⟨?_, ?_, List.nodup_nil, ?_, ?_, fun _ _ => rfl, ?_, Nat.one_pos⟩, ?_, nofun⟩
  · exact fun b hb => absurd hb (hused b)
  · exact fun b _ hb => absurd hb (hused b)
  · exact fun _ _ h => nomatch h
  · exact fun _ h => nomatch h
  · exact fun _ _ h => nomatch h
  · exact ⟨(fun _ _ h => nomatch h), (fun _ h => nomatch h)⟩

theorem Sound.move {k : Rules} {x y : Scene} (h : Sound c π x.1.store x.2.1)
    (hg : g.Implies (contentGuards c π)) (hm : Move c g k x y) : Sound c π y.1.store y.2.1 :=
  hm.store.invariant (motive := fun x => Sound c π x.1 x.2) (fun _ _ hx hs => hx.step hg hs) h

/-- In every state reached under the guards, runs and cold copies contain what they
    should. -/
theorem Reachable.contents (hg : g.Implies (contentGuards c π))
    (h : Reachable c (g.ok c) s) : s.store.Contents c π := by
  exact (Reachable.store_invariant (motive := fun x => Sound c π x.1 x.2) Sound.initial
    (fun _ _ hx hstep => hx.step hg hstep) h).contents

end StateSpectre
