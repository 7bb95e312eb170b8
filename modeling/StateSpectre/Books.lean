import Mathlib.Algebra.BigOperators.Group.Finset.Basic
import StateSpectre.Contents.Moves
import StateSpectre.Lib.Tiling

/-!
# The books of the slot table

The slots in use are divided into runs, each of as many slots as the bytes noted in its first
slot take, and all of them in the state of the first one (`Store.Runs`). What the gauges of the
daemon should show can be told from the runs (`Store.books`): the bytes of all of them, and the
bytes of those that are in one of the three states that have a gauge.

Within a step, a run that is to be freed is no longer counted as under way although its slots are
as before. So there are the runs of the table, and those of them that are on the books (`Books`).
A run is reserved, turned to another state, written off or closed, and the gauges follow
(`Books.reserve`, `Books.turn`, `Books.writeOff`, `Books.close`).
-/

namespace StateSpectre

variable {c : Config} {x y : Scene} {st st' : Store} {R B : Finset ℕ} {b n : ℕ} {q : SlotState}
  {i : ℕ} {B' : Finset ℕ}

/-! ## Runs -/

/-- The states that have a gauge. -/
def SlotState.Counted : SlotState → Bool
  | .d2hInFlight | .h2dInFlight | .drainInFlight => true
  | _ => false

namespace Store

variable (c) (st)

def inUse (i : ℕ) : Bool := st.slotState i != .free

/-- The runs that the slots in use are divided into, by their first slots. -/
structure Runs (R : Finset ℕ) : Prop where
  tiles : Tiles (st.extent c) R { i | st.inUse i }
  uniform : ∀ b ∈ R, ∀ i, InRun b (st.extent c b) i → st.slotState i = st.slotState b

/-- The bytes of the runs in a state. -/
def bytesIn (B : Finset ℕ) (q : SlotState) : ℕ :=
  ∑ b ∈ B, if st.slotState b = q then (st.slots b).nbytes else 0

/-- What the gauges should show, in 64 bits, for the runs `R`, of which those of `B` count as
    under way. -/
def books (R B : Finset ℕ) : Gauges where
  usedPinnedBytes := (∑ b ∈ R, st.extent c b) * c.allocationGranularityBytes % 2 ^ 64
  inflightD2HBytes := st.bytesIn B .d2hInFlight % 2 ^ 64
  inflightH2DBytes := st.bytesIn B .h2dInFlight % 2 ^ 64
  drainingBytes := st.bytesIn B .drainInFlight % 2 ^ 64

variable {c} {st}

theorem inUse_iff : st.inUse i ↔ st.slotState i ≠ .free := bne_iff_ne

theorem Runs.ne_free (h : st.Runs c R) (hb : b ∈ R) : st.slotState b ≠ .free :=
  inUse_iff.1 (h.tiles.mem hb)

namespace Runs

variable (h : st.Runs c R)

include h

/-- The slots change their states, and those of a run change together. -/
theorem congr (hn : ∀ i, (st'.slots i).nbytes = (st.slots i).nbytes)
    (hlive : ∀ i, st'.slotState i = .free ↔ st.slotState i = .free)
    (hrun : ∀ b ∈ R, ∀ i, InRun b (st.extent c b) i → st'.slotState i = st'.slotState b) :
    st'.Runs c R := by
  have hext : ∀ i, st'.extent c i = st.extent c i := fun i => by rw [extent, hn, ← extent]
  refine ⟨h.tiles.congr (fun b _ => hext b) fun i => ?_, fun b hb i hi => hrun b hb i (hext b ▸ hi)⟩
  exact inUse_iff.trans ((not_congr (hlive i)).trans inUse_iff.symm)

/-- The other runs are as they were, if only the slots of one of them change. -/
theorem slots_of_ne (hb : b ∈ R)
    (hout : ∀ i, ¬InRun b (st.extent c b) i → st'.slots i = st.slots i) {a : ℕ} (ha : a ∈ R)
    (hne : a ≠ b) (hi : InRun a (st.extent c a) i) : st'.slots i = st.slots i :=
  hout i fun hi' => h.tiles.apart a ha b hb hne ⟨i, hi, hi'⟩

/-- All runs are as they were, if only free slots change. -/
theorem slots_of_free (hfree : st.RunFree b n)
    (hout : ∀ i, ¬InRun b n i → st'.slots i = st.slots i) {a : ℕ} (ha : a ∈ R)
    (hi : InRun a (st.extent c a) i) : st'.slots i = st.slots i := by
  refine hout i fun hi' => h.ne_free ha ?_
  rw [← h.uniform a ha i hi]
  exact hfree i hi'

/-- A run is freed. -/
theorem erase (hb : b ∈ R) (hin : ∀ i, InRun b (st.extent c b) i → st'.slotState i = .free)
    (hout : ∀ i, ¬InRun b (st.extent c b) i → st'.slots i = st.slots i) :
    st'.Runs c (R.erase b) := by
  have hbase : ∀ a ∈ R, a ≠ b → st'.slots a = st.slots a := fun a ha hne =>
    h.slots_of_ne hb hout ha hne (h.tiles.inRun ha)
  have hext : ∀ a ∈ R, a ≠ b → st'.extent c a = st.extent c a := fun a ha hne => by
    rw [extent, hbase a ha hne, ← extent]
  refine ⟨h.tiles.erase hb hext fun i => ?_, fun a ha i hi => ?_⟩
  · show st'.inUse i ↔ st.inUse i ∧ _
    rw [inUse_iff, inUse_iff]
    by_cases hi : InRun b (st.extent c b) i
    · exact iff_of_false (fun hlive => hlive (hin i hi)) fun hlive => hlive.2 hi
    · rw [slotState, hout i hi, ← slotState]
      exact (and_iff_left hi).symm
  · obtain ⟨hne, ha⟩ := Finset.mem_erase.1 ha
    rw [hext a ha hne] at hi
    rw [slotState, slotState, h.slots_of_ne hb hout ha hne hi, hbase a ha hne]
    exact h.uniform a ha i hi

/-- A free run is put to use. -/
theorem insert (hfree : st.RunFree b n) (hext : st'.extent c b = n) (hn : 0 < n)
    (hin : ∀ i, InRun b n i → st'.slotState i = q) (hq : q ≠ .free)
    (hout : ∀ i, ¬InRun b n i → st'.slots i = st.slots i) : st'.Runs c (insert b R) := by
  have hsame : ∀ a ∈ R, st'.extent c a = st.extent c a := fun a ha => by
    rw [extent, h.slots_of_free hfree hout ha (h.tiles.inRun ha), ← extent]
  refine ⟨h.tiles.insert hext hn (fun i hi huse => inUse_iff.1 huse (hfree i hi)) hsame
    fun i => ?_, fun a ha i hi => ?_⟩
  · show st'.inUse i ↔ st.inUse i ∨ _
    by_cases hi : InRun b n i
    · rw [inUse_iff, hin i hi]
      exact iff_of_true hq (.inr hi)
    · rw [inUse, slotState, hout i hi, ← slotState, ← inUse]
      exact (or_iff_left hi).symm
  · rcases Finset.mem_insert.1 ha with rfl | ha
    · rw [hext] at hi
      rw [hin i hi, hin a ⟨le_rfl, Nat.lt_add_of_pos_right hn⟩]
    · rw [hsame a ha] at hi
      rw [slotState, slotState, h.slots_of_free hfree hout ha hi,
        h.slots_of_free hfree hout ha (h.tiles.inRun ha)]
      exact h.uniform a ha i hi

end Runs

theorem bytesIn_congr (h : ∀ b ∈ B, st'.slotState b = st.slotState b ∧
    (st'.slots b).nbytes = (st.slots b).nbytes) : st'.bytesIn B q = st.bytesIn B q :=
  Finset.sum_congr rfl fun b hb => by rw [(h b hb).1, (h b hb).2]

theorem bytesIn_erase (hb : b ∈ B) : st.bytesIn B q =
    st.bytesIn (B.erase b) q + if st.slotState b = q then (st.slots b).nbytes else 0 :=
  (Finset.sum_erase_add _ _ hb).symm

/-- A run in a state that has no gauge does not count. -/
theorem bytesIn_erase_of_not_counted (hb : b ∈ B → ¬(st.slotState b).Counted) (hq : q.Counted) :
    st.bytesIn (B.erase b) q = st.bytesIn B q := by
  by_cases hB : b ∈ B
  · have hne : st.slotState b ≠ q := by
      rintro rfl
      exact hb hB hq
    rw [bytesIn_erase hB, if_neg hne, Nat.add_zero]
  · rw [Finset.erase_eq_of_notMem hB]

theorem books_congr (hR : ∀ b ∈ R, (st'.slots b).nbytes = (st.slots b).nbytes)
    (hB : ∀ b ∈ B, st'.slotState b = st.slotState b) (hsub : B ⊆ R) :
    st'.books c R B = st.books c R B := by
  have hext : ∑ b ∈ R, st'.extent c b = ∑ b ∈ R, st.extent c b :=
    Finset.sum_congr rfl fun b hb => by rw [extent, hR b hb, ← extent]
  have hbytes : ∀ q, st'.bytesIn B q = st.bytesIn B q := fun q =>
    bytesIn_congr fun b hb => ⟨hB b hb, hR b (hsub hb)⟩
  simp only [books, hext, hbytes]

/-- A run is taken from the books. -/
theorem books_leave (hb : b ∈ B) :
    (st.books c R B).leave (st.slotState b) (st.slots b).nbytes = st.books c R (B.erase b) := by
  simp only [books, bytesIn_erase hb]
  cases st.slotState b <;> simp [Gauges.leave, subU64_mod, -Nat.reducePow]

/-- A run is put on the books. -/
theorem books_enter (hb : b ∈ B) :
    (st.books c R (B.erase b)).enter (st.slotState b) (st.slots b).nbytes = st.books c R B := by
  simp only [books, bytesIn_erase hb]
  cases st.slotState b <;> simp [Gauges.enter, addU64_mod, -Nat.reducePow]

/-- A run comes into use, in a state that has no gauge. -/
theorem books_insert (hb : b ∉ R) (hB : b ∉ B) (hq : ¬(st.slotState b).Counted) :
    st.books c (insert b R) (insert b B) =
      { st.books c R B with
        usedPinnedBytes :=
          addU64 (st.books c R B).usedPinnedBytes (c.runBytes (st.extent c b)) } := by
  have hbytes : ∀ {q : SlotState}, q.Counted → st.bytesIn (insert b B) q = st.bytesIn B q := by
    intro q hc
    rw [← bytesIn_erase_of_not_counted (fun _ => hq) hc, Finset.erase_insert hB]
  have hused : addU64 (st.books c R B).usedPinnedBytes (c.runBytes (st.extent c b)) =
      (∑ a ∈ insert b R, st.extent c a) * c.allocationGranularityBytes % 2 ^ 64 := by
    rw [Finset.sum_insert hb, Nat.add_mul, Nat.add_comm, addU64, Config.runBytes, books,
      Nat.mod_add_mod, Nat.add_mod_mod]
  rw [hused, books, hbytes (q := .d2hInFlight) rfl, hbytes (q := .h2dInFlight) rfl,
    hbytes (q := .drainInFlight) rfl, books]

/-- A run goes out of use, in a state that has no gauge unless it is not on the books. -/
theorem books_erase (hb : b ∈ R) (hq : b ∈ B → ¬(st.slotState b).Counted) :
    { st.books c R B with
      usedPinnedBytes :=
        subU64 (st.books c R B).usedPinnedBytes (c.runBytes (st.extent c b)) } =
      st.books c (R.erase b) (B.erase b) := by
  have hused : subU64 (st.books c R B).usedPinnedBytes (c.runBytes (st.extent c b)) =
      (∑ a ∈ R.erase b, st.extent c a) * c.allocationGranularityBytes % 2 ^ 64 := by
    rw [books, ← Finset.sum_erase_add _ _ hb, Nat.add_mul, Config.runBytes, subU64, Nat.mod_mod,
      ← subU64, subU64_mod]
  rw [hused, books, books, bytesIn_erase_of_not_counted (q := .d2hInFlight) hq rfl,
    bytesIn_erase_of_not_counted (q := .h2dInFlight) hq rfl,
    bytesIn_erase_of_not_counted (q := .drainInFlight) hq rfl]

end Store

/-! ## Scenes -/

namespace Store

/-- A copy between the run at a slot and a GPU is under way. -/
abbrev InFlight (st : Store) (b : ℕ) : Prop :=
  st.slotState b = .d2hInFlight ∨ st.slotState b = .h2dInFlight

/-- The run at a slot has a lease. -/
def Leased (st : Store) (b : ℕ) : Prop := ∃ id L, st.leases.lookup id = some L ∧ L.baseSlot = b

/-- There is work on the run at a slot. -/
def Worked (st : Store) (b : ℕ) : Prop := ∃ w ∈ st.works, w.base = b

end Store

/-- The gauges of a scene show what they should. Of the runs `R` of the table, those of `B` are on
    the books; the others are to be freed. What is counted as under way has a lease or a drain. -/
structure Books (c : Config) (x : Scene) (R B : Finset ℕ) : Prop where
  runs : x.1.store.Runs c R
  whole : ∀ b ∈ R, c.slotsForBytes (x.1.store.slots b).nbytes =
    c.slotsSpanned (x.1.store.slots b).nbytes
  planned : ∀ b ∈ R, c.Planned b (x.1.store.extent c b)
  sub : B ⊆ R
  off : ∀ b ∈ R, b ∉ B → ∃ n, 0 < n ∧ (b, n) ∈ x.2.2.freeing
  used : ∀ b, x.1.store.Used b → b ∈ B
  leased : ∀ b ∈ B, x.1.store.InFlight b → x.1.store.Leased b
  worked : ∀ b ∈ B, x.1.store.slotState b = .drainInFlight → x.1.store.Worked b
  gauges : x.1.gauges = x.1.store.books c R B

/-- What every move does with the runs in use and with those that are to be freed. -/
structure Uses (x y : Scene) : Prop where
  live : ∀ b, y.1.store.Used b → y.1.store.slotState b ≠ .free
  used : ∀ b, y.1.store.Used b → x.1.store.slotState b ≠ .free → x.1.store.Used b
  freeing : ∀ r ∈ x.2.2.freeing, r ∈ y.2.2.freeing ∨ y.1.store.RunFree r.1 r.2

/-- The runs `B` keep the leases and drains that they are counted for. -/
structure KeepsHolders (B : Finset ℕ) (x y : Scene) : Prop where
  leased : ∀ b ∈ B, y.1.store.InFlight b → x.1.store.Leased b → y.1.store.Leased b := by
    exact fun _ _ _ h => h
  worked : ∀ b ∈ B, y.1.store.slotState b = .drainInFlight → x.1.store.Worked b →
    y.1.store.Worked b := by exact fun _ _ _ h => h

/-- The slots of a run go to another state, and no other slot changes. -/
structure Store.Turned (st st' : Store) (b n : ℕ) (q : SlotState) : Prop where
  state : ∀ i, InRun b n i → st'.slotState i = q := by
    exact fun _ hi => congrArg SlotEntry.state (if_pos hi)
  nbytes : ∀ i, InRun b n i → (st'.slots i).nbytes = (st.slots i).nbytes := by
    exact fun _ hi => (congrArg SlotEntry.nbytes (if_pos hi)).trans rfl
  other : ∀ i, ¬InRun b n i → st'.slots i = st.slots i := by exact fun _ hi => if_neg hi

namespace Books

/-- Runs that keep their holders and their states are still counted for a reason. -/
theorem held (h : Books c x R B) (hsub : B' ⊆ B) (hk : KeepsHolders B' x y)
    (hst : ∀ a ∈ B', y.1.store.slotState a = x.1.store.slotState a) :
    (∀ a ∈ B', y.1.store.InFlight a → y.1.store.Leased a) ∧
      ∀ a ∈ B', y.1.store.slotState a = .drainInFlight → y.1.store.Worked a := by
  refine ⟨fun a ha hq => hk.leased a ha hq (h.leased a (hsub ha) ?_), fun a ha hq =>
    hk.worked a ha hq (h.worked a (hsub ha) (hst a ha ▸ hq))⟩
  rwa [Store.InFlight, hst a ha] at hq

variable (h : Books c x R B) (hu : Uses x y)

include h hu

/-- A run that is not on the books is still to be freed. -/
theorem off_move (hlive : y.1.store.slotState b ≠ .free) (hb : b ∈ R) (hB : b ∉ B) :
    ∃ n, 0 < n ∧ (b, n) ∈ y.2.2.freeing := by
  obtain ⟨n, hn, hr⟩ := h.off b hb hB
  refine ⟨n, hn, (hu.freeing _ hr).resolve_right fun hfree => hlive ?_⟩
  exact hfree b ⟨le_rfl, Nat.lt_add_of_pos_right hn⟩

/-- The runs are the same ones, and all those on the books have been there before. -/
theorem keep (hsub : B' ⊆ B) (hn : ∀ i, (y.1.store.slots i).nbytes = (x.1.store.slots i).nbytes)
    (hlive : ∀ i, y.1.store.slotState i = .free ↔ x.1.store.slotState i = .free)
    (hrun : ∀ b ∈ R, ∀ i, InRun b (x.1.store.extent c b) i →
      y.1.store.slotState i = y.1.store.slotState b)
    (hoff : ∀ b ∈ B, b ∉ B' → ¬y.1.store.Used b ∧ ∃ n, 0 < n ∧ (b, n) ∈ y.2.2.freeing)
    (hl : ∀ b ∈ B', y.1.store.InFlight b → y.1.store.Leased b)
    (hw : ∀ b ∈ B', y.1.store.slotState b = .drainInFlight → y.1.store.Worked b)
    (hg : y.1.gauges = y.1.store.books c R B') : Books c y R B' := by
  refine ⟨h.runs.congr hn hlive hrun, fun b hb => ?_, fun b hb => ?_, hsub.trans h.sub,
    fun b hb hB => ?_, fun b hb => ?_, hl, hw, hg⟩
  · rw [hn]
    exact h.whole b hb
  · rw [Store.extent, hn]
    exact h.planned b hb
  · by_cases hb' : b ∈ B
    · exact (hoff b hb' hB).2
    · exact h.off_move hu (mt (hlive b).1 (h.runs.ne_free hb)) hb hb'
  · by_contra hB
    have hb' := h.used b (hu.used b hb (mt (hlive b).2 (hu.live b hb)))
    exact (hoff b hb' hB).1 hb

/-- No run changes. -/
theorem frame (hk : KeepsHolders B x y)
    (hst : ∀ i, y.1.store.slotState i = x.1.store.slotState i := by exact fun _ => rfl)
    (hn : ∀ i, (y.1.store.slots i).nbytes = (x.1.store.slots i).nbytes := by exact fun _ => rfl)
    (hg : y.1.gauges = x.1.gauges := by rfl) : Books c y R B := by
  obtain ⟨hl, hw⟩ := h.held (Finset.Subset.refl B) hk fun a _ => hst a
  refine h.keep hu (Finset.Subset.refl B) hn (fun i => by rw [hst]) (fun b hb i hi => ?_)
    (fun b hb hB => absurd hb hB) hl hw ?_
  · rw [hst, hst]
    exact h.runs.uniform b hb i hi
  · rw [hg, h.gauges]
    exact (Store.books_congr (fun b _ => hn b) (fun b _ => hst b) h.sub).symm

/-- A run that is to be freed is no longer on the books. -/
theorem writeOff (hb : b ∈ B) (hnot : ¬y.1.store.Used b) (hpos : 0 < n)
    (hfree : (b, n) ∈ y.2.2.freeing) (hk : KeepsHolders (B.erase b) x y)
    (hst : ∀ i, y.1.store.slotState i = x.1.store.slotState i)
    (hn : ∀ i, (y.1.store.slots i).nbytes = (x.1.store.slots i).nbytes)
    (hg : y.1.gauges = x.1.gauges.leave (x.1.store.slotState b) (x.1.store.slots b).nbytes) :
    Books c y R (B.erase b) := by
  obtain ⟨hl, hw⟩ := h.held (Finset.erase_subset b B) hk fun a _ => hst a
  refine h.keep hu (Finset.erase_subset b B) hn (fun i => by rw [hst]) (fun a ha i hi => ?_)
    (fun a ha hB => ?_) hl hw ?_
  · rw [hst, hst]
    exact h.runs.uniform a ha i hi
  · obtain rfl : a = b := by_contra fun hne => hB (Finset.mem_erase.2 ⟨hne, ha⟩)
    exact ⟨hnot, n, hpos, hfree⟩
  · rw [hg, h.gauges, Store.books_leave hb]
    exact (Store.books_congr (fun a _ => hn a) (fun a _ => hst a)
      ((Finset.erase_subset b B).trans h.sub)).symm

/-- A run goes to another state. -/
theorem turn {q q' : SlotState} (hb : b ∈ B) (hq : x.1.store.slotState b = q)
    (hcount : n = x.1.store.extent c b) (ht : x.1.store.Turned y.1.store b n q') (hq' : q' ≠ .free)
    (hk : KeepsHolders (B.erase b) x y)
    (hl : q' = .d2hInFlight ∨ q' = .h2dInFlight → y.1.store.Leased b)
    (hw : q' = .drainInFlight → y.1.store.Worked b)
    (hg : y.1.gauges =
      (x.1.gauges.leave q (x.1.store.slots b).nbytes).enter q' (x.1.store.slots b).nbytes) :
    Books c y R B := by
  subst hcount hq
  obtain ⟨hin, hbytes, hout⟩ := ht
  have hn : ∀ i, (y.1.store.slots i).nbytes = (x.1.store.slots i).nbytes := by
    intro i
    by_cases hi : InRun b (x.1.store.extent c b) i
    · exact hbytes i hi
    · rw [hout i hi]
  have hR := h.sub hb
  have hself := hin b (h.runs.tiles.inRun hR)
  -- Another run of the table is apart from this one.
  have hother : ∀ a ∈ R, a ≠ b → ∀ i, InRun a (x.1.store.extent c a) i →
      y.1.store.slotState i = x.1.store.slotState i := fun a ha hne i hi =>
    congrArg SlotEntry.state (h.runs.slots_of_ne hR hout ha hne hi)
  have hbase : ∀ a ∈ B.erase b, y.1.store.slotState a = x.1.store.slotState a := by
    intro a ha
    have ha' := h.sub (Finset.mem_of_mem_erase ha)
    exact hother a ha' (Finset.ne_of_mem_erase ha) a (h.runs.tiles.inRun ha')
  obtain ⟨hheld, hworked⟩ := h.held (Finset.erase_subset b B) hk hbase
  refine h.keep hu (Finset.Subset.refl B) hn (fun i => ?_) (fun a ha i hi => ?_)
    (fun a ha hB => absurd ha hB) (fun a ha hqa => ?_) (fun a ha hqa => ?_) ?_
  · by_cases hi : InRun b (x.1.store.extent c b) i
    · rw [hin i hi, h.runs.uniform b hR i hi]
      exact iff_of_false hq' (h.runs.ne_free hR)
    · rw [Store.slotState, hout i hi, ← Store.slotState]
  · by_cases hab : a = b
    · subst hab
      rw [hin i hi, hself]
    · rw [hother a ha hab i hi, hother a ha hab a (h.runs.tiles.inRun ha)]
      exact h.runs.uniform a ha i hi
  · by_cases hab : a = b
    · subst hab
      rw [Store.InFlight, hself] at hqa
      exact hl hqa
    · exact hheld a (Finset.mem_erase.2 ⟨hab, ha⟩) hqa
  · by_cases hab : a = b
    · subst hab
      exact hw (hself.symm.trans hqa)
    · exact hworked a (Finset.mem_erase.2 ⟨hab, ha⟩) hqa
  · have hbooks := Store.books_congr (c := c) (fun a _ => hn a) hbase
      ((Finset.erase_subset b B).trans h.sub)
    rw [hg, h.gauges, Store.books_leave hb, ← hbooks, ← hself, ← hn b]
    exact Store.books_enter hb

/-- A run is freed that is not counted as under way. -/
theorem close (hR : b ∈ R) (hq : b ∈ B → ¬(x.1.store.slotState b).Counted)
    (hcount : n = x.1.store.extent c b) (hin : ∀ i, InRun b n i → y.1.store.slotState i = .free)
    (hout : ∀ i, ¬InRun b n i → y.1.store.slots i = x.1.store.slots i)
    (hk : KeepsHolders (B.erase b) x y)
    (hg : y.1.gauges =
      { x.1.gauges with
        usedPinnedBytes := subU64 x.1.gauges.usedPinnedBytes (c.runBytes n) }) :
    Books c y (R.erase b) (B.erase b) := by
  subst hcount
  have hbase : ∀ a ∈ R.erase b, y.1.store.slots a = x.1.store.slots a := by
    intro a ha
    obtain ⟨hne, ha⟩ := Finset.mem_erase.1 ha
    exact h.runs.slots_of_ne hR hout ha hne (h.runs.tiles.inRun ha)
  have hstate : ∀ a ∈ R.erase b, y.1.store.slotState a = x.1.store.slotState a := fun a ha =>
    congrArg SlotEntry.state (hbase a ha)
  have hsub : B.erase b ⊆ R.erase b := Finset.erase_subset_erase b h.sub
  obtain ⟨hl, hw⟩ := h.held (Finset.erase_subset b B) hk fun a ha => hstate a (hsub ha)
  refine ⟨h.runs.erase hR hin hout, fun a ha => ?_, fun a ha => ?_, hsub, fun a ha hB => ?_,
    fun a ha => ?_, hl, hw, ?_⟩
  · rw [hbase a ha]
    exact h.whole a (Finset.mem_of_mem_erase ha)
  · rw [Store.extent, hbase a ha]
    exact h.planned a (Finset.mem_of_mem_erase ha)
  · obtain ⟨hab, haR⟩ := Finset.mem_erase.1 ha
    have haB : a ∉ B := fun haB => hB (Finset.mem_erase.2 ⟨hab, haB⟩)
    exact h.off_move hu (hstate a ha ▸ h.runs.ne_free haR) haR haB
  · -- A run in use is not the one that is freed, nor inside of it.
    have hi : ¬InRun b (x.1.store.extent c b) a := fun hi => hu.live a ha (hin a hi)
    have hab : a ≠ b := by
      rintro rfl
      exact hi (h.runs.tiles.inRun hR)
    refine Finset.mem_erase.2 ⟨hab, h.used a (hu.used a ha ?_)⟩
    rw [Store.slotState, ← hout a hi]
    exact hu.live a ha
  · rw [hg, h.gauges, Store.books_erase hR hq]
    exact (Store.books_congr (fun a ha => congrArg SlotEntry.nbytes (hbase a ha))
      (fun a ha => hstate a (hsub ha)) hsub).symm

/-- A free run is put to use, in a state that has no gauge. -/
theorem reserve {nbytes : ℕ} {q : SlotState} (hfree : x.1.store.RunFree b n)
    (hsize : c.slotsForBytes nbytes = n) (hwhole : c.slotsForBytes nbytes = c.slotsSpanned nbytes)
    (hplan : c.Planned b n) (hbytes : (y.1.store.slots b).nbytes = nbytes)
    (hin : ∀ i, InRun b n i → y.1.store.slotState i = q) (hq : q ≠ .free) (hq' : ¬q.Counted)
    (hout : ∀ i, ¬InRun b n i → y.1.store.slots i = x.1.store.slots i)
    (hnew : ∀ a, y.1.store.Used a → x.1.store.Used a ∨ a = b) (hk : KeepsHolders B x y)
    (hg : y.1.gauges =
      { x.1.gauges with
        usedPinnedBytes := addU64 x.1.gauges.usedPinnedBytes (c.runBytes n) }) :
    Books c y (insert b R) (insert b B) := by
  subst hsize
  have hself : InRun b (c.slotsForBytes nbytes) b :=
    ⟨le_rfl, Nat.lt_add_of_pos_right (c.slotsForBytes_pos hwhole)⟩
  have hextb : y.1.store.extent c b = c.slotsForBytes nbytes := by rw [Store.extent, hbytes]
  have hbase : ∀ a ∈ R, y.1.store.slots a = x.1.store.slots a := fun a ha =>
    h.runs.slots_of_free hfree hout ha (h.runs.tiles.inRun ha)
  have hstate : ∀ a ∈ R, y.1.store.slotState a = x.1.store.slotState a := fun a ha =>
    congrArg SlotEntry.state (hbase a ha)
  have hbR : b ∉ R := fun hb => h.runs.ne_free hb (hfree b hself)
  have hbB : b ∉ B := fun hb => hbR (h.sub hb)
  obtain ⟨hl, hw⟩ := h.held (Finset.Subset.refl B) hk fun a ha => hstate a (h.sub ha)
  refine ⟨h.runs.insert hfree hextb (c.slotsForBytes_pos hwhole) hin hq hout, fun a ha => ?_,
    fun a ha => ?_, Finset.insert_subset_insert b h.sub, fun a ha hB => ?_, fun a ha => ?_,
    fun a ha hqa => ?_, fun a ha hqa => ?_, ?_⟩
  · rcases Finset.mem_insert.1 ha with rfl | ha
    · rwa [hbytes]
    · rw [hbase a ha]
      exact h.whole a ha
  · rcases Finset.mem_insert.1 ha with rfl | ha
    · rwa [hextb]
    · rw [Store.extent, hbase a ha]
      exact h.planned a ha
  · have hab : a ≠ b := fun hab => hB (hab ▸ Finset.mem_insert_self b B)
    have haR := Finset.mem_of_mem_insert_of_ne ha hab
    exact h.off_move hu (hstate a haR ▸ h.runs.ne_free haR) haR fun haB =>
      hB (Finset.mem_insert_of_mem haB)
  · rcases hnew a ha with ha | rfl
    · exact Finset.mem_insert_of_mem (h.used a ha)
    · exact Finset.mem_insert_self a B
  · rcases Finset.mem_insert.1 ha with rfl | ha
    · rw [Store.InFlight, hin a hself] at hqa
      rcases hqa with rfl | rfl <;> exact absurd rfl hq'
    · exact hl a ha hqa
  · rcases Finset.mem_insert.1 ha with rfl | ha
    · rw [hin a hself] at hqa
      exact absurd (congrArg SlotState.Counted hqa) hq'
    · exact hw a ha hqa
  · have hbooks := Store.books_congr (c := c) (fun a ha => congrArg SlotEntry.nbytes (hbase a ha))
      (fun a ha => hstate a (h.sub ha)) h.sub
    rw [Store.books_insert hbR hbB (by rwa [hin b hself]), hbooks, hextb, ← h.gauges, hg]

end Books

end StateSpectre
