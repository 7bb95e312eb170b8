import StateSpectre.Lib.Consecutive
import StateSpectre.Slots
import StateSpectre.Startup

/-!
# The allocator finds what there is

A run of free slots is searched for in a window by a scan that goes on behind every slot in use
that it meets. It misses no run, and ends at the first one (`tryAllocInWindow_first`).

The windows are tried in the order of a policy: those of the GPU that asks, the overflow of its
node, the windows of the other GPUs of the node, and those of other nodes if the flags allow it.
The first two are looked up in an index by node and GPU, which has one window for each; the others
are found by going through all windows. If a configuration names a node or a GPU twice, a window
can be missed: the index has the one that was carved last, and the other is no peer either
(`allocateSlots_nodeTwice`). Apart from that, the allocator finds a run in the first class that
has one (`allocateSlots_first`).
-/

namespace StateSpectre

/-! ## One window -/

section Scan

variable {slotFree : ℕ → Bool} {count fuel base : ℕ} {ids : List ℕ} {l r : List Window}
  {ws : List Window} {a b : Window}

/-- A scan that fails leaves no run, and one that succeeds ends at the first. (If there is a slot,
    or one is asked for.) -/
theorem scanWindow_spec (hcount : 0 < count ∨ ids ≠ []) (hfuel : ids.length < fuel) :
    match scanWindow slotFree count fuel ids with
    | none => ∀ i, ¬StartsRun (fun id => slotFree id) count ids i
    | some base => ∃ i, StartsRun (fun id => slotFree id) count ids i ∧ ids[i]? = some base ∧
        ∀ j < i, ¬StartsRun (fun id => slotFree id) count ids j := by
  induction fuel generalizing ids with
  | zero => exact absurd hfuel (Nat.not_lt_zero _)
  | succ fuel ih =>
    rw [scanWindow]
    by_cases hlen : ids.length < count
    · rw [if_pos hlen]
      exact fun i h => absurd h.1 (by omega)
    rw [if_neg hlen]
    cases hidx : (ids.take count).findIdx? (fun id => !slotFree id) with
    | none =>
      have hfree : ∀ id ∈ ids.take count, slotFree id := fun id hid => by
        simpa using List.findIdx?_eq_none_iff.1 hidx id hid
      have hrun : StartsRun (fun id => slotFree id) count ids 0 :=
        startsRun_zero.2 ⟨not_lt.1 hlen, hfree⟩
      cases ids with
      | nil =>
        simp only [List.length_nil, not_lt, Nat.le_zero] at hlen
        exact absurd hcount (by simp [hlen])
      | cons id ids => exact ⟨0, hrun, rfl, fun j hj => absurd hj (Nat.not_lt_zero j)⟩
    | some k =>
      obtain ⟨hk, hused, -⟩ := List.findIdx?_eq_some_iff_getElem.1 hidx
      rw [List.length_take] at hk
      have hk' : k < ids.length := hk.trans_le (min_le_right ..)
      -- No run has the slot in use among its slots.
      have hskip : ∀ j ≤ k, ¬StartsRun (fun id => slotFree id) count ids j := fun j hj =>
        not_startsRun_of_le (List.getElem?_eq_getElem hk') (by simpa using hused)
          (hk.trans_le (min_le_left ..)) hj
      have hdrop : ∀ i, StartsRun (fun id => slotFree id) count (ids.drop (k + 1)) i ↔
          StartsRun (fun id => slotFree id) count ids (k + 1 + i) := fun i => startsRun_drop hk'
      have hrest : ∀ j, k < j → ∃ i, j = k + 1 + i := fun j hj => ⟨j - (k + 1), by omega⟩
      have hlen' : (ids.drop (k + 1)).length < fuel := by
        rw [List.length_drop]
        omega
      have ih := ih (.inl (by omega)) hlen'
      dsimp only
      split at ih
      · intro j hj
        rcases Nat.lt_or_ge k j with hlt | hle
        · obtain ⟨i, rfl⟩ := hrest j hlt
          exact ih i ((hdrop i).2 hj)
        · exact hskip j hle hj
      · obtain ⟨i, hi, hbase, hfirst⟩ := ih
        refine ⟨k + 1 + i, (hdrop i).1 hi, by rwa [List.getElem?_drop] at hbase,
          fun j hj hrun => ?_⟩
        rcases Nat.lt_or_ge k j with hlt | hle
        · obtain ⟨i', rfl⟩ := hrest j hlt
          exact hfirst i' (by omega) ((hdrop i').2 hrun)
        · exact hskip j hle hrun

end Scan

variable {st : Store} {count base : ℕ} {ids : List ℕ}

/-- The position `i` of `ids` starts `count` consecutive slots that are free. -/
def Store.FreeAt (st : Store) (ids : List ℕ) (count i : ℕ) : Prop :=
  StartsRun (fun id => st.slotState id = .free) count ids i

/-- The search for free slots in a list, as in a window. -/
abbrev Store.scan (st : Store) (ids : List ℕ) (count : ℕ) : Option ℕ :=
  scanWindow (fun id => st.slotState id == .free) count (ids.length + 1) ids

theorem Store.scan_spec (st : Store) (hcount : 0 < count ∨ ids ≠ []) :
    match st.scan ids count with
    | none => ∀ i, ¬st.FreeAt ids count i
    | some base => ∃ i, st.FreeAt ids count i ∧ ids[i]? = some base ∧
        ∀ j < i, ¬st.FreeAt ids count j := by
  have hfree : (fun id => ((st.slotState id == .free : Bool) : Prop)) =
      fun id => st.slotState id = .free := by
    funext id
    exact propext beq_iff_eq
  have hspec : match st.scan ids count with
      | none => ∀ i, ¬StartsRun (fun id => st.slotState id == .free) count ids i
      | some base => ∃ i, StartsRun (fun id => st.slotState id == .free) count ids i ∧
          ids[i]? = some base ∧
          ∀ j < i, ¬StartsRun (fun id => st.slotState id == .free) count ids j :=
    scanWindow_spec hcount (Nat.lt_succ_self ids.length)
  rwa [hfree] at hspec

/-- It ends at the first run. -/
theorem Store.scan_first (hcount : 0 < count ∨ ids ≠ []) (h : st.scan ids count = some base) :
    ∃ i, st.FreeAt ids count i ∧ ids[i]? = some base ∧ ∀ j < i, ¬st.FreeAt ids count j := by
  have hspec := st.scan_spec hcount
  rwa [h] at hspec

/-- It misses no run. -/
theorem Store.scan_isSome (hcount : 0 < count ∨ ids ≠ []) :
    (st.scan ids count).isSome ↔ ∃ i, st.FreeAt ids count i := by
  constructor
  · intro h
    obtain ⟨base, hbase⟩ := Option.isSome_iff_exists.1 h
    obtain ⟨i, hi, -⟩ := scan_first hcount hbase
    exact ⟨i, hi⟩
  · rintro ⟨i, hi⟩
    by_contra hnone
    have hspec := st.scan_spec hcount
    rw [Option.not_isSome_iff_eq_none.1 hnone] at hspec
    exact hspec i hi

/-- The store in which only the slots `ids` are free. -/
def Store.onlyFree (ids : List ℕ) : Store :=
  { Store.initial with slots := fun id => if id ∈ ids then {} else { state := .reservedD2H } }

theorem Store.onlyFree_free {id : ℕ} : (onlyFree ids).slotState id = .free ↔ id ∈ ids := by
  by_cases h : id ∈ ids
  · simp [Store.slotState, onlyFree, h]
  · simp [Store.slotState, onlyFree, h]

/-- The first `count` consecutive free slots of any list of slots are found, if there are such. -/
theorem tryAllocInWindow_first (st : Store) (ids : List ℕ) (count : ℕ) (hcount : 1 ≤ count) :
    (∀ w : Window, w.slotIds = ids → tryAllocInWindow st w count = st.scan ids count) ∧
      ((st.scan ids count).isSome ↔ ∃ i, st.FreeAt ids count i) ∧
      ∀ base, st.scan ids count = some base →
        ∃ i, st.FreeAt ids count i ∧ ids[i]? = some base ∧ ∀ j < i, ¬st.FreeAt ids count j := by
  refine ⟨?_, Store.scan_isSome (.inl hcount), fun base => Store.scan_first (.inl hcount)⟩
  rintro w rfl
  rfl

theorem tryAllocInWindow_first_two :
    1 ≤ 2 ∧ (Store.onlyFree [4, 6, 7]).scan [3, 4, 5, 6, 7] 2 = some 6 ∧
      ∃ i, (Store.onlyFree [4, 6, 7]).FreeAt [3, 4, 5, 6, 7] 2 i ∧
        [3, 4, 5, 6, 7][i]? = some 6 ∧
        ∀ j < i, ¬(Store.onlyFree [4, 6, 7]).FreeAt [3, 4, 5, 6, 7] 2 j :=
  ⟨by decide, rfl, (tryAllocInWindow_first _ _ 2 (by decide)).2.2 6 rfl⟩

/-! ## All windows -/

/-- The window has `count` consecutive slots that are free. -/
def Window.HasRun (w : Window) (st : Store) (count : ℕ) : Prop :=
  ∃ i, st.FreeAt w.slotIds count i

section Permitted

variable (c : Config) (gpuId numaNode : ℕ)

/-- The windows of the GPU on its node. -/
def Config.ownWindows : List Window :=
  c.plan.windows.filter fun w => w.numaNode = numaNode ∧ !w.isOverflow ∧ w.gpu = gpuId

/-- The overflow windows of the node. -/
def Config.overflowWindows : List Window :=
  c.plan.windows.filter fun w => w.numaNode = numaNode ∧ w.isOverflow

/-- The windows of the other GPUs of the node. -/
def Config.peerWindows : List Window :=
  c.plan.windows.filter fun w => w.numaNode = numaNode ∧ !w.isOverflow ∧ w.gpu ≠ gpuId

/-- The windows of other nodes, if the flags allow them. -/
def Config.remoteWindows (flags : ℕ) : List Window :=
  if flags &&& flagAllowRemoteNuma ≠ 0 then
    c.plan.windows.filter fun w => w.numaNode ≠ numaNode
  else []

/-- The windows that the policy permits, in order of preference. -/
def Config.permitted (flags : ℕ) : List (List Window) :=
  [c.ownWindows gpuId numaNode, c.overflowWindows numaNode, c.peerWindows gpuId numaNode,
    c.remoteWindows numaNode flags]

/-- No window of the class has a run. -/
def NoneHasRun (st : Store) (count : ℕ) (ws : List Window) : Prop := ∀ w ∈ ws, ¬w.HasRun st count

/-- The allocator fails only if no window that is permitted has a run, and finds one in the first
    class that has one. -/
def AllocatesFirst (st : Store) (nbytes flags : ℕ) : Prop :=
  let count := c.slotsForBytes nbytes
  match allocateSlots c st gpuId numaNode nbytes flags with
  | none => ∀ ws ∈ c.permitted gpuId numaNode flags, NoneHasRun st count ws
  | some base => ∃ before ws after, c.permitted gpuId numaNode flags = before ++ ws :: after ∧
      (∀ ws' ∈ before, NoneHasRun st count ws') ∧
      ∃ w ∈ ws, ∃ i, st.FreeAt w.slotIds count i ∧ w.slotIds[i]? = some base

/-- No window of the GPU, and no overflow window of the node, is followed by one of the same node
    and GPU number. -/
def Config.Unshadowed : Prop :=
  c.plan.windows.Pairwise fun w w' => w.numaNode = numaNode → w.isOverflow ∨ w.gpu = gpuId →
    ¬(w'.numaNode = w.numaNode ∧ w'.gpu = w.gpu)

end Permitted

section Allocate

variable {c : Config} {cfg : DaemonConfig} {gpuId numaNode nbytes flags : ℕ} {w : Window}

theorem allocateSlots_eq : allocateSlots c st gpuId numaNode nbytes flags =
    let find (ws : List Window) := ws.findSome? (tryAllocInWindow st · (c.slotsForBytes nbytes))
    find (c.windowIndex numaNode gpuId).toList <|> find (c.windowIndex numaNode noIndex).toList <|>
      find (c.peerWindows gpuId numaNode) <|> find (c.remoteWindows numaNode flags) := by
  have hindex : ∀ o : Option Window,
      o.toList.findSome? (tryAllocInWindow st · (c.slotsForBytes nbytes)) =
        o.bind (tryAllocInWindow st · (c.slotsForBytes nbytes)) := by
    rintro (_ | w)
    · rfl
    · simp
  simp only [hindex, Config.remoteWindows]
  rw [allocateSlots]
  split
  · rfl
  · rfl

theorem Config.mem_of_windowIndex {gpu : ℕ} (h : c.windowIndex numaNode gpu = some w) :
    w ∈ c.plan.windows ∧ w.numaNode = numaNode ∧ w.gpu = gpu := by
  simpa using List.mem_filter.1 (List.mem_of_getLast? h)

/-- A window that none with its key follows is indexed. -/
theorem Config.Unshadowed.windowIndex (h : c.Unshadowed gpuId numaNode)
    (hw : w ∈ c.plan.windows) (hnode : w.numaNode = numaNode)
    (hown : w.isOverflow ∨ w.gpu = gpuId) : c.windowIndex numaNode w.gpu = some w := by
  obtain ⟨l, r, hlr⟩ := List.append_of_mem hw
  rw [Config.Unshadowed, hlr, List.pairwise_append] at h
  have hlater := (List.pairwise_cons.1 h.2.1).1
  have hr : r.filter (fun w' => w'.numaNode = numaNode ∧ w'.gpu = w.gpu) = [] := by
    refine List.filter_eq_nil_iff.2 fun w' hw' hkey => ?_
    exact hlater w' hw' hnode hown (hnode ▸ of_decide_eq_true hkey)
  rw [Config.windowIndex, hlr, List.filter_append, List.filter_cons_of_pos (by simp [hnode]), hr]
  exact List.getLast?_concat

/-- A window that one with its key follows is not. -/
theorem Config.mem_of_windowIndex_shadowed (hwindows : c.plan.windows = l ++ a :: r) (hb : b ∈ r)
    (hkey : b.numaNode = a.numaNode ∧ b.gpu = a.gpu)
    (h : c.windowIndex a.numaNode a.gpu = some w) : w ∈ r := by
  rw [Config.windowIndex, hwindows, ← List.singleton_append, ← List.append_assoc,
    List.filter_append, List.getLast?_append_of_ne_nil] at h
  · exact List.mem_of_mem_filter (List.mem_of_getLast? h)
  · exact List.ne_nil_of_mem (List.mem_filter.2 ⟨hb, decide_eq_true hkey⟩)

theorem Config.Unshadowed.own_indexed (h : c.Unshadowed gpuId numaNode)
    (hw : w ∈ c.ownWindows gpuId numaNode) : c.windowIndex numaNode gpuId = some w := by
  obtain ⟨hw, hnode, -, hgpu⟩ : _ ∧ _ ∧ _ ∧ _ := by simpa [Config.ownWindows] using hw
  exact hgpu ▸ h.windowIndex hw hnode (.inr hgpu)

theorem Config.windowIndex_subset {gpu : ℕ} :
    (c.windowIndex numaNode gpu).toList ⊆ c.plan.windows := fun _ hw =>
  (Config.mem_of_windowIndex (Option.mem_toList.1 hw)).1

theorem Config.peerWindows_subset : c.peerWindows gpuId numaNode ⊆ c.plan.windows :=
  List.filter_subset_self _

theorem Config.remoteWindows_subset : c.remoteWindows numaNode flags ⊆ c.plan.windows := by
  rw [Config.remoteWindows]
  split
  · exact List.filter_subset_self _
  · exact List.nil_subset _

section Started

variable (hc : c.StartedFrom cfg)

include hc

/-- What is found in a list of windows of the plan is in the first one that has a run. -/
theorem findSome_eq_none {count : ℕ} (hws : ws ⊆ c.plan.windows) :
    ws.findSome? (tryAllocInWindow st · count) = none ↔ NoneHasRun st count ws := by
  rw [List.findSome?_eq_none_iff]
  refine forall₂_congr fun w hw => ?_
  have hslots := hc.carving_sound.slots w (hc.windows ▸ hws hw)
  rw [← Option.not_isSome_iff_eq_none]
  exact not_congr (Store.scan_isSome (.inr hslots))

/-- What is found in windows of the plan is a run of one of them. -/
theorem exists_of_findSome {count : ℕ} (hws : ws ⊆ c.plan.windows)
    (h : ws.findSome? (tryAllocInWindow st · count) = some base) :
    ∃ w ∈ ws, ∃ i, st.FreeAt w.slotIds count i ∧ w.slotIds[i]? = some base := by
  obtain ⟨w, hw, hbase⟩ := List.exists_of_findSome?_eq_some h
  have hslots := hc.carving_sound.slots w (hc.windows ▸ hws hw)
  obtain ⟨i, hi, hid, -⟩ := Store.scan_first (.inr hslots) hbase
  exact ⟨w, hw, i, hi, hid⟩

/-- A run that the allocator finds is one of a window. -/
theorem exists_of_allocateSlots (h : allocateSlots c st gpuId numaNode nbytes flags = some base) :
    ∃ w ∈ c.plan.windows, ∃ i, st.FreeAt w.slotIds (c.slotsForBytes nbytes) i ∧
      w.slotIds[i]? = some base := by
  obtain ⟨w, hw, hbase⟩ := allocateSlots_window h
  have hslots := hc.carving_sound.slots w (hc.windows ▸ hw)
  obtain ⟨i, hi, hid, -⟩ := Store.scan_first (.inr hslots) hbase
  exact ⟨w, hw, i, hi, hid⟩

theorem Config.Unshadowed.overflow_indexed (h : c.Unshadowed gpuId numaNode)
    (hw : w ∈ c.overflowWindows numaNode) : c.windowIndex numaNode noIndex = some w := by
  obtain ⟨hw, hnode, hover⟩ : _ ∧ _ ∧ _ := by simpa [Config.overflowWindows] using hw
  exact hc.carving_sound.overflow w (hc.windows ▸ hw) hover ▸ h.windowIndex hw hnode (.inl hover)

/-- If no window is shadowed, the allocator finds what there is. -/
theorem Config.Unshadowed.allocatesFirst (h : c.Unshadowed gpuId numaNode) :
    AllocatesFirst c gpuId numaNode st nbytes flags := by
  -- A window of the first two classes is the only one of its class: the one that is indexed.
  have hown : ∀ w ∈ c.ownWindows gpuId numaNode, _ := fun w => h.own_indexed
  have hover : ∀ w ∈ c.overflowWindows numaNode, _ := fun w => h.overflow_indexed hc
  have hnone : ∀ {o : Option Window} {ws}, (∀ w ∈ ws, o = some w) →
      NoneHasRun st (c.slotsForBytes nbytes) o.toList →
      NoneHasRun st (c.slotsForBytes nbytes) ws := fun hall hno w hw =>
    hno w (Option.mem_toList.2 (hall w hw))
  rw [AllocatesFirst, allocateSlots_eq]
  dsimp only
  cases hfind₁ : (c.windowIndex numaNode gpuId).toList.findSome?
      (tryAllocInWindow st · (c.slotsForBytes nbytes)) with
  | some base =>
    obtain ⟨w, hw, hrun⟩ := exists_of_findSome hc Config.windowIndex_subset hfind₁
    have hw := Option.mem_toList.1 hw
    obtain ⟨hmem, hnode, hgpu⟩ := Config.mem_of_windowIndex hw
    by_cases hov : w.isOverflow
    · -- The request names no GPU, so that no window is its own unless it is indexed.
      refine ⟨[c.ownWindows gpuId numaNode], _, _, rfl, ?_, w, ?_, hrun⟩
      · refine List.forall_mem_singleton.2 fun w' hw' => absurd hw' ?_
        cases hw.symm.trans (hown w' hw')
        simp [Config.ownWindows, hov]
      · simp [Config.overflowWindows, hmem, hnode, hov]
    · refine ⟨[], _, _, rfl, (fun _ hws => nomatch hws), w, ?_, hrun⟩
      simp [Config.ownWindows, hmem, hnode, hov, hgpu]
  | none =>
  have hnone₁ := (findSome_eq_none hc Config.windowIndex_subset).1 hfind₁
  cases hfind₂ : (c.windowIndex numaNode noIndex).toList.findSome?
      (tryAllocInWindow st · (c.slotsForBytes nbytes)) with
  | some base =>
    obtain ⟨w, hw, hrun⟩ := exists_of_findSome hc Config.windowIndex_subset hfind₂
    have hw := Option.mem_toList.1 hw
    obtain ⟨hmem, hnode, hgpu⟩ := Config.mem_of_windowIndex hw
    by_cases hov : w.isOverflow
    · refine ⟨[c.ownWindows gpuId numaNode], _, _, rfl, ?_, w, ?_, hrun⟩
      · exact List.forall_mem_singleton.2 (hnone hown hnone₁)
      · simp [Config.overflowWindows, hmem, hnode, hov]
    · -- A GPU's window under the number of the overflow: a peer, and there is no overflow.
      have hne : w.gpu ≠ gpuId := by
        rintro rfl
        rw [← hgpu, hfind₁] at hfind₂
        cases hfind₂
      refine ⟨[c.ownWindows gpuId numaNode, c.overflowWindows numaNode], _, _, rfl, ?_, w, ?_, hrun⟩
      · refine List.forall_mem_cons.2 ⟨hnone hown hnone₁, List.forall_mem_singleton.2 ?_⟩
        refine fun w' hw' => absurd hw' ?_
        cases hw.symm.trans (hover w' hw')
        simp [Config.overflowWindows, hov]
      · simp [Config.peerWindows, hmem, hnode, hov, hne]
  | none =>
  have hnone₂ := (findSome_eq_none hc Config.windowIndex_subset).1 hfind₂
  cases hfind₃ : (c.peerWindows gpuId numaNode).findSome?
      (tryAllocInWindow st · (c.slotsForBytes nbytes)) with
  | some base =>
    refine ⟨[c.ownWindows gpuId numaNode, c.overflowWindows numaNode], _, _, rfl, ?_,
      exists_of_findSome hc Config.peerWindows_subset hfind₃⟩
    simp [hnone hown hnone₁, hnone hover hnone₂]
  | none =>
  have hnone₃ := (findSome_eq_none hc Config.peerWindows_subset).1 hfind₃
  cases hfind₄ : (c.remoteWindows numaNode flags).findSome?
      (tryAllocInWindow st · (c.slotsForBytes nbytes)) with
  | some base =>
    refine ⟨[c.ownWindows gpuId numaNode, c.overflowWindows numaNode, c.peerWindows gpuId numaNode],
      _, _, rfl, ?_, exists_of_findSome hc Config.remoteWindows_subset hfind₄⟩
    simp [hnone hown hnone₁, hnone hover hnone₂, hnone₃]
  | none =>
    have hnone₄ := (findSome_eq_none hc Config.remoteWindows_subset).1 hfind₄
    simp [Config.permitted, hnone hown hnone₁, hnone hover hnone₂, hnone₃, hnone₄]

/-! ### A window that is shadowed -/

omit hc in
theorem Window.hasRun_one : w.HasRun st 1 ↔ ∃ id ∈ w.slotIds, st.slotState id = .free := by
  constructor
  · rintro ⟨i, hlen, hfree⟩
    exact ⟨w.slotIds[i], List.getElem_mem hlen,
      hfree 0 Nat.one_pos _ (List.getElem?_eq_getElem hlen)⟩
  · rintro ⟨id, hid, hfree⟩
    obtain ⟨i, hi⟩ := List.mem_iff_getElem?.1 hid
    refine ⟨i, (List.getElem?_eq_some_iff.1 hi).1, fun j hj id' hid' => ?_⟩
    obtain rfl := Nat.lt_one_iff.1 hj
    cases hi.symm.trans hid'
    exact hfree

/-- One byte needs one slot. -/
theorem Config.StartedFrom.slotsForBytes_one : c.slotsForBytes 1 = 1 := by
  have hpos := hc.granularity_pos
  have hlt := hc.granularity_lt
  rw [Config.slotsForBytes, Nat.add_sub_cancel_left, Nat.mod_eq_of_lt hlt, Nat.div_self hpos]
  rfl

/-- If a window is shadowed, its free slots are not found. -/
theorem allocateSlots_shadowed (hwindows : c.plan.windows = l ++ a :: r)
    (hnode : a.numaNode = numaNode) (hown : a.isOverflow ∨ a.gpu = gpuId) (hb : b ∈ r)
    (hkey : b.numaNode = a.numaNode ∧ b.gpu = a.gpu) :
    allocateSlots c (.onlyFree a.slotIds) gpuId numaNode 1 0 = none := by
  have hsound := hc.carving_sound
  have hapart := hsound.apart
  rw [← hc.windows, hwindows, List.pairwise_append, List.pairwise_cons] at hapart
  have ha : a ∈ c.plan.windows := hwindows ▸ by simp
  have hne : ∀ w ∈ r, w ≠ a := by
    rintro w hw rfl
    obtain ⟨id, hid⟩ := List.exists_mem_of_ne_nil _ (hsound.slots w (hc.windows ▸ ha))
    exact hapart.2.1.1 w hw hid hid
  have hno : ∀ w ∈ c.plan.windows, w ≠ a → ¬w.HasRun (.onlyFree a.slotIds) 1 := by
    intro w hw hwa hrun
    obtain ⟨id, hid, hfree⟩ := Window.hasRun_one.1 hrun
    rw [Store.onlyFree_free] at hfree
    rw [hwindows, List.mem_append, List.mem_cons] at hw
    rcases hw with hw | rfl | hw
    · exact hapart.2.2 w hw a List.mem_cons_self hid hfree
    · exact hwa rfl
    · exact hapart.2.1.1 w hw hfree hid
  have hindex : ∀ gpu, NoneHasRun (.onlyFree a.slotIds) 1 (c.windowIndex numaNode gpu).toList := by
    intro gpu w hw
    have hw := Option.mem_toList.1 hw
    refine hno w (Config.mem_of_windowIndex hw).1 ?_
    by_cases hgpu : a.gpu = gpu
    · rw [← hnode, ← hgpu] at hw
      exact hne w (Config.mem_of_windowIndex_shadowed hwindows hb hkey hw)
    · rintro rfl
      exact hgpu (Config.mem_of_windowIndex hw).2.2
  have hpeers : NoneHasRun (.onlyFree a.slotIds) 1 (c.peerWindows gpuId numaNode) := by
    intro w hw
    obtain ⟨hw, -, hover, hgpu⟩ : _ ∧ _ ∧ _ ∧ _ := by simpa [Config.peerWindows] using hw
    refine hno w hw ?_
    rintro rfl
    exact hown.elim (by simp [hover]) hgpu
  rw [allocateSlots_eq, hc.slotsForBytes_one]
  dsimp only
  rw [(findSome_eq_none hc Config.windowIndex_subset).2 (hindex gpuId),
    (findSome_eq_none hc Config.windowIndex_subset).2 (hindex noIndex),
    (findSome_eq_none hc Config.peerWindows_subset).2 hpeers]
  rfl

/-- Only if no window is shadowed does the allocator find what there is in every store. -/
theorem Config.Unshadowed.of_allocatesFirst
    (h : ∀ st nbytes flags, AllocatesFirst c gpuId numaNode st nbytes flags) :
    c.Unshadowed gpuId numaNode := by
  refine List.pairwise_iff_forall_sublist.2 fun {a b} hab hnode hown hkey => ?_
  obtain ⟨l₁, l₂, hwindows, ha, hb⟩ := List.cons_sublist_iff.1 hab
  obtain ⟨l, r, rfl⟩ := List.append_of_mem ha
  rw [List.append_assoc, List.cons_append] at hwindows
  have hb : b ∈ r ++ l₂ := List.mem_append_right _ (List.singleton_sublist.1 hb)
  have hfirst := h (.onlyFree a.slotIds) 1 0
  rw [AllocatesFirst, allocateSlots_shadowed hc hwindows hnode hown hb hkey,
    hc.slotsForBytes_one] at hfirst
  -- The window that is shadowed has a free slot, and is permitted.
  have ha : a ∈ c.plan.windows := hwindows ▸ by simp
  obtain ⟨id, hid⟩ := List.exists_mem_of_ne_nil _ (hc.carving_sound.slots a (hc.windows ▸ ha))
  have hrun : a.HasRun (.onlyFree a.slotIds) 1 :=
    Window.hasRun_one.2 ⟨id, hid, Store.onlyFree_free.2 hid⟩
  by_cases hover : a.isOverflow
  · refine hfirst (c.overflowWindows numaNode) (by simp [Config.permitted]) a ?_ hrun
    simp [Config.overflowWindows, ha, hnode, hover]
  · refine hfirst (c.ownWindows gpuId numaNode) (by simp [Config.permitted]) a ?_ hrun
    simp [Config.ownWindows, ha, hnode, hover, hown.resolve_left hover]

end Started

/-- The allocator fails only if no window that is permitted has a run, and finds one in the first
    class that has one, in every store, if and only if the plan has no second window, or no second
    overflow window, for the GPU and the node. -/
theorem allocateSlots_first (c : Config) (cfg : DaemonConfig) (hc : c.StartedFrom cfg)
    (gpuId numaNode : ℕ) :
    (∀ st nbytes flags, AllocatesFirst c gpuId numaNode st nbytes flags) ↔
      c.Unshadowed gpuId numaNode :=
  ⟨.of_allocatesFirst hc, fun h _ _ _ => h.allocatesFirst hc⟩

/-- A node with one slot of four bytes, for the GPU 0. -/
def oneGpu : NumaArenaConfig where
  numaNode := 0
  sizeBytes := 4
  gpuWindows := [⟨0, 4⟩]
  overflowBytes := 0

/-- The node is configured once. -/
def nodeOnce : DaemonConfig := ⟨4, [oneGpu], by decide⟩

/-- The node is configured twice. -/
def nodeTwice : DaemonConfig := ⟨4, [oneGpu, oneGpu], by decide⟩

theorem allocateSlots_first_nodeOnce :
    nodeOnce.start.StartedFrom nodeOnce ∧
      ∀ st nbytes flags, AllocatesFirst nodeOnce.start 0 0 st nbytes flags :=
  ⟨DaemonConfig.startedFrom rfl,
    (allocateSlots_first nodeOnce.start nodeOnce (DaemonConfig.startedFrom rfl) 0 0).2
      (List.pairwise_singleton ..)⟩

/-- The configuration is accepted. The second window of the GPU is in use, the first is free, and
    the allocator finds nothing. -/
theorem allocateSlots_nodeTwice :
    nodeTwice.start.StartedFrom nodeTwice ∧
      allocateSlots nodeTwice.start (.onlyFree [0]) 0 0 4 0 = none ∧
      ∃ w ∈ nodeTwice.start.ownWindows 0 0, w.slotIds = [0] ∧
        w.HasRun (.onlyFree [0]) (nodeTwice.start.slotsForBytes 4) := by
  refine ⟨DaemonConfig.startedFrom rfl, rfl, ⟨0, 0, false, [0], ⟨0, rfl⟩⟩, ?_, rfl, ?_⟩
  · exact List.mem_cons_self
  · exact Window.hasRun_one.2 ⟨0, List.mem_singleton_self 0, rfl⟩

end Allocate

end StateSpectre
