import StateSpectre.State

/-!
# The slot plan

At startup the daemon loads its configuration, refuses one whose windows do not fit into their
arenas (`DaemonConfig.validate`), and carves the arena of every NUMA node into windows of slots:
one for each GPU window that is configured, in order, and the overflow of the node last
(`DaemonConfig.slotPlan`). A window of less than a slot is left out. Slots are numbered through
all windows.

The cursor in an arena is a number of 64 bits, so that offsets wrap in an arena whose windows
are too large. What holds of every plan that is carved (`Carving.Sound`): the windows have slots,
and no two of them the same; overflow windows are those without a GPU; and the slots of a window
lie one behind the other in one arena, in 64 bits.
-/

namespace StateSpectre

/-! ## Configurations -/

/-- A window of an arena for one GPU (`GpuWindowConfig`). -/
structure GpuWindowConfig where
  gpu : ℕ
  sizeBytes : ℕ
  deriving DecidableEq

/-- The arena of a NUMA node (`NumaArenaConfig`). -/
structure NumaArenaConfig where
  numaNode : ℕ
  sizeBytes : ℕ
  gpuWindows : List GpuWindowConfig
  overflowBytes : ℕ
  deriving DecidableEq

/-- The configuration, as far as the slot plan reads it. -/
structure DaemonConfig where
  allocationGranularityBytes : ℕ
  perNuma : List NumaArenaConfig
  /-- The granularity is a 64-bit number. -/
  granularity_lt : allocationGranularityBytes < 2 ^ 64

/-- The bytes that the windows of an arena need, in 64 bits. -/
def NumaArenaConfig.needed (arena : NumaArenaConfig) : ℕ :=
  let winTotal := arena.gpuWindows.foldl (fun total w => (total + w.sizeBytes) % 2 ^ 64) 0
  (winTotal + arena.overflowBytes) % 2 ^ 64

/-- The windows of an arena fit into it. -/
def NumaArenaConfig.validate (arena : NumaArenaConfig) : Except String Unit :=
  if arena.sizeBytes = 0 then
    .error s!"config: numa_node {arena.numaNode} size_gb must be > 0"
  else if arena.sizeBytes < arena.needed then
    .error (s!"config: numa_node {arena.numaNode} gpu_windows + overflow ({arena.needed}" ++
      s!" bytes) exceed arena size ({arena.sizeBytes} bytes)")
  else .ok ()

/-- What `load_config` checks before it returns a configuration. -/
def DaemonConfig.validate (cfg : DaemonConfig) : Except String Unit :=
  if cfg.allocationGranularityBytes = 0 then
    .error "config: allocation_granularity_mb must be > 0"
  else if cfg.perNuma = [] then
    .error "config: at least one arenas.per_numa entry required"
  else cfg.perNuma.forM NumaArenaConfig.validate

/-! ## Carving -/

/-- The plan so far, with where each slot lies: its arena and its offset there. -/
structure Carving where
  windows : List Window := []
  places : List (ℕ × ℕ) := []

/-- The windows and slots of an arena so far, with the bytes of the arena that are used up. -/
structure ArenaCarving extends Carving where
  cursor : ℕ := 0

/-- The lambda `carve_window`: the slots of a window of the arena `arenaId` are the next ones. -/
def carveWindow (gran arenaId numaNode : ℕ) (k : ArenaCarving) (gpu : ℕ) (isOverflow : Bool)
    (bytes : ℕ) : ArenaCarving :=
  let nslots := bytes / gran
  if nslots = 0 then k
  else
    { windows := k.windows ++
        [{ numaNode, gpu := if isOverflow then noIndex else gpu, isOverflow
           slotIds := List.range' k.places.length nslots
           consecutive := ⟨k.places.length, by rw [List.length_range']⟩ }]
      places := k.places ++
        (List.range nslots).map fun s => (arenaId, (k.cursor + s * gran) % 2 ^ 64)
      cursor := (k.cursor + nslots * gran) % 2 ^ 64 }

/-- The arena `arenaId` is carved: a window for each GPU, and the overflow. -/
def carveArena (gran : ℕ) (k : Carving) (arenaId : ℕ) (ac : NumaArenaConfig) : Carving :=
  let gpus := ac.gpuWindows.foldl
    (fun k gw => carveWindow gran arenaId ac.numaNode k gw.gpu false gw.sizeBytes)
    { toCarving := k }
  (carveWindow gran arenaId ac.numaNode gpus noIndex true ac.overflowBytes).toCarving

/-- `build_slot_plan`: the windows of all arenas, in order. -/
def DaemonConfig.carving (cfg : DaemonConfig) : Carving :=
  cfg.perNuma.zipIdx.foldl
    (fun k x => carveArena cfg.allocationGranularityBytes k x.2 x.1) {}

/-- The number of slots laid out in the control region, in 32 bits. -/
def DaemonConfig.numSlots (cfg : DaemonConfig) : ℕ :=
  cfg.perNuma.foldl
    (fun total ac => (total + ac.sizeBytes / cfg.allocationGranularityBytes % 2 ^ 32) % 2 ^ 32) 0

/-- The slot plan of a configuration. -/
def DaemonConfig.slotPlan (cfg : DaemonConfig) : SlotPlan where
  windows := cfg.carving.windows
  numSlots := cfg.numSlots
  arenaId id := (cfg.carving.places.getD id (0, 0)).1
  arenaOffset id := (cfg.carving.places.getD id (0, 0)).2

/-! ## What is carved -/

variable {gran : ℕ}

/-- The slots of the window lie one behind the other in one arena, in 64 bits. -/
def Window.Contiguous (gran : ℕ) (places : List (ℕ × ℕ)) (w : Window) : Prop :=
  ∃ first arenaId offset, w.slotIds = List.range' first w.slotIds.length ∧
    ∀ j < w.slotIds.length, places[first + j]? = some (arenaId, (offset + j * gran) % 2 ^ 64)

/-- The windows have slots, all that are placed; no two have the same; and each lies in one
    arena. -/
structure Carving.Sound (gran : ℕ) (k : Carving) : Prop where
  slots : ∀ w ∈ k.windows, w.slotIds ≠ []
  placed : ∀ w ∈ k.windows, ∀ id ∈ w.slotIds, id < k.places.length
  overflow : ∀ w ∈ k.windows, w.isOverflow → w.gpu = noIndex
  apart : k.windows.Pairwise fun w w' => w.slotIds.Disjoint w'.slotIds
  contiguous : ∀ w ∈ k.windows, w.Contiguous gran k.places

theorem Carving.Sound.carveWindow {arenaId numaNode gpu bytes : ℕ} {isOverflow : Bool}
    {k : ArenaCarving} (h : k.Sound gran) :
    (carveWindow gran arenaId numaNode k gpu isOverflow bytes).Sound gran := by
  rw [StateSpectre.carveWindow]
  split
  · exact h
  next hslots =>
    refine ⟨?_, ?_, ?_, ?_, ?_⟩
    · refine List.forall_mem_append.2 ⟨h.slots, List.forall_mem_singleton.2 ?_⟩
      simpa using hslots
    · refine List.forall_mem_append.2 ⟨fun w hw id hid => ?_, List.forall_mem_singleton.2 ?_⟩
      · exact (h.placed w hw id hid).trans_le (by simp)
      · intro id hid
        simpa using (List.mem_range'_1.1 hid).2
    · refine List.forall_mem_append.2 ⟨h.overflow, List.forall_mem_singleton.2 fun hov => ?_⟩
      exact if_pos hov
    · refine List.pairwise_append.2 ⟨h.apart, List.pairwise_singleton .., fun w hw w' hw' => ?_⟩
      obtain rfl := List.mem_singleton.1 hw'
      intro id hid hid'
      exact (h.placed w hw id hid).not_ge (List.mem_range'_1.1 hid').1
    · refine List.forall_mem_append.2 ⟨fun w hw => ?_, List.forall_mem_singleton.2 ?_⟩
      · obtain ⟨first, arenaId', offset, hids, hplaces⟩ := h.contiguous w hw
        refine ⟨first, arenaId', offset, hids, fun j hj => ?_⟩
        have hlt := (List.getElem?_eq_some_iff.1 (hplaces j hj)).1
        rw [List.getElem?_append_left hlt, hplaces j hj]
      · refine ⟨k.places.length, arenaId, k.cursor, by simp, fun j hj => ?_⟩
        rw [List.length_range'] at hj
        rw [List.getElem?_append_right (Nat.le_add_right ..), Nat.add_sub_cancel_left,
          List.getElem?_map, List.getElem?_range hj]
        rfl

theorem Carving.Sound.carveArena {arenaId : ℕ} {ac : NumaArenaConfig} {k : Carving}
    (h : k.Sound gran) : (carveArena gran k arenaId ac).Sound gran := by
  refine Carving.Sound.carveWindow ?_
  exact List.foldlRecOn (motive := fun k : ArenaCarving => k.Sound gran) _ _ h
    fun k hk gw _ => hk.carveWindow

theorem DaemonConfig.carving_sound (cfg : DaemonConfig) :
    cfg.carving.Sound cfg.allocationGranularityBytes := by
  refine List.foldlRecOn (motive := fun k : Carving => k.Sound _) _ _ ?_
    fun k hk x _ => hk.carveArena
  exact ⟨(fun _ h => nomatch h), (fun _ h => nomatch h), (fun _ h => nomatch h), .nil,
    (fun _ h => nomatch h)⟩

theorem DaemonConfig.numSlots_lt (cfg : DaemonConfig) : cfg.numSlots < 2 ^ 32 := by
  refine List.foldlRecOn (motive := fun n => n < 2 ^ 32) _ _ (by decide) fun n _ ac _ => ?_
  exact Nat.mod_lt _ (by decide)

/-- The daemon runs with the slot plan of a configuration that was accepted. -/
structure Config.StartedFrom (c : Config) (cfg : DaemonConfig) : Prop where
  accepted : cfg.validate = .ok ()
  plan : c.plan = cfg.slotPlan
  granularity : c.allocationGranularityBytes = cfg.allocationGranularityBytes

/-- The daemon of a configuration, with the defaults for what the slot plan does not read. -/
def DaemonConfig.start (cfg : DaemonConfig) : Config where
  plan := cfg.slotPlan
  allocationGranularityBytes := cfg.allocationGranularityBytes

theorem DaemonConfig.startedFrom {cfg : DaemonConfig} (h : cfg.validate = .ok ()) :
    cfg.start.StartedFrom cfg := ⟨h, rfl, rfl⟩

namespace Config.StartedFrom

variable {c : Config} {cfg : DaemonConfig} (h : c.StartedFrom cfg)

include h

theorem granularity_pos : 0 < c.allocationGranularityBytes := by
  rw [h.granularity]
  refine Nat.pos_of_ne_zero fun h0 => ?_
  have hok := h.accepted
  rw [DaemonConfig.validate, if_pos h0] at hok
  cases hok

theorem granularity_lt : c.allocationGranularityBytes < 2 ^ 64 :=
  h.granularity ▸ cfg.granularity_lt

theorem carving_sound : cfg.carving.Sound c.allocationGranularityBytes :=
  h.granularity ▸ cfg.carving_sound

theorem windows : c.plan.windows = cfg.carving.windows := congrArg SlotPlan.windows h.plan

/-- The slots of a window are numbered one after the other, and their offsets wrap at `2 ^ 64`. -/
theorem getElem_slotIds {w : Window} {i j base : ℕ} (hw : w ∈ c.plan.windows)
    (hi : w.slotIds[i]? = some base) (hj : i + j < w.slotIds.length) :
    w.slotIds[i + j]? = some (base + j) ∧ c.plan.arenaId (base + j) = c.plan.arenaId base ∧
      c.plan.arenaOffset (base + j) =
        (c.plan.arenaOffset base + j * c.allocationGranularityBytes) % 2 ^ 64 := by
  obtain ⟨first, arenaId, offset, hids, hplaces⟩ :=
    h.carving_sound.contiguous w (h.windows ▸ hw)
  have hplan : ∀ k < w.slotIds.length, c.plan.arenaId (first + k) = arenaId ∧
      c.plan.arenaOffset (first + k) = (offset + k * c.allocationGranularityBytes) % 2 ^ 64 := by
    intro k hk
    simp [h.plan, DaemonConfig.slotPlan, List.getD_eq_getElem?_getD, hplaces k hk]
  have hget : ∀ k < w.slotIds.length, w.slotIds[k]? = some (first + k) := by
    intro k hk
    rw [hids, List.getElem?_range' hk, Nat.one_mul]
  obtain rfl : base = first + i :=
    Option.some.inj (hi.symm.trans (hget i ((Nat.le_add_right i j).trans_lt hj)))
  obtain ⟨harena, hoffset⟩ := hplan i ((Nat.le_add_right i j).trans_lt hj)
  obtain ⟨harena', hoffset'⟩ := hplan (i + j) hj
  rw [Nat.add_assoc, harena, harena', hoffset, hoffset', Nat.mod_add_mod, Nat.add_mul,
    Nat.add_assoc]
  exact ⟨hget _ hj, rfl, rfl⟩

end Config.StartedFrom

end StateSpectre
