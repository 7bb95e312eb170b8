import Mathlib.Algebra.BigOperators.Ring.List
import Mathlib.Algebra.Order.BigOperators.Group.List
import Mathlib.Algebra.Order.Ring.Nat
import StateSpectre.Loading

/-!
# The slot table

What the slot plan writes into the slot table (`DaemonConfig.slotTable`): of each slot its id, a
number of 32 bits, and where it lies, with an offset of 64 bits.

A table is sound (`DaemonConfig.SoundTable`) if its slots have ids of their own, below the number
that is reserved in the control region, if those of a window follow each other, and if the slots
of an arena lie inside it, apart from each other. The check at startup adds up the windows in 64
bits, and the slots that are reserved are added up in 32: the table is sound if and only if what is
carved fits, as a number of slots into what is reserved and, for each arena, as a number of bytes
(`slotTable_sound_iff`). So it is as long as no sum wraps (`slotTable_sound_of_no_wrap`). Two
windows of `2 ^ 63` bytes are accepted in an arena of any size.
-/

namespace StateSpectre

/-! ## Writing the table -/

/-- An entry of the slot table, as the plan writes it. -/
structure PlannedSlot where
  slotId : ℕ
  arenaId : ℕ
  arenaOffset : ℕ
  capacity : ℕ
  deriving DecidableEq

/-- The slot table, with the ids of the slots of each window. -/
structure SlotTable where
  entries : List PlannedSlot
  windows : List (List ℕ)

/-- The entry of the slot number `n`, which lies at this place. -/
def PlannedSlot.write (gran n : ℕ) (place : ℕ × ℕ) : PlannedSlot where
  slotId := n % 2 ^ 32
  arenaId := place.1
  arenaOffset := place.2
  capacity := gran

/-- The slot table of the slot plan: the slots are written as they are carved. -/
def DaemonConfig.slotTable (cfg : DaemonConfig) : SlotTable where
  entries := cfg.carving.places.mapIdx (.write cfg.allocationGranularityBytes)
  windows := cfg.carving.windows.map fun w => w.slotIds.map (· % 2 ^ 32)

/-- What the slot table of a configuration has to be. -/
structure DaemonConfig.SoundTable (cfg : DaemonConfig) (t : SlotTable) : Prop where
  distinct : (t.entries.map PlannedSlot.slotId).Nodup
  reserved : ∀ e ∈ t.entries, e.slotId < cfg.numSlots
  consecutive : ∀ ids ∈ t.windows, ∃ first, ids = List.range' first ids.length
  apart : t.entries.Pairwise fun e e' =>
    e.arenaId = e'.arenaId → ¬Meet e.arenaOffset e.capacity e'.arenaOffset e'.capacity
  inside : ∀ e ∈ t.entries, ∃ ac, cfg.perNuma[e.arenaId]? = some ac ∧
    e.arenaOffset + e.capacity ≤ ac.sizeBytes

variable {gran arenaId numaNode gpu bytes : ℕ} {isOverflow : Bool} {p : ℕ × ℕ}
  {ac : NumaArenaConfig} {k : ArenaCarving}

/-! ## Where the slots of the plan lie -/

def NumaArenaConfig.carvedSlots (gran : ℕ) (ac : NumaArenaConfig) : ℕ :=
  (ac.gpuWindows.map fun gw => gw.sizeBytes / gran).sum + ac.overflowBytes / gran

def DaemonConfig.carvedSlots (cfg : DaemonConfig) : ℕ :=
  (cfg.perNuma.map (NumaArenaConfig.carvedSlots cfg.allocationGranularityBytes)).sum

/-- The first `n` slots of an arena follow those of the arenas before it. -/
structure ArenaCarving.Carved (gran arenaId : ℕ) (base : List (ℕ × ℕ)) (n : ℕ)
    (k : ArenaCarving) : Prop where
  places : k.places = base ++ (List.range n).map fun j => (arenaId, j * gran % 2 ^ 64)
  cursor : k.cursor = n * gran % 2 ^ 64

theorem ArenaCarving.Carved.carveWindow {base : List (ℕ × ℕ)} {n : ℕ}
    (h : k.Carved gran arenaId base n) :
    (carveWindow gran arenaId numaNode k gpu isOverflow bytes).Carved gran arenaId base
      (n + bytes / gran) := by
  rw [StateSpectre.carveWindow]
  split
  · next hnone => rwa [hnone]
  · refine ⟨?_, ?_⟩
    · simp only [h.places, h.cursor, List.range_add, List.map_append, List.map_map,
        List.append_assoc, Nat.mod_add_mod, ← Nat.add_mul]
      rfl
    · simp only [h.cursor, Nat.mod_add_mod, ← Nat.add_mul]

/-- The places of the slots of an arena, one behind the other. -/
def NumaArenaConfig.places (gran : ℕ) (ac : NumaArenaConfig) (arenaId : ℕ) : List (ℕ × ℕ) :=
  (List.range (ac.carvedSlots gran)).map fun j => (arenaId, j * gran % 2 ^ 64)

theorem NumaArenaConfig.mem_places :
    p ∈ ac.places gran arenaId ↔ ∃ j < ac.carvedSlots gran, (arenaId, j * gran % 2 ^ 64) = p := by
  simp only [places, List.mem_map, List.mem_range]

theorem carveArena_places (k : Carving) (ac : NumaArenaConfig) :
    (carveArena gran k arenaId ac).places = k.places ++ ac.places gran arenaId := by
  have hgpus : ∀ (windows : List GpuWindowConfig) (n : ℕ) (k' : ArenaCarving),
      k'.Carved gran arenaId k.places n →
      (windows.foldl (fun k gw =>
        carveWindow gran arenaId ac.numaNode k gw.gpu false gw.sizeBytes) k').Carved gran arenaId
        k.places (n + (windows.map fun gw => gw.sizeBytes / gran).sum) := by
    intro windows
    induction windows with
    | nil => exact fun n k' h => h
    | cons gw windows ih =>
      intro n k' h
      rw [List.map_cons, List.sum_cons, ← Nat.add_assoc]
      exact ih _ _ h.carveWindow
  have h := hgpus ac.gpuWindows 0 { toCarving := k } ⟨by simp, by simp⟩
  rw [Nat.zero_add] at h
  exact h.carveWindow.places

/-! ## Sums in machine numbers -/

theorem foldl_add_mod {α : Type*} (f : α → ℕ) (m : ℕ) (l : List α) (a : ℕ) :
    l.foldl (fun total x => (total + f x) % m) (a % m) = (a + (l.map f).sum) % m := by
  induction l generalizing a with
  | nil => rfl
  | cons x l ih =>
    rw [List.foldl_cons, Nat.mod_add_mod, ih, List.map_cons, List.sum_cons, Nat.add_assoc]

theorem DaemonConfig.numSlots_eq (cfg : DaemonConfig) : cfg.numSlots =
    (cfg.perNuma.map fun ac => ac.sizeBytes / cfg.allocationGranularityBytes).sum % 2 ^ 32 := by
  have hsum := foldl_add_mod (fun ac : NumaArenaConfig =>
    ac.sizeBytes / cfg.allocationGranularityBytes) (2 ^ 32) cfg.perNuma 0
  rw [Nat.zero_add] at hsum
  rw [← hsum, numSlots]
  simp only [Nat.add_mod_mod, Nat.zero_mod]

def NumaArenaConfig.windowBytes (ac : NumaArenaConfig) : ℕ :=
  (ac.gpuWindows.map GpuWindowConfig.sizeBytes).sum + ac.overflowBytes

theorem NumaArenaConfig.needed_eq (ac : NumaArenaConfig) : ac.needed = ac.windowBytes % 2 ^ 64 := by
  have hsum := foldl_add_mod GpuWindowConfig.sizeBytes (2 ^ 64) ac.gpuWindows 0
  rw [Nat.zero_mod, Nat.zero_add] at hsum
  rw [needed, hsum, Nat.mod_add_mod, windowBytes]

theorem NumaArenaConfig.carvedSlots_mul_le (gran : ℕ) (ac : NumaArenaConfig) :
    ac.carvedSlots gran * gran ≤ ac.windowBytes := by
  rw [carvedSlots, Nat.add_mul, ← List.sum_map_mul_right]
  exact Nat.add_le_add (List.sum_le_sum fun _ _ => Nat.div_mul_le_self ..)
    (Nat.div_mul_le_self ..)

/-! ## The plan of a configuration -/

namespace DaemonConfig

variable (cfg : DaemonConfig)

theorem carving_places : cfg.carving.places = cfg.perNuma.zipIdx.flatMap fun x =>
    x.1.places cfg.allocationGranularityBytes x.2 := by
  have hfold : ∀ (arenas : List (NumaArenaConfig × ℕ)) (k : Carving),
      (arenas.foldl (fun k x => carveArena cfg.allocationGranularityBytes k x.2 x.1) k).places =
        k.places ++ arenas.flatMap fun x => x.1.places cfg.allocationGranularityBytes x.2 := by
    intro arenas
    induction arenas with
    | nil => exact fun k => (List.append_nil _).symm
    | cons x arenas ih =>
      intro k
      rw [List.foldl_cons, ih, carveArena_places, List.flatMap_cons, List.append_assoc]
  exact hfold _ _

theorem length_carving_places : cfg.carving.places.length = cfg.carvedSlots := by
  rw [carving_places, List.length_flatMap, carvedSlots]
  simp only [NumaArenaConfig.places, List.length_map, List.length_range]
  conv_rhs => rw [← List.zipIdx_map_fst 0 cfg.perNuma, List.map_map]
  rfl

variable {cfg}

theorem mem_carving_places : p ∈ cfg.carving.places ↔
    ∃ ac, cfg.perNuma[p.1]? = some ac ∧ ∃ j < ac.carvedSlots cfg.allocationGranularityBytes,
      j * cfg.allocationGranularityBytes % 2 ^ 64 = p.2 := by
  rw [carving_places, List.mem_flatMap]
  constructor
  · rintro ⟨⟨ac, a⟩, hx, hp⟩
    obtain ⟨j, hj, rfl⟩ := NumaArenaConfig.mem_places.1 hp
    exact ⟨ac, List.mem_zipIdx_iff_getElem?.1 hx, j, hj, rfl⟩
  · rintro ⟨ac, hac, j, hj, hp⟩
    exact ⟨(ac, p.1), List.mem_zipIdx_iff_getElem?.2 hac,
      NumaArenaConfig.mem_places.2 ⟨j, hj, Prod.ext rfl hp⟩⟩

/-! ## When the table is sound -/

theorem mem_slotTable_entries {e : PlannedSlot} : e ∈ cfg.slotTable.entries ↔
    ∃ i, ∃ h : i < cfg.carving.places.length,
      .write cfg.allocationGranularityBytes i cfg.carving.places[i] = e :=
  List.mem_mapIdx

/-- Slots of a sound table have ids below the number that is reserved, which are those of the
    slots that are carved: the first of the others would be numbered by that number. -/
theorem SoundTable.carvedSlots_le (h : cfg.SoundTable cfg.slotTable) :
    cfg.carvedSlots ≤ cfg.numSlots := by
  by_contra hlt
  rw [← length_carving_places] at hlt
  have hlast := h.reserved _ (mem_slotTable_entries.2 ⟨cfg.numSlots, not_le.1 hlt, rfl⟩)
  simp only [PlannedSlot.write, Nat.mod_eq_of_lt cfg.numSlots_lt] at hlast
  exact hlast.false

/-- The slot that the end of the arena falls into would not be inside of it. -/
theorem SoundTable.arena_fits (h : cfg.SoundTable cfg.slotTable)
    (hgran : 0 < cfg.allocationGranularityBytes) (hac : ac ∈ cfg.perNuma)
    (hsize : ac.sizeBytes < 2 ^ 64) :
    ac.carvedSlots cfg.allocationGranularityBytes * cfg.allocationGranularityBytes ≤
      ac.sizeBytes := by
  obtain ⟨a, ha⟩ := List.mem_iff_getElem?.1 hac
  by_contra hlt
  have hbefore := Nat.div_mul_le_self ac.sizeBytes cfg.allocationGranularityBytes
  have hplace : (a, ac.sizeBytes / cfg.allocationGranularityBytes *
      cfg.allocationGranularityBytes) ∈ cfg.carving.places :=
    mem_carving_places.2 ⟨ac, ha, _, (Nat.div_lt_iff_lt_mul hgran).2 (not_le.1 hlt),
      Nat.mod_eq_of_lt (hbefore.trans_lt hsize)⟩
  obtain ⟨i, hi, hget⟩ := List.mem_iff_getElem.1 hplace
  obtain ⟨ac', ha', hinside⟩ := h.inside _ (mem_slotTable_entries.2 ⟨i, hi, rfl⟩)
  simp only [PlannedSlot.write, hget] at ha' hinside
  obtain rfl : ac = ac' := Option.some.inj (ha.symm.trans ha')
  rw [← Nat.succ_mul] at hinside
  exact (Nat.lt_succ_self _).not_ge ((Nat.le_div_iff_mul_le hgran).2 hinside)

/-- What is carved fits, into the slots that are reserved and into each arena. -/
structure Fits (cfg : DaemonConfig) : Prop where
  slots : cfg.carvedSlots ≤ cfg.numSlots
  arenas : ∀ ac ∈ cfg.perNuma,
    ac.carvedSlots cfg.allocationGranularityBytes * cfg.allocationGranularityBytes ≤ ac.sizeBytes

namespace Fits

variable (h : cfg.Fits)

include h

theorem id_lt {i : ℕ} (hi : i < cfg.carving.places.length) : i < cfg.numSlots :=
  hi.trans_le (cfg.length_carving_places ▸ h.slots)

theorem mod_id {i : ℕ} (hi : i < cfg.carving.places.length) : i % 2 ^ 32 = i :=
  Nat.mod_eq_of_lt ((h.id_lt hi).trans cfg.numSlots_lt)

theorem slotIds_eq : cfg.slotTable.entries.map PlannedSlot.slotId =
    List.range cfg.carving.places.length := by
  refine List.ext_getElem (by simp [slotTable]) fun i hi _ => ?_
  simp only [slotTable, List.length_map, List.length_mapIdx] at hi
  simp only [slotTable, List.getElem_map, List.getElem_mapIdx, List.getElem_range]
  exact h.mod_id hi

theorem windows_consecutive {ids : List ℕ} (hids : ids ∈ cfg.slotTable.windows) :
    ∃ first, ids = List.range' first ids.length := by
  obtain ⟨w, hw, rfl⟩ := List.mem_map.1 hids
  have hmod : w.slotIds.map (· % 2 ^ 32) = w.slotIds :=
    (List.map_congr_left fun id hid => h.mod_id (cfg.carving_sound.placed w hw id hid)).trans
      (List.map_id _)
  rw [hmod]
  exact w.consecutive

section Offsets

variable {j : ℕ} (hac : ac ∈ cfg.perNuma)
  (hj : j < ac.carvedSlots cfg.allocationGranularityBytes)
  (hsizes : ∀ ac ∈ cfg.perNuma, ac.sizeBytes < 2 ^ 64)

include hac hj

/-- A slot that is carved is inside its arena. -/
theorem slot_inside : j * cfg.allocationGranularityBytes + cfg.allocationGranularityBytes ≤
    ac.sizeBytes :=
  calc j * cfg.allocationGranularityBytes + cfg.allocationGranularityBytes
      = (j + 1) * cfg.allocationGranularityBytes := (Nat.succ_mul ..).symm
    _ ≤ ac.carvedSlots cfg.allocationGranularityBytes * cfg.allocationGranularityBytes :=
        Nat.mul_le_mul_right _ hj
    _ ≤ ac.sizeBytes := h.arenas ac hac

include hsizes

/-- So its offset does not wrap. -/
theorem mod_offset : j * cfg.allocationGranularityBytes % 2 ^ 64 =
    j * cfg.allocationGranularityBytes :=
  Nat.mod_eq_of_lt (((Nat.le_add_right ..).trans (h.slot_inside hac hj)).trans_lt (hsizes ac hac))

end Offsets

/-- Of two slots of one arena, the later one lies behind the other. -/
theorem places_pairwise (hsizes : ∀ ac ∈ cfg.perNuma, ac.sizeBytes < 2 ^ 64) :
    cfg.carving.places.Pairwise fun p p' =>
      p.1 = p'.1 → p.2 + cfg.allocationGranularityBytes ≤ p'.2 := by
  rw [carving_places, List.pairwise_flatMap]
  constructor
  · rintro ⟨ac, a⟩ hx
    have hac := List.mem_of_getElem? (List.mem_zipIdx_iff_getElem?.1 hx)
    refine List.pairwise_map.2 (List.pairwise_lt_range.imp_of_mem fun {j j'} hj hj' hlt _ => ?_)
    simp only [h.mod_offset hac (List.mem_range.1 hj) hsizes,
      h.mod_offset hac (List.mem_range.1 hj') hsizes]
    calc j * cfg.allocationGranularityBytes + cfg.allocationGranularityBytes
        = (j + 1) * cfg.allocationGranularityBytes := (Nat.succ_mul ..).symm
      _ ≤ j' * cfg.allocationGranularityBytes := Nat.mul_le_mul_right _ hlt
  · -- Slots of different arenas: nothing is asked of them.
    have hids : (cfg.perNuma.zipIdx.map Prod.snd).Pairwise (· < ·) := by
      rw [List.zipIdx_map_snd]
      exact List.pairwise_lt_range'
    refine (List.pairwise_map.1 hids).imp fun {x y} hlt p hp p' hp' heq => ?_
    obtain ⟨j, -, rfl⟩ := NumaArenaConfig.mem_places.1 hp
    obtain ⟨j', -, rfl⟩ := NumaArenaConfig.mem_places.1 hp'
    exact absurd heq hlt.ne

theorem soundTable (hsizes : ∀ ac ∈ cfg.perNuma, ac.sizeBytes < 2 ^ 64) :
    cfg.SoundTable cfg.slotTable where
  distinct := h.slotIds_eq ▸ List.nodup_range
  reserved e he := by
    obtain ⟨i, hi, rfl⟩ := mem_slotTable_entries.1 he
    exact (h.mod_id hi).trans_lt (h.id_lt hi)
  consecutive ids hids := h.windows_consecutive hids
  apart := by
    rw [slotTable, List.pairwise_iff_getElem]
    intro i j hi hj hlt harena
    simp only [List.length_mapIdx] at hi hj
    simp only [List.getElem_mapIdx, PlannedSlot.write] at harena ⊢
    have hbehind := List.pairwise_iff_getElem.1 (h.places_pairwise hsizes) i j hi hj hlt harena
    rw [meet_iff]
    omega
  inside e he := by
    obtain ⟨i, hi, rfl⟩ := mem_slotTable_entries.1 he
    obtain ⟨ac, hac, j, hj, hplace⟩ := mem_carving_places.1 (List.getElem_mem hi)
    have hmem := List.mem_of_getElem? hac
    rw [h.mod_offset hmem hj hsizes] at hplace
    refine ⟨ac, hac, ?_⟩
    rw [PlannedSlot.write, ← hplace]
    exact h.slot_inside hmem hj

end Fits

/-- The configurations that the daemon starts with: those that are loaded, and those it builds
    itself, for an arena of any size. -/
inductive Accepted : DaemonConfig → Prop
  | loaded {fuel : ℕ} {path : Yaml.Text} {content : Option Yaml.Text} {cfg : DaemonConfig}
      (h : loadConfig fuel path content = .ok cfg) : Accepted cfg
  | smoke {arenaBytes : ℕ} (h : arenaBytes < 2 ^ 64) (numaNode gpuId : ℕ) :
      Accepted (defaultSmokeConfig arenaBytes numaNode gpuId)

theorem Accepted.checked (h : Accepted cfg) : cfg.Checked := by
  cases h with
  | loaded h => exact loadConfig_checked h
  | smoke h numaNode gpuId => exact defaultSmokeConfig_checked h numaNode gpuId

/-- The slot table is sound if and only if what is carved fits. -/
theorem slotTable_sound_iff (h : Accepted cfg) : cfg.SoundTable cfg.slotTable ↔ cfg.Fits :=
  ⟨fun hsound => ⟨hsound.carvedSlots_le, fun ac hac =>
      hsound.arena_fits h.checked.granularity_pos hac (h.checked.size_lt ac hac)⟩,
    fun hfits => hfits.soundTable h.checked.size_lt⟩

/-- An arena of 1 GiB, for one GPU. -/
def smallFile : Yaml.Text :=
  "arenas:\n  per_numa:\n    - size_gb: 1\n      gpu_windows:\n        - size_gb: 1".toList

def smallConfig : DaemonConfig :=
  .ofArenas (16 * kMiB) [{ numaNode := 0, sizeBytes := kGiB, overflowBytes := 0
                           gpuWindows := [{ gpu := 0, sizeBytes := kGiB }] }]

theorem slotTable_sound_iff_small :
    loadConfig 20 ['c'] (some smallFile) = .ok smallConfig ∧ smallConfig.carvedSlots = 64 ∧
      (smallConfig.SoundTable smallConfig.slotTable ↔ smallConfig.Fits) :=
  have hloaded : loadConfig 20 ['c'] (some smallFile) = .ok smallConfig := by decide +kernel
  ⟨hloaded, by decide +kernel, slotTable_sound_iff (.loaded hloaded)⟩

/-- An arena of 1 GiB for two GPUs, with a window and a granularity of `2 ^ 63` bytes. -/
def wrappedFile : Yaml.Text :=
  ("arenas:\n  allocation_granularity_mb: 8796093022208\n  per_numa:\n    - size_gb: 1\n" ++
    "      gpu_windows:\n        - gpu: 0\n          size_gb: 8589934592\n" ++
    "        - gpu: 1\n          size_gb: 8589934592").toList

def wrappedConfig : DaemonConfig :=
  .ofArenas (2 ^ 63) [{ numaNode := 0, sizeBytes := kGiB, overflowBytes := 0
                        gpuWindows := [{ gpu := 0, sizeBytes := 2 ^ 63 },
                                       { gpu := 1, sizeBytes := 2 ^ 63 }] }]

/-- The windows add up to 0 bytes, so the file is accepted. No slot is reserved, but two are
    carved, and none of them is inside the arena. -/
theorem windows_wrap :
    loadConfig 20 ['c'] (some wrappedFile) = .ok wrappedConfig ∧ wrappedConfig.numSlots = 0 ∧
      wrappedConfig.slotTable.entries = [⟨0, 0, 0, 2 ^ 63⟩, ⟨1, 0, 2 ^ 63, 2 ^ 63⟩] ∧
      ¬wrappedConfig.SoundTable wrappedConfig.slotTable := by
  have hentries : wrappedConfig.slotTable.entries =
      [⟨0, 0, 0, 2 ^ 63⟩, ⟨1, 0, 2 ^ 63, 2 ^ 63⟩] := by
    decide +kernel
  refine ⟨by decide +kernel, by decide +kernel, hentries, fun h => ?_⟩
  have hfirst := h.reserved ⟨0, 0, 0, 2 ^ 63⟩ (hentries ▸ List.mem_cons_self)
  exact absurd hfirst (by decide +kernel)

/-- As long as the windows of an arena add up to less than `2 ^ 64` bytes and the arenas to less
    than `2 ^ 32` slots, the table is sound. -/
theorem slotTable_sound_of_no_wrap (h : Accepted cfg)
    (hbytes : ∀ ac ∈ cfg.perNuma, ac.windowBytes < 2 ^ 64)
    (hslots : (cfg.perNuma.map fun ac => ac.sizeBytes / cfg.allocationGranularityBytes).sum <
      2 ^ 32) : cfg.SoundTable cfg.slotTable := by
  have harenas : ∀ ac ∈ cfg.perNuma, ac.carvedSlots cfg.allocationGranularityBytes *
      cfg.allocationGranularityBytes ≤ ac.sizeBytes := by
    intro ac hac
    have hneeded := h.checked.needed_le ac hac
    rw [NumaArenaConfig.needed_eq, Nat.mod_eq_of_lt (hbytes ac hac)] at hneeded
    exact (NumaArenaConfig.carvedSlots_mul_le ..).trans hneeded
  refine Fits.soundTable ⟨?_, harenas⟩ h.checked.size_lt
  rw [numSlots_eq, Nat.mod_eq_of_lt hslots]
  exact List.sum_le_sum fun ac hac =>
    (Nat.le_div_iff_mul_le h.checked.granularity_pos).2 (harenas ac hac)

theorem smallConfig_sound : smallConfig.SoundTable smallConfig.slotTable :=
  have hloaded : loadConfig 20 ['c'] (some smallFile) = .ok smallConfig := by decide +kernel
  slotTable_sound_of_no_wrap (.loaded hloaded) (by decide) (by decide)

end DaemonConfig

end StateSpectre
