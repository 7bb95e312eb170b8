import Mathlib.Data.Nat.Log
import Mathlib.Order.Bounds.Basic
import StateSpectre.Startup

/-!
# The layout of the control region

The daemon shares one region of memory with all ranks: a header, the descriptors of the arenas,
the entries of the slots, and a completion ring for each rank, which is a header and a number of
entries that is rounded up to a power of two. Each of them should start at a cache line, and no
two of them overlap (`ControlLayout.Sound`).

The capacity of the rings is a number of 32 bits, and is rounded up by doubling: beyond `2 ^ 31` the
doubled number is 0, and the daemon never starts (`roundRing_stuck`). The bytes of a ring are cut
to 32 bits before they are used as the distance from one ring to the next. So beyond `2 ^ 26`
entries the rings overlap each other, and the last one ends behind the region. In all other cases
the layout is sound (`control_region_sound`).
-/

namespace StateSpectre

/-! ## The sizes of the records -/

def cacheline : ℕ := 64

/-- The bytes of the header (`ofld_slot_table_header_t`): four words of 4 bytes, eight of 8 and
    64 bytes that are reserved, filled up to a cache line. -/
def slotTableHeaderBytes : ℕ := 192

/-- The bytes of a descriptor (`ofld_arena_desc_t`). -/
def arenaDescBytes : ℕ := 80

/-- The bytes of an entry (`ofld_slot_entry_t`), filled up to a cache line. -/
def slotEntryBytes : ℕ := 256

/-- The bytes of the header of a ring (`CompletionRingHeader`): three cache lines. -/
def ringHeaderBytes : ℕ := 192

/-- The bytes of a completion (`ofld_completion_entry_t`). -/
def completionEntryBytes : ℕ := 40

/-! ## The rings -/

/-- The configuration of the rings: two numbers of 32 bits. -/
structure RingConfig where
  maxRanks : ℕ
  capacity : ℕ
  maxRanks_lt : maxRanks < 2 ^ 32
  capacity_lt : capacity < 2 ^ 32

/-- The loop that doubles `p` until it is at least `cap`, in 32 bits. -/
def roundRing (cap : ℕ) : ℕ → ℕ → Option ℕ
  | 0, _ => none
  | fuel + 1, p => if p < cap then roundRing cap fuel (p <<< 1 % 2 ^ 32) else some p

/-- The capacity of the rings: at least 2, and rounded up. -/
def ringCapacity (fuel requested : ℕ) : Option ℕ :=
  roundRing (if requested < 2 then 2 else requested) fuel 1

/-- The bytes of one ring, filled up to a cache line. -/
def completionRingBytes (capacity : ℕ) : ℕ :=
  (ringHeaderBytes + capacity * completionEntryBytes + cacheline - 1) / cacheline * cacheline

/-! ## The layout -/

/-- Rounding up to a multiple of `a`, in 64 bits. -/
def alignUp (v a : ℕ) : ℕ := (v + a - 1) % 2 ^ 64 / a * a

/-- Where the parts of the region start, and how many there are of each. -/
structure ControlLayout where
  headerOffset : ℕ
  arenaDescOffset : ℕ
  slotEntriesOffset : ℕ
  controlRingOffset : ℕ
  controlRingBytes : ℕ
  totalBytes : ℕ
  numArenas : ℕ
  numSlots : ℕ
  maxRanks : ℕ := 0
  ringStride : ℕ := 0
  deriving DecidableEq, Repr

/-- One part behind the other, each at the next cache line. -/
def computeControlLayout (numArenas numSlots ringBytes : ℕ) : ControlLayout :=
  let arenaDescOffset := alignUp slotTableHeaderBytes cacheline
  let slotEntriesOffset :=
    alignUp ((arenaDescOffset + numArenas * arenaDescBytes) % 2 ^ 64) cacheline
  let controlRingOffset :=
    alignUp ((slotEntriesOffset + numSlots * slotEntryBytes) % 2 ^ 64) cacheline
  { headerOffset := 0
    arenaDescOffset, slotEntriesOffset, controlRingOffset
    controlRingBytes := ringBytes
    totalBytes := alignUp ((controlRingOffset + ringBytes) % 2 ^ 64) 4096
    numArenas, numSlots }

/-- The distance from one ring to the next: the bytes of a ring, in 32 bits. -/
def ringStride (ringCap : ℕ) : ℕ := completionRingBytes ringCap % 2 ^ 32

/-- The bytes of all rings. -/
def RingConfig.ringArea (rings : RingConfig) (ringCap : ℕ) : ℕ :=
  if rings.maxRanks = 0 then 0 else rings.maxRanks * ringStride ringCap % 2 ^ 64

/-- The layout of a daemon whose rings have that capacity. -/
def DaemonConfig.controlLayout (cfg : DaemonConfig) (rings : RingConfig) (ringCap : ℕ) :
    ControlLayout :=
  { computeControlLayout (cfg.perNuma.length % 2 ^ 32) cfg.numSlots (rings.ringArea ringCap) with
    maxRanks := rings.maxRanks
    ringStride := ringStride ringCap }

/-- Where the ring `i` is (`ring_for_index`). -/
def ControlLayout.ringOffset (L : ControlLayout) (i : ℕ) : ℕ :=
  L.controlRingOffset + i * L.ringStride

/-- The parts of the region, as their offsets and sizes: a ring is its header and its entries. -/
def ControlLayout.parts (L : ControlLayout) (ringCap : ℕ) : List (ℕ × ℕ) :=
  [(L.headerOffset, slotTableHeaderBytes), (L.arenaDescOffset, L.numArenas * arenaDescBytes),
    (L.slotEntriesOffset, L.numSlots * slotEntryBytes)] ++
    (List.range L.maxRanks).map fun i =>
      (L.ringOffset i, ringHeaderBytes + ringCap * completionEntryBytes)

/-- The parts start at a cache line, lie in the region, and do not overlap. -/
structure ControlLayout.Sound (L : ControlLayout) (ringCap : ℕ) : Prop where
  aligned : ∀ r ∈ L.parts ringCap, cacheline ∣ r.1
  inside : ∀ r ∈ L.parts ringCap, r.1 + r.2 ≤ L.totalBytes
  apart : (L.parts ringCap).Pairwise fun r r' => ¬Meet r.1 r.2 r'.1 r'.2

/-! ## The capacity -/

/-- The least power of two that is at least `n`. -/
def IsPowerCeil (n p : ℕ) : Prop := IsLeast {p | n ≤ p ∧ ∃ k, p = 2 ^ k} p

theorem isPowerCeil_clog (n : ℕ) : IsPowerCeil n (2 ^ Nat.clog 2 n) := by
  refine ⟨⟨Nat.le_pow_clog Nat.one_lt_two n, _, rfl⟩, ?_⟩
  rintro _ ⟨hn, k, rfl⟩
  exact Nat.pow_le_pow_right Nat.two_pos (Nat.clog_le_of_le_pow hn)

/-- As long as the doubling fits, the loop ends at the power of two it looks for. -/
theorem roundRing_pow {cap d k : ℕ} (hk : k + d = Nat.clog 2 cap) (hcap : cap ≤ 2 ^ 31) :
    roundRing cap (d + 1) (2 ^ k) = some (2 ^ Nat.clog 2 cap) := by
  induction d generalizing k with
  | zero =>
    rw [← hk, roundRing, if_neg]
    · rfl
    · rw [not_lt, show k = Nat.clog 2 cap from hk]
      exact Nat.le_pow_clog Nat.one_lt_two cap
  | succ d ih =>
    have hlt : k < Nat.clog 2 cap := by omega
    have hle : Nat.clog 2 cap ≤ 31 := Nat.clog_le_of_le_pow hcap
    have hdouble : 2 ^ k <<< 1 % 2 ^ 32 = 2 ^ (k + 1) := by
      rw [Nat.shiftLeft_eq, ← Nat.pow_succ]
      exact Nat.mod_eq_of_lt (Nat.pow_lt_pow_right Nat.one_lt_two (by omega))
    rw [roundRing, if_pos ((Nat.lt_clog_iff_pow_lt Nat.one_lt_two).1 hlt), hdouble]
    exact ih (by omega)

/-- Beyond it, the loop goes on for ever. -/
theorem roundRing_stuck {cap : ℕ} (hcap : 2 ^ 31 < cap) (fuel : ℕ) {p : ℕ}
    (hp : p = 0 ∨ ∃ k ≤ 31, p = 2 ^ k) : roundRing cap fuel p = none := by
  induction fuel generalizing p with
  | zero => rfl
  | succ fuel ih =>
    rcases hp with rfl | ⟨k, hk, rfl⟩
    · rw [roundRing, if_pos (by omega)]
      exact ih (.inl rfl)
    · have hlt : 2 ^ k < cap := (Nat.pow_le_pow_right Nat.two_pos hk).trans_lt hcap
      rw [roundRing, if_pos hlt, Nat.shiftLeft_eq, ← Nat.pow_succ]
      refine ih ?_
      rcases hk.lt_or_eq with hk | rfl
      · exact .inr ⟨k + 1, hk, Nat.mod_eq_of_lt (Nat.pow_lt_pow_right Nat.one_lt_two (by omega))⟩
      · exact .inl rfl

theorem if_lt_two_eq_max (requested : ℕ) :
    (if requested < 2 then 2 else requested) = max 2 requested := by
  split <;> omega

/-- The rings get the least power of two that is enough, if at most `2 ^ 31` entries are asked
    for. -/
theorem exists_ringCapacity (requested : ℕ) (h : requested ≤ 2 ^ 31) :
    ∃ fuel, ringCapacity fuel requested = some (2 ^ Nat.clog 2 (max 2 requested)) := by
  rw [← if_lt_two_eq_max]
  refine ⟨_, roundRing_pow (k := 0) (Nat.zero_add _) ?_⟩
  split <;> omega

theorem ringCapacity_stuck {requested : ℕ} (h : 2 ^ 31 < requested) (fuel : ℕ) :
    ringCapacity fuel requested = none := by
  refine roundRing_stuck ?_ fuel (.inr ⟨0, by omega, rfl⟩)
  split <;> omega

/-! ## The offsets -/

/-- Rounding up goes to the next multiple, if it does not wrap around. -/
theorem alignUp_spec {v a : ℕ} (ha : 0 < a) (h : v + a ≤ 2 ^ 64) :
    a ∣ alignUp v a ∧ v ≤ alignUp v a ∧ alignUp v a < v + a := by
  have hmod : (v + a - 1) % 2 ^ 64 = v + a - 1 := Nat.mod_eq_of_lt (by omega)
  rw [alignUp, hmod]
  have hdiv := Nat.div_add_mod (v + a - 1) a
  have hlt := Nat.mod_lt (v + a - 1) ha
  rw [Nat.mul_comm] at hdiv
  exact ⟨Nat.dvd_mul_left .., by omega, by omega⟩

/-- The bytes of a ring go up to the next cache line. -/
theorem completionRingBytes_spec (capacity : ℕ) :
    cacheline ∣ completionRingBytes capacity ∧
      ringHeaderBytes + capacity * completionEntryBytes ≤ completionRingBytes capacity ∧
      completionRingBytes capacity < ringHeaderBytes + capacity * completionEntryBytes + 64 := by
  simp only [completionRingBytes, ringHeaderBytes, completionEntryBytes, cacheline]
  exact ⟨Nat.dvd_mul_left .., by omega, by omega⟩

section Layout

variable (cfg : DaemonConfig) (rings : RingConfig) (cap : ℕ)

/-- The parts of the layout in front of the rings: each starts at a cache line, behind the one
    before it. -/
structure ControlLayout.Ordered (L : ControlLayout) : Prop where
  arenas : L.arenaDescOffset = slotTableHeaderBytes
  slots : L.arenaDescOffset + L.numArenas * arenaDescBytes ≤ L.slotEntriesOffset
  rings : L.slotEntriesOffset + L.numSlots * slotEntryBytes ≤ L.controlRingOffset
  slots_dvd : cacheline ∣ L.slotEntriesOffset
  rings_dvd : cacheline ∣ L.controlRingOffset
  /-- There is room for the rings in 64 bits. -/
  room : L.controlRingOffset < 2 ^ 42

theorem controlLayout_ordered : (cfg.controlLayout rings cap).Ordered := by
  have hA : cfg.perNuma.length % 2 ^ 32 < 2 ^ 32 := Nat.mod_lt _ (by decide)
  have hS := cfg.numSlots_lt
  simp only [DaemonConfig.controlLayout, computeControlLayout]
  generalize cfg.perNuma.length % 2 ^ 32 = a at hA
  generalize cfg.numSlots = n at hS
  have h₁ : alignUp slotTableHeaderBytes cacheline = slotTableHeaderBytes := by decide
  have hmod : (slotTableHeaderBytes + a * arenaDescBytes) % 2 ^ 64 =
      slotTableHeaderBytes + a * arenaDescBytes :=
    Nat.mod_eq_of_lt (by simp only [slotTableHeaderBytes, arenaDescBytes]; omega)
  rw [h₁, hmod]
  obtain ⟨hdvd, hle, hlt⟩ := alignUp_spec (v := slotTableHeaderBytes + a * arenaDescBytes)
    (a := cacheline) (by decide)
    (by simp only [slotTableHeaderBytes, arenaDescBytes, cacheline]; omega)
  generalize alignUp (slotTableHeaderBytes + a * arenaDescBytes) cacheline = o at hdvd hle hlt
  have hoff : o < 2 ^ 39 := by
    simp only [slotTableHeaderBytes, arenaDescBytes, cacheline] at hlt
    omega
  have hmod' : (o + n * slotEntryBytes) % 2 ^ 64 = o + n * slotEntryBytes :=
    Nat.mod_eq_of_lt (by simp only [slotEntryBytes]; omega)
  rw [hmod']
  obtain ⟨hdvd', hle', hlt'⟩ := alignUp_spec (v := o + n * slotEntryBytes) (a := cacheline)
    (by decide) (by simp only [slotEntryBytes, cacheline]; omega)
  refine ⟨rfl, hle, hle', hdvd, hdvd', ?_⟩
  simp only [slotEntryBytes, cacheline] at hlt' ⊢
  omega

theorem controlLayout_totalBytes : (cfg.controlLayout rings cap).totalBytes =
    alignUp (((cfg.controlLayout rings cap).controlRingOffset + rings.ringArea cap) % 2 ^ 64)
      4096 := rfl

/-- The region ends less than a page behind the rings, also if the sizes wrap around. -/
theorem controlLayout_totalBytes_le :
    (cfg.controlLayout rings cap).totalBytes ≤ (cfg.controlLayout rings cap).controlRingOffset +
      rings.maxRanks * ringStride cap + 4095 := by
  have harea : rings.ringArea cap ≤ rings.maxRanks * ringStride cap := by
    rw [RingConfig.ringArea]
    split
    · exact Nat.zero_le _
    · exact Nat.mod_le ..
  rw [controlLayout_totalBytes]
  generalize (cfg.controlLayout rings cap).controlRingOffset = o
  have hmod := Nat.mod_le (o + rings.ringArea cap) (2 ^ 64)
  refine (Nat.div_mul_le_self ..).trans ((Nat.mod_le ..).trans ?_)
  omega

/-- All rings lie in the region, if their bytes fit into 64 bits. -/
theorem le_controlLayout_totalBytes (hfit : rings.maxRanks * ringStride cap < 2 ^ 63 + 2 ^ 62) :
    (cfg.controlLayout rings cap).controlRingOffset +
      rings.maxRanks * ringStride cap ≤
        (cfg.controlLayout rings cap).totalBytes := by
  have hroom := (controlLayout_ordered cfg rings cap).room
  have harea : rings.ringArea cap = rings.maxRanks * ringStride cap := by
    rw [RingConfig.ringArea]
    split
    · next h => rw [h, Nat.zero_mul]
    · exact Nat.mod_eq_of_lt (by omega)
  rw [controlLayout_totalBytes, harea]
  generalize (cfg.controlLayout rings cap).controlRingOffset = o at hroom
  generalize rings.maxRanks * ringStride cap = area at hfit
  rw [Nat.mod_eq_of_lt (by omega)]
  exact (alignUp_spec (by decide) (by omega)).2.1

variable {cap}

/-- The layout is sound if the rings are no longer than their distance, and lie in the region. -/
theorem ControlLayout.Ordered.sound {L : ControlLayout} (h : L.Ordered)
    (hheader : L.headerOffset = 0)
    (hstride : 0 < L.maxRanks → ringHeaderBytes + cap * completionEntryBytes ≤ L.ringStride)
    (hdvd : cacheline ∣ L.ringStride)
    (htotal : L.controlRingOffset + L.maxRanks * L.ringStride ≤ L.totalBytes) : L.Sound cap := by
  obtain ⟨harenas, hslots, hrings, hslots', hrings', -⟩ := h
  -- A ring ends where the next one starts.
  have hend : ∀ i < L.maxRanks, ∀ j, i < j →
      L.ringOffset i + (ringHeaderBytes + cap * completionEntryBytes) ≤ L.ringOffset j := by
    intro i hi j hij
    have hmul : (i + 1) * L.ringStride ≤ j * L.ringStride := Nat.mul_le_mul_right _ hij
    rw [Nat.add_one_mul] at hmul
    have hlen := hstride (Nat.zero_lt_of_lt hi)
    simp only [ringOffset]
    omega
  have hstart : ∀ i, L.controlRingOffset ≤ L.ringOffset i := fun i => Nat.le_add_right ..
  have hlast : ∀ i < L.maxRanks,
      L.ringOffset i + (ringHeaderBytes + cap * completionEntryBytes) ≤ L.totalBytes :=
    fun i hi => (hend i hi _ hi).trans htotal
  have hbytes : L.controlRingOffset ≤ L.totalBytes := (Nat.le_add_right ..).trans htotal
  refine ⟨?_, ?_, ?_⟩
  · simp only [parts, List.cons_append, List.nil_append, List.forall_mem_cons, List.forall_mem_map,
      List.mem_range]
    refine ⟨hheader ▸ Nat.dvd_zero _, harenas ▸ by decide, hslots', fun i _ => ?_⟩
    exact Nat.dvd_add hrings' (Nat.dvd_mul_left_of_dvd hdvd i)
  · simp only [parts, List.cons_append, List.nil_append, List.forall_mem_cons, List.forall_mem_map,
      List.mem_range]
    refine ⟨?_, ?_, ?_, hlast⟩ <;> omega
  · simp only [parts, List.cons_append, List.nil_append, List.pairwise_cons, List.forall_mem_cons,
      List.forall_mem_map, List.mem_range, List.pairwise_map, meet_iff]
    refine ⟨⟨by omega, by omega, fun i _ => ?_⟩, ⟨by omega, fun i _ => ?_⟩, fun i _ => ?_, ?_⟩
    · have := hstart i
      omega
    · have := hstart i
      omega
    · have := hstart i
      omega
    · refine List.Pairwise.imp_of_mem (fun {i j} hi _ hij => ?_) List.pairwise_lt_range
      have := hend i (List.mem_range.1 hi) j hij
      omega

end Layout

/-! ## When the layout is sound -/

/-- Up to `2 ^ 26` entries, the bytes of a ring fit into 32 bits. -/
theorem ringStride_eq {cap : ℕ} (h : cap ≤ 2 ^ 26) : ringStride cap = completionRingBytes cap := by
  have hlt := (completionRingBytes_spec cap).2.2
  simp only [ringHeaderBytes, completionEntryBytes] at hlt
  exact Nat.mod_eq_of_lt (by omega)

theorem controlLayout_sound_of_le {cfg : DaemonConfig} {rings : RingConfig} {cap : ℕ}
    (h : cap ≤ 2 ^ 26 ∨ rings.maxRanks = 0) : (cfg.controlLayout rings cap).Sound cap := by
  obtain ⟨hdvd, hle, hlt⟩ := completionRingBytes_spec cap
  have hstride : cacheline ∣ ringStride cap := by
    refine (Nat.dvd_mod_iff ?_).2 hdvd
    decide
  refine (controlLayout_ordered cfg rings cap).sound rfl (fun hpos => ?_) hstride
    (le_controlLayout_totalBytes cfg rings cap ?_)
  · obtain hcap | hzero := h
    · exact hle.trans_eq (ringStride_eq hcap).symm
    · exact absurd hzero hpos.ne'
  · obtain hcap | hzero := h
    · rw [ringStride_eq hcap]
      simp only [ringHeaderBytes, completionEntryBytes] at hlt
      have hmul := Nat.mul_le_mul rings.maxRanks_lt.le (Nat.le_of_lt hlt)
      refine hmul.trans_lt ?_
      omega
    · rw [hzero, Nat.zero_mul]
      decide

/-- With more entries the last ring ends behind the region. -/
theorem not_controlLayout_sound {cfg : DaemonConfig} {rings : RingConfig} {cap : ℕ}
    (hcap : 2 ^ 27 ≤ cap) (hpos : 0 < rings.maxRanks) :
    ¬(cfg.controlLayout rings cap).Sound cap := by
  intro h
  obtain ⟨-, hle, hlt⟩ := completionRingBytes_spec cap
  have hlast := h.inside _ (List.mem_append_right _ (List.mem_map.2
    ⟨rings.maxRanks - 1, List.mem_range.2 (Nat.sub_lt hpos Nat.one_pos), rfl⟩))
  have htotal := controlLayout_totalBytes_le cfg rings cap
  have hmul : rings.maxRanks * ringStride cap =
      (rings.maxRanks - 1) * ringStride cap + ringStride cap := by
    rw [← Nat.add_one_mul, Nat.sub_add_cancel hpos]
  -- What is cut off is more than a page.
  have hcut : ringStride cap + 2 ^ 32 ≤ completionRingBytes cap := by
    simp only [ringHeaderBytes, completionEntryBytes] at hle
    rw [ringStride]
    omega
  have hoffset : (cfg.controlLayout rings cap).ringOffset (rings.maxRanks - 1) =
      (cfg.controlLayout rings cap).controlRingOffset +
        (rings.maxRanks - 1) * ringStride cap := rfl
  simp only [hoffset] at hlast
  omega

/-- The capacity of the rings is found, as the least power of two that is enough, and the layout
    is sound, if and only if at most `2 ^ 26` entries are asked for, or at most `2 ^ 31` and there
    are no rings. -/
theorem control_region_sound (cfg : DaemonConfig) (rings : RingConfig) :
    (∃ fuel cap, ringCapacity fuel rings.capacity = some cap ∧
        IsPowerCeil (max 2 rings.capacity) cap ∧ (cfg.controlLayout rings cap).Sound cap) ↔
      rings.capacity ≤ 2 ^ 26 ∨ rings.maxRanks = 0 ∧ rings.capacity ≤ 2 ^ 31 := by
  constructor
  · rintro ⟨fuel, cap, hcap, ⟨⟨hle, k, rfl⟩, -⟩, hsound⟩
    have hfits : rings.capacity ≤ 2 ^ 31 := by
      by_contra hlt
      rw [ringCapacity_stuck (not_le.1 hlt)] at hcap
      cases hcap
    by_contra hcon
    obtain ⟨hmore, hranks⟩ := not_or.1 hcon
    have hpos : 0 < rings.maxRanks := Nat.pos_of_ne_zero fun hzero => hranks ⟨hzero, hfits⟩
    refine not_controlLayout_sound ?_ hpos hsound
    refine Nat.pow_le_pow_right Nat.two_pos ((Nat.pow_lt_pow_iff_right Nat.one_lt_two).1 ?_)
    exact (not_le.1 hmore).trans_le ((le_max_right ..).trans hle)
  · intro h
    obtain ⟨fuel, hcap⟩ := exists_ringCapacity rings.capacity (by omega)
    refine ⟨fuel, _, hcap, isPowerCeil_clog _, controlLayout_sound_of_le ?_⟩
    refine h.imp (fun hle => ?_) And.left
    exact Nat.pow_le_pow_right Nat.two_pos (Nat.clog_le_of_le_pow (by omega))

/-- A configuration with one arena, all of it for one GPU. -/
def oneArena : DaemonConfig := ⟨2 ^ 20, [⟨0, 2 ^ 30, [⟨0, 2 ^ 30⟩], 0⟩], by decide⟩

/-- Rings of `2 ^ 27` entries for 64 ranks. -/
def longRings : RingConfig := ⟨64, 2 ^ 27, by decide, by decide⟩

/-- With `2 ^ 27` entries the second ring starts within the first one; and if more than `2 ^ 31` are
    asked for, their number is rounded up for ever. -/
theorem rings_overlap :
    oneArena.validate = .ok () ∧
      (∃ fuel, ringCapacity fuel longRings.capacity = some (2 ^ 27)) ∧
      (oneArena.controlLayout longRings (2 ^ 27)).ringOffset 1 <
        (oneArena.controlLayout longRings (2 ^ 27)).ringOffset 0 + ringHeaderBytes +
          2 ^ 27 * completionEntryBytes ∧
      ¬(oneArena.controlLayout longRings (2 ^ 27)).Sound (2 ^ 27) ∧
      ∀ fuel, ringCapacity fuel (2 ^ 31 + 1) = none := by
  refine ⟨rfl, ⟨28, by decide⟩, by decide, not_controlLayout_sound le_rfl (by decide),
    fun fuel => ?_⟩
  exact ringCapacity_stuck (by decide) fuel

end StateSpectre
