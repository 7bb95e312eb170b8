import StateSpectre.Allocator
import StateSpectre.LeaseCover

/-!
# The runs that are granted

An offload, and a canonical evict that creates an object or is handed a candidate, is answered
with a run of slots to copy into. Whatever request leads to it, and however many drains are forced
before, the run is the one that the allocator found last (`step_granted`): its slots are free, and
lie one behind the other in one window and in one arena.

How many slots there are is computed in machine integers. The number of bytes is rounded up to a
multiple of the granularity in 64 bits, which can wrap, and the number of slots is cut to 32
bits. A request of too many bytes is granted a run that is too small for it, or one of no slot at
all. Offsets in an arena wrap at 64 bits, too: a run may start before the wrap and end behind it
(`granted_run_sound`).
-/

namespace StateSpectre

/-! ## The size of a run -/

/-- The bytes can be rounded up to slots in 64 bits, and the slots counted in 32 bits. -/
def Config.Fits (c : Config) (nbytes : ℕ) : Prop :=
  let gran := c.allocationGranularityBytes
  nbytes ≤ gran ∨ nbytes + gran ≤ 2 ^ 64 ∧ nbytes ≤ (2 ^ 32 - 1) * gran

namespace Config

variable {c : Config} {nbytes : ℕ} {req : RequestCanonicalEvictRequest} {j : JobRecord}
  {objectId : ℕ}

/-- If the rounding wraps, one slot is asked for. -/
theorem slotsForBytes_of_wrap (hlt : c.allocationGranularityBytes < 2 ^ 64)
    (hn : nbytes < 2 ^ 64) (hwrap : 2 ^ 64 < nbytes + c.allocationGranularityBytes) :
    c.slotsForBytes nbytes = 1 := by
  have hmod : (nbytes + c.allocationGranularityBytes - 1) % 2 ^ 64 =
      nbytes + c.allocationGranularityBytes - 1 - 2 ^ 64 := by
    rw [Nat.mod_eq_sub_mod (by omega), Nat.mod_eq_of_lt (by omega)]
  rw [slotsForBytes, hmod, Nat.div_eq_of_lt (by omega)]
  rfl

/-- If it does not, the number of slots that a copy goes over is cut to 32 bits. -/
theorem slotsForBytes_of_le (hpos : 0 < c.allocationGranularityBytes) (hn : 0 < nbytes)
    (hle : nbytes + c.allocationGranularityBytes ≤ 2 ^ 64) :
    c.slotsForBytes nbytes = c.slotsSpanned nbytes % 2 ^ 32 := by
  have hspan : c.slotsSpanned nbytes ≠ 0 := (Nat.div_pos (by omega) hpos).ne'
  have hmod : (nbytes + c.allocationGranularityBytes - 1) % 2 ^ 64 =
      nbytes + c.allocationGranularityBytes - 1 := Nat.mod_eq_of_lt (by omega)
  rw [slotsForBytes, hmod]
  exact congrArg (· % 2 ^ 32) (if_neg hspan)

/-- The slots that a copy goes over hold its bytes, and one slot less does not. -/
theorem slotsSpanned_bounds (hpos : 0 < c.allocationGranularityBytes) (hn : 0 < nbytes) :
    (c.slotsSpanned nbytes - 1) * c.allocationGranularityBytes < nbytes ∧
      nbytes ≤ c.slotsSpanned nbytes * c.allocationGranularityBytes ∧
      c.slotsSpanned nbytes * c.allocationGranularityBytes <
        nbytes + c.allocationGranularityBytes := by
  have hdiv := Nat.div_mul_le_self (nbytes + c.allocationGranularityBytes - 1)
    c.allocationGranularityBytes
  have hmod := Nat.lt_div_mul_add (a := nbytes + c.allocationGranularityBytes - 1) hpos
  rw [slotsSpanned, Nat.sub_mul, Nat.one_mul]
  omega

section Machine

variable (hpos : 0 < c.allocationGranularityBytes) (hlt : c.allocationGranularityBytes < 2 ^ 64)
  (hn : 0 < nbytes) (hn64 : nbytes < 2 ^ 64)

include hpos hlt hn hn64

/-- The bytes of the slots asked for can be counted in 64 bits. -/
theorem runBytes_slotsForBytes : c.runBytes (c.slotsForBytes nbytes) =
    c.slotsForBytes nbytes * c.allocationGranularityBytes := by
  refine Nat.mod_eq_of_lt ?_
  rcases Nat.lt_or_ge (2 ^ 64) (nbytes + c.allocationGranularityBytes) with hwrap | hle
  · rwa [slotsForBytes_of_wrap hlt hn64 hwrap, Nat.one_mul]
  · rw [slotsForBytes_of_le hpos hn hle]
    calc c.slotsSpanned nbytes % 2 ^ 32 * c.allocationGranularityBytes
      _ ≤ c.slotsSpanned nbytes * c.allocationGranularityBytes :=
        Nat.mul_le_mul_right _ (Nat.mod_le ..)
      _ < nbytes + c.allocationGranularityBytes := (slotsSpanned_bounds hpos hn).2.2
      _ ≤ 2 ^ 64 := hle

/-- A run of the slots asked for has a slot, and room for the bytes, if and only if nothing is
    cut off. -/
theorem fits_iff :
    1 ≤ c.slotsForBytes nbytes ∧ nbytes ≤ c.slotsForBytes nbytes * c.allocationGranularityBytes ↔
      c.Fits nbytes := by
  rcases Nat.lt_or_ge (2 ^ 64) (nbytes + c.allocationGranularityBytes) with hwrap | hle
  · rw [slotsForBytes_of_wrap hlt hn64 hwrap, Fits]
    omega
  obtain ⟨hless, hroom, -⟩ := slotsSpanned_bounds hpos hn
  rw [slotsForBytes_of_le hpos hn hle]
  generalize c.slotsSpanned nbytes = q at *
  rcases Nat.lt_or_ge q (2 ^ 32) with hq | hq
  · rw [Nat.mod_eq_of_lt hq]
    have hcount : q * c.allocationGranularityBytes ≤ (2 ^ 32 - 1) * c.allocationGranularityBytes :=
      Nat.mul_le_mul_right _ (by omega)
    have hone : 1 ≤ q := Nat.pos_of_ne_zero fun h0 => by simp [h0] at hroom; omega
    exact iff_of_true ⟨hone, hroom⟩ (.inr ⟨hle, hroom.trans hcount⟩)
  · -- At least 2 ^ 32 slots are cut off.
    have hcut : q % 2 ^ 32 ≤ q - 1 := by omega
    have hbytes : q % 2 ^ 32 * c.allocationGranularityBytes < nbytes :=
      (Nat.mul_le_mul_right _ hcut).trans_lt hless
    have hmany : (2 ^ 32 - 1) * c.allocationGranularityBytes < nbytes :=
      (Nat.mul_le_mul_right _ (by omega)).trans_lt hless
    refine iff_of_false (fun h => hbytes.not_ge h.2) ?_
    rintro (hsmall | ⟨-, hfew⟩)
    · omega
    · exact hmany.not_ge hfew

end Machine

end Config

/-! ## Where a run comes from -/

/-- A run that is handed to a rank, as it is answered. -/
structure RunGrant where
  leaseId : ℕ
  slotId : ℕ
  arenaId : ℕ
  arenaOffset : ℕ
  capacity : ℕ

/-- The run of an answer: of an offload, or of an evict that creates an object or is handed a
    candidate. -/
def Response.runGranted : Response → Option RunGrant
  | .offload r =>
    if r.ok then .some ⟨r.leaseId, r.slotId, r.arenaId, r.arenaOffset, r.capacity⟩ else .none
  | .evict r =>
    if r.ok ∧ (r.action = .needD2HCreate ∨ r.action = .duplicateCandidate) then
      .some ⟨r.leaseId, r.slotId, r.arenaId, r.arenaOffset, r.capacity⟩
    else .none
  | _ => .none

/-- A run is asked for, for a number of bytes: by a request, or by a search that goes on after a
    drain it forced. -/
inductive Asks (s : State) : Action → ℕ → Prop
  | offload (now : ℕ) (req : RequestOffloadRequest) : Asks s (.rpc now (.offload req)) req.nbytes
  | evict (now : ℕ) (req : RequestCanonicalEvictRequest) :
    Asks s (.rpc now (.evict req)) req.key.nbytes
  | resumed (now i : ℕ) (w : DrainWork) (cold : Option ColdEntry) (p : Purpose) (attempt : ℕ)
      (hi : s.store.tasks[i]? = some (.drainCommit w cold)) (hw : w.forced = some (p, attempt)) :
    Asks s (.proceed now i) p.nbytes

/-- A search for a run for so many bytes has ended in the state `s₁`, and the run found there is
    granted. -/
inductive GrantedFrom (c : Config) (s₁ s' : State) (nbytes : ℕ) (r : Response) : Prop
  | mk (now base : ℕ) (p : Purpose) (hasked : p.nbytes = nbytes)
      (hfound : allocateSlots c s₁.store p.gpuId p.numaNode p.nbytes p.flags = some base)
      (hgrant : grant c s₁ now p base = (s', r))

section Granted

variable {c : Config} {s s' : State} {a : Action} {now attempt base nbytes : ℕ} {p : Purpose}
  {r : Response} {g : RunGrant}

theorem runGranted_refuse : (refuse p).runGranted = none := by
  cases p with
  | candidate req tid objectId verify => cases verify <;> rfl
  | _ => rfl

/-- A search that ends with a run has found it in the store. -/
theorem acquire_granted (h : acquire c s now p attempt = (s', r)) (hg : r.runGranted = some g) :
    GrantedFrom c s s' p.nbytes r := by
  rw [acquire] at h
  split at h
  · next base hbase => exact .mk now base p rfl hbase h
  · split at h
    · cases h
      cases hg
    · cases h
      rw [runGranted_refuse] at hg
      cases hg

theorem reserveWithin_granted (h : reserveWithin c s now j p = (s', r))
    (hg : r.runGranted = some g) : GrantedFrom c s s' p.nbytes r := by
  rw [reserveWithin] at h
  split at h
  · exact acquire_granted h hg
  · cases h
    rw [runGranted_refuse] at hg
    cases hg

theorem handleRequestOffload_granted {req : RequestOffloadRequest}
    (h : handleRequestOffload c s now req = (s', r)) (hg : r.runGranted = some g) :
    GrantedFrom c s s' req.nbytes r := by
  rw [handleRequestOffload] at h
  split at h
  · cases h
    cases hg
  · split at h
    · cases h
      cases hg
    · exact acquire_granted h hg

theorem evictMissing_granted
    (h : evictMissing c s now req j = (s', r)) (hg : r.runGranted = some g) :
    GrantedFrom c s.drawObjectId s' req.key.nbytes r := by
  rw [evictMissing] at h
  split at h
  · cases h
    cases hg
  · exact reserveWithin_granted h hg

theorem evictExisting_granted (h : evictExisting c s now req j objectId = (s', r))
    (hg : r.runGranted = some g) :
    GrantedFrom c s.drawObjectId s' req.key.nbytes r := by
  rw [evictExisting] at h
  split at h
  · cases h
    cases hg
  · split at h
    · exact reserveWithin_granted h hg
    · cases h
      cases hg

theorem evictCreating_granted (h : evictCreating c s now req j objectId = (s', r))
    (hg : r.runGranted = some g) :
    GrantedFrom c s.drawObjectId s' req.key.nbytes r := by
  rw [evictCreating] at h
  split at h
  · exact reserveWithin_granted h hg
  · cases h
    cases hg

theorem handleRequestCanonicalEvict_granted
    (h : handleRequestCanonicalEvict c s now req = (s', r)) (hg : r.runGranted = some g) :
    GrantedFrom c s.drawObjectId s' req.key.nbytes r := by
  unfold handleRequestCanonicalEvict at h
  split at h
  · cases h
    cases hg
  split at h
  · cases h
    cases hg
  split at h
  · cases h
    cases hg
  split at h
  · cases h
    cases hg
  split at h
  · exact evictMissing_granted h hg
  split at h
  · cases h
    cases hg
  split at h
  · exact evictExisting_granted h hg
  split at h
  · exact evictCreating_granted h hg
  · exact evictMissing_granted h hg

theorem forceDrainCommit_granted {w : DrainWork} {cold : Option ColdEntry}
    (h : forceDrainCommit c s now w p attempt cold = (s', r)) (hg : r.runGranted = some g) :
    ∃ s₁, GrantedFrom c s₁ s' p.nbytes r := by
  have hrefuse : r ≠ refuse p := by
    rintro rfl
    rw [runGranted_refuse] at hg
    cases hg
  cases cold with
  | none => exact absurd (Prod.mk.inj h).2.symm hrefuse
  | some cold =>
    simp only [forceDrainCommit] at h
    split at h
    · exact ⟨_, acquire_granted h hg⟩
    · exact absurd (Prod.mk.inj h).2.symm hrefuse

/-- Whatever asks for a run: the one it is answered with has been found by the allocator. -/
theorem step_granted (ha : Asks s a nbytes) (h : step c s a = some (s', r))
    (hg : r.runGranted = some g) : ∃ s₁, GrantedFrom c s₁ s' nbytes r := by
  cases ha with
  | offload now req => exact ⟨_, handleRequestOffload_granted (Option.some.inj h) hg⟩
  | evict now req => exact ⟨_, handleRequestCanonicalEvict_granted (Option.some.inj h) hg⟩
  | resumed now i w cold p attempt hi hw =>
    simp only [step, hi, Option.bind_some, resume, hw] at h
    exact forceDrainCommit_granted (Option.some.inj h) hg

/-! ## What is granted -/

/-- What a run should be: slots that were free, with ids of 32 bits, one behind the other in a
    window and in an arena, with room for the bytes of the lease. -/
structure RunGrant.Sound (c : Config) (st : Store) (L : Lease) (g : RunGrant) : Prop where
  pos : 1 ≤ L.slotCount
  free : st.RunFree g.slotId L.slotCount
  ids : g.slotId + L.slotCount ≤ 2 ^ 32
  window : ∃ w ∈ c.plan.windows, ∃ i, ∀ j < L.slotCount, w.slotIds[i + j]? = some (g.slotId + j)
  arena : ∀ j < L.slotCount, c.plan.arenaId (g.slotId + j) = g.arenaId ∧
    c.plan.arenaOffset (g.slotId + j) = g.arenaOffset + j * c.allocationGranularityBytes
  capacity : g.capacity = L.slotCount * c.allocationGranularityBytes
  room : L.nbytes ≤ g.capacity

/-- The lease of a run, and the answer, describe the run that was found. -/
structure RunGrant.Describes (c : Config) (base nbytes : ℕ) (L : Lease) (g : RunGrant) :
    Prop where
  base_eq : L.baseSlot = base
  slotCount : L.slotCount = c.slotsForBytes nbytes
  nbytes_eq : L.nbytes = nbytes
  slotId : g.slotId = base
  arenaId : g.arenaId = c.plan.arenaId base
  arenaOffset : g.arenaOffset = c.plan.arenaOffset base
  capacity : g.capacity = c.runBytes (c.slotsForBytes nbytes)

/-- The run that a grant hands out, with its lease. -/
theorem grant_describes (h : grant c s now p base = (s', r)) (hg : r.runGranted = some g) :
    ∃ L, s'.store.leases.lookup g.leaseId = some L ∧ g.Describes c base p.nbytes L := by
  cases p with
  | offload req ownerPid =>
    rw [grant, grantOffload] at h
    split at h
    · cases h
      cases hg
      exact ⟨_, AList.lookup_insert _, rfl, rfl, rfl, rfl, rfl, rfl, rfl⟩
    · cases h
      cases hg
  | create | candidate =>
    cases h
    cases hg
    exact ⟨_, AList.lookup_insert _, rfl, rfl, rfl, rfl, rfl, rfl, rfl⟩
  | prefetch | restore =>
    cases h
    cases hg

/-- The offset of the last slot of a run does not wrap. -/
abbrev RunGrant.Unwrapped (c : Config) (L : Lease) (g : RunGrant) : Prop :=
  g.arenaOffset + (L.slotCount - 1) * c.allocationGranularityBytes < 2 ^ 64

/-- A run that the allocator finds is what it should be if and only if the bytes fit and its
    offsets do not wrap. -/
theorem RunGrant.Describes.sound_iff {cfg : DaemonConfig} {st : Store} {L : Lease}
    {gpuId numaNode flags : ℕ} (hc : c.StartedFrom cfg)
    (hids : cfg.carving.places.length ≤ 2 ^ 32) (hn : 0 < nbytes) (hn64 : nbytes < 2 ^ 64)
    (h : g.Describes c base nbytes L)
    (hfound : allocateSlots c st gpuId numaNode nbytes flags = some base) :
    g.Sound c st L ↔ c.Fits nbytes ∧ g.Unwrapped c L := by
  have hcapacity : g.capacity = L.slotCount * c.allocationGranularityBytes := by
    rw [h.capacity, h.slotCount]
    exact Config.runBytes_slotsForBytes hc.granularity_pos hc.granularity_lt hn hn64
  rw [← Config.fits_iff hc.granularity_pos hc.granularity_lt hn hn64, ← h.slotCount]
  have hrun := allocateSlots_runFree hfound
  obtain ⟨w, hw, i, hfree, hi⟩ := exists_of_allocateSlots hc hfound
  rw [← h.slotCount] at hrun hfree
  have hslots : ∀ j < L.slotCount, _ := fun j hj =>
    hc.getElem_slotIds hw hi ((Nat.add_lt_add_left hj i).trans_le hfree.1)
  constructor
  · intro hg
    refine ⟨⟨hg.pos, h.nbytes_eq ▸ hcapacity ▸ hg.room⟩, ?_⟩
    -- The offset of the last slot is a number of 64 bits.
    have hlast := Nat.sub_lt hg.pos Nat.one_pos
    have hoffset := (hg.arena _ hlast).2
    rw [h.slotId, (hslots _ hlast).2.2] at hoffset
    rw [Unwrapped, ← hoffset]
    exact Nat.mod_lt _ (by decide)
  · rintro ⟨⟨hpos, hroom⟩, hwrap⟩
    refine ⟨hpos, ?_, ?_, ⟨w, hw, i, ?_⟩, ?_, hcapacity, ?_⟩
    · rwa [h.slotId]
    · have hlast := (hslots _ (Nat.sub_lt hpos Nat.one_pos)).1
      have hplaced := hc.carving_sound.placed w (hc.windows ▸ hw) _ (List.mem_of_getElem? hlast)
      rw [h.slotId]
      omega
    · rw [h.slotId]
      exact fun j hj => (hslots j hj).1
    · rw [h.slotId]
      intro j hj
      have hle : j * c.allocationGranularityBytes ≤
          (L.slotCount - 1) * c.allocationGranularityBytes :=
        Nat.mul_le_mul_right _ (Nat.le_sub_one_of_lt hj)
      rw [(hslots j hj).2.1, (hslots j hj).2.2, ← h.arenaId, ← h.arenaOffset]
      exact ⟨rfl, Nat.mod_eq_of_lt ((Nat.add_le_add_left hle _).trans_lt hwrap)⟩
    · rwa [h.nbytes_eq, hcapacity]

end Granted

/-- Whatever asks for a run for a number of bytes, in any state, and is answered with one: the
    run is what it should be if and only if the bytes fit and the offsets of its slots do not
    wrap. The slots of the plan can be numbered in 32 bits. -/
theorem granted_run_sound (c : Config) (cfg : DaemonConfig) (hc : c.StartedFrom cfg)
    (hids : cfg.carving.places.length ≤ 2 ^ 32)
    (s s' : State) (a : Action) (nbytes : ℕ) (r : Response) (g : RunGrant)
    (ha : Asks s a nbytes) (hn : 0 < nbytes) (hn64 : nbytes < 2 ^ 64)
    (h : step c s a = some (s', r)) (hg : r.runGranted = some g) :
    ∃ s₁ L, GrantedFrom c s₁ s' nbytes r ∧ s'.store.leases.lookup g.leaseId = some L ∧
      L.baseSlot = g.slotId ∧ L.nbytes = nbytes ∧
      (g.Sound c s₁.store L ↔ c.Fits nbytes ∧ g.Unwrapped c L) := by
  obtain ⟨s₁, hfrom⟩ := step_granted ha h hg
  obtain ⟨now, base, p, rfl, hfound, hgrant⟩ := hfrom
  obtain ⟨L, hL, hdesc⟩ := grant_describes hgrant hg
  exact ⟨s₁, L, .mk now base p rfl hfound hgrant, hL, hdesc.base_eq.trans hdesc.slotId.symm,
    hdesc.nbytes_eq, hdesc.sound_iff hc hids hn hn64 hfound⟩

/-- The rank 0 asks for a run for so many bytes. -/
def asksFor (nbytes : ℕ) : Action :=
  .rpc 2 (.offload { rankId := 0, rankEpoch := 1, tensorId := 1, version := 1, nbytes := nbytes })

/-- A run is granted to the rank 0. -/
theorem exists_granted {p : State → RunGrant → Prop} [∀ s, DecidablePred (p s)] (nbytes : ℕ)
    (h : (runActions (fun _ _ => True) (step nodeOnce.start) State.initial [registers]).any fun s =>
      ∃ s' r, step nodeOnce.start s (asksFor nbytes) = some (s', r) ∧
        ∃ g, r.runGranted = some g ∧ p s' g) :
    ∃ s s' r g, Reached nodeOnce.start s ∧
      step nodeOnce.start s (asksFor nbytes) = some (s', r) ∧ r.runGranted = some g ∧ p s' g := by
  obtain ⟨s, s', r, hs, hstep, g, hg, hp⟩ :=
    exists_reachable₃ nodeOnce.start _ [registers] h
  exact ⟨s, s', r, g, hs, hstep, hg, hp⟩

/-- A rank asks for as many bytes as a 64-bit number can be, and is granted a slot of four. -/
theorem granted_run_too_small :
    nodeOnce.start.StartedFrom nodeOnce ∧
      ∃ s s' r g, Reached nodeOnce.start s ∧
        step nodeOnce.start s (asksFor (2 ^ 64 - 1)) = some (s', r) ∧
        r.runGranted = some g ∧ g.capacity = 4 :=
  ⟨DaemonConfig.startedFrom rfl,
    exists_granted (p := fun _ g => g.capacity = 4) (2 ^ 64 - 1) (by decide +kernel)⟩

theorem granted_run_sound_four :
    ∃ s s' r g s₁ L, Reached nodeOnce.start s ∧
      step nodeOnce.start s (asksFor 4) = some (s', r) ∧ r.runGranted = some g ∧
      GrantedFrom nodeOnce.start s₁ s' 4 r ∧ s'.store.leases.lookup g.leaseId = some L ∧
      g.Sound nodeOnce.start s₁.store L := by
  obtain ⟨s, s', r, g, hs, hstep, hg, hwrap⟩ :=
    exists_granted (p := fun s' g => ∀ L, s'.store.leases.lookup g.leaseId = some L →
      g.Unwrapped nodeOnce.start L) 4 (by decide +kernel)
  obtain ⟨s₁, L, hfrom, hL, -, -, hiff⟩ := granted_run_sound nodeOnce.start nodeOnce
    (DaemonConfig.startedFrom rfl) (by decide) s s' (asksFor 4) 4 r g (.offload ..) (by decide)
    (by decide) hstep hg
  exact ⟨s, s', r, g, s₁, L, hs, hstep, hg, hfrom, hL, hiff.2 ⟨.inl (by decide), hwrap L hL⟩⟩

end StateSpectre
