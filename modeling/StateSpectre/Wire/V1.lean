import StateSpectre.Wire.Primitive

/-!
# The messages of the v1 protocol

Each message with how it is encoded and decoded, and that it is read from what it is written as.
Messages with the same fields share these, under their own names.
-/

namespace StateSpectre.Wire

open Writer Reader Codec

/-! ## Messages with the same fields -/

/-- An answer that says no more than whether the request was accepted. -/
structure Ack where
  ok : Bool
  message : Str

instance : Codec Ack where
  fields m := [.b m.ok, .str m.message]
  decode := do return { ok := ← b, message := ← str }
  reads m t := by simp

/-- A copy of a rank is submitted, or complete. -/
structure MarkRequest where
  rankId : UInt32
  rankEpoch : UInt64
  leaseId : UInt64
  tensorId : UInt64
  version : UInt64
  slotId : UInt32
  seq : UInt64
  timestampNs : UInt64

instance : Codec MarkRequest where
  fields m :=
    [.u32 m.rankId, .u64 m.rankEpoch, .u64 m.leaseId, .u64 m.tensorId, .u64 m.version,
      .u32 m.slotId, .u64 m.seq, .u64 m.timestampNs]
  decode := do return {
    rankId := ← u32, rankEpoch := ← u64, leaseId := ← u64, tensorId := ← u64, version := ← u64
    slotId := ← u32, seq := ← u64, timestampNs := ← u64 }
  reads m t := by simp

/-! ## Sessions -/

structure ArenaFd where
  arenaId : UInt64
  numaNode : UInt32
  kind : UInt32
  size : UInt64
  baseOffset : UInt64
  preferredGpu : UInt32
  flags : UInt64
  fdIndex : UInt32
  registrationGranularity : UInt32
  allocationGranularity : UInt32

instance : Codec ArenaFd where
  fields m :=
    [.u64 m.arenaId, .u32 m.numaNode, .u32 m.kind, .u64 m.size, .u64 m.baseOffset,
      .u32 m.preferredGpu, .u64 m.flags, .u32 m.fdIndex, .u32 m.registrationGranularity,
      .u32 m.allocationGranularity]
  decode := do return {
    arenaId := ← u64, numaNode := ← u32, kind := ← u32, size := ← u64, baseOffset := ← u64
    preferredGpu := ← u32, flags := ← u64, fdIndex := ← u32, registrationGranularity := ← u32
    allocationGranularity := ← u32 }
  reads m t := by simp

structure RegisterRankRequest where
  rankId : UInt32
  localRank : UInt32
  worldRank : UInt32
  gpuId : UInt32
  numaNode : UInt32
  pid : UInt64
  capabilities : UInt64

instance : Codec RegisterRankRequest where
  fields m :=
    [.u32 m.rankId, .u32 m.localRank, .u32 m.worldRank, .u32 m.gpuId, .u32 m.numaNode, .u64 m.pid,
      .u64 m.capabilities]
  decode := do return {
    rankId := ← u32, localRank := ← u32, worldRank := ← u32, gpuId := ← u32, numaNode := ← u32
    pid := ← u64, capabilities := ← u64 }
  reads m t := by simp

structure RegisterRankResponse where
  ok : Bool
  message : Str
  rankEpoch : UInt64
  controlGeneration : UInt64
  arenas : Vec ArenaFd
  controlFdIndex : UInt32
  controlSize : UInt64
  numSlots : UInt32
  ringIndex : UInt32

instance : Codec RegisterRankResponse where
  fields m :=
    [.b m.ok, .str m.message, .u64 m.rankEpoch, .u64 m.controlGeneration] ++
      putVec fields m.arenas ++
      [.u32 m.controlFdIndex, .u64 m.controlSize, .u32 m.numSlots, .u32 m.ringIndex]
  decode := do return {
    ok := ← b, message := ← str, rankEpoch := ← u64, controlGeneration := ← u64
    arenas := ← getVec decode, controlFdIndex := ← u32, controlSize := ← u64, numSlots := ← u32
    ringIndex := ← u32 }
  reads m t := by simp

structure HeartbeatRequest where
  rankId : UInt32
  rankEpoch : UInt64
  timestampNs : UInt64

instance : Codec HeartbeatRequest where
  fields m := [.u32 m.rankId, .u64 m.rankEpoch, .u64 m.timestampNs]
  decode := do return { rankId := ← u32, rankEpoch := ← u64, timestampNs := ← u64 }
  reads m t := by simp

abbrev HeartbeatResponse : Type := Ack

/-! ## Offloads -/

structure RequestOffloadRequest where
  rankId : UInt32
  rankEpoch : UInt64
  tensorId : UInt64
  version : UInt64
  nbytes : UInt64
  gpuId : UInt32
  numaNode : UInt32
  alignment : UInt32
  priority : UInt32
  flags : UInt64
  debugName : Str

instance : Codec RequestOffloadRequest where
  fields m :=
    [.u32 m.rankId, .u64 m.rankEpoch, .u64 m.tensorId, .u64 m.version, .u64 m.nbytes, .u32 m.gpuId,
      .u32 m.numaNode, .u32 m.alignment, .u32 m.priority, .u64 m.flags, .str m.debugName]
  decode := do return {
    rankId := ← u32, rankEpoch := ← u64, tensorId := ← u64, version := ← u64, nbytes := ← u64
    gpuId := ← u32, numaNode := ← u32, alignment := ← u32, priority := ← u32, flags := ← u64
    debugName := ← str }
  reads m t := by simp

structure RequestOffloadResponse where
  ok : Bool
  message : Str
  leaseId : UInt64
  slotId : UInt32
  arenaId : UInt64
  arenaOffset : UInt64
  capacity : UInt64
  state : UInt32
  blocked : Bool

instance : Codec RequestOffloadResponse where
  fields m :=
    [.b m.ok, .str m.message, .u64 m.leaseId, .u32 m.slotId, .u64 m.arenaId, .u64 m.arenaOffset,
      .u64 m.capacity, .u32 m.state, .b m.blocked]
  decode := do return {
    ok := ← b, message := ← str, leaseId := ← u64, slotId := ← u32, arenaId := ← u64
    arenaOffset := ← u64, capacity := ← u64, state := ← u32, blocked := ← b }
  reads m t := by simp

abbrev MarkD2HSubmittedRequest : Type := MarkRequest

abbrev MarkD2HSubmittedResponse : Type := Ack

abbrev MarkD2HCompleteRequest : Type := MarkRequest

structure MarkD2HCompleteResponse where
  ok : Bool
  message : Str
  latestVersion : Bool
  drainEnqueued : Bool

instance : Codec MarkD2HCompleteResponse where
  fields m := [.b m.ok, .str m.message, .b m.latestVersion, .b m.drainEnqueued]
  decode := do return { ok := ← b, message := ← str, latestVersion := ← b, drainEnqueued := ← b }
  reads m t := by simp

/-! ## Prefetches -/

structure RequestPrefetchRequest where
  rankId : UInt32
  rankEpoch : UInt64
  tensorId : UInt64
  version : UInt64
  nbytes : UInt64
  gpuId : UInt32
  numaNode : UInt32
  priority : UInt32
  flags : UInt64

instance : Codec RequestPrefetchRequest where
  fields m :=
    [.u32 m.rankId, .u64 m.rankEpoch, .u64 m.tensorId, .u64 m.version, .u64 m.nbytes, .u32 m.gpuId,
      .u32 m.numaNode, .u32 m.priority, .u64 m.flags]
  decode := do return {
    rankId := ← u32, rankEpoch := ← u64, tensorId := ← u64, version := ← u64, nbytes := ← u64
    gpuId := ← u32, numaNode := ← u32, priority := ← u32, flags := ← u64 }
  reads m t := by simp

structure RequestPrefetchResponse where
  ok : Bool
  message : Str
  leaseId : UInt64
  slotId : UInt32
  arenaId : UInt64
  arenaOffset : UInt64
  nbytes : UInt64
  state : UInt32
  ready : Bool
  version : UInt64

instance : Codec RequestPrefetchResponse where
  fields m :=
    [.b m.ok, .str m.message, .u64 m.leaseId, .u32 m.slotId, .u64 m.arenaId, .u64 m.arenaOffset,
      .u64 m.nbytes, .u32 m.state, .b m.ready, .u64 m.version]
  decode := do return {
    ok := ← b, message := ← str, leaseId := ← u64, slotId := ← u32, arenaId := ← u64
    arenaOffset := ← u64, nbytes := ← u64, state := ← u32, ready := ← b, version := ← u64 }
  reads m t := by simp

abbrev MarkH2DSubmittedRequest : Type := MarkRequest

abbrev MarkH2DSubmittedResponse : Type := Ack

structure MarkH2DCompleteRequest where
  rankId : UInt32
  rankEpoch : UInt64
  leaseId : UInt64
  tensorId : UInt64
  version : UInt64
  slotId : UInt32
  keepPinned : Bool
  completeSeq : UInt64
  timestampNs : UInt64

instance : Codec MarkH2DCompleteRequest where
  fields m :=
    [.u32 m.rankId, .u64 m.rankEpoch, .u64 m.leaseId, .u64 m.tensorId, .u64 m.version,
      .u32 m.slotId, .b m.keepPinned, .u64 m.completeSeq, .u64 m.timestampNs]
  decode := do return {
    rankId := ← u32, rankEpoch := ← u64, leaseId := ← u64, tensorId := ← u64, version := ← u64
    slotId := ← u32, keepPinned := ← b, completeSeq := ← u64, timestampNs := ← u64 }
  reads m t := by simp

abbrev MarkH2DCompleteResponse : Type := Ack

/-! ## Releases, queries and batches -/

structure ReleaseLeaseRequest where
  rankId : UInt32
  rankEpoch : UInt64
  leaseId : UInt64
  slotId : UInt32
  reason : Str

instance : Codec ReleaseLeaseRequest where
  fields m := [.u32 m.rankId, .u64 m.rankEpoch, .u64 m.leaseId, .u32 m.slotId, .str m.reason]
  decode := do return {
    rankId := ← u32, rankEpoch := ← u64, leaseId := ← u64, slotId := ← u32, reason := ← str }
  reads m t := by simp

abbrev ReleaseLeaseResponse : Type := Ack

structure LocationQueryRequest where
  tensorId : UInt64
  version : UInt64

instance : Codec LocationQueryRequest where
  fields m := [.u64 m.tensorId, .u64 m.version]
  decode := do return { tensorId := ← u64, version := ← u64 }
  reads m t := by simp

structure LocationQueryResponse where
  ok : Bool
  message : Str
  locationKind : UInt32
  slotId : UInt32
  nbytes : UInt64
  version : UInt64

instance : Codec LocationQueryResponse where
  fields m :=
    [.b m.ok, .str m.message, .u32 m.locationKind, .u32 m.slotId, .u64 m.nbytes, .u64 m.version]
  decode := do return {
    ok := ← b, message := ← str, locationKind := ← u32, slotId := ← u32, nbytes := ← u64
    version := ← u64 }
  reads m t := by simp

structure BatchCompletion where
  eventType : UInt32
  leaseId : UInt64
  tensorId : UInt64
  version : UInt64
  slotId : UInt32
  seq : UInt64
  timestampNs : UInt64
  keepPinned : Bool

instance : Codec BatchCompletion where
  fields m :=
    [.u32 m.eventType, .u64 m.leaseId, .u64 m.tensorId, .u64 m.version, .u32 m.slotId, .u64 m.seq,
      .u64 m.timestampNs, .b m.keepPinned]
  decode := do return {
    eventType := ← u32, leaseId := ← u64, tensorId := ← u64, version := ← u64, slotId := ← u32
    seq := ← u64, timestampNs := ← u64, keepPinned := ← b }
  reads m t := by simp

structure BatchCompleteRequest where
  rankId : UInt32
  rankEpoch : UInt64
  completions : Vec BatchCompletion

instance : Codec BatchCompleteRequest where
  fields m := [.u32 m.rankId, .u64 m.rankEpoch] ++ putVec fields m.completions
  decode := do return { rankId := ← u32, rankEpoch := ← u64, completions := ← getVec decode }
  reads m t := by simp

structure BatchCompleteResponse where
  ok : Bool
  message : Str
  accepted : UInt32
  rejected : UInt32

instance : Codec BatchCompleteResponse where
  fields m := [.b m.ok, .str m.message, .u32 m.accepted, .u32 m.rejected]
  decode := do return { ok := ← b, message := ← str, accepted := ← u32, rejected := ← u32 }
  reads m t := by simp

/-! ## Administration -/

structure GetStatsRequest where
  rankId : UInt32

instance : Codec GetStatsRequest where
  fields m := [.u32 m.rankId]
  decode := do return { rankId := ← u32 }
  reads m t := by simp

/-- Each key has its value. -/
structure GetStatsResponse where
  ok : Bool
  message : Str
  keys : Vec Str
  values : Vec UInt64
  length_eq : keys.1.length = values.1.length

/-- A key and its value. -/
instance instCodecStatsEntry : Codec (Str × UInt64) where
  fields m := [.str m.1, .u64 m.2]
  decode := do return (← str, ← u64)
  reads m t := by simp

instance : Codec GetStatsResponse where
  fields m :=
    [.b m.ok, .str m.message, .u32 (UInt32.ofNat m.keys.1.length)] ++
      (m.keys.1.zip m.values.1).flatMap fields
  decode := do
    let ok ← b
    let message ← str
    let entries ← getVec decode
    pure
      { ok, message
        keys := entries.map Prod.fst
        values := entries.map Prod.snd
        length_eq := by simp [Vec.map] }
  reads m t := by
    obtain ⟨ok, message, keys, values, hlength⟩ := m
    have hzip : (keys.1.zip values.1).length = keys.1.length := by simp [hlength]
    -- the keys and values, as the vector of entries that is written
    obtain ⟨entries, heq⟩ : ∃ entries : Vec (Str × UInt64), entries.1 = keys.1.zip values.1 :=
      ⟨⟨_, hzip.trans_lt keys.2⟩, rfl⟩
    have hkeys : entries.map Prod.fst = keys :=
      Subtype.ext ((congrArg (List.map _) heq).trans (List.map_fst_zip hlength.le))
    have hvalues : entries.map Prod.snd = values :=
      Subtype.ext ((congrArg (List.map _) heq).trans (List.map_snd_zip hlength.ge))
    have hfields : [.b ok, .str message, .u32 (UInt32.ofNat keys.1.length)] ++
        (keys.1.zip values.1).flatMap fields = [.b ok, .str message] ++ putVec fields entries := by
      rw [putVec, heq, hzip]
      rfl
    rw [hfields]
    simp [hkeys, hvalues]

structure ShutdownRequest where
  token : UInt64

instance : Codec ShutdownRequest where
  fields m := [.u64 m.token]
  decode := do return { token := ← u64 }
  reads m t := by simp

abbrev ShutdownResponse : Type := Ack

end StateSpectre.Wire
