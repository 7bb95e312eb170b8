import StateSpectre.Wire.V1

/-!
# The messages of the v2 protocol

The messages about canonical objects, in the same way. Jobs, keys and filters are written as parts
of several of them.
-/

namespace StateSpectre.Wire

open Writer Reader Codec

/-! ## Jobs and keys -/

structure JobKeyWire where
  tenantId : UInt64
  jobId : UInt64
  launchEpoch : UInt64
  jobName : Str

instance : Codec JobKeyWire where
  fields m := [.u64 m.tenantId, .u64 m.jobId, .u64 m.launchEpoch, .str m.jobName]
  decode := do return { tenantId := ← u64, jobId := ← u64, launchEpoch := ← u64, jobName := ← str }
  reads m t := by simp

structure RegisterJobRequest where
  tenantId : UInt64
  jobName : Str
  schedulerJobId : UInt64
  labelKeys : Vec Str
  labelValues : Vec Str

instance : Codec RegisterJobRequest where
  fields m :=
    [.u64 m.tenantId, .str m.jobName, .u64 m.schedulerJobId] ++ putVec fields m.labelKeys ++
      putVec fields m.labelValues
  decode := do return {
    tenantId := ← u64, jobName := ← str, schedulerJobId := ← u64, labelKeys := ← getVec decode
    labelValues := ← getVec decode }
  reads m t := by simp

structure RegisterJobResponse where
  ok : Bool
  message : Str
  job : JobKeyWire
  controlGeneration : UInt64

instance : Codec RegisterJobResponse where
  fields m := [.b m.ok, .str m.message] ++ fields m.job ++ [.u64 m.controlGeneration]
  decode := do return { ok := ← b, message := ← str, job := ← decode, controlGeneration := ← u64 }
  reads m t := by simp

structure CanonicalTensorKeyWire where
  job : JobKeyWire
  modelRole : UInt32
  modelVersion : UInt64
  paramId : UInt64
  paramFqnHash : UInt64
  paramFqnDebug : Str
  dtype : UInt32
  layout : UInt32
  nbytes : UInt64
  shapeHash : UInt64
  strideHash : UInt64
  ppRank : UInt32
  tpRank : UInt32
  epRank : UInt32
  etpRank : UInt32
  expertId : Int32
  shardOffset : UInt64
  shardNbytes : UInt64

instance : Codec CanonicalTensorKeyWire where
  fields m :=
    fields m.job ++ [.u32 m.modelRole, .u64 m.modelVersion, .u64 m.paramId, .u64 m.paramFqnHash,
      .str m.paramFqnDebug, .u32 m.dtype, .u32 m.layout, .u64 m.nbytes, .u64 m.shapeHash,
      .u64 m.strideHash, .u32 m.ppRank, .u32 m.tpRank, .u32 m.epRank, .u32 m.etpRank,
      .u32 m.expertId.toUInt32, .u64 m.shardOffset, .u64 m.shardNbytes]
  decode := do return {
    job := ← decode, modelRole := ← u32, modelVersion := ← u64, paramId := ← u64
    paramFqnHash := ← u64, paramFqnDebug := ← str, dtype := ← u32, layout := ← u32, nbytes := ← u64
    shapeHash := ← u64, strideHash := ← u64, ppRank := ← u32, tpRank := ← u32, epRank := ← u32
    etpRank := ← u32, expertId := (← u32).toInt32, shardOffset := ← u64, shardNbytes := ← u64 }
  reads m t := by simp

/-! ## Canonical objects -/

structure RequestCanonicalEvictRequest where
  rankId : UInt32
  rankEpoch : UInt64
  key : CanonicalTensorKeyWire
  localTensorId : UInt64
  localVersion : UInt64
  destructive : Bool
  attachIfExists : Bool
  createIfMissing : Bool
  dedupMode : UInt32
  allowDuplicateCandidate : Bool
  alignment : UInt32
  priority : UInt32
  gpuId : UInt32
  numaNode : UInt32

instance : Codec RequestCanonicalEvictRequest where
  fields m :=
    [.u32 m.rankId, .u64 m.rankEpoch] ++ fields m.key ++ [.u64 m.localTensorId, .u64 m.localVersion,
      .b m.destructive, .b m.attachIfExists, .b m.createIfMissing, .u32 m.dedupMode,
      .b m.allowDuplicateCandidate, .u32 m.alignment, .u32 m.priority, .u32 m.gpuId,
      .u32 m.numaNode]
  decode := do return {
    rankId := ← u32, rankEpoch := ← u64, key := ← decode, localTensorId := ← u64
    localVersion := ← u64, destructive := ← b, attachIfExists := ← b, createIfMissing := ← b
    dedupMode := ← u32, allowDuplicateCandidate := ← b, alignment := ← u32, priority := ← u32
    gpuId := ← u32, numaNode := ← u32 }
  reads m t := by simp

structure RequestCanonicalEvictResponse where
  ok : Bool
  message : Str
  action : UInt32
  objectId : UInt64
  leaseId : UInt64
  slotId : UInt32
  arenaId : UInt64
  arenaOffset : UInt64
  capacity : UInt64
  syntheticTid : UInt64

instance : Codec RequestCanonicalEvictResponse where
  fields m :=
    [.b m.ok, .str m.message, .u32 m.action, .u64 m.objectId, .u64 m.leaseId, .u32 m.slotId,
      .u64 m.arenaId, .u64 m.arenaOffset, .u64 m.capacity, .u64 m.syntheticTid]
  decode := do return {
    ok := ← b, message := ← str, action := ← u32, objectId := ← u64, leaseId := ← u64
    slotId := ← u32, arenaId := ← u64, arenaOffset := ← u64, capacity := ← u64
    syntheticTid := ← u64 }
  reads m t := by simp

structure CommitCanonicalObjectRequest where
  rankId : UInt32
  rankEpoch : UInt64
  objectId : UInt64
  leaseId : UInt64
  slotId : UInt32
  contentHashLo : UInt64
  contentHashHi : UInt64

instance : Codec CommitCanonicalObjectRequest where
  fields m :=
    [.u32 m.rankId, .u64 m.rankEpoch, .u64 m.objectId, .u64 m.leaseId, .u32 m.slotId,
      .u64 m.contentHashLo, .u64 m.contentHashHi]
  decode := do return {
    rankId := ← u32, rankEpoch := ← u64, objectId := ← u64, leaseId := ← u64, slotId := ← u32
    contentHashLo := ← u64, contentHashHi := ← u64 }
  reads m t := by simp

structure CommitCanonicalObjectResponse where
  ok : Bool
  message : Str
  objectId : UInt64
  won : Bool

instance : Codec CommitCanonicalObjectResponse where
  fields m := [.b m.ok, .str m.message, .u64 m.objectId, .b m.won]
  decode := do return { ok := ← b, message := ← str, objectId := ← u64, won := ← b }
  reads m t := by simp

/-! ## Versions -/

structure SealModelVersionRequest where
  job : JobKeyWire
  modelRole : UInt32
  modelVersion : UInt64
  failIfMissing : Bool
  expectedParamIds : Vec UInt64
  promote : Bool

instance : Codec SealModelVersionRequest where
  fields m :=
    fields m.job ++ [.u32 m.modelRole, .u64 m.modelVersion, .b m.failIfMissing] ++
      putVec fields m.expectedParamIds ++ [.b m.promote]
  decode := do return {
    job := ← decode, modelRole := ← u32, modelVersion := ← u64, failIfMissing := ← b
    expectedParamIds := ← getVec decode, promote := ← b }
  reads m t := by simp

structure SealModelVersionResponse where
  ok : Bool
  message : Str
  state : UInt32
  tensorCount : UInt64
  totalNbytes : UInt64
  manifestHashLo : UInt64
  manifestHashHi : UInt64

instance : Codec SealModelVersionResponse where
  fields m :=
    [.b m.ok, .str m.message, .u32 m.state, .u64 m.tensorCount, .u64 m.totalNbytes,
      .u64 m.manifestHashLo, .u64 m.manifestHashHi]
  decode := do return {
    ok := ← b, message := ← str, state := ← u32, tensorCount := ← u64, totalNbytes := ← u64
    manifestHashLo := ← u64, manifestHashHi := ← u64 }
  reads m t := by simp

structure GetLatestSealedVersionRequest where
  job : JobKeyWire
  modelRole : UInt32

instance : Codec GetLatestSealedVersionRequest where
  fields m := fields m.job ++ [.u32 m.modelRole]
  decode := do return { job := ← decode, modelRole := ← u32 }
  reads m t := by simp

structure GetLatestSealedVersionResponse where
  ok : Bool
  message : Str
  found : Bool
  modelVersion : UInt64

instance : Codec GetLatestSealedVersionResponse where
  fields m := [.b m.ok, .str m.message, .b m.found, .u64 m.modelVersion]
  decode := do return { ok := ← b, message := ← str, found := ← b, modelVersion := ← u64 }
  reads m t := by simp

/-! ## Manifests and pulls -/

structure ManifestFilterWire where
  ppPresent : Bool
  ppRank : UInt32
  tpPresent : Bool
  tpRank : UInt32
  epPresent : Bool
  epRank : UInt32
  etpPresent : Bool
  etpRank : UInt32
  expertPresent : Bool
  expertId : Int32

instance : Codec ManifestFilterWire where
  fields m :=
    [.b m.ppPresent, .u32 m.ppRank, .b m.tpPresent, .u32 m.tpRank, .b m.epPresent, .u32 m.epRank,
      .b m.etpPresent, .u32 m.etpRank, .b m.expertPresent, .u32 m.expertId.toUInt32]
  decode := do return {
    ppPresent := ← b, ppRank := ← u32, tpPresent := ← b, tpRank := ← u32, epPresent := ← b
    epRank := ← u32, etpPresent := ← b, etpRank := ← u32, expertPresent := ← b
    expertId := (← u32).toInt32 }
  reads m t := by simp

structure GetManifestRequest where
  job : JobKeyWire
  modelRole : UInt32
  modelVersion : UInt64
  filter : ManifestFilterWire

instance : Codec GetManifestRequest where
  fields m := fields m.job ++ [.u32 m.modelRole, .u64 m.modelVersion] ++ fields m.filter
  decode := do return {
    job := ← decode, modelRole := ← u32, modelVersion := ← u64, filter := ← decode }
  reads m t := by simp

structure TensorManifestEntryWire where
  key : CanonicalTensorKeyWire
  objectId : UInt64
  nbytes : UInt64
  contentHashLo : UInt64
  contentHashHi : UInt64
  locationHint : Str

instance : Codec TensorManifestEntryWire where
  fields m :=
    fields m.key ++ [.u64 m.objectId, .u64 m.nbytes, .u64 m.contentHashLo, .u64 m.contentHashHi,
      .str m.locationHint]
  decode := do return {
    key := ← decode, objectId := ← u64, nbytes := ← u64, contentHashLo := ← u64
    contentHashHi := ← u64, locationHint := ← str }
  reads m t := by simp

structure GetManifestResponse where
  ok : Bool
  message : Str
  job : JobKeyWire
  modelRole : UInt32
  modelVersion : UInt64
  state : UInt32
  tensors : Vec TensorManifestEntryWire

instance : Codec GetManifestResponse where
  fields m :=
    [.b m.ok, .str m.message] ++ fields m.job ++
      [.u32 m.modelRole, .u64 m.modelVersion, .u32 m.state] ++ putVec fields m.tensors
  decode := do return {
    ok := ← b, message := ← str, job := ← decode, modelRole := ← u32, modelVersion := ← u64
    state := ← u32, tensors := ← getVec decode }
  reads m t := by simp

structure PullTensorRequest where
  job : JobKeyWire
  modelRole : UInt32
  modelVersion : UInt64
  objectId : UInt64
  transport : UInt32
  targetDescriptor : Str

instance : Codec PullTensorRequest where
  fields m :=
    fields m.job ++ [.u32 m.modelRole, .u64 m.modelVersion, .u64 m.objectId, .u32 m.transport,
      .str m.targetDescriptor]
  decode := do return {
    job := ← decode, modelRole := ← u32, modelVersion := ← u64, objectId := ← u64
    transport := ← u32, targetDescriptor := ← str }
  reads m t := by simp

structure PullTensorResponse where
  ok : Bool
  message : Str
  objectId : UInt64
  nbytes : UInt64
  transport : UInt32
  contentHashLo : UInt64
  contentHashHi : UInt64
  transportMetadata : Str

instance : Codec PullTensorResponse where
  fields m :=
    [.b m.ok, .str m.message, .u64 m.objectId, .u64 m.nbytes, .u32 m.transport,
      .u64 m.contentHashLo, .u64 m.contentHashHi, .str m.transportMetadata]
  decode := do return {
    ok := ← b, message := ← str, objectId := ← u64, nbytes := ← u64, transport := ← u32
    contentHashLo := ← u64, contentHashHi := ← u64, transportMetadata := ← str }
  reads m t := by simp

/-! ## Restores and releases -/

structure RequestCanonicalRestoreRequest where
  rankId : UInt32
  rankEpoch : UInt64
  objectId : UInt64
  gpuId : UInt32
  numaNode : UInt32

instance : Codec RequestCanonicalRestoreRequest where
  fields m := [.u32 m.rankId, .u64 m.rankEpoch, .u64 m.objectId, .u32 m.gpuId, .u32 m.numaNode]
  decode := do return {
    rankId := ← u32, rankEpoch := ← u64, objectId := ← u64, gpuId := ← u32, numaNode := ← u32 }
  reads m t := by simp

structure RequestCanonicalRestoreResponse where
  ok : Bool
  message : Str
  retriable : Bool
  objectId : UInt64
  nbytes : UInt64
  arenaId : UInt64
  arenaOffset : UInt64

instance : Codec RequestCanonicalRestoreResponse where
  fields m :=
    [.b m.ok, .str m.message, .b m.retriable, .u64 m.objectId, .u64 m.nbytes, .u64 m.arenaId,
      .u64 m.arenaOffset]
  decode := do return {
    ok := ← b, message := ← str, retriable := ← b, objectId := ← u64, nbytes := ← u64
    arenaId := ← u64, arenaOffset := ← u64 }
  reads m t := by simp

structure ReleaseCanonicalRestoreRequest where
  rankId : UInt32
  rankEpoch : UInt64
  objectId : UInt64

instance : Codec ReleaseCanonicalRestoreRequest where
  fields m := [.u32 m.rankId, .u64 m.rankEpoch, .u64 m.objectId]
  decode := do return { rankId := ← u32, rankEpoch := ← u64, objectId := ← u64 }
  reads m t := by simp

abbrev ReleaseCanonicalRestoreResponse : Type := Ack

structure DropCanonicalVersionRequest where
  job : JobKeyWire
  modelRole : UInt32
  modelVersion : UInt64

instance : Codec DropCanonicalVersionRequest where
  fields m := fields m.job ++ [.u32 m.modelRole, .u64 m.modelVersion]
  decode := do return { job := ← decode, modelRole := ← u32, modelVersion := ← u64 }
  reads m t := by simp

structure DropCanonicalVersionResponse where
  ok : Bool
  message : Str
  droppedCount : UInt64
  skippedInflight : UInt64
  bytesFreed : UInt64

instance : Codec DropCanonicalVersionResponse where
  fields m :=
    [.b m.ok, .str m.message, .u64 m.droppedCount, .u64 m.skippedInflight, .u64 m.bytesFreed]
  decode := do return {
    ok := ← b, message := ← str, droppedCount := ← u64, skippedInflight := ← u64
    bytesFreed := ← u64 }
  reads m t := by simp

structure ReleaseCanonicalRequest where
  rankId : UInt32
  rankEpoch : UInt64
  job : JobKeyWire
  modelRole : UInt32
  modelVersion : UInt64
  objectId : UInt64

instance : Codec ReleaseCanonicalRequest where
  fields m :=
    [.u32 m.rankId, .u64 m.rankEpoch] ++ fields m.job ++ [.u32 m.modelRole, .u64 m.modelVersion,
      .u64 m.objectId]
  decode := do return {
    rankId := ← u32, rankEpoch := ← u64, job := ← decode, modelRole := ← u32, modelVersion := ← u64
    objectId := ← u64 }
  reads m t := by simp

structure ReleaseCanonicalResponse where
  ok : Bool
  message : Str
  releasedCount : UInt64
  freedCount : UInt64
  bytesFreed : UInt64

instance : Codec ReleaseCanonicalResponse where
  fields m := [.b m.ok, .str m.message, .u64 m.releasedCount, .u64 m.freedCount, .u64 m.bytesFreed]
  decode := do return {
    ok := ← b, message := ← str, releasedCount := ← u64, freedCount := ← u64, bytesFreed := ← u64 }
  reads m t := by simp

end StateSpectre.Wire
