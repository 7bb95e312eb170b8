import StateSpectre.Abi

/-!
# Requests and responses

The messages of the control plane, v1 and v2, with the fields the daemon reads
and answers. Those it never looks at (priorities, alignments, timestamps, debug
names) are left out.
-/

namespace StateSpectre

/-! ## v1 -/

structure RegisterRankRequest where
  rankId : ℕ
  pid : ℕ
  deriving DecidableEq

structure RegisterRankResponse where
  ok : Bool
  message : String
  rankEpoch : ℕ
  ringIndex : ℕ
  deriving DecidableEq

structure HeartbeatRequest where
  rankId : ℕ
  rankEpoch : ℕ
  deriving DecidableEq

/-- The answer to a request that only succeeds or fails. -/
structure Ack where
  ok : Bool
  message : String
  deriving DecidableEq

structure RequestOffloadRequest where
  rankId : ℕ
  rankEpoch : ℕ
  tensorId : ℕ
  version : ℕ
  nbytes : ℕ
  gpuId : ℕ := 0
  numaNode : ℕ := 0
  flags : ℕ := 0
  deriving DecidableEq

structure RequestOffloadResponse where
  ok : Bool := false
  message : String
  leaseId : ℕ := 0
  slotId : ℕ := 0
  arenaId : ℕ := 0
  arenaOffset : ℕ := 0
  capacity : ℕ := 0
  state : SlotState := .free
  blocked : Bool := false
  deriving DecidableEq

structure MarkSubmittedRequest where
  rankId : ℕ
  rankEpoch : ℕ
  leaseId : ℕ
  slotId : ℕ
  submitSeq : ℕ := 0
  deriving DecidableEq

structure MarkD2HCompleteRequest where
  rankId : ℕ
  rankEpoch : ℕ
  leaseId : ℕ
  tensorId : ℕ
  version : ℕ
  slotId : ℕ
  completeSeq : ℕ := 0
  deriving DecidableEq

structure MarkD2HCompleteResponse where
  ok : Bool
  message : String
  latestVersion : Bool
  drainEnqueued : Bool
  deriving DecidableEq

structure RequestPrefetchRequest where
  rankId : ℕ
  rankEpoch : ℕ
  tensorId : ℕ
  version : ℕ
  gpuId : ℕ := 0
  numaNode : ℕ := 0
  flags : ℕ := 0
  deriving DecidableEq

structure RequestPrefetchResponse where
  ok : Bool := false
  message : String
  leaseId : ℕ := 0
  slotId : ℕ := 0
  arenaId : ℕ := 0
  arenaOffset : ℕ := 0
  nbytes : ℕ := 0
  state : SlotState := .free
  ready : Bool := false
  version : ℕ := 0
  deriving DecidableEq

structure MarkH2DCompleteRequest where
  rankId : ℕ
  rankEpoch : ℕ
  leaseId : ℕ
  tensorId : ℕ
  version : ℕ
  slotId : ℕ
  keepPinned : Bool := false
  completeSeq : ℕ := 0
  deriving DecidableEq

structure ReleaseLeaseRequest where
  rankId : ℕ
  rankEpoch : ℕ
  leaseId : ℕ
  deriving DecidableEq

structure LocationQueryRequest where
  tensorId : ℕ
  version : ℕ
  deriving DecidableEq

structure LocationQueryResponse where
  ok : Bool := false
  message : String
  locationKind : ℕ := 0
  slotId : ℕ := 0
  nbytes : ℕ := 0
  version : ℕ := 0
  deriving DecidableEq

structure BatchCompletion where
  eventType : EventType
  leaseId : ℕ
  tensorId : ℕ
  version : ℕ
  slotId : ℕ
  seq : ℕ := 0
  keepPinned : Bool := false
  deriving DecidableEq

structure BatchCompleteRequest where
  rankId : ℕ
  rankEpoch : ℕ
  completions : List BatchCompletion
  deriving DecidableEq

structure BatchCompleteResponse where
  ok : Bool
  message : String
  accepted : ℕ
  rejected : ℕ
  deriving DecidableEq

/-! ## v2 -/

structure RegisterJobRequest where
  tenantId : ℕ
  jobName : String
  schedulerJobId : ℕ
  deriving DecidableEq

structure RegisterJobResponse where
  ok : Bool
  message : String
  job : Option JobUID := none
  jobName : String := ""
  deriving DecidableEq

structure RequestCanonicalEvictRequest where
  rankId : ℕ
  rankEpoch : ℕ
  key : CanonicalTensorKey
  attachIfExists : Bool := true
  createIfMissing : Bool := true
  dedupMode : DedupMode := .disabled
  allowDuplicateCandidate : Bool := false
  gpuId : ℕ := 0
  numaNode : ℕ := 0
  deriving DecidableEq

structure RequestCanonicalEvictResponse where
  ok : Bool := false
  message : String
  action : AttachAction := .error
  objectId : ℕ := 0
  leaseId : ℕ := 0
  slotId : ℕ := 0
  arenaId : ℕ := 0
  arenaOffset : ℕ := 0
  capacity : ℕ := 0
  syntheticTid : ℕ := 0
  deriving DecidableEq

structure CommitCanonicalObjectRequest where
  rankId : ℕ
  rankEpoch : ℕ
  objectId : ℕ
  leaseId : ℕ
  contentHashLo : ℕ := 0
  contentHashHi : ℕ := 0
  deriving DecidableEq

structure CommitCanonicalObjectResponse where
  ok : Bool := false
  message : String
  objectId : ℕ
  won : Bool := false
  deriving DecidableEq

structure SealModelVersionRequest where
  job : JobUID
  modelRole : ℕ
  modelVersion : ℕ
  failIfMissing : Bool := true
  expectedParamIds : List ℕ := []
  promote : Bool := false
  deriving DecidableEq

structure SealModelVersionResponse where
  ok : Bool := false
  message : String
  state : ManifestState := .error
  tensorCount : ℕ := 0
  totalNbytes : ℕ := 0
  manifestHashLo : ℕ := 0
  manifestHashHi : ℕ := 0
  deriving DecidableEq

structure GetLatestSealedVersionRequest where
  job : JobUID
  modelRole : ℕ
  deriving DecidableEq

structure GetLatestSealedVersionResponse where
  ok : Bool := false
  message : String
  found : Bool := false
  modelVersion : ℕ := 0
  deriving DecidableEq

/-- The filters of a manifest: an absent one matches everything. -/
structure ManifestFilter where
  ppRank : Option ℕ := none
  tpRank : Option ℕ := none
  epRank : Option ℕ := none
  etpRank : Option ℕ := none
  expertId : Option ℤ := none
  deriving DecidableEq

structure GetManifestRequest where
  job : JobUID
  modelRole : ℕ
  modelVersion : ℕ
  filter : ManifestFilter := {}
  deriving DecidableEq

structure TensorManifestEntry where
  key : CanonicalTensorKey
  objectId : ℕ
  nbytes : ℕ
  contentHashLo : ℕ
  contentHashHi : ℕ
  locationHint : String
  deriving DecidableEq

structure GetManifestResponse where
  ok : Bool := false
  message : String
  state : ManifestState := .error
  tensors : List TensorManifestEntry := []
  deriving DecidableEq

/-- How the bytes of an object are to be sent. -/
inductive TransportKind
  | tcp
  | file
  | libfabricSend
  deriving DecidableEq

structure PullTensorRequest where
  job : JobUID
  modelRole : ℕ
  modelVersion : ℕ
  objectId : ℕ
  transport : TransportKind := .tcp
  deriving DecidableEq

structure PullTensorResponse where
  ok : Bool := false
  message : String
  objectId : ℕ
  nbytes : ℕ := 0
  contentHashLo : ℕ := 0
  contentHashHi : ℕ := 0
  deriving DecidableEq

structure RequestCanonicalRestoreRequest where
  rankId : ℕ
  rankEpoch : ℕ
  objectId : ℕ
  gpuId : ℕ := 0
  numaNode : ℕ := 0
  deriving DecidableEq

structure RequestCanonicalRestoreResponse where
  ok : Bool := false
  message : String
  retriable : Bool := false
  objectId : ℕ
  nbytes : ℕ := 0
  arenaId : ℕ := 0
  arenaOffset : ℕ := 0
  deriving DecidableEq

structure ReleaseCanonicalRestoreRequest where
  rankId : ℕ
  rankEpoch : ℕ
  objectId : ℕ
  deriving DecidableEq

structure DropCanonicalVersionRequest where
  job : JobUID
  modelRole : ℕ
  modelVersion : ℕ
  deriving DecidableEq

structure DropCanonicalVersionResponse where
  ok : Bool := false
  message : String
  droppedCount : ℕ := 0
  skippedInflight : ℕ := 0
  bytesFreed : ℕ := 0
  deriving DecidableEq

structure ReleaseCanonicalRequest where
  rankId : ℕ
  rankEpoch : ℕ
  job : JobUID
  modelRole : ℕ
  modelVersion : ℕ
  objectId : ℕ
  deriving DecidableEq

structure ReleaseCanonicalResponse where
  ok : Bool := false
  message : String
  releasedCount : ℕ := 0
  freedCount : ℕ := 0
  bytesFreed : ℕ := 0
  deriving DecidableEq

/-- What the daemon answers. A handler that lets go of the lock on the way
    answers nothing yet. -/
inductive Response
  | none
  | register (r : RegisterRankResponse)
  | ack (r : Ack)
  | offload (r : RequestOffloadResponse)
  | d2hComplete (r : MarkD2HCompleteResponse)
  | prefetch (r : RequestPrefetchResponse)
  | location (r : LocationQueryResponse)
  | batch (r : BatchCompleteResponse)
  | registerJob (r : RegisterJobResponse)
  | evict (r : RequestCanonicalEvictResponse)
  | commit (r : CommitCanonicalObjectResponse)
  | seal (r : SealModelVersionResponse)
  | latest (r : GetLatestSealedVersionResponse)
  | manifest (r : GetManifestResponse)
  | pull (r : PullTensorResponse)
  | restore (r : RequestCanonicalRestoreResponse)
  | drop (r : DropCanonicalVersionResponse)
  | releaseCanonical (r : ReleaseCanonicalResponse)
  deriving DecidableEq

end StateSpectre
