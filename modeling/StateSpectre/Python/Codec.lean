import StateSpectre.Wire.V2

/-!
# The codec of the rollout client

A rollout engine speaks to the daemon through a codec of its own, in Python: it asks for the latest
version, for its manifest and for tensors, and is sent these behind a header. Here are the encoders
and decoders it has for that, over the unbounded integers and the Unicode strings of Python.
-/

namespace StateSpectre.Python

/-- What is raised. -/
inductive PyError
  | valueError (message : String)
  | unicodeDecodeError
  | structError
  deriving DecidableEq

/-! ## Writing -/

namespace W

def bool (v : Bool) : List UInt8 := leBytes 1 (if v then 1 else 0)

def u32 (v : ℤ) : List UInt8 := leBytes 4 (v % 2 ^ 32).toNat

def u64 (v : ℤ) : List UInt8 := leBytes 8 (v % 2 ^ 64).toNat

/-- A signed number, in two's complement. It is not masked, and has to be in range. -/
def i32 (v : ℤ) : Except PyError (List UInt8) :=
  if -2 ^ 31 ≤ v ∧ v < 2 ^ 31 then .ok (leBytes 4 (v % 2 ^ 32).toNat) else .error .structError

/-- The UTF-8 encoding of a string, behind its length. -/
def str (s : String) : List UInt8 := u32 s.toUTF8.data.size ++ s.toUTF8.data.toList

end W

def putJobkey (tenantId jobId launchEpoch : ℤ) (jobName : Option String) : List UInt8 :=
  W.u64 tenantId ++ W.u64 jobId ++ W.u64 launchEpoch ++ W.str (jobName.getD "")

def encodeGetLatest (tenantId jobId launchEpoch : ℤ) (jobName : Option String) (modelRole : ℤ) :
    List UInt8 :=
  putJobkey tenantId jobId launchEpoch jobName ++ W.u32 modelRole

/-- The filters that a manifest may be asked for with. -/
structure Filter where
  pp : Option ℤ := none
  tp : Option ℤ := none
  ep : Option ℤ := none
  etp : Option ℤ := none
  expert : Option ℤ := none

/-- Whether the filter is there, and its rank, or 0. -/
def putRank (v : Option ℤ) : List UInt8 := W.bool v.isSome ++ W.u32 (v.getD 0)

def encodeGetManifest (tenantId jobId launchEpoch : ℤ) (jobName : Option String)
    (modelRole modelVersion : ℤ) (flt : Option Filter) : Except PyError (List UInt8) := do
  let f := flt.getD {}
  let expert ← W.i32 (f.expert.getD 0)
  return putJobkey tenantId jobId launchEpoch jobName ++ W.u32 modelRole ++ W.u64 modelVersion ++
    putRank f.pp ++ putRank f.tp ++ putRank f.ep ++ putRank f.etp ++
    W.bool f.expert.isSome ++ expert

def encodePull (tenantId jobId launchEpoch : ℤ) (jobName : Option String)
    (modelRole modelVersion objectId transport : ℤ) (targetDescriptor : String) : List UInt8 :=
  putJobkey tenantId jobId launchEpoch jobName ++ W.u32 modelRole ++ W.u64 modelVersion ++
    W.u64 objectId ++ W.u32 transport ++ W.str targetDescriptor

/-! ## Reading -/

abbrev R : Type → Type := ByteReader PyError

namespace R

def take (n : ℕ) : R {l : List UInt8 // l.length = n} :=
  ByteReader.take (.valueError "truncated wire message") n

def bool : R Bool := do
  let l ← take 1
  pure (leNat l.1 != 0)

def u32 : R ℤ := do
  let l ← take 4
  pure (leNat l.1)

def u64 : R ℤ := do
  let l ← take 8
  pure (leNat l.1)

/-- A signed number, in two's complement. -/
def i32 : R ℤ := do
  let l ← take 4
  pure (if leNat l.1 < 2 ^ 31 then leNat l.1 else leNat l.1 - 2 ^ 32)

def str : R String := do
  let n ← u32
  let l ← take n.toNat
  match String.fromUTF8? ⟨l.1.toArray⟩ with
  | some s => pure s
  | none => .fail .unicodeDecodeError

end R

structure JobKey where
  tenantId : ℤ
  jobId : ℤ
  launchEpoch : ℤ
  jobName : String

def getJobkey : R JobKey := do return {
  tenantId := ← R.u64, jobId := ← R.u64, launchEpoch := ← R.u64, jobName := ← R.str }

structure Key where
  job : JobKey
  modelRole : ℤ
  modelVersion : ℤ
  paramId : ℤ
  paramFqnHash : ℤ
  paramFqnDebug : String
  dtype : ℤ
  layout : ℤ
  nbytes : ℤ
  shapeHash : ℤ
  strideHash : ℤ
  ppRank : ℤ
  tpRank : ℤ
  epRank : ℤ
  etpRank : ℤ
  expertId : ℤ
  shardOffset : ℤ
  shardNbytes : ℤ

def getKey : R Key := do return {
  job := ← getJobkey, modelRole := ← R.u32, modelVersion := ← R.u64, paramId := ← R.u64
  paramFqnHash := ← R.u64, paramFqnDebug := ← R.str, dtype := ← R.u32, layout := ← R.u32
  nbytes := ← R.u64, shapeHash := ← R.u64, strideHash := ← R.u64, ppRank := ← R.u32
  tpRank := ← R.u32, epRank := ← R.u32, etpRank := ← R.u32, expertId := ← R.i32
  shardOffset := ← R.u64, shardNbytes := ← R.u64 }

structure LatestResponse where
  ok : Bool
  message : String
  found : Bool
  modelVersion : ℤ

def decodeGetLatestResp : R LatestResponse := do return {
  ok := ← R.bool, message := ← R.str, found := ← R.bool, modelVersion := ← R.u64 }

structure ManifestEntry where
  key : Key
  objectId : ℤ
  nbytes : ℤ
  contentHashLo : ℤ
  contentHashHi : ℤ
  locationHint : String

def getEntry : R ManifestEntry := do return {
  key := ← getKey, objectId := ← R.u64, nbytes := ← R.u64, contentHashLo := ← R.u64
  contentHashHi := ← R.u64, locationHint := ← R.str }

structure ManifestResponse where
  ok : Bool
  message : String
  job : JobKey
  modelRole : ℤ
  modelVersion : ℤ
  state : ℤ
  tensors : List ManifestEntry

def decodeGetManifestResp : R ManifestResponse := do
  let ok ← R.bool
  let message ← R.str
  let job ← getJobkey
  let modelRole ← R.u32
  let modelVersion ← R.u64
  let state ← R.u32
  let n ← R.u32
  let tensors ← getEntry.times n.toNat
  pure { ok, message, job, modelRole, modelVersion, state, tensors := tensors.1 }

structure PullResponse where
  ok : Bool
  message : String
  objectId : ℤ
  nbytes : ℤ
  transport : ℤ
  contentHashLo : ℤ
  contentHashHi : ℤ
  transportMetadata : String

def decodePullResp : R PullResponse := do return {
  ok := ← R.bool, message := ← R.str, objectId := ← R.u64, nbytes := ← R.u64, transport := ← R.u32
  contentHashLo := ← R.u64, contentHashHi := ← R.u64, transportMetadata := ← R.str }

/-! ## The header of an export -/

def exportMagic : ℤ := 0x4F464558

structure ExportHeader where
  version : ℤ
  objectId : ℤ
  nbytes : ℤ
  contentHashLo : ℤ
  contentHashHi : ℤ

/-- The fields of an export header, once its magic number is checked. -/
def getExportHeader : R ExportHeader := do
  let magic ← R.u32
  let version ← R.u32
  let objectId ← R.u64
  let nbytes ← R.u64
  let contentHashLo ← R.u64
  let contentHashHi ← R.u64
  if magic ≠ exportMagic then
    .fail (.valueError ("bad export frame magic 0x" ++
      String.ofList (Nat.toDigits 16 magic.toNat)))
  else pure { version, objectId, nbytes, contentHashLo, contentHashHi }

/-- A header is 40 bytes. -/
def parseExportHeader (hdr : List UInt8) : Except PyError ExportHeader :=
  if hdr.length ≠ 40 then .error .structError else (getExportHeader.run hdr).map Prod.fst

end StateSpectre.Python
