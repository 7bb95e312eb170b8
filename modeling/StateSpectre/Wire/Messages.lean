import StateSpectre.Wire.V2

/-!
# All messages

For every operation there is a request and a response. Each of them is decoded from what it is
encoded as, whatever follows, and from no part of that which is cut short (`messages_round_trip`).
-/

namespace StateSpectre.Wire

/-- The operations. -/
inductive OpCode
  | registerRank
  | heartbeat
  | requestOffload
  | markD2HSubmitted
  | markD2HComplete
  | requestPrefetch
  | markH2DSubmitted
  | markH2DComplete
  | releaseLease
  | queryLocation
  | batchComplete
  | shutdown
  | getStats
  | registerJob
  | requestCanonicalEvict
  | commitCanonicalObject
  | sealModelVersion
  | getLatestSealedVersion
  | getManifest
  | pullTensor
  | requestCanonicalRestore
  | releaseCanonicalRestore
  | dropCanonicalVersion
  | releaseCanonical
  deriving DecidableEq, Repr

/-- The two messages of an operation. -/
inductive Side
  | request
  | response
  deriving DecidableEq, Repr

/-- Messages, with how they are encoded and decoded. -/
structure MessageType where
  Message : Type
  [codec : Codec Message]

attribute [instance] MessageType.codec

/-- The messages that the two sides of an operation send. -/
def OpCode.messages : OpCode → Side → MessageType
  | .registerRank, .request => ⟨RegisterRankRequest⟩
  | .registerRank, .response => ⟨RegisterRankResponse⟩
  | .heartbeat, .request => ⟨HeartbeatRequest⟩
  | .heartbeat, .response => ⟨HeartbeatResponse⟩
  | .requestOffload, .request => ⟨RequestOffloadRequest⟩
  | .requestOffload, .response => ⟨RequestOffloadResponse⟩
  | .markD2HSubmitted, .request => ⟨MarkD2HSubmittedRequest⟩
  | .markD2HSubmitted, .response => ⟨MarkD2HSubmittedResponse⟩
  | .markD2HComplete, .request => ⟨MarkD2HCompleteRequest⟩
  | .markD2HComplete, .response => ⟨MarkD2HCompleteResponse⟩
  | .requestPrefetch, .request => ⟨RequestPrefetchRequest⟩
  | .requestPrefetch, .response => ⟨RequestPrefetchResponse⟩
  | .markH2DSubmitted, .request => ⟨MarkH2DSubmittedRequest⟩
  | .markH2DSubmitted, .response => ⟨MarkH2DSubmittedResponse⟩
  | .markH2DComplete, .request => ⟨MarkH2DCompleteRequest⟩
  | .markH2DComplete, .response => ⟨MarkH2DCompleteResponse⟩
  | .releaseLease, .request => ⟨ReleaseLeaseRequest⟩
  | .releaseLease, .response => ⟨ReleaseLeaseResponse⟩
  | .queryLocation, .request => ⟨LocationQueryRequest⟩
  | .queryLocation, .response => ⟨LocationQueryResponse⟩
  | .batchComplete, .request => ⟨BatchCompleteRequest⟩
  | .batchComplete, .response => ⟨BatchCompleteResponse⟩
  | .shutdown, .request => ⟨ShutdownRequest⟩
  | .shutdown, .response => ⟨ShutdownResponse⟩
  | .getStats, .request => ⟨GetStatsRequest⟩
  | .getStats, .response => ⟨GetStatsResponse⟩
  | .registerJob, .request => ⟨RegisterJobRequest⟩
  | .registerJob, .response => ⟨RegisterJobResponse⟩
  | .requestCanonicalEvict, .request => ⟨RequestCanonicalEvictRequest⟩
  | .requestCanonicalEvict, .response => ⟨RequestCanonicalEvictResponse⟩
  | .commitCanonicalObject, .request => ⟨CommitCanonicalObjectRequest⟩
  | .commitCanonicalObject, .response => ⟨CommitCanonicalObjectResponse⟩
  | .sealModelVersion, .request => ⟨SealModelVersionRequest⟩
  | .sealModelVersion, .response => ⟨SealModelVersionResponse⟩
  | .getLatestSealedVersion, .request => ⟨GetLatestSealedVersionRequest⟩
  | .getLatestSealedVersion, .response => ⟨GetLatestSealedVersionResponse⟩
  | .getManifest, .request => ⟨GetManifestRequest⟩
  | .getManifest, .response => ⟨GetManifestResponse⟩
  | .pullTensor, .request => ⟨PullTensorRequest⟩
  | .pullTensor, .response => ⟨PullTensorResponse⟩
  | .requestCanonicalRestore, .request => ⟨RequestCanonicalRestoreRequest⟩
  | .requestCanonicalRestore, .response => ⟨RequestCanonicalRestoreResponse⟩
  | .releaseCanonicalRestore, .request => ⟨ReleaseCanonicalRestoreRequest⟩
  | .releaseCanonicalRestore, .response => ⟨ReleaseCanonicalRestoreResponse⟩
  | .dropCanonicalVersion, .request => ⟨DropCanonicalVersionRequest⟩
  | .dropCanonicalVersion, .response => ⟨DropCanonicalVersionResponse⟩
  | .releaseCanonical, .request => ⟨ReleaseCanonicalRequest⟩
  | .releaseCanonical, .response => ⟨ReleaseCanonicalResponse⟩

/-- Every message is decoded from what it is encoded as, whatever follows. What is cut short is
    malformed. -/
theorem messages_round_trip (op : OpCode) (side : Side) (m : (op.messages side).Message) :
    (∀ t, (op.messages side).codec.decode.run (encode m ++ t) = .ok (m, t)) ∧
      ∀ bs, bs <+: encode m → bs ≠ encode m →
        ∃ e, (op.messages side).codec.decode.run bs = .error e :=
  ⟨Codec.reads m, fun _ => (Codec.reads m).truncated⟩

end StateSpectre.Wire
