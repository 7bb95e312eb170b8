import StateSpectre.Python.Codec

/-!
# The client and the daemon agree

What the client encodes the daemon decodes to the same values, and what the daemon encodes the
client decodes to the same values, as long as strings are valid UTF-8 (`protocols_agree`).
-/

namespace StateSpectre.Python

open Wire

/-! ## Numbers and strings -/

/-- The text of a string, if it is valid UTF-8. -/
def text (s : Str) : Option String := String.fromUTF8? ⟨s.1.toArray⟩

@[simp] theorem w_bool (v : Bool) : W.bool v = Field.bytes (.b v) := by
  cases v <;> rfl

@[simp] theorem w_u32 (v : UInt32) : W.u32 v.toNat = Field.bytes (.u32 v) := by
  have h : ((v.toNat : ℤ) % 2 ^ 32).toNat = v.toNat := by
    have := v.toNat_lt
    omega
  rw [W.u32, h, Field.bytes]

@[simp] theorem w_u64 (v : UInt64) : W.u64 v.toNat = Field.bytes (.u64 v) := by
  have h : ((v.toNat : ℤ) % 2 ^ 64).toNat = v.toNat := by
    have := v.toNat_lt
    omega
  rw [W.u64, h, Field.bytes]

/-- A signed number, by the unsigned one with the same bits. -/
theorem toInt_eq (v : Int32) : v.toInt =
    if v.toUInt32.toNat < 2 ^ 31 then (v.toUInt32.toNat : ℤ) else v.toUInt32.toNat - 2 ^ 32 := by
  have h : v.toInt = if 2 * v.toUInt32.toNat < 2 ^ 32 then (v.toUInt32.toNat : ℤ) else
      v.toUInt32.toNat - (2 ^ 32 : ℕ) := BitVec.toInt_eq_toNat_cond v.toBitVec
  rw [h]
  push_cast
  split <;> split <;> omega

@[simp] theorem w_i32 (v : Int32) : W.i32 v.toInt = .ok (Field.bytes (.u32 v.toUInt32)) := by
  have h : (v.toInt % 2 ^ 32).toNat = v.toUInt32.toNat := by
    have hlt := v.toUInt32.toNat_lt
    rw [toInt_eq]
    split <;> omega
  rw [W.i32, if_pos ⟨v.le_toInt, v.toInt_lt⟩, h, Field.bytes]

/-- A string of the client, as the daemon has it. -/
def wireStr (s : String) (h : s.toUTF8.data.size < 2 ^ 32) : Str :=
  ⟨s.toUTF8.data.toList, h⟩

theorem text_wireStr {s : String} (h : s.toUTF8.data.size < 2 ^ 32) :
    text (wireStr s h) = some s := by
  have hvalid : ByteArray.IsValidUTF8 ⟨s.toUTF8.data.toList.toArray⟩ := s.isValidUTF8
  exact dif_pos hvalid

theorem w_str {s : String} (h : s.toUTF8.data.size < 2 ^ 32) :
    W.str s = Field.bytes (.str (wireStr s h)) := by
  have hsize : ((s.toUTF8.data.size : ℤ) % 2 ^ 32).toNat = s.toUTF8.data.size := by omega
  rw [W.str, W.u32, hsize]
  rfl

/-! ## What the client reads -/

theorem reads_bool (v : Bool) : R.bool.Reads (Field.bytes (.b v)) v := by
  have h := (ByteReader.reads_take (e := PyError.valueError "truncated wire message")
    (n := 1) (l := Field.bytes (.b v)) rfl).map (g := fun l => leNat l.1 != 0)
  cases v <;> exact h

/-- A number of `k` bytes. -/
theorem reads_number {α : Type} {k n : ℕ} {f : ℕ → α} (h : n < 256 ^ k) :
    (R.take k >>= fun l => pure (f (leNat l.1))).Reads (leBytes k n) (f n) := by
  have hread := (ByteReader.reads_take (e := PyError.valueError "truncated wire message")
    (length_leBytes k n)).map (g := fun l => f (leNat l.1))
  rwa [leNat_leBytes h] at hread

theorem reads_u32 (v : UInt32) : R.u32.Reads (Field.bytes (.u32 v)) v.toNat :=
  reads_number (f := fun n => (n : ℤ)) v.toNat_lt

theorem reads_u64 (v : UInt64) : R.u64.Reads (Field.bytes (.u64 v)) v.toNat :=
  reads_number (f := fun n => (n : ℤ)) v.toNat_lt

theorem reads_i32 (v : Int32) : R.i32.Reads (Field.bytes (.u32 v.toUInt32)) v.toInt := by
  rw [toInt_eq]
  exact reads_number (f := fun n => if n < 2 ^ 31 then (n : ℤ) else n - 2 ^ 32) v.toUInt32.toNat_lt

theorem reads_str {s : Str} {p : String} (h : text s = some p) :
    R.str.Reads (Field.bytes (.str s)) p := by
  have hlength : R.u32.Reads (leBytes 4 s.1.length) s.1.length :=
    reads_number (f := fun n => (n : ℤ)) s.2
  have htake := ByteReader.reads_take (e := PyError.valueError "truncated wire message")
    (l := s.1) (n := (s.1.length : ℤ).toNat) rfl
  intro t
  rw [R.str, Field.bytes, List.append_assoc, hlength.run_bind, R.take, htake.run_bind]
  split
  · next hp =>
    cases hp.symm.trans h
    rfl
  · next hp => cases hp.symm.trans h

section Run

variable {β : Type} {t : List UInt8} {m : Wire.GetLatestSealedVersionResponse}
  {e : TensorManifestEntryWire} {v : ℤ} {j : JobKeyWire}

@[simp] theorem bind_bool {v : Bool} {f : Bool → R β} :
    (R.bool >>= f).run (Field.bytes (.b v) ++ t) = (f v).run t := (reads_bool v).run_bind

@[simp] theorem bind_u32 {v : UInt32} {f : ℤ → R β} :
    (R.u32 >>= f).run (Field.bytes (.u32 v) ++ t) = (f v.toNat).run t := (reads_u32 v).run_bind

@[simp] theorem bind_u64 {v : UInt64} {f : ℤ → R β} :
    (R.u64 >>= f).run (Field.bytes (.u64 v) ++ t) = (f v.toNat).run t := (reads_u64 v).run_bind

@[simp] theorem bind_i32 {v : Int32} {f : ℤ → R β} :
    (R.i32 >>= f).run (Field.bytes (.u32 v.toUInt32) ++ t) = (f v.toInt).run t :=
  (reads_i32 v).run_bind

end Run

/-! ## Messages of the daemon, as the client has them -/

/-- The same job, if its strings are valid. -/
def jobKey (j : JobKeyWire) : Option JobKey := do
  let jobName ← text j.jobName
  some
    { tenantId := j.tenantId.toNat, jobId := j.jobId.toNat, launchEpoch := j.launchEpoch.toNat
      jobName }

def key (k : CanonicalTensorKeyWire) : Option Key := do
  let job ← jobKey k.job
  let paramFqnDebug ← text k.paramFqnDebug
  some
    { job, paramFqnDebug
      modelRole := k.modelRole.toNat
      modelVersion := k.modelVersion.toNat
      paramId := k.paramId.toNat
      paramFqnHash := k.paramFqnHash.toNat
      dtype := k.dtype.toNat
      layout := k.layout.toNat
      nbytes := k.nbytes.toNat
      shapeHash := k.shapeHash.toNat
      strideHash := k.strideHash.toNat
      ppRank := k.ppRank.toNat
      tpRank := k.tpRank.toNat
      epRank := k.epRank.toNat
      etpRank := k.etpRank.toNat
      expertId := k.expertId.toInt
      shardOffset := k.shardOffset.toNat
      shardNbytes := k.shardNbytes.toNat }

def manifestEntry (e : TensorManifestEntryWire) : Option ManifestEntry := do
  let key ← key e.key
  let locationHint ← text e.locationHint
  some
    { key, locationHint
      objectId := e.objectId.toNat
      nbytes := e.nbytes.toNat
      contentHashLo := e.contentHashLo.toNat
      contentHashHi := e.contentHashHi.toNat }

def latestResponse (m : Wire.GetLatestSealedVersionResponse) : Option LatestResponse := do
  let message ← text m.message
  some { ok := m.ok, message, found := m.found, modelVersion := m.modelVersion.toNat }

def manifestResponse (m : Wire.GetManifestResponse) : Option ManifestResponse := do
  let message ← text m.message
  let job ← jobKey m.job
  let tensors ← m.tensors.1.mapM manifestEntry
  some
    { ok := m.ok, message, job, tensors
      modelRole := m.modelRole.toNat
      modelVersion := m.modelVersion.toNat
      state := m.state.toNat }

def pullResponse (m : Wire.PullTensorResponse) : Option PullResponse := do
  let message ← text m.message
  let transportMetadata ← text m.transportMetadata
  some
    { ok := m.ok, message, transportMetadata
      objectId := m.objectId.toNat
      nbytes := m.nbytes.toNat
      transport := m.transport.toNat
      contentHashLo := m.contentHashLo.toNat
      contentHashHi := m.contentHashHi.toNat }

/-! ## Strings that are valid -/

/-- A string that is valid UTF-8. -/
def Valid (s : Str) : Prop := ∃ p, text s = some p

def jobStrings (j : JobKeyWire) : List Str := [j.jobName]

def entryStrings (e : TensorManifestEntryWire) : List Str :=
  jobStrings e.key.job ++ [e.key.paramFqnDebug, e.locationHint]

def manifestStrings (m : Wire.GetManifestResponse) : List Str :=
  m.message :: jobStrings m.job ++ m.tensors.1.flatMap entryStrings

/-! ## What the daemon encodes -/

open Writer

theorem reads_jobKey (h : ∀ s ∈ jobStrings j, Valid s) :
    ∃ r, jobKey j = some r ∧ getJobkey.Reads (write (Codec.fields j)) r := by
  obtain ⟨name, hname⟩ := h j.jobName (by simp [jobStrings])
  refine ⟨_, by simp only [jobKey, hname]; rfl, fun t => ?_⟩
  simp [getJobkey, Codec.fields, (reads_str hname).run_bind]

theorem reads_key {k : CanonicalTensorKeyWire} (hjob : ∀ s ∈ jobStrings k.job, Valid s)
    (hdebug : Valid k.paramFqnDebug) :
    ∃ r, key k = some r ∧ getKey.Reads (write (Codec.fields k)) r := by
  obtain ⟨job, hjob, hreads⟩ := reads_jobKey hjob
  obtain ⟨debug, hdebug⟩ := hdebug
  refine ⟨_, by simp only [key, hjob, hdebug]; rfl, fun t => ?_⟩
  unfold instCodecCanonicalTensorKeyWire
  simp [getKey, hreads.run_bind, (reads_str hdebug).run_bind]

theorem reads_entry (h : ∀ s ∈ entryStrings e, Valid s) :
    ∃ r, manifestEntry e = some r ∧ getEntry.Reads (write (Codec.fields e)) r := by
  obtain ⟨key, hkey, hreads⟩ := reads_key (k := e.key)
    (fun s hs => h s (by simp [entryStrings, hs])) (h _ (by simp [entryStrings]))
  obtain ⟨hint, hhint⟩ := h e.locationHint (by simp [entryStrings])
  refine ⟨_, by simp only [manifestEntry, hkey, hhint]; rfl, fun t => ?_⟩
  unfold instCodecTensorManifestEntryWire
  simp [getEntry, hreads.run_bind, (reads_str hhint).run_bind]

theorem reads_latestResponse (h : Valid m.message) :
    ∃ r, latestResponse m = some r ∧ decodeGetLatestResp.Reads (Wire.encode m) r := by
  obtain ⟨message, hmessage⟩ := h
  refine ⟨_, by simp only [latestResponse, hmessage]; rfl, fun t => ?_⟩
  simp [decodeGetLatestResp, Codec.fields, (reads_str hmessage).run_bind]

theorem reads_pullResponse {m : Wire.PullTensorResponse} (hmessage : Valid m.message)
    (hmetadata : Valid m.transportMetadata) :
    ∃ r, pullResponse m = some r ∧ decodePullResp.Reads (Wire.encode m) r := by
  obtain ⟨message, hmessage⟩ := hmessage
  obtain ⟨metadata, hmetadata⟩ := hmetadata
  refine ⟨_, by simp only [pullResponse, hmessage, hmetadata]; rfl, fun t => ?_⟩
  simp [decodePullResp, Codec.fields, (reads_str hmessage).run_bind,
    (reads_str hmetadata).run_bind]

theorem exists_mapM {α β : Type} {f : α → Option β} {R : α → β → Prop} :
    ∀ {l : List α}, (∀ a ∈ l, ∃ b, f a = some b ∧ R a b) →
      ∃ l', l.mapM f = some l' ∧ List.Forall₂ R l l'
  | [], _ => ⟨[], by simp, .nil⟩
  | a :: l, h => by
    obtain ⟨b, hb, hR⟩ := h a (by simp)
    obtain ⟨l', hl', hall⟩ := exists_mapM (l := l) fun a ha => h a (by simp [ha])
    exact ⟨b :: l', by simp [hb, hl'], .cons hR hall⟩

theorem reads_manifestResponse {m : Wire.GetManifestResponse}
    (h : ∀ s ∈ manifestStrings m, Valid s) :
    ∃ r, manifestResponse m = some r ∧ decodeGetManifestResp.Reads (Wire.encode m) r := by
  obtain ⟨message, hmessage⟩ := h m.message (by simp [manifestStrings])
  obtain ⟨job, hjob, hreads⟩ :=
    reads_jobKey (j := m.job) fun s hs => h s (by simp [manifestStrings, hs])
  obtain ⟨tensors, htensors, hall⟩ := exists_mapM (l := m.tensors.1) fun e he =>
    reads_entry fun s hs => h s (List.mem_append_right _ (List.mem_flatMap.2 ⟨e, he, hs⟩))
  have hlength : tensors.length = (UInt32.ofNat m.tensors.1.length).toNat := by
    rw [← hall.length_eq, UInt32.toNat_ofNat_of_lt' m.tensors.2]
  have hread := ByteReader.reads_times_of_forall₂ (fun _ _ h => h) hall hlength
  refine ⟨_, by simp only [manifestResponse, hmessage, hjob, htensors]; rfl, fun t => ?_⟩
  unfold instCodecGetManifestResponse
  simp [decodeGetManifestResp, putVec, write_flatMap,
    (reads_str hmessage).run_bind, hreads.run_bind, hread.run_bind]

/-! ## The header of an export -/

/-- The header that the daemon writes in front of the bytes of an object. -/
def exportHeader (objectId nbytes hlo hhi : UInt64) : List UInt8 :=
  write [.u32 0x4F464558, .u32 1, .u64 objectId, .u64 nbytes, .u64 hlo, .u64 hhi]

theorem parseExportHeader_exportHeader (objectId nbytes hlo hhi : UInt64) :
    parseExportHeader (exportHeader objectId nbytes hlo hhi) =
      .ok ⟨1, objectId.toNat, nbytes.toNat, hlo.toNat, hhi.toNat⟩ := by
  have hread : getExportHeader.Reads (exportHeader objectId nbytes hlo hhi)
      ⟨1, objectId.toNat, nbytes.toNat, hlo.toNat, hhi.toNat⟩ := fun t => by
    simp [getExportHeader, exportHeader, exportMagic]
  have hlength : (exportHeader objectId nbytes hlo hhi).length = 40 := by
    simp [exportHeader, Field.bytes]
  have hrun := hread []
  rw [List.append_nil] at hrun
  rw [parseExportHeader, if_neg (not_not.2 hlength), hrun]
  rfl

/-! ## What the client encodes -/

def U32 (v : ℤ) : Prop := 0 ≤ v ∧ v < 2 ^ 32

def U64 (v : ℤ) : Prop := 0 ≤ v ∧ v < 2 ^ 64

def I32 (v : ℤ) : Prop := -2 ^ 31 ≤ v ∧ v < 2 ^ 31

/-- A string whose length fits into 32 bits. -/
def Short (s : String) : Prop := s.toUTF8.data.size < 2 ^ 32

theorem U32.exists_eq (h : U32 v) : ∃ w : UInt32, v = w.toNat := by
  obtain ⟨n, rfl⟩ := Int.eq_ofNat_of_zero_le h.1
  have hlt : n < UInt32.size := by exact_mod_cast h.2
  exact ⟨UInt32.ofNat n, by rw [UInt32.toNat_ofNat_of_lt' hlt]⟩

theorem U64.exists_eq (h : U64 v) : ∃ w : UInt64, v = w.toNat := by
  obtain ⟨n, rfl⟩ := Int.eq_ofNat_of_zero_le h.1
  have hlt : n < UInt64.size := by exact_mod_cast h.2
  exact ⟨UInt64.ofNat n, by rw [UInt64.toNat_ofNat_of_lt' hlt]⟩

theorem I32.exists_eq (h : I32 v) : ∃ w : Int32, v = w.toInt :=
  ⟨Int32.ofInt v, (Int32.toInt_ofInt_of_le h.1 h.2).symm⟩

/-- What every request starts with is in range. -/
structure InRange (tenantId jobId launchEpoch : ℤ) (jobName : Option String) (modelRole : ℤ) :
    Prop where
  tenantId : U64 tenantId
  jobId : U64 jobId
  launchEpoch : U64 launchEpoch
  jobName : Short (jobName.getD "")
  modelRole : U32 modelRole

/-- The ranks of a filter are in range. -/
structure Filter.InRange (flt : Filter) : Prop where
  pp : ∀ v ∈ flt.pp, U32 v
  tp : ∀ v ∈ flt.tp, U32 v
  ep : ∀ v ∈ flt.ep, U32 v
  etp : ∀ v ∈ flt.etp, U32 v
  expert : ∀ v ∈ flt.expert, I32 v

/-- The filter of the daemon asks for the ranks that the client is given, and is 0 elsewhere. -/
structure Filter.Shown (flt : Filter) (f : ManifestFilterWire) : Prop where
  pp : f.ppPresent = flt.pp.isSome ∧ f.ppRank.toNat = flt.pp.getD 0
  tp : f.tpPresent = flt.tp.isSome ∧ f.tpRank.toNat = flt.tp.getD 0
  ep : f.epPresent = flt.ep.isSome ∧ f.epRank.toNat = flt.ep.getD 0
  etp : f.etpPresent = flt.etp.isSome ∧ f.etpRank.toNat = flt.etp.getD 0
  expert : f.expertPresent = flt.expert.isSome ∧ f.expertId.toInt = flt.expert.getD 0

theorem putRank_eq {v : Option ℤ} (h : ∀ n ∈ v, U32 n) :
    ∃ w : UInt32, (w.toNat : ℤ) = v.getD 0 ∧
      putRank v = Field.bytes (.b v.isSome) ++ Field.bytes (.u32 w) := by
  have hrange : U32 (v.getD 0) := by
    cases v with
    | none => exact ⟨le_rfl, by decide⟩
    | some n => exact h n rfl
  obtain ⟨w, hw⟩ := hrange.exists_eq
  refine ⟨w, hw.symm, ?_⟩
  rw [putRank, hw, w_bool, w_u32]

/-- The filter is the last part of the request, and the only one that may be refused. -/
theorem Filter.put_eq {flt : Filter} (h : flt.InRange) :
    ∃ (f : ManifestFilterWire) (expert : List UInt8), flt.Shown f ∧
      W.i32 (flt.expert.getD 0) = .ok expert ∧
      putRank flt.pp ++ putRank flt.tp ++ putRank flt.ep ++ putRank flt.etp ++
        W.bool flt.expert.isSome ++ expert = write (Codec.fields f) := by
  obtain ⟨pp, hpp, hputpp⟩ := putRank_eq h.pp
  obtain ⟨tp, htp, hputtp⟩ := putRank_eq h.tp
  obtain ⟨ep, hep, hputep⟩ := putRank_eq h.ep
  obtain ⟨etp, hetp, hputetp⟩ := putRank_eq h.etp
  have hrange : I32 (flt.expert.getD 0) := by
    cases hexpert : flt.expert with
    | none => exact ⟨by decide, by decide⟩
    | some n => exact h.expert n hexpert
  obtain ⟨id, hid⟩ := hrange.exists_eq
  refine ⟨⟨flt.pp.isSome, pp, flt.tp.isSome, tp, flt.ep.isSome, ep, flt.etp.isSome, etp,
    flt.expert.isSome, id⟩, Field.bytes (.u32 id.toUInt32),
    ⟨⟨rfl, hpp⟩, ⟨rfl, htp⟩, ⟨rfl, hep⟩, ⟨rfl, hetp⟩, ⟨rfl, hid.symm⟩⟩, ?_, ?_⟩
  · rw [hid, w_i32]
  · simp [Codec.fields, hputpp, hputtp, hputep, hputetp]

section Requests

variable {tenantId jobId launchEpoch modelRole : ℤ} {jobName : Option String}
  (h : InRange tenantId jobId launchEpoch jobName modelRole)

include h

theorem putJobkey_eq :
    ∃ j : JobKeyWire, putJobkey tenantId jobId launchEpoch jobName = write (Codec.fields j) ∧
      jobKey j = some ⟨tenantId, jobId, launchEpoch, jobName.getD ""⟩ := by
  obtain ⟨htenant, hjob, hepoch, hname, -⟩ := h
  obtain ⟨tenantId, rfl⟩ := htenant.exists_eq
  obtain ⟨jobId, rfl⟩ := hjob.exists_eq
  obtain ⟨launchEpoch, rfl⟩ := hepoch.exists_eq
  refine ⟨⟨tenantId, jobId, launchEpoch, wireStr _ hname⟩, ?_, ?_⟩
  · simp [putJobkey, Codec.fields, w_str hname]
  · simp [jobKey, text_wireStr hname]

theorem reads_encodeGetLatest :
    ∃ m, (Codec.decode : Reader Wire.GetLatestSealedVersionRequest).Reads
        (encodeGetLatest tenantId jobId launchEpoch jobName modelRole) m ∧
      jobKey m.job = some ⟨tenantId, jobId, launchEpoch, jobName.getD ""⟩ ∧
      m.modelRole.toNat = modelRole := by
  obtain ⟨j, hput, hj⟩ := putJobkey_eq h
  obtain ⟨role, hrole⟩ := h.modelRole.exists_eq
  refine ⟨⟨j, role⟩, ?_, hj, hrole.symm⟩
  have hbytes : encodeGetLatest tenantId jobId launchEpoch jobName modelRole =
      Wire.encode (Wire.GetLatestSealedVersionRequest.mk j role) := by
    unfold instCodecGetLatestSealedVersionRequest
    simp [encodeGetLatest, hput, hrole]
  rw [hbytes]
  exact Codec.reads _

theorem reads_encodeGetManifest {modelVersion : ℤ} {flt : Option Filter}
    (hversion : U64 modelVersion) (hflt : ∀ f ∈ flt, f.InRange) :
    ∃ bs m, encodeGetManifest tenantId jobId launchEpoch jobName modelRole modelVersion flt =
        .ok bs ∧
      (Codec.decode : Reader Wire.GetManifestRequest).Reads bs m ∧
      jobKey m.job = some ⟨tenantId, jobId, launchEpoch, jobName.getD ""⟩ ∧
      m.modelRole.toNat = modelRole ∧ m.modelVersion.toNat = modelVersion ∧
      (flt.getD {}).Shown m.filter := by
  have hrange : (flt.getD {}).InRange := by
    cases flt with
    | none => constructor <;> nofun
    | some f => exact hflt f rfl
  obtain ⟨j, hput, hj⟩ := putJobkey_eq h
  obtain ⟨role, hrole⟩ := h.modelRole.exists_eq
  obtain ⟨version, rfl⟩ := hversion.exists_eq
  obtain ⟨f, expert, hshown, hexpert, hf⟩ := Filter.put_eq hrange
  refine ⟨Wire.encode (Wire.GetManifestRequest.mk j role version f), ⟨j, role, version, f⟩, ?_,
    Codec.reads _, hj, hrole.symm, rfl, hshown⟩
  have hbytes : Wire.encode (Wire.GetManifestRequest.mk j role version f) =
      write (Codec.fields j) ++ Field.bytes (.u32 role) ++ Field.bytes (.u64 version) ++
        write (Codec.fields f) := by
    unfold instCodecGetManifestRequest
    simp
  rw [encodeGetManifest, hexpert, hbytes, ← hf, hput, hrole, w_u32, w_u64]
  simp only [List.append_assoc]
  rfl

theorem reads_encodePull {modelVersion objectId transport : ℤ} {targetDescriptor : String}
    (hversion : U64 modelVersion) (hobject : U64 objectId) (htransport : U32 transport)
    (htarget : Short targetDescriptor) :
    ∃ m, (Codec.decode : Reader Wire.PullTensorRequest).Reads
        (encodePull tenantId jobId launchEpoch jobName modelRole modelVersion objectId transport
          targetDescriptor) m ∧
      jobKey m.job = some ⟨tenantId, jobId, launchEpoch, jobName.getD ""⟩ ∧
      m.modelRole.toNat = modelRole ∧ m.modelVersion.toNat = modelVersion ∧
      m.objectId.toNat = objectId ∧ m.transport.toNat = transport ∧
      text m.targetDescriptor = some targetDescriptor := by
  obtain ⟨j, hput, hj⟩ := putJobkey_eq h
  obtain ⟨role, hrole⟩ := h.modelRole.exists_eq
  obtain ⟨version, rfl⟩ := hversion.exists_eq
  obtain ⟨id, rfl⟩ := hobject.exists_eq
  obtain ⟨kind, rfl⟩ := htransport.exists_eq
  refine ⟨⟨j, role, version, id, kind, wireStr _ htarget⟩, ?_, hj, hrole.symm, rfl, rfl, rfl,
    text_wireStr htarget⟩
  have hbytes : encodePull tenantId jobId launchEpoch jobName modelRole version.toNat id.toNat
      kind.toNat targetDescriptor =
        Wire.encode (Wire.PullTensorRequest.mk j role version id kind (wireStr _ htarget)) := by
    unfold instCodecPullTensorRequest
    simp [encodePull, hput, hrole, w_str htarget]
  rw [hbytes]
  exact Codec.reads _

end Requests

/-- The daemon decodes each request of the client to the arguments that it was made from, whatever
    comes after it. The client decodes each response whose strings are valid to the values that
    the daemon has in it, and the header of an export to the values it was made from. -/
theorem protocols_agree {tenantId jobId launchEpoch modelRole : ℤ} {jobName : Option String}
    (h : InRange tenantId jobId launchEpoch jobName modelRole) :
    (∃ m, (Codec.decode : Reader Wire.GetLatestSealedVersionRequest).Reads
        (encodeGetLatest tenantId jobId launchEpoch jobName modelRole) m ∧
      jobKey m.job = some ⟨tenantId, jobId, launchEpoch, jobName.getD ""⟩ ∧
      m.modelRole.toNat = modelRole) ∧
    (∀ modelVersion flt, U64 modelVersion → (∀ f ∈ flt, Filter.InRange f) →
      ∃ bs m, encodeGetManifest tenantId jobId launchEpoch jobName modelRole modelVersion flt =
          .ok bs ∧
        (Codec.decode : Reader Wire.GetManifestRequest).Reads bs m ∧
        jobKey m.job = some ⟨tenantId, jobId, launchEpoch, jobName.getD ""⟩ ∧
        m.modelRole.toNat = modelRole ∧ m.modelVersion.toNat = modelVersion ∧
        (flt.getD {}).Shown m.filter) ∧
    (∀ modelVersion objectId transport targetDescriptor,
      U64 modelVersion → U64 objectId → U32 transport → Short targetDescriptor →
      ∃ m, (Codec.decode : Reader Wire.PullTensorRequest).Reads
          (encodePull tenantId jobId launchEpoch jobName modelRole modelVersion objectId transport
            targetDescriptor) m ∧
        jobKey m.job = some ⟨tenantId, jobId, launchEpoch, jobName.getD ""⟩ ∧
        m.modelRole.toNat = modelRole ∧ m.modelVersion.toNat = modelVersion ∧
        m.objectId.toNat = objectId ∧ m.transport.toNat = transport ∧
        text m.targetDescriptor = some targetDescriptor) ∧
    (∀ m : Wire.GetLatestSealedVersionResponse, Valid m.message →
      ∃ r, latestResponse m = some r ∧ decodeGetLatestResp.Reads (Wire.encode m) r) ∧
    (∀ m : Wire.GetManifestResponse, (∀ s ∈ manifestStrings m, Valid s) →
      ∃ r, manifestResponse m = some r ∧ decodeGetManifestResp.Reads (Wire.encode m) r) ∧
    (∀ m : Wire.PullTensorResponse, Valid m.message → Valid m.transportMetadata →
      ∃ r, pullResponse m = some r ∧ decodePullResp.Reads (Wire.encode m) r) ∧
    ∀ objectId nbytes hlo hhi : UInt64,
      parseExportHeader (exportHeader objectId nbytes hlo hhi) =
        .ok ⟨1, objectId.toNat, nbytes.toNat, hlo.toNat, hhi.toNat⟩ := by
  exact ⟨reads_encodeGetLatest h, fun _ _ => reads_encodeGetManifest h,
    fun _ _ _ _ => reads_encodePull h, fun _ => reads_latestResponse,
    fun _ => reads_manifestResponse, fun _ => reads_pullResponse, parseExportHeader_exportHeader⟩

/-- The largest numbers of a request, and a name outside of ASCII. -/
theorem protocols_agree_largest :
    ∃ m, (Codec.decode : Reader Wire.GetLatestSealedVersionRequest).Reads
        (encodeGetLatest (2 ^ 64 - 1) 0 1 (some "größe") (2 ^ 32 - 1)) m ∧
      jobKey m.job = some ⟨2 ^ 64 - 1, 0, 1, "größe"⟩ ∧ (m.modelRole.toNat : ℤ) = 2 ^ 32 - 1 := by
  have h : InRange (2 ^ 64 - 1) 0 1 (some "größe") (2 ^ 32 - 1) :=
    ⟨⟨by decide, by decide⟩, ⟨by decide, by decide⟩, ⟨by decide, by decide⟩,
      by unfold Short; decide, ⟨by decide, by decide⟩⟩
  exact (protocols_agree h).1

end StateSpectre.Python
