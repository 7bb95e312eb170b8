import StateSpectre.Abi
import StateSpectre.Nvme.Wide

/-!
# Reading from a disk that fails

Memory, the ring, files and reads may fail at any time, reads may stop early, and files may end
before the chunks do (`faultyDoes`). A reader says at the end whether it has read the tensor, and
the run of slots is published if it says so (`readback`).

With at most 64 blocks in flight the ring says so only if all bytes are there, as it compares how
far each block got. With more of them the first block is read into the buffer of a later one, and
this is noticed only if the later one is too short. The plain loop always says so: it goes on after
an error, and its result does not depend on it. So a file that cannot be opened leaves the slots as
they were, and they are published (`unread_published`). When a reader can be believed whatever
fails, is a condition on the engine and on the blocks (`nvmeRead_complete`).
-/

namespace StateSpectre.Nvme

open Discipline

/-- The files, and whether a call has failed. No call reads the latter. -/
structure FaultyDisk where
  files : Path → File
  failed : Bool := false

def FaultyDisk.fail (s : FaultyDisk) : FaultyDisk := { s with failed := true }

/-- What a call of a reader does. It makes no others. -/
def faultyDoes : (o : Op) → FaultyDisk → o.Answer → FaultyDisk → Prop
  | .setup, s, a, s' => a = true ∧ s' = s ∨ a = false ∧ s' = s.fail
  | .openFile _, s, a, s' => a = true ∧ s' = s ∨ a = false ∧ s' = s.fail
  | .pread path off len, s, a, s' => a = none ∧ s' = s.fail ∨
      s' = s ∧ ∃ n ≤ min len ((s.files path).size - off),
        (0 < len → off < (s.files path).size → 0 < n) ∧
        a = some (readRun (s.files path).byte off n)
  | .waitRead pending, s, a, s' => a = none ∧ s' = s.fail ∨ ∃ i q, pending[i]? = some q ∧
      (a = some (i, none) ∧ s' = s.fail ∨
        s' = s ∧ ∃ n ≤ min q.len ((s.files q.path).size - q.fileOff),
          a = some (i, some (readRun (s.files q.path).byte q.fileOff n)))
  | .fetchAdd _ _, _, _, _ | .pwrite _ _ _, _, _, _ | .waitWrite _, _, _, _ => False

/-- The worker that reads a tensor back into a run of slots: the state it leaves them in, and
    their bytes. -/
def readback (cfg : NvmeConfig) (chunks : List NvmeChunk) (pool : ℕ → Memory) (dst : Memory) :
    Calls (SlotState × Memory) := do
  let (ok, dst) ← nvmeRead cfg chunks pool dst
  return (if ok then .pinnedValid else .error, dst)

variable {s : FaultyDisk} {chunks : List NvmeChunk} {cfg : NvmeConfig}

/-- The chunks are in their files. -/
def FaultyDisk.Has (s : FaultyDisk) (chunks : List NvmeChunk) : Prop :=
  ∀ c ∈ chunks, 0 < c.length → c.offset + c.length ≤ (s.files c.path).size

/-- The files stay as they are; what is known of a read that fails is that one failed. -/
theorem serves_faulty (hhas : s.Has chunks)
    (hend : ∀ c ∈ chunks, c.offset + c.length + 4096 ≤ 2 ^ 64) :
    Serves (alone faultyDoes) () (·.files = s.files) (·.failed = true) chunks
      (bytesIn s.files) where
  stable := stable_alone _
  failed_stable := stable_alone _
  length _ _ := length_readRun _
  bound := hend
  setup s' _ hs := by
    refine ⟨trivial, ⟨true, s', .inl ⟨rfl, rfl⟩⟩, ?_⟩
    rintro a s'' (⟨rfl, rfl⟩ | ⟨rfl, rfl⟩)
    · exact ⟨hs, fun h => nomatch h⟩
    · exact ⟨hs, fun _ => rfl⟩
  openFile c _ s' _ hs := by
    refine ⟨trivial, ⟨true, s', .inl ⟨rfl, rfl⟩⟩, ?_⟩
    rintro a s'' (⟨rfl, rfl⟩ | ⟨rfl, rfl⟩)
    · exact ⟨hs, id, fun h => nomatch h⟩
    · exact ⟨hs, fun _ => rfl, fun _ => rfl⟩
  pread c hc x len hlen s' _ hs := by
    refine ⟨trivial, ⟨none, s'.fail, .inl ⟨rfl, rfl⟩⟩, ?_⟩
    rintro a s'' (⟨rfl, rfl⟩ | ⟨rfl, n, hn, hpos, rfl⟩)
    · exact ⟨hs, rfl⟩
    · -- A read that does not fail is the one of a disk without errors.
      have hdisk : Disk.Has (ι := Unit) { files := s.files } chunks := ⟨hhas, hend⟩
      rw [hs] at hn hpos ⊢
      have hread := (hdisk.holds hc).answers (t := ()) hlen ⟨rfl, n, hn, hpos, rfl⟩
      exact ⟨rfl, hread.2⟩

/-- The ring reads from the files, whatever fails. -/
theorem ringServes_faulty : RingServes faultyDoes (·.files = s.files) (fun _ => True) s.files where
  setup s' hs := by
    refine ⟨⟨true, s', .inl ⟨rfl, rfl⟩⟩, ?_⟩
    rintro a s'' (⟨rfl, rfl⟩ | ⟨rfl, rfl⟩) <;> exact ⟨hs, fun _ => trivial⟩
  openFile path s' hs := by
    refine ⟨⟨true, s', .inl ⟨rfl, rfl⟩⟩, ?_⟩
    rintro a s'' (⟨rfl, rfl⟩ | ⟨rfl, rfl⟩) <;> exact ⟨hs, fun _ => trivial⟩
  waitRead pending s' _ hs := by
    refine ⟨⟨none, s'.fail, .inl ⟨rfl, rfl⟩⟩, ?_⟩
    rintro a s'' (⟨rfl, rfl⟩ | ⟨i, q, hq, ⟨rfl, rfl⟩ | ⟨rfl, n, hn, rfl⟩⟩)
    · exact ⟨hs, trivial⟩
    · exact ⟨hs, trivial, (List.getElem?_eq_some_iff.1 hq).1⟩
    · exact ⟨hs, q, n, hq, by rw [hs], hn.trans (Nat.min_le_left ..), .inl trivial⟩

/-- When a reader can be believed that says that it has read the tensor, whatever fails: with the
    ring, if at most 64 blocks are in flight, or a block is longer than what is read with the iovec
    that it shares, so that all reads fail; with the plain loop, if there is nothing to read. -/
def NvmeConfig.Believable (cfg : NvmeConfig) (chunks : List NvmeChunk) : Prop :=
  let ios := blockTransfers cfg.block chunks 0
  if cfg.useUringEngine then
    cfg.Narrow ios ∨ ∃ j b b', j < min cfg.qd ios.length ∧ ios[j]? = some b ∧
      ios[sharer cfg.qd ios.length j]? = some b' ∧ roundup b'.len 4096 < b.len
  else (chunks.map NvmeChunk.length).sum = 0

/-! ## Reads that are too short -/

section

variable {ios : List BlockTransfer} {qd fuel : ℕ} {comp : List ℕ} {v : Window} {dst dst' : Memory}
  {s' : FaultyDisk} {ok : Bool}

/-- A request is too short for its block. -/
def Short (ios : List BlockTransfer) (pending : List Request) : Prop :=
  ∃ q ∈ pending, ∃ b, ios[q.blk]? = some b ∧ q.len < b.len

theorem Short.erase {pending : List Request} (h : Short ios pending) {i : ℕ} {q : Request}
    {b : BlockTransfer} (hq : pending[i]? = some q) (hb : ios[q.blk]? = some b)
    (hlong : b.len ≤ q.len) : Short ios (pending.eraseIdx i) := by
  obtain ⟨q', hq', b', hb', hshort⟩ := h
  obtain ⟨hi, rfl⟩ := List.getElem?_eq_some_iff.1 hq
  rcases List.mem_cons.1 ((List.getElem_cons_eraseIdx_perm hi).mem_iff.2 hq') with rfl | hmem
  · obtain rfl := Option.some.inj (hb.symm.trans hb')
    omega
  · exact ⟨q', hmem, b', hb', hshort⟩

theorem Short.left {free : List ℕ} (h : Short ios v.pending) (hv : Numbered ios qd free comp v) :
    v.done < ios.length := by
  obtain ⟨q, hq, -⟩ := h
  have hpos : 0 < v.flights.length :=
    List.length_pos_of_mem (Window.mem_flights (List.mem_append_left _ hq))
  have hblks := hv.length_blks
  have hnext := hv.next_le
  have hdone := hv.done
  omega

theorem pending_fill (load : BlockTransfer → Memory → Memory) (free : List ℕ) (v : Window) :
    (fill load ios qd free v).pending = v.pending := by
  induction free generalizing v with
  | nil => rfl
  | cons bi free ih =>
    rw [fill]
    split
    · split
      · exact ih _
      · rfl
    · rfl

/-- A request that is too short fails, or is still in flight. So the reader does not say that it
    has read the tensor. -/
theorem uringReadLoop_short (hqd : 0 < qd) (hqd' : qd ≤ 2 ^ 16) (hios : ios.length ≤ 2 ^ 32)
    (hne : 0 < ios.length) {pool : ℕ → Memory}
    (hshort : Short ios (firstWindow (fun _ m => m) ios qd pool).pending) :
    (alone faultyDoes).wp () (uringReadLoop ios qd (ios.length + 1) (.start qd pool) dst)
      (fun r _ => r.1 = false) s := by
  refine wp_slide (I := fun comp v _ s' => s'.files = s.files ∧
      (comp = [] ∧ v = .start qd pool ∨ Short ios v.pending)) hqd hios
    (fun comp v _ s' hv hdone ⟨_, hI⟩ => ?_) (Numbered.start hqd' pool)
    (Nat.lt_add_left _ (Nat.lt_succ_self _)) ⟨rfl, .inl ⟨rfl, rfl⟩⟩
    fun comp v w dst s' hr ⟨hfiles, hI⟩ => ?_
  · rcases hI with ⟨-, rfl⟩ | hI
    · exact absurd hne (Nat.not_lt.2 hdone)
    · exact absurd (hI.left hv) (Nat.not_lt.2 hdone)
  have hpending : Short ios w.pending := by
    obtain ⟨-, rfl⟩ | ⟨q, hq, hI⟩ := hI
    · exact hr.eq ▸ hshort
    · refine ⟨q, ?_, hI⟩
      rw [← hr.eq]
      exact List.mem_append_left _ ((pending_fill _ _ v).symm ▸ hq)
  refine wp_mono ?_ (wp_perform (ringServes_faulty.waitRead _ s'
    (mt List.map_eq_nil_iff.1 hr.pending) hfiles))
  rintro a s'' ⟨hfiles', ha⟩
  match a, ha with
  | none, _ => exact rfl
  | some (i, none), ⟨_, hi⟩ =>
    rw [List.length_map] at hi
    exact .fails (List.getElem?_eq_getElem hi) rfl rfl
  | some (i, some _), ⟨r, n, hr', rfl, hn, _⟩ =>
    obtain ⟨q, hq, rfl⟩ := Option.map_eq_some_iff.1 ((List.getElem?_map ..).symm.trans hr')
    refine .either hq (fun _ => rfl) fun mem x' hsome => ⟨hfiles', .inr ?_⟩
    -- It was another request, and the short one stays in flight.
    obtain ⟨b, hb, hnoted⟩ := hr.waits.noted q.toFlight
      (Window.mem_flights (List.mem_append_left _ (List.mem_of_getElem? hq)))
    have hle := le_of_not_short fun hshort =>
      Option.some_ne_none _ (hsome.symm.trans (finishRead_short hshort))
    rw [hnoted.lenOf, length_readRun] at hle
    exact hpending.erase hq hb (hle.trans hn)

end

theorem length_flatMap_bytesIn (files : Path → File) (chunks : List NvmeChunk) :
    (chunks.flatMap (bytesIn files)).length = (chunks.map NvmeChunk.length).sum := by
  rw [List.length_flatMap]
  exact congrArg List.sum (List.map_congr_left fun c _ => length_readRun _)

/-! ## Readers -/

section

variable {nbytes : ℕ} (hsum : (chunks.map NvmeChunk.length).sum = nbytes)
  (hend : ∀ c ∈ chunks, c.offset + c.length + 4096 ≤ 2 ^ 64) {pool : ℕ → Memory}
  {dst dst' : Memory} {s' : FaultyDisk}

/-- A reader has read the tensor: it says so, or the slots are published. -/
def ReadsTrue (cfg : NvmeConfig) (chunks : List NvmeChunk) (pool : ℕ → Memory) (dst : Memory)
    (s : FaultyDisk) (dst' : Memory) (s' : FaultyDisk) : Prop :=
  (nvmeRead cfg chunks pool dst).Runs faultyDoes s (true, dst') s' ∨
    (readback cfg chunks pool dst).Runs faultyDoes s (.pinnedValid, dst') s'

theorem ReadsTrue.runs (h : ReadsTrue cfg chunks pool dst s dst' s') :
    (nvmeRead cfg chunks pool dst).Runs faultyDoes s (true, dst') s' := by
  rcases h with hruns | hruns
  · exact hruns
  · obtain ⟨⟨ok, dst''⟩, s'', hruns, hpublish⟩ := hruns.of_bind
    cases ok with
    | false => exact nomatch hpublish
    | true =>
      cases hpublish
      exact hruns

include hsum in
theorem readRun_copyIn_flatMap :
    readRun (copyIn dst 0 (chunks.flatMap (bytesIn s.files))) 0 nbytes =
      chunks.flatMap (bytesIn s.files) := by
  rw [copyIn, length_flatMap_bytesIn, hsum]
  exact readRun_writeRun (by rw [length_flatMap_bytesIn, hsum])

include hsum hend in
/-- The plain loop can be believed if no call has failed and no file ends early. -/
theorem readsTrue_plain (hplain : cfg.useUringEngine = false) (hhas : s.Has chunks)
    (hfailed : s'.failed = false) (h : ReadsTrue cfg chunks pool dst s dst' s') :
    readRun dst' 0 nbytes = chunks.flatMap (bytesIn s.files) := by
  have hruns := h.runs
  rw [nvmeRead, if_neg (by rw [hplain]; decide)] at hruns
  obtain ⟨-, hfalse | heq⟩ := wp_alone_runs
    ((serves_faulty hhas hend).wp_nvmeReadPwrite cfg.block_pos rfl) hruns
  · rw [hfailed] at hfalse
    exact nomatch hfalse
  · rw [(Prod.mk.inj heq).2, readRun_copyIn_flatMap hsum]

variable (hqd : cfg.qd ≤ 2 ^ 16) (hsized : Sized (blockTransfers cfg.block chunks 0))

include hqd hsized in
/-- If the iovec of a block is too short for it, the ring never says that it has read it. -/
theorem not_runs_nvmeReadUring {j : ℕ} {b b' : BlockTransfer}
    (hj : j < min cfg.qd (blockTransfers cfg.block chunks 0).length)
    (hb : (blockTransfers cfg.block chunks 0)[j]? = some b)
    (hb' : (blockTransfers cfg.block chunks 0)[sharer cfg.qd
      (blockTransfers cfg.block chunks 0).length j]? = some b')
    (hlt : roundup b'.len 4096 < b.len) :
    ¬(nvmeReadUring cfg chunks pool dst).Runs faultyDoes s (true, dst') s' := by
  intro hruns
  obtain ⟨q, hq, -, -, hblk, -, -, hlen⟩ := exists_firstRequest (fun _ m => m) pool hqd hj hb hb'
  rw [nvmeReadUring] at hruns
  obtain ⟨ok, s₁, -, hruns⟩ := hruns.of_bind
  cases ok with
  | false => cases hruns
  | true =>
    obtain ⟨ok, s₂, -, hruns⟩ := hruns.of_bind
    cases ok with
    | false => cases hruns
    | true =>
      have hshort : Short (blockTransfers cfg.block chunks 0) (firstWindow (fun _ m => m)
          (blockTransfers cfg.block chunks 0) cfg.qd pool).pending :=
        ⟨q, List.mem_of_getElem? hq, b, hblk ▸ hb, hlen ▸ hlt⟩
      have hfalse : true = false := wp_alone_runs (Q := fun r _ => r.1 = false)
        (uringReadLoop_short cfg.qd_pos hqd hsized.count (by omega) hshort) hruns
      exact Bool.noConfusion hfalse

include hsum hend hqd hsized in
theorem readsTrue_of_believable (hcfg : cfg.Believable chunks)
    (h : ReadsTrue cfg chunks pool dst s dst' s') :
    readRun dst' 0 nbytes = chunks.flatMap (bytesIn s.files) := by
  have hruns := h.runs
  rw [NvmeConfig.Believable] at hcfg
  rw [nvmeRead] at hruns
  split at hcfg
  · next huring =>
    rw [if_pos huring] at hruns
    rcases hcfg with hnarrow | ⟨j, b, b', hj, hb, hb', hlt⟩
    · obtain ⟨-, ⟨hfalse, -⟩ | heq⟩ := wp_alone_runs (ringServes_faulty.wp_nvmeReadUring hqd
        hnarrow hend hsized.count (fun _ _ => .inl trivial) rfl) hruns
      · exact nomatch hfalse
      · rw [(Prod.mk.inj heq).2, readRun_copyIn_flatMap hsum]
    · exact absurd hruns (not_runs_nvmeReadUring hqd hsized hj hb hb' hlt)
  · -- There are no bytes.
    have hlength := length_flatMap_bytesIn s.files chunks
    rw [hcfg] at hlength
    rw [← hsum, hcfg, List.eq_nil_of_length_eq_zero hlength]
    rfl

/-- Large files of zeros. -/
def zeros : FaultyDisk where
  files _ := ⟨2 ^ 65, fun _ => 0, fun _ _ => rfl⟩

/-- No byte other than zero is read from them. -/
theorem mem_readRun_zeros {k : ℕ} {x : UInt8} (hk : k < nbytes) (hx : dst' k = x)
    (h : readRun dst' 0 nbytes = chunks.flatMap (bytesIn zeros.files)) : x = 0 := by
  have hmem : x ∈ readRun dst' 0 nbytes :=
    List.mem_map.2 ⟨k, List.mem_range.2 hk, by rw [Nat.zero_add, hx]⟩
  rw [h] at hmem
  obtain ⟨c, -, hmem⟩ := List.mem_flatMap.1 hmem
  obtain ⟨_, -, rfl⟩ := List.mem_map.1 hmem
  rfl

include hsum hend hqd hsized in
theorem believable_of_readsTrue
    (h : ∀ s pool dst dst' s', ReadsTrue cfg chunks pool dst s dst' s' →
      readRun dst' 0 nbytes = chunks.flatMap (bytesIn s.files)) : cfg.Believable chunks := by
  by_contra hcfg
  rw [NvmeConfig.Believable] at hcfg
  split at hcfg
  · next huring =>
    rw [not_or] at hcfg
    obtain ⟨hwide, hlong⟩ := hcfg
    push Not at hlong
    obtain ⟨b, hb⟩ := exists_first hwide
    have hread : AnswersReads faultyDoes zeros zeros.files :=
      fun _ i q hq => .inr ⟨i, q, hq, .inr ⟨rfl, _, le_rfl, rfl⟩⟩
    -- Whole blocks are read, but the first one not into its own buffer.
    have hsize : ∀ b ∈ blockTransfers cfg.block chunks 0, ∀ len < 2 ^ 31,
        len ≤ (zeros.files b.path).size - b.fileOff := by
      intro b hb len hlen
      obtain ⟨c, -, _, -, hb⟩ := mem_blockTransfers hb
      obtain ⟨o, -, -, rfl⟩ := mem_chunkBlocks hb
      change len ≤ 2 ^ 65 - (c.offset + o) % 2 ^ 64
      omega
    obtain ⟨ok, dst', hruns, hbyte, hok⟩ := nvmeReadUring_wide (fun _ => .inl ⟨rfl, rfl⟩)
      (.inl ⟨rfl, rfl⟩) hread hend hqd hsized.count hwide hb (fun _ _ => 7) fun _ => 0
    have hwhole : ∀ b ∈ blockTransfers cfg.block chunks 0, b.len ≤ min (roundup b.len 4096)
        ((zeros.files b.path).size - b.fileOff) ∧ roundup b.len 4096 < 2 ^ 31 := by
      intro b hb
      have hround := roundup_len hend hb
      have hint := hsized.len b hb
      have hle := hsize b hb b.len (by omega)
      omega
    have henough : Enough zeros.files (blockTransfers cfg.block chunks 0) (firstWindow
        (fun _ m => m) (blockTransfers cfg.block chunks 0) cfg.qd fun _ _ => 7).pending := by
      refine enough_firstWindow hqd _ fun j b b' hj hb hb' => ?_
      have hint := hsized.len b' (List.mem_of_getElem? hb')
      have hlen := hlong j b b' hj hb hb'
      have hle := hsize b (List.mem_of_getElem? hb) b.len (by omega)
      omega
    obtain rfl := hok hwhole henough
    have hlt := memOff_lt (List.mem_of_getElem? hb)
    rw [hsum, Nat.zero_add] at hlt
    have hzero := mem_readRun_zeros hlt (hbyte rfl)
      (h zeros _ _ dst' zeros (.inl (by rwa [nvmeRead, if_pos huring])))
    exact absurd hzero (by decide)
  · next hplain =>
    -- The first file cannot be opened.
    cases chunks with
    | nil => exact hcfg rfl
    | cons c chunks =>
      have hruns : (nvmeRead cfg (c :: chunks) (fun _ _ => 7) fun _ => 7).Runs faultyDoes zeros
          (true, fun _ => 7) zeros.fail := by
        have hsetup : faultyDoes .setup zeros true zeros := .inl ⟨rfl, rfl⟩
        have hopen : faultyDoes (.openFile c.path) zeros false zeros.fail := .inr ⟨rfl, rfl⟩
        rw [nvmeRead, if_neg hplain]
        exact .call hsetup (.call hopen .ret)
      have hpos : 0 < nbytes := by omega
      exact absurd (mem_readRun_zeros hpos rfl (h zeros _ _ _ _ (.inl hruns))) (by decide)

end

/-- If a reader says that it has read the tensor, or the slots are published, then all of their
    bytes are those of the chunks: whatever fails, exactly if the reader can be believed; and with
    the plain loop, if no call has failed and no file ends early. -/
theorem nvmeRead_complete {nbytes : ℕ} (hsum : (chunks.map NvmeChunk.length).sum = nbytes)
    (hend : ∀ c ∈ chunks, c.offset + c.length + 4096 ≤ 2 ^ 64) (hqd : cfg.queueDepth ≤ 2 ^ 16)
    (hsized : Sized (blockTransfers cfg.block chunks 0)) :
    ((∀ s pool dst dst' s', ReadsTrue cfg chunks pool dst s dst' s' →
        readRun dst' 0 nbytes = chunks.flatMap (bytesIn s.files)) ↔ cfg.Believable chunks) ∧
    (cfg.useUringEngine = false → ∀ s pool dst dst' s', s.Has chunks → s'.failed = false →
      ReadsTrue cfg chunks pool dst s dst' s' →
        readRun dst' 0 nbytes = chunks.flatMap (bytesIn s.files)) := by
  have hqd' : cfg.qd ≤ 2 ^ 16 := by
    rw [NvmeConfig.qd]
    omega
  exact ⟨⟨believable_of_readsTrue hsum hend hqd' hsized,
    fun hcfg _ _ _ _ _ => readsTrue_of_believable hsum hend hqd' hsized hcfg⟩,
    fun hplain _ _ _ _ _ => readsTrue_plain hsum hend hplain⟩

/-- One stripe that is read with the plain loop. -/
def plainLoop : NvmeConfig where
  nvmePath := "/nvme".toList
  stripeCount := 1
  useUringEngine := false

def byteChunk : NvmeChunk := ⟨plainLoop.stripePath 0, 0, 1⟩

/-- The byte of each file is 5. -/
def fives : FaultyDisk where
  files _ := File.empty.write 0 [5]

/-- The byte is read if nothing fails, but the reader cannot be believed. -/
theorem nvmeRead_complete_plain :
    (∃ dst' s', (nvmeRead plainLoop [byteChunk] (fun _ _ => 0) fun _ => 7).Runs faultyDoes fives
        (true, dst') s' ∧ readRun dst' 0 1 = [5]) ∧
      ¬∀ s pool dst dst' s', ReadsTrue plainLoop [byteChunk] pool dst s dst' s' →
        readRun dst' 0 1 = [byteChunk].flatMap (bytesIn s.files) := by
  have hruns : (nvmeRead plainLoop [byteChunk] (fun _ _ => 0) fun _ => 7).Runs faultyDoes fives
      (true, copyIn (fun _ => 7) 0 [5]) fives := by
    have hsetup : faultyDoes .setup fives true fives := .inl ⟨rfl, rfl⟩
    have hopen : faultyDoes (.openFile byteChunk.path) fives true fives := .inl ⟨rfl, rfl⟩
    -- The first read gets the byte, the second one is at the end of the file.
    have hread : faultyDoes (.pread byteChunk.path 0 4096) fives (some [5]) fives :=
      .inr ⟨rfl, 1, by decide, fun _ _ => Nat.one_pos, rfl⟩
    have hend : faultyDoes (.pread byteChunk.path 1 4095) fives (some []) fives :=
      .inr ⟨rfl, 0, by decide, by decide, rfl⟩
    exact .call hsetup (.call hopen (.call hread (.call hend .ret)))
  have hend : ∀ c ∈ [byteChunk], c.offset + c.length + 4096 ≤ 2 ^ 64 := by
    rw [List.forall_mem_singleton]
    decide
  have hhas : fives.Has [byteChunk] := by
    intro c hc _
    rw [List.mem_singleton.1 hc]
    decide
  have hsized : Sized (blockTransfers plainLoop.block [byteChunk] 0) :=
    ⟨by decide, by decide⟩
  refine ⟨⟨_, _, hruns, (nvmeRead_complete rfl hend (by decide) hsized).2 rfl fives _ _ _ fives
    hhas rfl (.inl hruns)⟩, mt (nvmeRead_complete rfl hend (by decide) hsized).1.1 ?_⟩
  rw [NvmeConfig.Believable, if_neg (by decide)]
  decide

/-- A file cannot be opened, and the slots are published with the bytes that were in them. -/
theorem unread_published :
    ∃ dst' s', (readback plainLoop [byteChunk] (fun _ _ => 0) fun _ => 7).Runs faultyDoes fives
        (.pinnedValid, dst') s' ∧
      readRun dst' 0 1 ≠ [byteChunk].flatMap (bytesIn fives.files) := by
  refine ⟨fun _ => 7, fives.fail, ?_, by decide⟩
  have hsetup : faultyDoes .setup fives true fives := .inl ⟨rfl, rfl⟩
  have hopen : faultyDoes (.openFile byteChunk.path) fives false fives.fail := .inr ⟨rfl, rfl⟩
  exact .call hsetup (.call hopen .ret)

end StateSpectre.Nvme
