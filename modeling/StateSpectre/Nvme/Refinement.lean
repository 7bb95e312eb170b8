import StateSpectre.Nvme.Wide

/-!
# The ring refines the plain loops

Alone on the disk, the engine with the ring records the same chunks, leaves the same files and
reads the same bytes as the one with `pwrite` and `pread`, in whatever order the requests are
completed. For writing this is so exactly if at most 64 blocks are in flight and the blocks do not
overlap, and for reading exactly if at most 64 blocks are in flight (`nvmeUring_refines`).

There are 64 iovecs, and a buffer has the one of its index modulo 64; with more blocks in flight
the first block is written from the buffer of a later one (`uringWriteLoop_wide`). And if the
padding of a block reaches into the next one, the next one has to be written after it; but the ring
may complete it last (`uringWriteLoop_last`).
-/

namespace StateSpectre.Nvme

open Discipline

variable {ι : Type} {t : ι} {s : Disk ι} {cfg : NvmeConfig} {src bytes : List UInt8}
  {ios : List BlockTransfer} {b b' : BlockTransfer} {chunks : List NvmeChunk} {segs : List ℕ}
  {block consumed i n qd fuel : ℕ} {comp : List ℕ} {v : Window} {x : UInt8} {dst : Memory}

/-! ## Blocks and their files -/

/-- In each file the blocks follow each other. -/
theorem pairwise_fileOff (hpos : 0 < block)
    (hend : ∀ c ∈ chunks, c.offset + c.length + 4096 ≤ 2 ^ 64)
    (hpaths : chunks.Pairwise fun c c' => c.path ≠ c'.path) :
    (blockTransfers block chunks consumed).Pairwise fun b b' =>
      b.path = b'.path → b.fileOff < b'.fileOff := by
  induction chunks generalizing consumed with
  | nil => exact .nil
  | cons c chunks ih =>
    obtain ⟨hc, hchunks⟩ := List.forall_mem_cons.1 hend
    obtain ⟨hne, hpaths⟩ := List.pairwise_cons.1 hpaths
    rw [blockTransfers]
    refine List.pairwise_append.2 ⟨(pairwise_chunkBlocks hc).imp fun h _ => by omega,
      ih hchunks hpaths, fun b hb b' hb' hpath => ?_⟩
    obtain ⟨o, -, -, rfl⟩ := mem_chunkBlocks hb
    obtain ⟨c', hc', _, -, hb'⟩ := mem_blockTransfers hb'
    obtain ⟨o', -, -, rfl⟩ := mem_chunkBlocks hb'
    exact absurd hpath (hne c' hc')

theorem path_reserveSegments {c : NvmeChunk} (h : c ∈ (reserveSegments cfg t i segs s).1) :
    ∃ j, i ≤ j ∧ j < i + segs.length ∧ c.path = cfg.stripePath j := by
  induction segs generalizing i s with
  | nil => exact nomatch h
  | cons seg segs ih =>
    rw [List.length_cons]
    rw [reserveSegments] at h
    split at h
    · obtain ⟨j, hj, hlt, hpath⟩ := ih h
      exact ⟨j, by omega, by omega, hpath⟩
    · rcases List.mem_cons.1 h with rfl | h
      · exact ⟨i, le_rfl, by omega, rfl⟩
      · obtain ⟨j, hj, hlt, hpath⟩ := ih h
        exact ⟨j, by omega, by omega, hpath⟩

theorem pairwise_reserveSegments (hpaths : cfg.PathsDiffer)
    (hle : i + segs.length ≤ cfg.stripeCount) :
    (reserveSegments cfg t i segs s).1.Pairwise fun c c' => c.path ≠ c'.path := by
  induction segs generalizing i s with
  | nil => exact .nil
  | cons seg segs ih =>
    rw [List.length_cons] at hle
    rw [reserveSegments]
    split
    · exact ih (by omega)
    · refine List.pairwise_cons.2 ⟨fun c hc hpath => ?_, ih (by omega)⟩
      obtain ⟨j, hj, hlt, hpath'⟩ := path_reserveSegments hc
      have := hpaths i (by omega) j (by omega) (hpath.trans hpath')
      omega

/-- Nothing is left out but segments without bytes. -/
theorem sum_reserveSegments (i : ℕ) (segs : List ℕ) :
    ((reserveSegments cfg t i segs s).1.map NvmeChunk.length).sum = segs.sum := by
  induction segs generalizing i s with
  | nil => rfl
  | cons seg segs ih =>
    rw [reserveSegments, List.sum_cons]
    split
    · next hzero => rw [ih, hzero.1, Nat.zero_add]
    · rw [List.map_cons, List.sum_cons, ih]

/-- The blocks of a tensor of `n` bytes. -/
def Disk.blocks (cfg : NvmeConfig) (t : ι) (s : Disk ι) (n : ℕ) : List BlockTransfer :=
  blockTransfers cfg.block (s.layout cfg t n).1 0

section

variable (hroom : s.HasRoom 0 (stripeSegments cfg.stripeCount n))

include hroom

theorem bound_layout : ∀ c ∈ (s.layout cfg t n).1, c.offset + c.length + 4096 ≤ 2 ^ 64 :=
  fun _ hc => mem_reserveSegments hroom hc

theorem blocks_len (hb : b ∈ s.blocks cfg t n) : 0 < b.len ∧ b.len ≤ roundup b.len 4096 :=
  ⟨len_pos cfg.block_pos hb, (roundup_len (bound_layout hroom) hb).2.1⟩

theorem blocks_memOff :
    (s.blocks cfg t n).Pairwise fun b b' => b.memOff + b.len ≤ b'.memOff :=
  pairwise_memOff (bound_layout hroom)

theorem blocks_fileOff (hpaths : cfg.PathsDiffer) :
    (s.blocks cfg t n).Pairwise fun b b' => b.path = b'.path → b.fileOff < b'.fileOff := by
  refine pairwise_fileOff cfg.block_pos (bound_layout hroom) (pairwise_reserveSegments hpaths ?_)
  rw [length_stripeSegments cfg.stripeCount_pos]
  omega

end

theorem blocks_memOff_lt (hb : b ∈ s.blocks cfg t n) : b.memOff < n := by
  have hlt : b.memOff < 0 + ((s.layout cfg t n).1.map NvmeChunk.length).sum := memOff_lt hb
  rwa [Disk.layout, sum_reserveSegments, sum_stripeSegments cfg.stripeCount_pos, Nat.zero_add]
    at hlt

/-! ## A tensor with one byte set -/

/-- Zeros, but for a byte. -/
def oneAt (n k : ℕ) : List UInt8 := (List.replicate n 0).set k 1

theorem length_oneAt (n k : ℕ) : (oneAt n k).length = n := by
  rw [oneAt, List.length_set, List.length_replicate]

theorem bytes_oneAt_self (hlen : 0 < b.len) (hlt : b.memOff < n) :
    (b.bytes (oneAt n b.memOff))[0]? = some 1 := by
  have hget : (oneAt n b.memOff)[b.memOff]? = some 1 := by
    rw [oneAt, List.getElem?_set_self (by rwa [List.length_replicate])]
  have hpos : 0 < (((oneAt n b.memOff).drop b.memOff).take b.len).length := by
    rw [List.length_take, List.length_drop, length_oneAt]
    omega
  rw [BlockTransfer.bytes, padTo, List.getElem?_append_left hpos, List.getElem?_take_of_lt hlen,
    List.getElem?_drop, Nat.add_zero, hget]

/-- The byte is not in the block. -/
theorem bytes_oneAt {k : ℕ} (hk : k < b.memOff ∨ b.memOff + b.len ≤ k)
    (hx : x ∈ b.bytes (oneAt n k)) : x = 0 := by
  rcases List.mem_append.1 hx with hx | hx
  · obtain ⟨j, hj, rfl⟩ := List.mem_take_iff_getElem.1 hx
    rw [List.getElem_drop]
    simp only [oneAt]
    rw [List.getElem_set_ne (by omega), List.getElem_replicate]
  · exact (List.mem_replicate.1 hx).2

/-- What the plain loop leaves where a block begins. -/
theorem foldl_writeBlock_byte
    (hios : ios.Pairwise fun b b' => b.path = b'.path → b.fileOff < b'.fileOff) (hb : b ∈ ios)
    (hx : (b.bytes src)[0]? = some x) :
    ((ios.foldl (Disk.writeBlock src) s).files b.path).byte b.fileOff = x := by
  have hlt := (List.getElem?_eq_some_iff.1 hx).1
  have hself (s : Disk ι) : ((s.writeBlock src b).files b.path).byte b.fileOff = x :=
    (Option.some.inj (hx.symm.trans (Disk.write_byte_head hlt))).symm
  exact foldl_eq_of_pairwise (g := fun s : Disk ι => (s.files b.path).byte b.fileOff) hios hb hself
    (fun b' hoff s => Disk.write_byte_of_lt fun hpath => hoff hpath.symm) s

/-! ## Blocks that overlap -/

/-- Once all blocks are completed, none is missing. -/
theorem Numbered.mem_comp {free : List ℕ} (h : Numbered ios qd free comp v)
    (hdone : ios.length ≤ v.done) (hi : i < ios.length) : i ∈ comp := by
  have hblks := h.length_blks
  have hnext := h.next_le
  have hcomp := h.done
  have hnil : v.flights = [] := List.eq_nil_of_length_eq_zero (by omega)
  have hmem := h.blks.mem_iff.2 (List.mem_range.2 (by omega : i < v.next))
  rwa [hnil, List.map_nil, List.append_nil] at hmem

/-- If only one block is in flight when the pipe is filled, it is the last one. -/
theorem Round.last {load : BlockTransfer → Memory → Memory} {w : Window}
    (h : Round load ios qd comp v w) (hqd : 1 < qd) (hios : ios.length ≤ 2 ^ 32)
    (hone : w.pending.length = 1) : ios.length ≤ v.done + 1 := by
  obtain ⟨hfill, hfull⟩ := h.before.fill load hios
  obtain rfl := h.eq
  have hflights : (fill load ios qd v.freeBufs v).flights.length = 1 := by
    simpa [Window.flights, submit] using hone
  have hblks := hfill.length_blks
  have hlength := hfill.length
  have hinflight := hfill.inflight
  have hdone := h.before.done
  rcases hfull with hfull | hfull | hnil
  · omega
  · omega
  · rw [hnil, List.length_nil] at hlength
    omega

/-- One of two blocks in flight is not the block `i`. -/
theorem Numbered.exists_other {free : List ℕ} (h : Numbered ios qd free comp v)
    (hne : v.pending ≠ []) (i : ℕ) :
    ∃ (k : ℕ) (q : Request), v.pending[k]? = some q ∧ (q.blk = i → v.pending.length = 1) := by
  have hnodup : (v.pending.map (·.toFlight.blk)).Nodup := by
    have hblks := (List.nodup_append.1 (h.blks.nodup_iff.2 List.nodup_range)).2.1
    rw [Window.flights, List.map_append, List.map_map] at hblks
    exact (List.nodup_append.1 hblks).1
  rcases hpending : v.pending with _ | ⟨q, _ | ⟨q', rest⟩⟩
  · exact absurd hpending hne
  · exact ⟨0, q, rfl, fun _ => rfl⟩
  · rw [hpending, List.map_cons, List.map_cons, List.nodup_cons, List.mem_cons] at hnodup
    by_cases hq : q.blk = i
    · exact ⟨1, q', rfl, fun hq' => absurd (.inl (hq.trans hq'.symm)) hnodup.1⟩
    · exact ⟨0, q, rfl, fun hq' => absurd hq' hq⟩

/-- The ring may complete a block after all the other ones, if more than one is in flight. -/
theorem uringWriteLoop_last (hqd : 1 < qd) (hios : ios.length ≤ 2 ^ 32)
    (hround : ∀ b ∈ ios, b.len ≤ roundup b.len 4096 ∧ roundup b.len 4096 < 2 ^ 31)
    (hb : ios[i]? = some b) {pool : ℕ → Memory}
    (hstart : Flying (Loaded src) ios qd (Window.start qd pool).freeBufs [] (.start qd pool)) :
    ∃ r s', (uringWriteLoop src ios qd (ios.length + 1) (.start qd pool)).Runs (does t) s r s' ∧
      ∃ s'' : Disk ι, s' = s''.writeBlock src b := by
  have hlt := (List.getElem?_eq_some_iff.1 hb).1
  refine slide_runs (I := fun comp v _ s' => Flying (Loaded src) ios qd v.freeBufs comp v ∧
      (i ∈ comp → ios.length ≤ v.done ∧ ∃ s'' : Disk ι, s' = s''.writeBlock src b))
    (by omega) hios (fun comp v _ s' hv hdone hI => ?_) hstart.toNumbered
    (Nat.lt_add_left _ (Nat.lt_succ_self _)) ⟨hstart, fun h => absurd h List.not_mem_nil⟩
    fun comp v w _ s' hr ⟨hv, hi⟩ => ?_
  · exact (hI.2 (hv.mem_comp hdone hlt)).2
  have hw := hv.round hr hios fun b hb m => loaded_loadBlock (hround b hb).1 m
  obtain ⟨k, q, hq, hother⟩ := hr.waits.exists_other hr.pending i
  obtain ⟨b', hb', hnoted, hloads⟩ := hw.carries
    (List.mem_append_left _ (List.mem_of_getElem? hq))
  obtain ⟨hle, hint⟩ := hround b' (List.mem_of_getElem? hb')
  refine ⟨_, _, runs_waitBlockWritten hq (hloads.bytes_eq), .goes_on hq
    (finishWrite_of_noted hnoted hle hint) ⟨hw.reap hr.sqes hq, fun hmem => ?_⟩⟩
  rcases List.mem_append.1 hmem with hmem | hmem
  · exact absurd hr.left (Nat.not_lt.2 (hi hmem).1)
  · -- All the other ones are done.
    have hblk := (List.mem_singleton.1 hmem).symm
    have hdone := hr.waits.done.trans hr.before.done.symm
    obtain rfl : b' = b := Option.some.inj (hb'.symm.trans (hblk ▸ hb))
    refine ⟨?_, s', by rw [hnoted.path, hnoted.fileOff]; rfl⟩
    exact (hr.last hqd hios (hother hblk)).trans_eq (congrArg (· + 1) hdone.symm)

/-! ## Writing -/

theorem runs_nvmeWriteUring {pool : ℕ → Memory} {r : Bool × Unit} {s' : Disk ι}
    (hloop : (uringWriteLoop src (s.blocks cfg t src.length) cfg.qd
      ((s.blocks cfg t src.length).length + 1) (.start cfg.qd pool)).Runs (does t)
        (s.layout cfg t src.length).2 r s') :
    (nvmeWriteUring cfg src pool).Runs (does t) s (r.1, (s.layout cfg t src.length).1) s' := by
  have hopen : (openStripes cfg 0 (stripeSegments cfg.stripeCount src.length) []).Runs (does t) s
      (true, (s.layout cfg t src.length).1) (s.layout cfg t src.length).2 :=
    (openStripes_yields src.length).runs_iff.2 ⟨rfl, rfl⟩
  have hsetup : does t .setup (s.layout cfg t src.length).2 true (s.layout cfg t src.length).2 :=
    ⟨rfl, rfl⟩
  rw [nvmeWriteUring]
  exact hopen.bind (.call hsetup (hloop.bind .ret))

/-- Both engines write the tensor, and end in the same way. -/
def WritesAgree (cfg : NvmeConfig) (t : ι) (s : Disk ι) (src : List UInt8) (pool : ℕ → Memory) :
    Prop :=
  ∃ r s', (nvmeWriteUring cfg src pool).Yields (does t) s r s' ∧
    (nvmeWritePwrite cfg src).Yields (does t) s r s'

section

variable {pool : ℕ → Memory} (hroom : s.HasRoom 0 (stripeSegments cfg.stripeCount src.length))
  (hpaths : cfg.PathsDiffer)

include hroom hpaths

/-- A run of the ring that does not leave its first byte where a block begins. -/
theorem not_writesAgree {r : Bool × Unit} {s' : Disk ι} (hb : b ∈ s.blocks cfg t src.length)
    (hx : (b.bytes src)[0]? = some x)
    (hloop : (uringWriteLoop src (s.blocks cfg t src.length) cfg.qd
      ((s.blocks cfg t src.length).length + 1) (.start cfg.qd pool)).Runs (does t)
        (s.layout cfg t src.length).2 r s')
    (hne : (s'.files b.path).byte b.fileOff ≠ x) : ¬WritesAgree cfg t s src pool := by
  rintro ⟨r, s₁, huring, hpwrite⟩
  obtain rfl := (huring.runs_iff.1 (runs_nvmeWriteUring hloop)).2
  have hplain : (nvmeWritePwrite cfg src).Yields (does t) s _ _ := wp_nvmeWritePwrite_alone hroom
  obtain rfl := (hpwrite.runs_iff.1 (hplain.runs_iff.2 ⟨rfl, rfl⟩)).2
  exact hne (foldl_writeBlock_byte (blocks_fileOff hroom hpaths) hb hx)

end

section

variable (hroom : s.HasRoom 0 (stripeSegments cfg.stripeCount n))
  (hsized : Sized (s.blocks cfg t n)) (hpaths : cfg.PathsDiffer) (hqd : cfg.qd ≤ 2 ^ 16)

include hroom hsized hpaths hqd

/-- Only the first byte of the first block is set, and the ring leaves it out. -/
theorem not_writesAgree_of_wide (hwide : ¬cfg.Narrow (s.blocks cfg t n))
    (hb : (s.blocks cfg t n)[0]? = some b) (pool : ℕ → Memory) :
    ¬WritesAgree cfg t s (oneAt n b.memOff) pool := by
  rw [NvmeConfig.Narrow, not_or, Nat.not_le, Nat.not_le] at hwide
  obtain ⟨hqd', hlength⟩ := hwide
  have hmem := List.mem_of_getElem? hb
  have hlen := (blocks_len hroom hmem).1
  have hone := bytes_oneAt_self hlen (blocks_memOff_lt hmem)
  have hother : ∀ b' ∈ (s.blocks cfg t n).tail, ∀ x ∈ b'.bytes (oneAt n b.memOff), x = 0 := by
    intro b' hb' x
    have hle := rel_of_mem_tail (blocks_memOff hroom) hb b' hb'
    exact bytes_oneAt (.inl (by omega))
  have hsrc := length_oneAt n b.memOff
  generalize oneAt n b.memOff = src at *
  subst hsrc
  obtain ⟨b', hb', ok, s', hruns, hbyte⟩ := uringWriteLoop_wide (t := t)
    (s := (s.layout cfg t src.length).2) hqd' hqd hlength hsized.count
    (fun b hb => blocks_len hroom hb) hb
    (fun b' hb' hpath => rel_of_mem_tail (blocks_fileOff hroom hpaths) hb b' hb' hpath.symm) pool
  refine not_writesAgree hroom hpaths hmem hone hruns ?_
  rw [hother b' hb' _ (List.mem_of_getElem? hbyte)]
  decide

/-- Only the first byte of a block is set that the padding of another one covers. The ring may
    complete the other one last. -/
theorem apart_of_writesAgree (hnarrow : cfg.Narrow (s.blocks cfg t n))
    (hagree : ∀ src pool, src.length = n → WritesAgree cfg t s src pool) :
    cfg.Apart (s.blocks cfg t n) := by
  by_contra hoverlap
  rw [NvmeConfig.Apart, not_or, List.pairwise_iff_getElem] at hoverlap
  obtain ⟨hqd', hpair⟩ := hoverlap
  push Not at hpair
  obtain ⟨i, j, hi, hj, hij, hpath, hoff⟩ := hpair
  have hle := List.pairwise_iff_getElem.1 (blocks_memOff hroom) i j hi hj hij
  have hlt := List.pairwise_iff_getElem.1 (blocks_fileOff hroom hpaths) i j hi hj hij hpath
  have hb := List.getElem?_eq_getElem hi
  have hmem := List.getElem_mem hj
  generalize (s.blocks cfg t n)[i] = b at *
  generalize (s.blocks cfg t n)[j] = b' at *
  have hround : ∀ b ∈ s.blocks cfg t n, b.len ≤ roundup b.len 4096 ∧ roundup b.len 4096 < 2 ^ 31 :=
    fun b hb => ⟨(blocks_len hroom hb).2, hsized.len b hb⟩
  have hone := bytes_oneAt_self (blocks_len hroom hmem).1 (blocks_memOff_lt hmem)
  have hother : ∀ x ∈ b.bytes (oneAt n b'.memOff), x = 0 := fun x => bytes_oneAt (.inr hle)
  have hsrc := length_oneAt n b'.memOff
  generalize oneAt n b'.memOff = src at *
  subst hsrc
  have hpos := cfg.qd_pos
  obtain ⟨ok, _, hruns, s', rfl⟩ := uringWriteLoop_last (t := t)
    (s := (s.layout cfg t src.length).2) (by omega) hsized.count hround hb
    (Flying.start hqd hnarrow fun _ _ => 0)
  have hd : b'.fileOff - b.fileOff < (b.bytes src).length := by
    rw [length_bytes (hround b (List.mem_of_getElem? hb)).1]
    omega
  have hbyte : copyIn (s'.files b.path).byte b.fileOff (b.bytes src)
      (b.fileOff + (b'.fileOff - b.fileOff)) = _ := copyIn_add hd
  refine not_writesAgree hroom hpaths hmem hone hruns ?_ (hagree src _ rfl)
  rw [Disk.writeBlock, ← hpath, Disk.write_files_self, File.write_byte,
    ← Nat.add_sub_cancel' hlt.le, hbyte, hother _ (List.getElem_mem hd)]
  decide

end

/-! ## Reading -/

/-- Both engines read the chunks, and end in the same way. -/
def ReadsAgree (cfg : NvmeConfig) (t : ι) (s : Disk ι) (chunks : List NvmeChunk)
    (pool : ℕ → Memory) (abuf dst : Memory) : Prop :=
  ∃ r, (nvmeReadUring cfg chunks pool dst).Yields (does t) s r s ∧
    (nvmeReadPwrite cfg chunks abuf dst).Yields (does t) s r s

theorem ringServes_alone : RingServes (does t) (· = s) (fun _ => False) s.files where
  setup s' hs := by
    refine ⟨⟨true, s', rfl, rfl⟩, ?_⟩
    rintro a s'' ⟨rfl, rfl⟩
    exact ⟨hs, fun h => nomatch h⟩
  openFile path s' hs := by
    refine ⟨⟨true, s', rfl, rfl⟩, ?_⟩
    rintro a s'' ⟨rfl, rfl⟩
    exact ⟨hs, fun h => nomatch h⟩
  waitRead pending s' hne hs := by
    subst hs
    obtain ⟨q, rest, rfl⟩ := List.exists_cons_of_ne_nil hne
    refine ⟨⟨_, s', rfl, 0, q, rfl, rfl⟩, ?_⟩
    rintro a s'' ⟨rfl, i, q', hq', rfl⟩
    exact ⟨rfl, q', _, hq', rfl, Nat.min_le_left .., .inr rfl⟩

theorem readsAgree (hhas : s.Has chunks) (hsized : Sized (blockTransfers cfg.block chunks 0))
    (hqd : cfg.qd ≤ 2 ^ 16) (hnarrow : cfg.Narrow (blockTransfers cfg.block chunks 0))
    (pool : ℕ → Memory) (abuf dst : Memory) : ReadsAgree cfg t s chunks pool abuf dst := by
  refine ⟨_, ?_, wp_nvmeReadPwrite_alone hhas abuf dst⟩
  refine wp_mono ?_ (ringServes_alone.wp_nvmeReadUring hqd hnarrow hhas.bound hsized.count
    (fun _ _ => .inr ⟨hsized.len, hhas.le_size⟩) rfl)
  rintro x s' ⟨rfl, ⟨-, hfalse⟩ | rfl⟩
  · exact hfalse.elim
  · exact ⟨rfl, rfl⟩

theorem narrow_of_readsAgree (hhas : s.Has chunks)
    (hsized : Sized (blockTransfers cfg.block chunks 0)) (hqd : cfg.qd ≤ 2 ^ 16)
    (hagree : ∀ pool abuf dst, ReadsAgree cfg t s chunks pool abuf dst) :
    cfg.Narrow (blockTransfers cfg.block chunks 0) := by
  by_contra hwide
  have hread : AnswersReads (does t) s s.files := fun _ i q hq => ⟨rfl, i, q, hq, rfl⟩
  obtain ⟨b, hb⟩ := exists_first hwide
  -- No buffer has the byte of the file.
  obtain ⟨x, hx⟩ : ∃ x, x ≠ (s.files b.path).byte b.fileOff :=
    if h : (s.files b.path).byte b.fileOff = 0 then ⟨1, h ▸ by decide⟩ else ⟨0, Ne.symm h⟩
  obtain ⟨ok, dst', hruns, hbyte, -⟩ := nvmeReadUring_wide (fun _ => ⟨rfl, rfl⟩) ⟨rfl, rfl⟩ hread
    hhas.bound hqd hsized.count hwide hb (fun _ _ => x) fun _ => 0
  obtain ⟨r, huring, hpwrite⟩ := hagree (fun _ _ => x) (fun _ => 0) fun _ => 0
  have hplain : (nvmeReadPwrite cfg chunks _ _).Yields (does t) s _ s :=
    wp_nvmeReadPwrite_alone hhas (fun _ => 0) fun _ => 0
  obtain ⟨rfl, rfl⟩ := Prod.mk.inj ((huring.runs_iff.1 hruns).1.trans
    (hpwrite.runs_iff.1 (hplain.runs_iff.2 ⟨rfl, rfl⟩)).1.symm)
  exact hx ((hbyte rfl).symm.trans (copyIn_flatMap_head hhas.bound hb))

/-! ## Both engines -/

/-- Alone on the disk, the engines agree on every tensor of `n` bytes exactly if at most 64 of its
    blocks are in flight and, unless they are written one by one, the padding of no block reaches
    into another one. They agree on what they read from chunks that are in their files exactly if
    at most 64 blocks are in flight. -/
theorem nvmeUring_refines (hpaths : cfg.PathsDiffer) (hqd : cfg.queueDepth ≤ 2 ^ 16) (t : ι)
    (s : Disk ι) :
    (∀ n, s.HasRoom 0 (stripeSegments cfg.stripeCount n) → Sized (s.blocks cfg t n) →
      ((∀ src pool, src.length = n → WritesAgree cfg t s src pool) ↔
        cfg.Narrow (s.blocks cfg t n) ∧ cfg.Apart (s.blocks cfg t n))) ∧
    ∀ chunks, s.Has chunks → Sized (blockTransfers cfg.block chunks 0) →
      ((∀ pool abuf dst, ReadsAgree cfg t s chunks pool abuf dst) ↔
        cfg.Narrow (blockTransfers cfg.block chunks 0)) := by
  have hqd' : cfg.qd ≤ 2 ^ 16 := by
    rw [NvmeConfig.qd]
    omega
  refine ⟨fun n hroom hsized => ⟨fun hagree => ?_, ?_⟩, fun chunks hhas hsized =>
    ⟨narrow_of_readsAgree hhas hsized hqd', readsAgree hhas hsized hqd'⟩⟩
  · have hnarrow : cfg.Narrow (s.blocks cfg t n) := by
      by_contra hwide
      obtain ⟨b, hb⟩ := exists_first hwide
      exact not_writesAgree_of_wide hroom hsized hpaths hqd' hwide hb (fun _ _ => 0)
        (hagree _ _ (length_oneAt ..))
    exact ⟨hnarrow, apart_of_writesAgree hroom hsized hpaths hqd' hnarrow hagree⟩
  · rintro ⟨hnarrow, hapart⟩ src pool rfl
    exact ⟨_, _, wp_nvmeWriteUring_alone rfl hsized hapart hqd' hnarrow hroom pool,
      wp_nvmeWritePwrite_alone hroom⟩

/-- Two stripes, and two blocks in flight. -/
def narrowWindow : NvmeConfig where
  nvmePath := "/nvme".toList
  stripeCount := 2
  blockBytes := 4096
  queueDepth := 2
  stripeCount_pos := Nat.two_pos

def blankDisk : Disk Unit where
  files _ := .empty

/-- Tensors of three bytes, and a byte that is in a file. -/
theorem nvmeUring_refines_narrow :
    (∀ src pool, src.length = 3 → WritesAgree narrowWindow () blankDisk src pool) ∧
    ∀ pool abuf dst, ReadsAgree narrowWindow () (blankDisk.write (narrowWindow.stripePath 0) 0 [7])
      [⟨narrowWindow.stripePath 0, 0, 1⟩] pool abuf dst := by
  have hpaths : narrowWindow.PathsDiffer := by decide +kernel
  refine ⟨((nvmeUring_refines hpaths (by decide) () blankDisk).1 3 (fun j seg hseg => ?_)
      ⟨by decide +kernel, by decide +kernel⟩).2 ⟨.inl (by decide), .inr (by decide +kernel)⟩,
    ((nvmeUring_refines hpaths (by decide) () _).2 _ ⟨fun c hc _ => ?_, fun c hc => ?_⟩
      ⟨by decide +kernel, by decide +kernel⟩).2 (.inl (by decide))⟩
  · have hle : ∀ seg ∈ stripeSegments narrowWindow.stripeCount 3, seg ≤ 2 := by decide +kernel
    have hseg' := hle seg (List.mem_of_getElem? hseg)
    change 0 % 2 ^ 64 + seg + 4096 ≤ 2 ^ 64
    omega
  · rw [List.mem_singleton.1 hc, Disk.write_files_self]
    exact File.le_size_write _ 0 (List.cons_ne_nil 7 [])
  · rw [List.mem_singleton.1 hc]
    decide

/-- One stripe, blocks of 4096 bytes, and 65 of them in flight. -/
def wideWindow : NvmeConfig where
  nvmePath := "/nvme".toList
  stripeCount := 1
  blockBytes := 4096
  queueDepth := 65
  stripeCount_pos := Nat.one_pos

/-- With 65 blocks in flight the ring leaves another file than the plain loop: its first block has
    the bytes of the last one. -/
theorem wideWindow_diverges :
    ¬WritesAgree wideWindow () blankDisk (oneAt (65 * 4096) 0) fun _ _ => 0 := by
  have hsegs : stripeSegments wideWindow.stripeCount (65 * 4096) = [65 * 4096] := by
    decide +kernel
  have hroom : blankDisk.HasRoom 0 (stripeSegments wideWindow.stripeCount (65 * 4096)) := by
    rw [hsegs]
    intro j seg hseg
    rw [List.mem_singleton.1 (List.mem_of_getElem? hseg)]
    exact Nat.le_of_lt (by decide : 0 + 65 * 4096 + 4096 < 2 ^ 64)
  have hlayout : (blankDisk.layout wideWindow () (65 * 4096)).1 =
      [⟨wideWindow.stripePath 0, 0, 65 * 4096⟩] := by
    rw [Disk.layout, hsegs, reserveSegments, reserveSegments, if_neg (by decide)]
    rfl
  have hblocks : blankDisk.blocks wideWindow () (65 * 4096) =
      blockTransfers wideWindow.block [⟨wideWindow.stripePath 0, 0, 65 * 4096⟩] 0 := by
    rw [Disk.blocks, hlayout]
  have hsized : Sized (blankDisk.blocks wideWindow () (65 * 4096)) := by
    rw [hblocks]
    exact ⟨by decide +kernel, by decide +kernel⟩
  have hwide : ¬wideWindow.Narrow (blankDisk.blocks wideWindow () (65 * 4096)) := by
    rw [hblocks]
    decide +kernel
  have hfirst : (blankDisk.blocks wideWindow () (65 * 4096))[0]? =
      some ⟨wideWindow.stripePath 0, 0, 0, 4096⟩ := by
    rw [hblocks]
    rfl
  exact not_writesAgree_of_wide hroom hsized (by decide +kernel) (by decide) hwide hfirst _

end StateSpectre.Nvme
