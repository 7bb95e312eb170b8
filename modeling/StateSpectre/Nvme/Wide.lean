import StateSpectre.Nvme.Ring

/-!
# A window that is too wide

With more than 64 blocks in flight, two buffers share an iovec. The blocks that are prepared
before the first submission get the buffers from the last one down (`Batch`), and when they are
submitted the iovec of a block is that of the last block before the submission whose index is the
same modulo 64 (`Batch.request`). So the first block is transferred with the buffer of a later
one: what is written for it are the bytes of the later block (`uringWriteLoop_wide`), and what is
read for it stays in the other buffer (`uringReadLoop_wide`). Nothing that is completed afterwards
makes up for it.
-/

namespace StateSpectre.Nvme

variable {ios : List BlockTransfer} {qd i j fuel : ℕ} {free comp : List ℕ} {v : Window}
  {load : BlockTransfer → Memory → Memory} {pool : ℕ → Memory} {b b' : BlockTransfer}

/-! ## The first block -/

/-- What is done last decides. -/
theorem foldl_eq_of_pairwise {α β γ : Type} {f : β → α → β} {g : β → γ} {R : α → α → Prop}
    {l : List α} {a : α} {x : γ} (hl : l.Pairwise R) (ha : a ∈ l) (hself : ∀ z, g (f z a) = x)
    (hlater : ∀ a', R a a' → ∀ z, g (f z a') = g z) (z : β) : g (l.foldl f z) = x := by
  obtain ⟨l₁, l₂, rfl⟩ := List.append_of_mem ha
  have hafter := (List.pairwise_cons.1 (List.pairwise_append.1 hl).2.1).1
  rw [List.foldl_append, List.foldl_cons]
  refine List.foldlRecOn l₂ f (motive := fun z => g z = x) (hself _) ?_
  exact fun z hz a' ha' => (hlater a' (hafter a' ha') z).trans hz

theorem rel_of_mem_tail {α : Type} {R : α → α → Prop} {l : List α} {a : α} (h : l.Pairwise R)
    (ha : l[0]? = some a) : ∀ a' ∈ l.tail, R a a' := by
  cases h with
  | nil => exact nomatch ha
  | cons hrel => exact Option.some.inj ha ▸ hrel

theorem len_pos {block consumed : ℕ} {chunks : List NvmeChunk} (hpos : 0 < block)
    (h : b ∈ blockTransfers block chunks consumed) : 0 < b.len := by
  obtain ⟨c, -, _, -, hb⟩ := mem_blockTransfers h
  obtain ⟨o, -, hlt, rfl⟩ := mem_chunkBlocks hb
  dsimp only
  omega

theorem memOff_lt {block consumed : ℕ} {chunks : List NvmeChunk}
    (h : b ∈ blockTransfers block chunks consumed) :
    b.memOff < consumed + (chunks.map NvmeChunk.length).sum := by
  induction chunks generalizing consumed with
  | nil => exact nomatch h
  | cons c chunks ih =>
    rw [List.map_cons, List.sum_cons]
    rcases List.mem_append.1 h with h | h
    · obtain ⟨o, -, hlt, rfl⟩ := mem_chunkBlocks h
      dsimp only
      omega
    · have hlt := ih h
      omega

/-! ## The first batch -/

/-- The first blocks, before they are submitted: each one has the next buffer from above, and the
    last 64 of them have an iovec of their own. -/
structure Batch (load : BlockTransfer → Memory → Memory) (ios : List BlockTransfer) (qd : ℕ)
    (pool : ℕ → Memory) (v : Window) : Prop where
  pending : v.pending = []
  inflight : v.inflight = v.next
  length : v.sqes.length = v.next
  next_le : v.next ≤ ios.length
  sqes : ∀ j b, j < v.next → ios[j]? = some b →
    v.sqes[j]? = some ⟨⟨b.path, b.fileOff, packUserData j (qd - 1 - j)⟩, (qd - 1 - j) % 64⟩
  loaded : ∀ j b, j < v.next → ios[j]? = some b →
    v.pool (qd - 1 - j) = load b (pool (qd - 1 - j))
  free : ∀ bi < qd - v.next, v.pool bi = pool bi
  iov : ∀ j b, j < v.next → v.next ≤ j + 64 → ios[j]? = some b →
    v.iov ((qd - 1 - j) % 64) = (qd - 1 - j, roundup b.len 4096)

theorem Batch.start : Batch load ios qd pool (.start qd pool) where
  pending := rfl
  inflight := rfl
  length := rfl
  next_le := Nat.zero_le _
  sqes _ _ h := nomatch h
  loaded _ _ h := nomatch h
  free _ _ := rfl
  iov _ _ h := nomatch h

theorem Batch.prepare (h : Batch load ios qd pool v) (hqd : v.next < qd)
    (hb : ios[v.next]? = some b) :
    Batch load ios qd pool (v.prepare load b (qd - 1 - v.next)) := by
  refine { pending := h.pending, inflight := congrArg (· + 1) h.inflight, length := ?_
           next_le := (List.getElem?_eq_some_iff.1 hb).1, sqes := fun j b' hj hb' => ?_
           loaded := fun j b' hj hb' => ?_, free := fun bi hbi => ?_
           iov := fun j b' hj hlast hb' => ?_ }
  · simp [Window.prepare, h.length]
  · rcases Nat.lt_succ_iff_lt_or_eq.1 hj with hlt | rfl
    · exact (List.getElem?_append_left (h.length ▸ hlt)).trans (h.sqes j b' hlt hb')
    · obtain rfl := Option.some.inj (hb.symm.trans hb')
      simp [Window.prepare, ← h.length]
  · rcases Nat.lt_succ_iff_lt_or_eq.1 hj with hlt | rfl
    · exact (Function.update_of_ne (by omega) ..).trans (h.loaded j b' hlt hb')
    · obtain rfl := Option.some.inj (hb.symm.trans hb')
      rw [← h.free _ (by omega)]
      exact Function.update_self ..
  · change bi < qd - (v.next + 1) at hbi
    exact (Function.update_of_ne (by omega) ..).trans (h.free bi (by omega))
  · change v.next + 1 ≤ j + 64 at hlast
    rcases Nat.lt_succ_iff_lt_or_eq.1 hj with hlt | rfl
    · exact (Function.update_of_ne (by omega) ..).trans (h.iov j b' hlt (by omega) hb')
    · obtain rfl := Option.some.inj (hb.symm.trans hb')
      exact Function.update_self ..

/-- As many blocks are prepared as there are, and as the queue is deep. -/
theorem Batch.fill (h : Batch load ios qd pool v) {r : ℕ} (hr : v.next + r = qd) :
    Batch load ios qd pool (fill load ios qd (List.range r).reverse v) ∧
      (fill load ios qd (List.range r).reverse v).next = min qd ios.length := by
  induction r generalizing v with
  | zero =>
    have hle := h.next_le
    refine ⟨{ h with }, ?_⟩
    change v.next = _
    omega
  | succ r ih =>
    have hinflight := h.inflight
    have hle := h.next_le
    rw [List.range_succ, List.reverse_append, List.reverse_singleton, List.singleton_append,
      Nvme.fill, if_pos (by omega)]
    split
    · next b hb =>
      obtain rfl : r = qd - 1 - v.next := by omega
      exact ih (h.prepare (by omega) hb) (by change v.next + 1 + _ = _; omega)
    · next hb =>
      have hge := List.getElem?_eq_none_iff.1 hb
      refine ⟨{ h with }, ?_⟩
      change v.next = _
      omega

/-- The window when the loop waits for the first time. -/
def firstWindow (load : BlockTransfer → Memory → Memory) (ios : List BlockTransfer) (qd : ℕ)
    (pool : ℕ → Memory) : Window :=
  submit (fill load ios qd (Window.start qd pool).freeBufs (.start qd pool))

section

variable (load pool)

variable (ios qd) in
theorem batch_firstWindow :
    Batch load ios qd pool (fill load ios qd (Window.start qd pool).freeBufs (.start qd pool)) ∧
      (firstWindow load ios qd pool).next = min qd ios.length :=
  Batch.start.fill (Nat.zero_add qd)

/-- The last block of the first batch that shares the iovec of the block `j`. -/
def sharer (qd n j : ℕ) : ℕ := j + 64 * ((min qd n - 1 - j) / 64)

theorem sharer_spec {n : ℕ} (hj : j < min qd n) :
    sharer qd n j < min qd n ∧ min qd n ≤ sharer qd n j + 64 ∧ sharer qd n j % 64 = j % 64 ∧
      j ≤ sharer qd n j := by
  rw [sharer]
  omega

/-- The request for the block `j` has the buffer of the last block that shares its iovec. -/
theorem exists_firstRequest (hqd : qd ≤ 2 ^ 16) (hj : j < min qd ios.length)
    (hb : ios[j]? = some b)
    (hb' : ios[sharer qd ios.length j]? = some b') :
    ∃ q, (firstWindow load ios qd pool).pending[j]? = some q ∧
      q.path = b.path ∧ q.fileOff = b.fileOff ∧ q.blk = j ∧ q.bi = qd - 1 - j ∧
      q.buf = qd - 1 - sharer qd ios.length j ∧ q.len = roundup b'.len 4096 := by
  obtain ⟨hi, hlast, hmod, -⟩ := sharer_spec hj
  obtain ⟨h, hnext⟩ := batch_firstWindow ios qd load pool
  have hiov := h.iov _ b' (hnext ▸ hi) (hnext ▸ hlast) hb'
  have hindex : (qd - 1 - j) % 64 = (qd - 1 - sharer qd ios.length j) % 64 := by omega
  refine ⟨⟨⟨b.path, b.fileOff, packUserData j (qd - 1 - j)⟩, qd - 1 - sharer qd ios.length j,
    roundup b'.len 4096⟩, ?_, rfl, rfl, packUserData_shiftRight (by omega) (by omega),
    packUserData_and (by omega) (by omega), rfl, rfl⟩
  simp only [firstWindow, submit]
  rw [h.pending, List.nil_append, List.getElem?_map, h.sqes j b (hnext ▸ hj) hb, Option.map_some,
    hindex, hiov]

theorem firstWindow_pool (hj : j < min qd ios.length) (hb : ios[j]? = some b) :
    (firstWindow load ios qd pool).pool (qd - 1 - j) = load b (pool (qd - 1 - j)) := by
  obtain ⟨h, hnext⟩ := batch_firstWindow ios qd load pool
  exact h.loaded j b (hnext ▸ hj) hb

/-- With more than 64 blocks in flight, the request for the first block has the buffer of a later
    one. -/
theorem exists_wideRequest (hqd : 64 < qd) (hqd' : qd ≤ 2 ^ 16) (hwide : 64 < ios.length)
    (hb : ios[0]? = some b) :
    ∃ b' ∈ ios.tail, ios[sharer qd ios.length 0]? = some b' ∧
      ∃ q, (firstWindow load ios qd pool).pending[0]? = some q ∧
        q.path = b.path ∧ q.fileOff = b.fileOff ∧ q.blk = 0 ∧ q.bi = qd - 1 ∧
        q.buf = qd - 1 - sharer qd ios.length 0 ∧ q.len = roundup b'.len 4096 := by
  have hpos : 0 < min qd ios.length := by omega
  obtain ⟨hlt, hlast, -⟩ := sharer_spec hpos
  obtain ⟨b', hb'⟩ : ∃ b', ios[sharer qd ios.length 0]? = some b' :=
    ⟨_, List.getElem?_eq_getElem (by omega)⟩
  refine ⟨b', List.mem_of_getElem? (i := sharer qd ios.length 0 - 1) ?_, hb',
    exists_firstRequest load pool hqd' hpos hb hb'⟩
  rw [List.getElem?_tail, Nat.sub_add_cancel (by omega), hb']

end

/-- A block that was not the first one. -/
theorem Numbered.mem_tail (h : Numbered ios qd free comp v) (h0 : 0 ∈ comp) {q : Request}
    (hq : q ∈ v.pending) : ∃ b ∈ ios.tail, ios[q.blk]? = some b ∧ Noted v q.toFlight b := by
  have hf : q.toFlight ∈ v.flights := Window.mem_flights (List.mem_append_left _ hq)
  obtain ⟨b, hb, hn⟩ := h.noted q.toFlight hf
  have hne : q.blk ≠ 0 := fun hzero => h.blk_not_mem hf (hzero ▸ h0)
  obtain ⟨k, hk⟩ := Nat.exists_eq_succ_of_ne_zero hne
  refine ⟨b, List.mem_of_getElem? (i := k) ?_, hb, hn⟩
  rw [List.getElem?_tail, ← Nat.succ_eq_add_one, ← hk]
  exact hb

/-! ## Writing -/

section

variable {ι : Type} {t : ι} {s : Disk ι} {src : List UInt8} {path : Path} {off : ℕ}

/-- A byte of a file does not change behind it. -/
theorem Disk.write_byte_of_lt {path' : Path} {off' : ℕ} (h : path' = path → off < off') :
    ((s.write path' off' bytes).files path).byte off = (s.files path).byte off := by
  by_cases hpath : path = path'
  · subst hpath
    rw [write_files_self, File.write_byte, copyIn_of_lt (h rfl)]
  · rw [write_files_of_ne _ hpath]

theorem runs_waitBlockWritten {w : Window} {q : Request} (hq : w.pending[i]? = some q)
    (hbytes : readRun (w.pool q.buf) 0 q.len = bytes) :
    (waitBlockWritten w).Runs (does t) s (some (i, cqeRes bytes.length))
      (s.write q.path q.fileOff bytes) := by
  have hwait : does t (.waitWrite (w.pending.map fun q =>
      ⟨q.path, q.fileOff, readRun (w.pool q.buf) 0 q.len⟩)) s (some (i, cqeRes bytes.length))
      (s.write q.path q.fileOff bytes) := by
    refine ⟨i, ⟨q.path, q.fileOff, bytes⟩, ?_, rfl, rfl⟩
    rw [List.getElem?_map, hq, Option.map_some, hbytes]
  exact .call hwait .ret

theorem Disk.write_byte_head (h : 0 < bytes.length) :
    bytes[0]? = some (((s.write path off bytes).files path).byte off) := by
  rw [write_files_self, File.write_byte, List.getElem?_eq_getElem h]
  exact congrArg some (copyIn_add h).symm

/-- What is written for the first block are the bytes of a later one. -/
theorem uringWriteLoop_wide (hqd : 64 < qd) (hqd' : qd ≤ 2 ^ 16) (hwide : 64 < ios.length)
    (hios : ios.length ≤ 2 ^ 32) (hround : ∀ b ∈ ios, 0 < b.len ∧ b.len ≤ roundup b.len 4096)
    (hb : ios[0]? = some b) (hbehind : ∀ b' ∈ ios.tail, b'.path = b.path → b.fileOff < b'.fileOff)
    (pool : ℕ → Memory) :
    ∃ b' ∈ ios.tail, ∃ r s',
      (uringWriteLoop src ios qd (ios.length + 1) (.start qd pool)).Runs (does t) s r s' ∧
        (b'.bytes src)[0]? = some ((s'.files b.path).byte b.fileOff) := by
  obtain ⟨b', hmem, hb', q, hq, hpath, hoff, hblk, -, hbuf, hlen⟩ :=
    exists_wideRequest (loadBlock src) pool hqd hqd' hwide hb
  obtain ⟨hpos, hle⟩ := hround b' (List.mem_of_mem_tail hmem)
  -- The first block is to be completed, or the byte is the one of the other block.
  refine ⟨b', hmem, slide_runs (I := fun comp v _ s' => comp = [] ∧ v = .start qd pool ∨
      0 ∈ comp ∧ (b'.bytes src)[0]? = some ((s'.files b.path).byte b.fileOff)) (by omega) hios
    (fun comp v _ s' hv hdone hI => ?_) (Numbered.start hqd' pool)
    (Nat.lt_add_left _ (Nat.lt_succ_self _)) (.inl ⟨rfl, rfl⟩) fun comp v w _ s' hr hI => ?_⟩
  · rcases hI with ⟨-, rfl⟩ | ⟨-, hbyte⟩
    · exact absurd hdone (Nat.not_le.2 (by change 0 < _; omega))
    · exact hbyte
  rcases hI with ⟨rfl, rfl⟩ | ⟨h0, hbyte⟩
  · obtain rfl : firstWindow (loadBlock src) ios qd pool = w := hr.eq
    have hbytes : readRun ((firstWindow (loadBlock src) ios qd pool).pool q.buf) 0 q.len =
        b'.bytes src := by
      rw [hbuf, hlen, firstWindow_pool _ _ (sharer_spec (by omega)).1 hb']
      exact loaded_loadBlock hle _
    have hhead : (b'.bytes src)[0]? = some (((s'.write q.path q.fileOff (b'.bytes src)).files
        b.path).byte b.fileOff) := by
      rw [hpath, hoff]
      exact Disk.write_byte_head (by rw [length_bytes hle]; omega)
    exact ⟨_, _, runs_waitBlockWritten hq hbytes, .either hq (fun _ => hhead)
      fun _ _ _ => .inr ⟨by simp [hblk], hhead⟩⟩
  · obtain ⟨q, rest, hpending⟩ := List.exists_cons_of_ne_nil hr.pending
    have hq := (congrArg (·[0]?) hpending).trans List.getElem?_cons_zero
    obtain ⟨b₁, hmem₁, -, hnoted⟩ := hr.waits.mem_tail h0 (List.mem_of_getElem? hq)
    have hkept (bytes : List UInt8) : (b'.bytes src)[0]? =
        some (((s'.write q.path q.fileOff bytes).files b.path).byte b.fileOff) := by
      rw [Disk.write_byte_of_lt fun hpath => ?_]
      · exact hbyte
      · rw [hnoted.fileOff]
        exact hbehind b₁ hmem₁ (hnoted.path.symm.trans hpath)
    exact ⟨_, _, runs_waitBlockWritten hq rfl, .either hq (fun _ => hkept _)
      fun _ _ _ => .inr ⟨List.mem_append_left _ h0, hkept _⟩⟩

end

/-! ## Reading -/

section

variable {σ : Type} {ask : (o : Op) → σ → o.Answer → σ → Prop} {s : σ} {files : Path → File}
  {dst : Memory} {off : ℕ} {bytes : List UInt8} {q : Request} {w : Window}

/-- The ring may answer each request with all that its file has. -/
def AnswersReads (ask : (o : Op) → σ → o.Answer → σ → Prop) (s : σ) (files : Path → File) : Prop :=
  ∀ pending i q, pending[i]? = some q → ask (.waitRead pending) s (some (i, some
    (readRun (files q.path).byte q.fileOff (min q.len ((files q.path).size - q.fileOff))))) s

/-- The bytes that are read for a request. -/
def Request.got (files : Path → File) (q : Request) : List UInt8 :=
  readRun (files q.path).byte q.fileOff (min q.len ((files q.path).size - q.fileOff))

theorem runs_waitBlockRead (hread : AnswersReads ask s files) (hq : w.pending[i]? = some q) :
    (waitBlockRead w).Runs ask s (some (i, some (q.got files))) s := by
  have hwait : ask (.waitRead (w.pending.map fun q => ⟨q.path, q.fileOff, q.len⟩)) s
      (some (i, some (q.got files))) s :=
    hread _ i ⟨q.path, q.fileOff, q.len⟩ (by rw [List.getElem?_map, hq, Option.map_some])
  exact .call hwait .ret

/-- What is read for the requests is enough for their blocks. -/
def Enough (files : Path → File) (ios : List BlockTransfer) (pending : List Request) : Prop :=
  ∀ q ∈ pending, ∀ b, ios[q.blk]? = some b →
    b.len ≤ min q.len ((files q.path).size - q.fileOff) ∧ q.len < 2 ^ 31

theorem Enough.finishRead_ne {pending : List Request} (h : Enough files ios pending)
    (hq : q ∈ pending) (hb : ios[q.blk]? = some b) (hlen : w.lenOf q.blk = b.len) :
    finishRead w q (some (q.got files)) dst ≠ none := by
  obtain ⟨hle, hint⟩ := h q hq b hb
  rw [finishRead_long]
  · exact Option.some_ne_none _
  · rw [Request.got, length_readRun, cqeRes_of_lt (by omega), hlen]
    omega

/-- All requests get enough, and at most one block at a time is still to be prepared. -/
structure Passing (files : Path → File) (ios : List BlockTransfer) (v : Window) : Prop where
  whole : ∀ b ∈ ios, b.len ≤ min (roundup b.len 4096) ((files b.path).size - b.fileOff) ∧
    roundup b.len 4096 < 2 ^ 31
  sqes : v.sqes = []
  few : v.freeBufs.length ≤ 1 ∨ ios.length ≤ v.next
  enough : Enough files ios v.pending

/-- A block that is prepared alone has its iovec for itself. -/
theorem Passing.round (h : Passing files ios v) (hr : Round (fun _ m => m) ios qd comp v w)
    (hios : ios.length ≤ 2 ^ 32) :
    (w.freeBufs = [] ∨ ios.length ≤ w.next) ∧ Enough files ios w.pending := by
  have hv := hr.before
  have hlength := hv.length
  have hinflight := hv.inflight
  obtain rfl := hr.eq
  cases hfree : v.freeBufs with
  | nil => exact ⟨.inl rfl, by simpa [fill, submit, h.sqes] using h.enough⟩
  | cons bi rest =>
    rw [fill]
    cases hb : ios[v.next]? with
    | none =>
      refine ⟨.inr ?_, ?_⟩
      · split <;> exact List.getElem?_eq_none_iff.1 hb
      · split <;> simpa [submit, h.sqes] using h.enough
    | some b =>
      -- A block is left, so the buffer is the only one that is free.
      have hnext := (List.getElem?_eq_some_iff.1 hb).1
      have hfew := h.few.resolve_right (Nat.not_le.2 hnext)
      rw [hfree, List.length_cons] at hlength hfew
      obtain rfl : rest = [] := List.eq_nil_of_length_eq_zero (by omega)
      have hblk : Flight.blk ⟨b.path, b.fileOff, packUserData v.next bi⟩ = v.next :=
        packUserData_shiftRight (by omega) (hv.free_lt bi (hfree ▸ List.mem_singleton_self bi))
      rw [if_pos (by omega)]
      refine ⟨.inl rfl, fun q hq b' hb' => ?_⟩
      have hq' : q ∈ v.pending ++
          [⟨⟨b.path, b.fileOff, packUserData v.next bi⟩, bi, roundup b.len 4096⟩] := by
        simpa [fill, submit, Window.prepare, h.sqes] using hq
      rcases List.mem_append.1 hq' with hq' | hq'
      · exact h.enough q hq' b' hb'
      · obtain rfl := List.mem_singleton.1 hq'
        obtain rfl : b = b' :=
          Option.some.inj (hb.symm.trans ((congrArg (ios[·]?) hblk).symm.trans hb'))
        exact h.whole b (List.mem_of_getElem? hb)

theorem Passing.reap (h : Passing files ios v) (hsqes : w.sqes = [])
    (hfew : w.freeBufs = [] ∨ ios.length ≤ w.next) (henough : Enough files ios w.pending)
    (i bi : ℕ) (pool : ℕ → Memory) : Passing files ios ({ w with pool }.reap i bi) where
  whole := h.whole
  sqes := hsqes
  few := hfew.imp_left fun hnil => by simp [Window.reap, hnil]
  enough q hq := henough q (List.mem_of_mem_eraseIdx hq)

theorem copyIn_readRun_head {m : Memory} {a n : ℕ} (h : 0 < n) :
    copyIn dst off (readRun m a n) off = m a := by
  have hcopy : copyIn dst off (readRun m a n) (off + 0) = _ :=
    copyIn_add (h.trans_eq (length_readRun m).symm)
  rw [Nat.add_zero] at hcopy
  rw [hcopy]
  simp [readRun]

/-- The requests of the first batch get enough, if no block is longer than the padded one whose
    length its iovec has. -/
theorem enough_firstWindow (hqd : qd ≤ 2 ^ 16) (pool : ℕ → Memory)
    (h : ∀ j b b', j < min qd ios.length → ios[j]? = some b →
      ios[sharer qd ios.length j]? = some b' →
      b.len ≤ min (roundup b'.len 4096) ((files b.path).size - b.fileOff) ∧
        roundup b'.len 4096 < 2 ^ 31) :
    Enough files ios (firstWindow (fun _ m => m) ios qd pool).pending := by
  intro q hq b hb
  obtain ⟨hbatch, hnext⟩ := batch_firstWindow ios qd (fun _ m => m) pool
  obtain ⟨j, hj, hget⟩ := List.getElem_of_mem hq
  have hj' : j < min qd ios.length := by
    rw [← hnext]
    simpa [firstWindow, submit, hbatch.pending, hbatch.length] using hj
  have hlt := (sharer_spec hj').1
  obtain ⟨b₁, hb₁⟩ : ∃ b₁, ios[j]? = some b₁ := ⟨_, List.getElem?_eq_getElem (by omega)⟩
  obtain ⟨b₂, hb₂⟩ : ∃ b₂, ios[sharer qd ios.length j]? = some b₂ :=
    ⟨_, List.getElem?_eq_getElem (by omega)⟩
  obtain ⟨q', hq', hpath, hoff, hblk, -, -, hlen⟩ :=
    exists_firstRequest (fun _ m => m) pool hqd hj' hb₁ hb₂
  obtain rfl : q = q' := Option.some.inj
    (((List.getElem?_eq_getElem hj).trans (congrArg some hget)).symm.trans hq')
  obtain rfl : b₁ = b := Option.some.inj (hb₁.symm.trans (hblk ▸ hb))
  rw [hpath, hoff, hlen]
  exact h j b₁ b₂ hj' hb₁ hb₂

/-- What is copied for the first block are the bytes that its own buffer had before. -/
theorem uringReadLoop_wide (hread : AnswersReads ask s files) (hqd : 64 < qd) (hqd' : qd ≤ 2 ^ 16)
    (hwide : 64 < ios.length) (hios : ios.length ≤ 2 ^ 32) (hb : ios[0]? = some b)
    (hlen : 0 < b.len) (hbehind : ∀ b' ∈ ios.tail, b.memOff < b'.memOff) (pool : ℕ → Memory)
    (dst : Memory) :
    ∃ r s', (uringReadLoop ios qd (ios.length + 1) (.start qd pool) dst).Runs ask s r s' ∧
      s' = s ∧ (r.1 = true → r.2 b.memOff = pool (qd - 1) 0) ∧
      ((∀ b ∈ ios, b.len ≤ min (roundup b.len 4096) ((files b.path).size - b.fileOff) ∧
          roundup b.len 4096 < 2 ^ 31) →
        Enough files ios (firstWindow (fun _ m => m) ios qd pool).pending → r.1 = true) := by
  obtain ⟨b', -, -, q, hq, -, -, hblk, hbi, hbuf, -⟩ :=
    exists_wideRequest (fun _ m => m) pool hqd hqd' hwide hb
  have hbytes := firstWindow_pool (fun _ m => m) pool (by omega : 0 < min qd ios.length) hb
  have hnext := (batch_firstWindow ios qd (fun _ m => m) pool).2
  generalize hfirst : firstWindow (fun _ m => m) ios qd pool = w₁ at *
  -- The first block is to be completed, or its byte is copied; and nothing fails, if what is read
  -- is enough.
  refine slide_runs (I := fun comp v dst' s' => s' = s ∧ (comp = [] ∧ v = .start qd pool ∨
      0 ∈ comp ∧ dst' b.memOff = pool (qd - 1) 0 ∧
        ((∀ b ∈ ios, b.len ≤ min (roundup b.len 4096) ((files b.path).size - b.fileOff) ∧
          roundup b.len 4096 < 2 ^ 31) → Enough files ios w₁.pending → Passing files ios v)))
    (by omega) hios (fun comp v dst' s' _ hdone hI => ?_) (Numbered.start hqd' pool)
    (Nat.lt_add_left _ (Nat.lt_succ_self _)) ⟨rfl, .inl ⟨rfl, rfl⟩⟩
    fun comp v w dst' s' hr hI => ?_
  · obtain ⟨rfl, ⟨-, rfl⟩ | ⟨-, hbyte, -⟩⟩ := hI
    · exact absurd hdone (Nat.not_le.2 (by change 0 < _; omega))
    · exact ⟨rfl, fun _ => hbyte, fun _ _ => rfl⟩
  obtain ⟨rfl, ⟨rfl, rfl⟩ | ⟨h0, hbyte, hpass⟩⟩ := hI
  · obtain rfl : w₁ = w := hfirst.symm.trans hr.eq
    obtain ⟨b₀, hb₀, hnoted⟩ := hr.waits.noted q.toFlight
      (Window.mem_flights (List.mem_append_left _ (List.mem_of_getElem? hq)))
    have hb₁ : ios[q.blk]? = some b := hblk ▸ hb
    obtain rfl : b₀ = b := Option.some.inj (hb₀.symm.trans hb₁)
    refine ⟨_, _, runs_waitBlockRead hread hq, .either hq (fun hnone => ?_) fun mem x' hsome => ?_⟩
    · exact ⟨rfl, fun h => absurd h Bool.false_ne_true, fun _ henough =>
        absurd hnone (henough.finishRead_ne (List.mem_of_getElem? hq) hb₁ hnoted.lenOf)⟩
    · obtain ⟨rfl, rfl⟩ := eq_of_finishRead hsome
      refine ⟨rfl, .inr ⟨by simp [hblk], ?_, fun hwhole henough => ?_⟩⟩
      · -- What is read goes to the buffer of the later block.
        have hlater := sharer_spec (by omega : 0 < min qd ios.length)
        rw [hnoted.memOffOf, hnoted.lenOf, Function.update_of_ne (by omega), hbi,
          copyIn_readRun_head hlen]
        exact congrFun hbytes 0
      · refine { whole := hwhole, sqes := hr.sqes, few := ?_
                 enough := fun q hq => henough q (List.mem_of_mem_eraseIdx hq) }
        -- The whole queue is in flight, or all blocks are.
        have hlength := hr.waits.length
        have hblks := hr.waits.length_blks
        simp only [Window.reap, List.length_cons, List.length_nil] at hblks ⊢
        omega
  · obtain ⟨q, rest, hpending⟩ := List.exists_cons_of_ne_nil hr.pending
    have hq := (congrArg (·[0]?) hpending).trans List.getElem?_cons_zero
    obtain ⟨b₁, hmem, hb₁, hnoted⟩ := hr.waits.mem_tail h0 (List.mem_of_getElem? hq)
    refine ⟨_, _, runs_waitBlockRead hread hq, .either hq (fun hnone => ?_) fun mem x' hsome => ?_⟩
    · exact ⟨rfl, fun h => absurd h Bool.false_ne_true, fun hwhole henough => absurd hnone
        (((hpass hwhole henough).round hr hios).2.finishRead_ne (List.mem_of_getElem? hq) hb₁
          hnoted.lenOf)⟩
    · obtain ⟨rfl, rfl⟩ := eq_of_finishRead hsome
      refine ⟨rfl, .inr ⟨List.mem_append_left _ h0, ?_, fun hwhole henough => ?_⟩⟩
      · rw [copyIn_of_lt, hbyte]
        exact hnoted.memOffOf ▸ hbehind b₁ hmem
      · obtain ⟨hfew, henough'⟩ := (hpass hwhole henough).round hr hios
        exact (hpass hwhole henough).reap hr.sqes hfew henough' 0 q.bi _

theorem exists_first {cfg : NvmeConfig} (hwide : ¬cfg.Narrow ios) : ∃ b, ios[0]? = some b := by
  rw [NvmeConfig.Narrow, not_or, Nat.not_le, Nat.not_le] at hwide
  exact ⟨_, List.getElem?_eq_getElem (by omega)⟩

theorem openChunks_runs (hopen : ∀ path, ask (.openFile path) s true s) (chunks : List NvmeChunk) :
    (openChunks chunks).Runs ask s true s := by
  induction chunks with
  | nil => exact .ret
  | cons c chunks ih => exact .call (hopen c.path) ih

variable {cfg : NvmeConfig} {chunks : List NvmeChunk}

/-- The byte of the chunks where the first block begins. -/
theorem copyIn_flatMap_head (hend : ∀ c ∈ chunks, c.offset + c.length + 4096 ≤ 2 ^ 64)
    (hb : (blockTransfers cfg.block chunks 0)[0]? = some b) :
    copyIn dst 0 (chunks.flatMap (bytesIn files)) b.memOff = (files b.path).byte b.fileOff := by
  have hmem := List.mem_of_getElem? hb
  have hlen := len_pos cfg.block_pos hmem
  rw [← foldl_copyBlock cfg.block_pos hend]
  have hself (m : Memory) : copyBlock files m b b.memOff = (files b.path).byte b.fileOff :=
    copyIn_readRun_head hlen
  exact foldl_eq_of_pairwise (g := fun m : Memory => m b.memOff) (pairwise_memOff hend) hmem hself
    (fun b' hle m => copyIn_of_lt (by omega)) dst

/-- With more than 64 blocks in flight, the first byte of the first block is not read. -/
theorem nvmeReadUring_wide (hopen : ∀ path, ask (.openFile path) s true s)
    (hsetup : ask .setup s true s) (hread : AnswersReads ask s files)
    (hend : ∀ c ∈ chunks, c.offset + c.length + 4096 ≤ 2 ^ 64) (hqd : cfg.qd ≤ 2 ^ 16)
    (hios : (blockTransfers cfg.block chunks 0).length ≤ 2 ^ 32)
    (hwide : ¬cfg.Narrow (blockTransfers cfg.block chunks 0))
    (hb : (blockTransfers cfg.block chunks 0)[0]? = some b) (pool : ℕ → Memory) (dst : Memory) :
    ∃ ok dst', (nvmeReadUring cfg chunks pool dst).Runs ask s (ok, dst') s ∧
      (ok = true → dst' b.memOff = pool (cfg.qd - 1) 0) ∧
      ((∀ b ∈ blockTransfers cfg.block chunks 0, b.len ≤ min (roundup b.len 4096)
          ((files b.path).size - b.fileOff) ∧ roundup b.len 4096 < 2 ^ 31) →
        Enough files (blockTransfers cfg.block chunks 0) (firstWindow (fun _ m => m)
          (blockTransfers cfg.block chunks 0) cfg.qd pool).pending → ok = true) := by
  rw [NvmeConfig.Narrow, not_or, Nat.not_le, Nat.not_le] at hwide
  obtain ⟨hqd', hlength⟩ := hwide
  have hlen := len_pos cfg.block_pos (List.mem_of_getElem? hb)
  have hbehind : ∀ b' ∈ (blockTransfers cfg.block chunks 0).tail, b.memOff < b'.memOff := by
    intro b' hb'
    have hle := rel_of_mem_tail (pairwise_memOff hend) hb b' hb'
    omega
  obtain ⟨⟨ok, dst'⟩, _, hruns, rfl, hbyte, hok⟩ :=
    uringReadLoop_wide hread hqd' hqd hlength hios hb hlen hbehind pool dst
  exact ⟨ok, dst', (openChunks_runs hopen chunks).bind (.call hsetup hruns), hbyte, hok⟩

end

end StateSpectre.Nvme
