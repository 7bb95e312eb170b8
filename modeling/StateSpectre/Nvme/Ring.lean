import Mathlib.Data.List.Pairwise
import StateSpectre.Nvme.Alone
import StateSpectre.Nvme.Window

/-!
# The engine with the ring

The blocks of a tensor are completed in any order. As they are apart from each other, in memory and
in their files, the order does not matter: what the ring leaves is what the blocks leave one after
the other. This is stated for reading from any disk that answers requests from its files, or fails
(`RingServes.wp_nvmeReadUring`), and for writing alone (`wp_nvmeWriteUring_alone`).
-/

namespace StateSpectre.Nvme

open Discipline

/-! ## Orders of completion -/

/-- What is done for elements that commute does not depend on their order. -/
theorem foldl_eq_of_perm {α β : Type} {f : β → α → β} {l l' : List α} (hperm : l'.Perm l)
    (hpairs : l.Pairwise fun x y => ∀ z, f (f z x) y = f (f z y) x) (z : β) :
    l'.foldl f z = l.foldl f z := by
  have : Std.Symm fun x y => ∀ z, f (f z x) y = f (f z y) x := ⟨fun _ _ h z => (h z).symm⟩
  have hcomm := hpairs.forall_of_forall fun _ _ _ => rfl
  exact hperm.foldl_eq' (fun x hx y hy z => hcomm (hperm.mem_iff.1 hx) (hperm.mem_iff.1 hy) z) z

theorem copyIn_comm {m : Memory} {addr addr' : ℕ} (h : addr + bytes.length ≤ addr') :
    copyIn (copyIn m addr bytes) addr' bytes' = copyIn (copyIn m addr' bytes') addr bytes := by
  funext k
  simp only [copyIn, writeRun, onRun]
  have hapart : ¬(InRun addr' bytes'.length k ∧ InRun addr bytes.length k) := by
    rintro ⟨⟨hge, -⟩, -, hlt⟩
    omega
  split_ifs with hk hk'
  · exact absurd ⟨hk, hk'⟩ hapart
  all_goals rfl

theorem File.write_comm {f : File} {off off' : ℕ} (h : off + bytes.length ≤ off') :
    (f.write off bytes).write off' bytes' = (f.write off' bytes').write off bytes := by
  refine File.ext ?_ (copyIn_comm h)
  simp only [write]
  split
  · rfl
  · split
    · rfl
    · exact max_right_comm ..

theorem Disk.write_comm {ι : Type} {s : Disk ι} {path path' : Path} {off off' : ℕ}
    (h : path = path' → off + bytes.length ≤ off') :
    (s.write path off bytes).write path' off' bytes' =
      (s.write path' off' bytes').write path off bytes := by
  by_cases hpath : path = path'
  · subst hpath
    simp only [write, Function.update_self, Function.update_idem, File.write_comm (h rfl)]
  · simp only [write, Function.update_of_ne hpath, Function.update_of_ne (Ne.symm hpath),
      Function.update_comm hpath]

/-! ## Blocks -/

section

variable {block : ℕ} {c : NvmeChunk} {chunks : List NvmeChunk} {b : BlockTransfer}
  {consumed fuel off : ℕ} {bytes : List UInt8} {segs : List ℕ} {i : ℕ} {comp : List ℕ}
  {dst : Memory}

/-- The block of a chunk that starts at the offset `o`. -/
theorem mem_chunkBlocks (h : b ∈ chunkBlocks block c consumed fuel off) :
    ∃ o, off ≤ o ∧ o < c.length ∧
      b = ⟨c.path, (c.offset + o) % 2 ^ 64, consumed + o, min block (c.length - o)⟩ := by
  induction fuel generalizing off with
  | zero => cases h
  | succ fuel ih =>
    rw [chunkBlocks] at h
    split at h
    · next hlt =>
      rcases List.mem_cons.1 h with rfl | h
      · exact ⟨off, le_rfl, hlt, rfl⟩
      · obtain ⟨o, ho, hb⟩ := ih h
        exact ⟨o, by omega, hb⟩
    · cases h

/-- Before the last block of a chunk they are as long as blocks are, and apart from each other. -/
theorem pairwise_chunkBlocks (hend : c.offset + c.length + 4096 ≤ 2 ^ 64) :
    (chunkBlocks block c consumed fuel off).Pairwise fun b b' =>
      b.len = block ∧ block + 4096 ≤ 2 ^ 64 ∧ b.memOff + block ≤ b'.memOff ∧
        b.fileOff + block ≤ b'.fileOff := by
  induction fuel generalizing off with
  | zero => exact .nil
  | succ fuel ih =>
    rw [chunkBlocks]
    split
    · refine List.pairwise_cons.2 ⟨fun b hb => ?_, ih⟩
      obtain ⟨o, ho, hlt, rfl⟩ := mem_chunkBlocks hb
      dsimp only
      rw [Nat.mod_eq_of_lt (by omega), Nat.mod_eq_of_lt (by omega)]
      omega
    · exact .nil

theorem mem_blockTransfers (h : b ∈ blockTransfers block chunks consumed) :
    ∃ c ∈ chunks, ∃ consumed' ≥ consumed, b ∈ chunkBlocks block c consumed' (c.length + 1) 0 := by
  induction chunks generalizing consumed with
  | nil => exact nomatch h
  | cons c chunks ih =>
    rw [blockTransfers] at h
    rcases List.mem_append.1 h with h | h
    · exact ⟨c, List.mem_cons_self, consumed, le_rfl, h⟩
    · obtain ⟨c', hc', consumed', hle, hb⟩ := ih h
      exact ⟨c', List.mem_cons_of_mem _ hc', consumed', by omega, hb⟩

/-- In memory the blocks follow each other. -/
theorem pairwise_memOff (hend : ∀ c ∈ chunks, c.offset + c.length + 4096 ≤ 2 ^ 64) :
    (blockTransfers block chunks consumed).Pairwise fun b b' => b.memOff + b.len ≤ b'.memOff := by
  induction chunks generalizing consumed with
  | nil => exact .nil
  | cons c chunks ih =>
    obtain ⟨hc, hchunks⟩ := List.forall_mem_cons.1 hend
    rw [blockTransfers]
    refine List.pairwise_append.2 ⟨(pairwise_chunkBlocks hc).imp fun h => by omega, ih hchunks,
      fun b hb b' hb' => ?_⟩
    obtain ⟨o, -, hlt, rfl⟩ := mem_chunkBlocks hb
    obtain ⟨c', -, consumed', hle, hb'⟩ := mem_blockTransfers hb'
    obtain ⟨o', -, -, rfl⟩ := mem_chunkBlocks hb'
    dsimp only
    omega

theorem roundup_len (hend : ∀ c ∈ chunks, c.offset + c.length + 4096 ≤ 2 ^ 64)
    (h : b ∈ blockTransfers block chunks consumed) :
    b.len ≤ block ∧ b.len ≤ roundup b.len 4096 ∧ roundup b.len 4096 < b.len + 4096 := by
  obtain ⟨c, hc, _, -, hb⟩ := mem_blockTransfers h
  obtain ⟨o, -, hlt, rfl⟩ := mem_chunkBlocks hb
  have hle := hend c hc
  have hround := roundup_spec (v := min block (c.length - o)) (by omega)
  exact ⟨Nat.min_le_left .., hround.1, hround.2.1⟩

end

/-- At most 64 of the blocks are in flight: the queue is not deeper, or there are no more. -/
abbrev NvmeConfig.Narrow (cfg : NvmeConfig) (ios : List BlockTransfer) : Prop :=
  cfg.qd ≤ 64 ∨ ios.length ≤ 64

/-- The blocks do not overlap in their files, with their padding, or are written one by one. -/
def NvmeConfig.Apart (cfg : NvmeConfig) (ios : List BlockTransfer) : Prop :=
  cfg.qd = 1 ∨ ios.Pairwise fun b b' => b.path = b'.path →
    b.fileOff + roundup b.len 4096 ≤ b'.fileOff

/-- The blocks can be numbered in 32 bits, and each of them is transferred by one request, whose
    result is an `int`. -/
structure Sized (ios : List BlockTransfer) : Prop where
  count : ios.length ≤ 2 ^ 32
  len : ∀ b ∈ ios, roundup b.len 4096 < 2 ^ 31

/-! ## Reading -/

/-- The bytes of a chunk in the files. -/
def bytesIn (files : Path → File) (c : NvmeChunk) : List UInt8 :=
  readRun (files c.path).byte c.offset c.length

/-- A block is copied from its file to memory. -/
def copyBlock (files : Path → File) (dst : Memory) (b : BlockTransfer) : Memory :=
  copyIn dst b.memOff (readRun (files b.path).byte b.fileOff b.len)

/-- The blocks of a chunk, one after the other, are its bytes. -/
theorem foldl_copyBlock_chunk {files : Path → File} {block consumed fuel off : ℕ} {c : NvmeChunk}
    (hpos : 0 < block) (hend : c.offset + c.length + 4096 ≤ 2 ^ 64) (hoff : off ≤ c.length)
    (hfuel : c.length < off + fuel) (dst : Memory) :
    (chunkBlocks block c consumed fuel off).foldl (copyBlock files) dst =
      copyIn dst (consumed + off)
        (readRun (files c.path).byte (c.offset + off) (c.length - off)) := by
  induction fuel generalizing off dst with
  | zero => omega
  | succ fuel ih =>
    rw [chunkBlocks]
    split
    · have hsplit : c.length - off = min block (c.length - off) +
          (c.length - (off + min block (c.length - off))) := by omega
      rw [List.foldl_cons, ih (by omega) (by omega), copyBlock]
      dsimp only
      conv_rhs => rw [hsplit, readRun_add, ← copyIn_append, length_readRun]
      rw [Nat.mod_eq_of_lt (by omega), Nat.add_assoc, Nat.add_assoc]
    · rw [show c.length - off = 0 by omega]
      exact (copyIn_nil ..).symm

theorem foldl_copyBlock {files : Path → File} {block consumed : ℕ} {chunks : List NvmeChunk}
    (hpos : 0 < block) (hend : ∀ c ∈ chunks, c.offset + c.length + 4096 ≤ 2 ^ 64) (dst : Memory) :
    (blockTransfers block chunks consumed).foldl (copyBlock files) dst =
      copyIn dst consumed (chunks.flatMap (bytesIn files)) := by
  induction chunks generalizing consumed dst with
  | nil => exact (copyIn_nil ..).symm
  | cons c chunks ih =>
    obtain ⟨hc, hchunks⟩ := List.forall_mem_cons.1 hend
    rw [blockTransfers, List.foldl_append, ih hchunks,
      foldl_copyBlock_chunk hpos hc (Nat.zero_le _) (by omega), List.flatMap_cons,
      ← copyIn_append]
    simp only [bytesIn, length_readRun, Nat.add_zero, Nat.sub_zero]

theorem bmod_natCast_le (n m : ℕ) : (n : ℤ).bmod m ≤ n := by
  have hle := Nat.mod_le n m
  rw [Int.bmod_def, ← Int.natCast_emod]
  split <;> omega

/-- The result of a completion is no more than what was transferred. -/
theorem cqeRes_le (n : ℕ) : cqeRes n ≤ n := bmod_natCast_le n _

/-- What is not too short has all bytes of the block. -/
theorem le_of_not_short {n len : ℕ} (h : ¬(cqeRes n < 0 ∨ cqeRes n < len)) : len ≤ n := by
  have hres := cqeRes_le n
  generalize cqeRes n = res at *
  omega

theorem cqeRes_of_lt {n : ℕ} (h : n < 2 ^ 31) : cqeRes n = n :=
  Int.bmod_eq_of_le (by omega) (by omega)

section

variable {w : Window} {q : Request} {bytes : List UInt8} {dst : Memory}

theorem finishRead_short
    (h : cqeRes bytes.length < 0 ∨ cqeRes bytes.length < w.lenOf q.blk) :
    finishRead w q (some bytes) dst = none := by
  rw [finishRead, if_pos h]

theorem finishRead_long
    (h : ¬(cqeRes bytes.length < 0 ∨ cqeRes bytes.length < w.lenOf q.blk)) :
    finishRead w q (some bytes) dst =
      some (Function.update w.pool q.buf (copyIn (w.pool q.buf) 0 bytes),
        copyIn dst (w.memOffOf q.blk) (readRun (Function.update w.pool q.buf
          (copyIn (w.pool q.buf) 0 bytes) q.bi) 0 (w.lenOf q.blk))) := by
  rw [finishRead, if_neg h]

theorem eq_of_finishRead {pool : ℕ → Memory} {dst' : Memory}
    (h : finishRead w q (some bytes) dst = some (pool, dst')) :
    pool = Function.update w.pool q.buf (copyIn (w.pool q.buf) 0 bytes) ∧
      dst' = copyIn dst (w.memOffOf q.blk) (readRun (Function.update w.pool q.buf
        (copyIn (w.pool q.buf) 0 bytes) q.bi) 0 (w.lenOf q.blk)) := by
  by_cases hshort : cqeRes bytes.length < 0 ∨ cqeRes bytes.length < w.lenOf q.blk
  · rw [finishRead_short hshort] at h
    exact absurd h.symm (Option.some_ne_none _)
  · rw [finishRead_long hshort, Option.some.injEq, Prod.mk.injEq] at h
    exact ⟨h.1.symm, h.2.symm⟩

end

/-- What the ring answers to requests to read: an error, or one of them with some of its bytes. -/
def RingAnswers (failed : Prop) (files : Path → File) (pending : List ReadRequest) :
    Option (ℕ × Option (List UInt8)) → Prop
  | none => failed
  | some (i, none) => failed ∧ i < pending.length
  | some (i, some bytes) => ∃ q n, pending[i]? = some q ∧
      bytes = readRun (files q.path).byte q.fileOff n ∧ n ≤ q.len ∧
      (failed ∨ n = min q.len ((files q.path).size - q.fileOff))

variable {ι σ : Type} {ask : (o : Op) → σ → o.Answer → σ → Prop} {s : σ}

/-- The ring reads from the files, as long as nothing fails. -/
structure RingServes (ask : (o : Op) → σ → o.Answer → σ → Prop) (I failed : σ → Prop)
    (files : Path → File) : Prop where
  setup : ∀ s, I s → (∃ a s', ask .setup s a s') ∧
    ∀ a s', ask .setup s a s' → I s' ∧ (a = false → failed s')
  openFile : ∀ path s, I s → (∃ a s', ask (.openFile path) s a s') ∧
    ∀ a s', ask (.openFile path) s a s' → I s' ∧ (a = false → failed s')
  waitRead : ∀ pending s, pending ≠ [] → I s → (∃ a s', ask (.waitRead pending) s a s') ∧
    ∀ a s', ask (.waitRead pending) s a s' → I s' ∧ RingAnswers (failed s') files pending a

/-- A call of a program that is alone. -/
theorem wp_perform {o : Op} {Q : o.Answer → σ → Prop}
    (h : (∃ a s', ask o s a s') ∧ ∀ a s', ask o s a s' → Q a s') :
    (alone ask).wp () (.perform o) Q s := by
  rintro _ - rfl
  exact ⟨trivial, h.1, fun a s' ha => wp_ret (stable_alone _) (h.2 a s' ha)⟩

namespace RingServes

variable {I failed : σ → Prop} {files : Path → File} {chunks : List NvmeChunk}
  {ios : List BlockTransfer} {qd : ℕ}

/-- What is read into a buffer and copied from there. -/
theorem readRun_copyIn {m g : Memory} {off n len : ℕ} (h : len ≤ n) :
    readRun (copyIn m 0 (readRun g off n)) 0 len = readRun g off len := by
  refine List.ext_getElem (by simp) fun k hk _ => ?_
  rw [length_readRun] at hk
  have hlt : k < (readRun g off n).length := by
    rw [length_readRun]
    omega
  have hcopy : copyIn m 0 (readRun g off n) (0 + k) = _ := copyIn_add hlt
  simp only [readRun, List.getElem_map, List.getElem_range] at hcopy ⊢
  exact hcopy

/-- The sliding window leaves the blocks in some order, or it says that it failed. -/
theorem wp_uringReadLoop (h : RingServes ask I failed files) (hqd : 0 < qd)
    (hios : ios.length ≤ 2 ^ 32)
    (hwhole : ∀ s, I s → failed s ∨ ∀ b ∈ ios, b.fileOff + b.len ≤ (files b.path).size ∧
      b.len ≤ roundup b.len 4096 ∧ roundup b.len 4096 < 2 ^ 31)
    {pool : ℕ → Memory}
    (hv : Flying (fun _ _ => True) ios qd (Window.start qd pool).freeBufs [] (.start qd pool))
    (hI : I s) :
    (alone ask).wp () (uringReadLoop ios qd (ios.length + 1) (.start qd pool) dst)
      (fun x s' => I s' ∧ (x.1 = false ∧ failed s' ∨ ∃ done : List BlockTransfer, done.Perm ios ∧
        x = (true, done.foldl (copyBlock files) dst))) s := by
  -- The blocks `comp` are read.
  refine wp_slide (I := fun comp v x s => Flying (fun _ _ => True) ios qd v.freeBufs comp v ∧
      x = (comp.filterMap (ios[·]?)).foldl (copyBlock files) dst ∧ I s) hqd hios
    (fun comp v x s hv hdone hx => ⟨hx.2.2, .inr ⟨_, hv.perm hdone, Prod.ext rfl hx.2.1⟩⟩)
    hv.toNumbered (Nat.lt_add_left _ (Nat.lt_succ_self _)) ⟨hv, rfl, hI⟩ ?_
  rintro comp v w x s hr ⟨hv, rfl, hI⟩
  have hw := hv.round hr hios fun _ _ _ => trivial
  refine wp_mono ?_ (wp_perform (h.waitRead _ s (mt List.map_eq_nil_iff.1 hr.pending) hI))
  rintro a s' ⟨hI', ha⟩
  match a, ha with
  | none, hf => exact ⟨hI', .inl ⟨rfl, hf⟩⟩
  | some (i, none), ⟨hf, hi⟩ =>
    rw [List.length_map] at hi
    exact .fails (List.getElem?_eq_getElem hi) rfl ⟨hI', .inl ⟨rfl, hf⟩⟩
  | some (i, some bytes), ⟨r, n, hget, hbytes, hn⟩ =>
    rw [List.getElem?_map] at hget
    obtain ⟨q, hq, rfl⟩ := Option.map_eq_some_iff.1 hget
    obtain ⟨b, hb, hnoted, hloads⟩ := hw.carries (List.mem_append_left _ (List.mem_of_getElem? hq))
    subst hbytes
    by_cases hshort : cqeRes (readRun (files q.path).byte q.fileOff n).length < 0 ∨
        cqeRes (readRun (files q.path).byte q.fileOff n).length < w.lenOf q.blk
    · -- A whole block is not too short.
      refine .fails hq (finishRead_short hshort) ⟨hI', .inl ⟨rfl, ?_⟩⟩
      by_contra hf
      obtain ⟨hsize, hle, hint⟩ := (hwhole s' hI').resolve_left hf b (List.mem_of_getElem? hb)
      have hn := hn.2.resolve_left hf
      simp only [hnoted.path, hnoted.fileOff, hloads.len] at hn
      rw [length_readRun, hnoted.lenOf, cqeRes_of_lt (by omega)] at hshort
      omega
    · have hreap (pool : ℕ → Memory) :=
        Flying.reap (v := { w with pool }) (hw.pool pool) hr.sqes hq
      refine .goes_on hq (finishRead_long hshort) ⟨hreap _, ?_, hI'⟩
      rw [length_readRun, hnoted.lenOf] at hshort
      rw [List.filterMap_append, List.foldl_append, List.filterMap_cons_some hb, hnoted.lenOf,
        hnoted.memOffOf, hloads.bi, Function.update_self, readRun_copyIn (le_of_not_short hshort),
        hnoted.path, hnoted.fileOff]
      rfl

theorem wp_openChunks (h : RingServes ask I failed files) (hI : I s) :
    (alone ask).wp () (openChunks chunks)
      (fun ok s' => I s' ∧ (ok = false → failed s')) s := by
  induction chunks generalizing s with
  | nil => exact wp_ret (stable_alone _) ⟨hI, fun h => nomatch h⟩
  | cons c chunks ih =>
    rw [openChunks]
    refine wp_bind trivial (wp_mono (fun a s₂ ⟨hI₂, hclosed⟩ _ => ?_)
      (wp_perform (h.openFile c.path s hI)))
    cases a with
    | false => exact wp_ret (stable_alone _) ⟨hI₂, hclosed⟩
    | true => exact ih hI₂

/-- A reader with at most 64 blocks in flight returns the bytes of the chunks, or it says that it
    failed. It fails only if something has failed, or the chunks are not in their files. -/
theorem wp_nvmeReadUring (h : RingServes ask I failed files) {cfg : NvmeConfig}
    (hqd : cfg.qd ≤ 2 ^ 16) (hnarrow : cfg.Narrow (blockTransfers cfg.block chunks 0))
    (hend : ∀ c ∈ chunks, c.offset + c.length + 4096 ≤ 2 ^ 64)
    (hcount : (blockTransfers cfg.block chunks 0).length ≤ 2 ^ 32)
    (hwhole : ∀ s, I s → failed s ∨
      (∀ b ∈ blockTransfers cfg.block chunks 0, roundup b.len 4096 < 2 ^ 31) ∧
      ∀ c ∈ chunks, 0 < c.length → c.offset + c.length ≤ (files c.path).size)
    {pool : ℕ → Memory} (hI : I s) :
    (alone ask).wp () (nvmeReadUring cfg chunks pool dst) (fun x s' => I s' ∧
      (x.1 = false ∧ failed s' ∨ x = (true, copyIn dst 0 (chunks.flatMap (bytesIn files))))) s := by
  rw [nvmeReadUring]
  refine wp_bind trivial (wp_mono (fun ok s₁ ⟨hI₁, hclosed⟩ _ => ?_) (h.wp_openChunks hI))
  cases ok with
  | false => exact wp_ret (stable_alone _) ⟨hI₁, .inl ⟨rfl, hclosed rfl⟩⟩
  | true =>
    refine wp_bind trivial (wp_mono (fun a s₂ ⟨hI₂, hfailed⟩ _ => ?_)
      (wp_perform (h.setup s₁ hI₁)))
    cases a with
    | false => exact wp_ret (stable_alone _) ⟨hI₂, .inl ⟨rfl, hfailed rfl⟩⟩
    | true =>
      refine wp_mono (fun x s₃ hx => ⟨hx.1, hx.2.imp_right ?_⟩) (h.wp_uringReadLoop cfg.qd_pos
        hcount (fun s hI => (hwhole s hI).imp_right fun ⟨hint, hsize⟩ b hb => ?_)
        (Flying.start hqd hnarrow pool) hI₂)
      · -- The blocks are read in some order, which does not matter.
        rintro ⟨done, hperm, rfl⟩
        rw [foldl_eq_of_perm hperm, foldl_copyBlock cfg.block_pos hend]
        refine (pairwise_memOff hend).imp fun hmem z => copyIn_comm ?_
        rwa [length_readRun]
      · have hround := roundup_len hend hb
        have hlen := hint b hb
        obtain ⟨c, hc, _, -, hb⟩ := mem_blockTransfers hb
        obtain ⟨o, -, hlt, rfl⟩ := mem_chunkBlocks hb
        have hin := hsize c hc (by omega)
        have hbound := hend c hc
        dsimp only at hround hlen ⊢
        rw [Nat.mod_eq_of_lt (by omega)]
        omega

end RingServes

/-! ## Writing -/

/-- The buffer of a block has its bytes, with the padding. -/
def Loaded (src : List UInt8) (b : BlockTransfer) (m : Memory) : Prop :=
  readRun m 0 (roundup b.len 4096) = b.bytes src

theorem length_bytes {src : List UInt8} {b : BlockTransfer} (h : b.len ≤ roundup b.len 4096) :
    (b.bytes src).length = roundup b.len 4096 := by
  rw [BlockTransfer.bytes, padTo, List.length_append, List.length_replicate, List.length_take]
  omega

theorem loaded_loadBlock {src : List UInt8} {b : BlockTransfer} (h : b.len ≤ roundup b.len 4096)
    (m : Memory) : Loaded src b (loadBlock src b m) := by
  have hlen : (b.bytes src).length = _ := length_bytes h
  rw [Loaded, loadBlock, copyIn]
  change readRun (writeRun 0 (b.bytes src).length (b.bytes src) m) 0 _ = _
  rw [hlen]
  exact readRun_writeRun hlen

section

variable {t : ι} {s : Disk ι} {cfg : NvmeConfig} {src : List UInt8}

/-- The bytes that are written for a request. -/
theorem Loads.bytes_eq {v : Window} {q : Request} {b : BlockTransfer}
    (h : Loads (Loaded src) v q b) : readRun (v.pool q.buf) 0 q.len = b.bytes src := by
  rw [h.len]
  exact h.loaded

/-- A block that is written as a whole is finished. -/
theorem finishWrite_of_noted {v : Window} {q : Request} {b : BlockTransfer}
    (h : Noted v q.toFlight b) (hle : b.len ≤ roundup b.len 4096)
    (hint : roundup b.len 4096 < 2 ^ 31) :
    finishWrite v q (cqeRes (b.bytes src).length) () = some (v.pool, ()) := by
  rw [length_bytes hle, cqeRes_of_lt hint, finishWrite, h.padOf, if_neg (by omega)]

/-- The sliding window writes the blocks in some order, one by one in theirs. -/
theorem wp_uringWriteLoop_alone {ios : List BlockTransfer} {qd : ℕ} (hqd : 0 < qd)
    (hios : ios.length ≤ 2 ^ 32)
    (hround : ∀ b ∈ ios, b.len ≤ roundup b.len 4096 ∧ roundup b.len 4096 < 2 ^ 31)
    {pool : ℕ → Memory}
    (hv : Flying (Loaded src) ios qd (Window.start qd pool).freeBufs [] (.start qd pool)) :
    (alone (does t)).wp () (uringWriteLoop src ios qd (ios.length + 1) (.start qd pool))
      (fun r s' => r.1 = true ∧ ∃ done : List BlockTransfer, done.Perm ios ∧
        (qd = 1 → done = ios) ∧ s' = done.foldl (Disk.writeBlock src) s) s := by
  -- The blocks `comp` are written.
  refine wp_slide (I := fun comp v _ s' => Flying (Loaded src) ios qd v.freeBufs comp v ∧
      (qd = 1 → comp = List.range comp.length) ∧
      s' = (comp.filterMap (ios[·]?)).foldl (Disk.writeBlock src) s) hqd hios
    (fun comp v _ s' hv hdone hx => ⟨rfl, _, hv.perm hdone, fun hone => ?_, hx.2.2⟩)
    hv.toNumbered (Nat.lt_add_left _ (Nat.lt_succ_self _)) ⟨hv, fun _ => rfl, rfl⟩ ?_
  · rw [hx.2.1 hone, ← hv.done, hv.done_le.antisymm hdone, filterMap_getElem?_range]
  rintro comp v w _ _ hr ⟨hv, hcomp, rfl⟩
  have hw := hv.round hr hios fun b hb m => loaded_loadBlock (hround b hb).1 m
  obtain ⟨q, rest, hpending⟩ := List.exists_cons_of_ne_nil hr.pending
  refine wp_mono ?_ (wp_perform ⟨⟨_, _, 0, _, by rw [hpending]; rfl, rfl, rfl⟩, fun _ _ h => h⟩)
  rintro a s' ⟨i, r, hget, rfl, rfl⟩
  rw [List.getElem?_map] at hget
  obtain ⟨q, hq, rfl⟩ := Option.map_eq_some_iff.1 hget
  obtain ⟨b, hb, hnoted, hloads⟩ := hw.carries (List.mem_append_left _ (List.mem_of_getElem? hq))
  obtain ⟨hle, hint⟩ := hround b (List.mem_of_getElem? hb)
  rw [hloads.bytes_eq]
  refine .goes_on hq (finishWrite_of_noted hnoted hle hint) ⟨hw.reap hr.sqes hq, ?_, ?_⟩
  · rintro rfl
    rw [List.length_append, List.length_singleton, List.range_succ, ← hcomp rfl,
      hw.blk_eq (hcomp rfl) (Window.mem_flights
        (List.mem_append_left _ (List.mem_of_getElem? hq)))]
  · rw [List.filterMap_append, List.foldl_append, List.filterMap_cons_some hb, hnoted.path,
      hnoted.fileOff]
    rfl

theorem wp_openStripes_alone {chunks : List NvmeChunk} :
    (alone (does t)).wp () (openStripes cfg i segs chunks) (fun r s' =>
      r = (true, chunks ++ (reserveSegments cfg t i segs s).1) ∧
        s' = (reserveSegments cfg t i segs s).2) s := by
  induction segs generalizing i chunks s with
  | nil =>
    rw [openStripes, reserveSegments, List.append_nil]
    exact wp_ret (stable_alone _) ⟨rfl, rfl⟩
  | cons seg segs ih =>
    rw [openStripes, reserveSegments]
    split
    · exact ih
    · refine wp_bind trivial (wp_mono ?_ (wp_openStripe_alone i seg))
      rintro c s' ⟨rfl, rfl⟩ -
      refine wp_mono (fun r s' h => ?_) ih
      rwa [List.append_assoc, List.singleton_append] at h

theorem openStripes_yields (nbytes : ℕ) :
    (openStripes cfg 0 (stripeSegments cfg.stripeCount nbytes) []).Yields (does t) s
      (true, (s.layout cfg t nbytes).1) (s.layout cfg t nbytes).2 :=
  wp_openStripes_alone

/-- The chunks that are recorded have room in the numbers of 64 bits. -/
theorem mem_reserveSegments {c : NvmeChunk} (hroom : s.HasRoom i segs)
    (h : c ∈ (reserveSegments cfg t i segs s).1) : c.offset + c.length + 4096 ≤ 2 ^ 64 := by
  induction segs generalizing i s with
  | nil => exact nomatch h
  | cons seg segs ih =>
    rw [reserveSegments] at h
    split at h
    · exact ih (hroom.tail fun _ _ => rfl) h
    · rcases List.mem_cons.1 h with rfl | h
      · exact hroom 0 seg rfl
      · exact ih (hroom.tail fun j hj => Function.update_of_ne hj.ne' ..) h

/-- The engine with the ring leaves the blocks of the tensor, like the other one, if they are
    apart in their files and at most 64 of them are in flight. -/
theorem wp_nvmeWriteUring_alone {ios : List BlockTransfer}
    (hios : blockTransfers cfg.block (s.layout cfg t src.length).1 0 = ios) (hsized : Sized ios)
    (hapart : cfg.Apart ios) (hqd : cfg.qd ≤ 2 ^ 16) (hnarrow : cfg.Narrow ios)
    (hroom : s.HasRoom 0 (stripeSegments cfg.stripeCount src.length)) (pool : ℕ → Memory) :
    (alone (does t)).wp () (nvmeWriteUring cfg src pool) (fun r s' =>
      r = (true, (s.layout cfg t src.length).1) ∧
        s' = ios.foldl (Disk.writeBlock src) (s.layout cfg t src.length).2) s := by
  have hend : ∀ c ∈ (s.layout cfg t src.length).1, c.offset + c.length + 4096 ≤ 2 ^ 64 :=
    fun c hc => mem_reserveSegments hroom hc
  have hround : ∀ b ∈ ios, b.len ≤ roundup b.len 4096 :=
    fun b hb => (roundup_len hend (hios ▸ hb)).2.1
  rw [nvmeWriteUring]
  refine wp_bind trivial (wp_mono ?_ (openStripes_yields src.length))
  rintro r s' ⟨rfl, rfl⟩ -
  refine wp_call (stable_alone (· = _)) rfl ?_
  rintro _ - rfl
  refine ⟨trivial, ⟨true, _, rfl, rfl⟩, ?_⟩
  rintro a s' ⟨rfl, rfl⟩ -
  rw [hios]
  refine wp_bind trivial (wp_mono ?_ (wp_uringWriteLoop_alone cfg.qd_pos hsized.count
    (fun b hb => ⟨hround b hb, hsized.len b hb⟩) (Flying.start hqd hnarrow pool)))
  rintro ⟨_, _⟩ s' ⟨rfl, done, hperm, hone, rfl⟩ -
  refine wp_ret (stable_alone _) ⟨rfl, ?_⟩
  rcases hapart with hqd | hapart
  · rw [hone hqd]
  · -- The order in which they are written does not matter.
    refine foldl_eq_of_perm hperm ?_ _
    refine hapart.imp_of_mem fun hb _ hoff z => Disk.write_comm fun hpath => ?_
    rw [length_bytes (hround _ hb)]
    exact hoff hpath

end

end StateSpectre.Nvme
