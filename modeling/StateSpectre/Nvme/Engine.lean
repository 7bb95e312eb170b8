import Mathlib.Data.Nat.Digits.Defs
import StateSpectre.Lib.Prog
import StateSpectre.Lib.Span

/-!
# The engines that write to NVMe

A tensor that is moved to NVMe is cut into one segment for each stripe, and each segment is
appended to the file of its stripe: a region is reserved there by a counter, and the segment is
written into it block by block, padded with zeros. What is recorded of it are its chunks: file,
offset and length of each segment. To read the tensor back the chunks are read block by block.

There are two engines. One of them writes and reads with `pwrite` and `pread`, in a loop until a
block is done (`nvmeWritePwrite`, `nvmeReadPwrite`). The other one keeps several blocks in flight
in an `io_uring` (`nvmeWriteUring`, `nvmeReadUring`). Both are programs over the calls they make to
the system (`Op`), whose answers say how far a call got, or that it failed. A call that is
interrupted is made again; its answer here is the last one. Files are named by their paths, also
where the source has a descriptor.
-/

namespace StateSpectre.Nvme

/-! ## Calls -/

abbrev Path := List Char

/-- A request to write, as the kernel performs it: the bytes are those of the buffer. -/
structure WriteRequest where
  path : Path
  fileOff : ℕ
  bytes : List UInt8

structure ReadRequest where
  path : Path
  fileOff : ℕ
  len : ℕ

/-- The calls of the engines. -/
inductive Op
  /-- The memory of the bounce buffers, and the ring. -/
  | setup
  | openFile (path : Path)
  | fetchAdd (stripe n : ℕ)
  | pwrite (path : Path) (off : ℕ) (data : List UInt8)
  | pread (path : Path) (off len : ℕ)
  /-- `io_uring_submit` and `io_uring_wait_cqe`, with the requests that are in flight. -/
  | waitWrite (pending : List WriteRequest)
  | waitRead (pending : List ReadRequest)

/-- What a call answers; `none` is an error. The ring answers with the index of the request that
    is completed. -/
@[reducible] def Op.Answer : Op → Type
  | setup => Bool
  | openFile _ => Bool
  | fetchAdd _ _ => ℕ
  | pwrite _ _ _ => Option ℕ
  | pread _ _ _ => Option (List UInt8)
  | waitWrite _ => Option (ℕ × ℤ)
  | waitRead _ => Option (ℕ × Option (List UInt8))

/-- Programs over these calls. -/
abbrev Calls := Prog Op Op.Answer

abbrev setup : Calls Bool := .perform Op.setup

abbrev openFile (path : Path) : Calls Bool := .perform (Op.openFile path)

abbrev fetchAdd (stripe n : ℕ) : Calls ℕ := .perform (Op.fetchAdd stripe n)

abbrev pwrite (path : Path) (off : ℕ) (data : List UInt8) : Calls (Option ℕ) :=
  .perform (Op.pwrite path off data)

abbrev pread (path : Path) (off len : ℕ) : Calls (Option (List UInt8)) :=
  .perform (Op.pread path off len)

abbrev waitWrite (pending : List WriteRequest) : Calls (Option (ℕ × ℤ)) :=
  .perform (Op.waitWrite pending)

abbrev waitRead (pending : List ReadRequest) : Calls (Option (ℕ × Option (List UInt8))) :=
  .perform (Op.waitRead pending)

/-! ## The layout of a tensor -/

/-- The configuration, as far as the engines read it. -/
structure NvmeConfig where
  nvmePath : Path
  stripeDirs : List Path := []
  /-- `nvme_stripe_count_`. -/
  stripeCount : ℕ
  blockBytes : ℕ := 16 <<< 20
  queueDepth : ℕ := 8
  /-- `nvme_io_engine` is `io_uring`. -/
  useUringEngine : Bool := true
  /-- The constructor of the daemon puts it to 1 or 4, if the file does not. -/
  stripeCount_pos : 0 < stripeCount := by decide

namespace NvmeConfig

variable (cfg : NvmeConfig)

/-- The directory of a stripe: they take turns, if several are given. -/
def stripeDir (stripe : ℕ) : Path :=
  if cfg.stripeDirs ≠ [] then cfg.stripeDirs.getD (stripe % cfg.stripeDirs.length) []
  else cfg.nvmePath

/-- The file of a stripe. It is printed into 1024 bytes, of which the last one ends it. -/
def stripePath (stripe : ℕ) : Path :=
  (cfg.stripeDir stripe ++ "/off_stripe_".toList ++ Nat.toDigits 10 stripe ++
    ".dat".toList).take 1023

/-- The bytes that are written or read at a time. -/
def block : ℕ := if cfg.blockBytes ≠ 0 then cfg.blockBytes else 16 <<< 20

/-- The blocks that are in flight at most. -/
def qd : ℕ := max 1 cfg.queueDepth

end NvmeConfig

/-- Rounding up, in 64 bits. -/
def roundup (v a : ℕ) : ℕ := (v + a - 1) % 2 ^ 64 / a * a

/-- A round of `stripe_segments`, with the segments so far and the bytes they have. The last stripe
    gets what is left over. -/
def addSegment (stripes nbytes : ℕ) (x : List ℕ × ℕ) (i : ℕ) : List ℕ × ℕ :=
  let seg := if i = stripes - 1 then nbytes - x.2 else nbytes / stripes
  (x.1 ++ [seg], x.2 + seg)

def stripeSegments (stripes nbytes : ℕ) : List ℕ :=
  ((List.range stripes).foldl (addSegment stripes nbytes) ([], 0)).1

/-- A segment in the file of its stripe (`ColdEntry::NvmeChunk`). -/
structure NvmeChunk where
  path : Path
  offset : ℕ
  length : ℕ
  deriving DecidableEq

/-- The bytes `bytes` followed by zeros, up to the length `n`. -/
def padTo (n : ℕ) (bytes : List UInt8) : List UInt8 := bytes ++ List.replicate (n - bytes.length) 0

/-! ## Writing with pwrite -/

/-- The loop over `pwrite`, until all of the buffer is written. -/
def pwriteAll (path : Path) (woff : ℕ) (abuf : List UInt8) : ℕ → ℕ → Calls Bool
  | 0, _ => .hang
  | fuel + 1, w =>
    if w < abuf.length then do
      match ← pwrite path ((woff + w) % 2 ^ 64) (abuf.drop w) with
      | none => return false
      | some n => pwriteAll path woff abuf fuel (w + n)
    else return true

/-- The loop over the blocks of a segment. -/
def writeBlocks (block : ℕ) (path : Path) (baseOff : ℕ) (seg : List UInt8) : ℕ → ℕ → Calls Bool
  | 0, _ => .hang
  | fuel + 1, writtenSeg =>
    if writtenSeg < seg.length then do
      let thisBlock := min block (seg.length - writtenSeg)
      let abuf := padTo (roundup thisBlock 4096) ((seg.drop writtenSeg).take thisBlock)
      let woff := (baseOff + writtenSeg) % 2 ^ 64
      if ← pwriteAll path woff abuf (abuf.length + 1) 0 then
        writeBlocks block path baseOff seg fuel (writtenSeg + thisBlock)
      else return false
    else return true

/-- The file of a stripe is opened, and a padded region is reserved in it for a segment. -/
def openStripe (cfg : NvmeConfig) (i seg : ℕ) : Calls (Option NvmeChunk) := do
  let path := cfg.stripePath i
  if ← openFile path then
    let baseOff ← fetchAdd i (roundup seg 4096)
    return some ⟨path, baseOff, seg⟩
  else return none

/-- The loop over the segments, from the stripe `i` on. -/
def writeSegments (cfg : NvmeConfig) (src : List UInt8) :
    ℕ → List ℕ → ℕ → List NvmeChunk → Calls (Bool × List NvmeChunk)
  | _, [], _, chunks => return (true, chunks)
  | i, seg :: segs, consumed, chunks =>
    if seg = 0 ∧ i ≠ 0 then writeSegments cfg src (i + 1) segs consumed chunks
    else do
      match ← openStripe cfg i seg with
      | none => return (false, chunks)
      | some chunk =>
        if ← writeBlocks cfg.block chunk.path chunk.offset ((src.drop consumed).take seg)
            (seg + 1) 0 then
          writeSegments cfg src (i + 1) segs (consumed + seg) (chunks ++ [chunk])
        else return (false, chunks)

def nvmeWritePwrite (cfg : NvmeConfig) (src : List UInt8) : Calls (Bool × List NvmeChunk) := do
  if ← setup then
    writeSegments cfg src 0 (stripeSegments cfg.stripeCount src.length) 0 []
  else return (false, [])

/-! ## Reading with pread -/

/-- The memory behind a pointer. -/
abbrev Memory := ℕ → UInt8

/-- Bytes are copied to an address. -/
def copyIn (m : Memory) (addr : ℕ) (bytes : List UInt8) : Memory :=
  writeRun addr bytes.length bytes m

/-- The loop over `pread`, until the buffer is full or the file ends. -/
def preadAll (path : Path) (roff bpad : ℕ) : ℕ → Memory → ℕ → Calls (Bool × Memory)
  | 0, _, _ => .hang
  | fuel + 1, abuf, r =>
    if r < bpad then do
      match ← pread path ((roff + r) % 2 ^ 64) (bpad - r) with
      | none => return (false, abuf)
      | some [] => return (true, abuf)
      | some (b :: got) =>
        preadAll path roff bpad fuel (copyIn abuf r (b :: got)) (r + (b :: got).length)
    else return (true, abuf)

/-- The loop over the blocks of a chunk. The block is copied from the buffer even if it could not
    be read. -/
def readBlocks (block : ℕ) (chunk : NvmeChunk) (consumed : ℕ) :
    ℕ → Memory → Memory → ℕ → Calls (Bool × Memory × Memory)
  | 0, _, _, _ => .hang
  | fuel + 1, abuf, dst, readSeg =>
    if readSeg < chunk.length then do
      let thisBlock := min block (chunk.length - readSeg)
      let bpad := roundup thisBlock 4096
      let (ok, abuf) ←
        preadAll chunk.path ((chunk.offset + readSeg) % 2 ^ 64) bpad (bpad + 1) abuf 0
      let dst := copyIn dst (consumed + readSeg) (readRun abuf 0 thisBlock)
      if ok then readBlocks block chunk consumed fuel abuf dst (readSeg + thisBlock)
      else return (false, abuf, dst)
    else return (true, abuf, dst)

/-- The loop over the chunks. After an error the other files are opened, but not read. -/
def readChunks (block : ℕ) :
    List NvmeChunk → Bool → ℕ → Memory → Memory → Calls (Bool × ℕ × Memory)
  | [], ok, consumed, _, dst => return (ok, consumed, dst)
  | chunk :: chunks, ok, consumed, abuf, dst => do
    if ← openFile chunk.path then
      if ok then
        let (ok, abuf, dst) ← readBlocks block chunk consumed (chunk.length + 1) abuf dst 0
        readChunks block chunks ok (if ok then consumed + chunk.length else consumed) abuf dst
      else readChunks block chunks false consumed abuf dst
    else return (false, consumed, dst)

/-- `nvme_read_pwrite`, from the memory as it is. Whether all was read makes a difference only for
    what is logged. -/
def nvmeReadPwrite (cfg : NvmeConfig) (chunks : List NvmeChunk) (abuf dst : Memory) :
    Calls (Bool × Memory) := do
  if ← setup then
    let (_, _, dst) ← readChunks cfg.block chunks true 0 abuf dst
    return (true, dst)
  else return (false, dst)

/-! ## The ring -/

/-- A block of a chunk, with where it is in the tensor (`BlockIO`). -/
structure BlockTransfer where
  path : Path
  fileOff : ℕ
  memOff : ℕ
  len : ℕ

/-- The blocks of a chunk whose bytes start at `consumed`. -/
def chunkBlocks (block : ℕ) (chunk : NvmeChunk) (consumed : ℕ) : ℕ → ℕ → List BlockTransfer
  | 0, _ => []
  | fuel + 1, off =>
    if off < chunk.length then
      let len := min block (chunk.length - off)
      ⟨chunk.path, (chunk.offset + off) % 2 ^ 64, consumed + off, len⟩ ::
        chunkBlocks block chunk consumed fuel (off + len)
    else []

/-- The flat list of the blocks of all chunks. -/
def blockTransfers (block : ℕ) : List NvmeChunk → ℕ → List BlockTransfer
  | [], _ => []
  | chunk :: chunks, consumed =>
    chunkBlocks block chunk consumed (chunk.length + 1) 0 ++
      blockTransfers block chunks (consumed + chunk.length)

/-- Where a block is read or written, and what its completion will name. -/
structure Flight where
  path : Path
  fileOff : ℕ
  userData : ℕ

/-- The buffer that a completion names. -/
def Flight.bi (f : Flight) : ℕ := f.userData &&& 0xFFFF

/-- The block that a completion names. -/
def Flight.blk (f : Flight) : ℕ := (f.userData >>> 16) % 2 ^ 32

/-- An entry of the submission queue. It points to an entry of the array of iovecs. -/
structure Sqe extends Flight where
  iovIndex : ℕ

/-- A request in flight, with the buffer and the length that its iovec had when it was
    submitted. -/
structure Request extends Flight where
  buf : ℕ
  len : ℕ

/-- The variables of the loop over the blocks. -/
structure Window where
  next : ℕ := 0
  done : ℕ := 0
  inflight : ℕ := 0
  /-- The buffers that are free, the last one first. -/
  freeBufs : List ℕ
  pool : ℕ → Memory
  /-- The buffer and the length of each iovec. -/
  iov : ℕ → ℕ × ℕ := fun _ => (0, 0)
  padOf : ℕ → ℕ := fun _ => 0
  lenOf : ℕ → ℕ := fun _ => 0
  memOffOf : ℕ → ℕ := fun _ => 0
  /-- The entries that are prepared. -/
  sqes : List Sqe := []
  /-- The requests that are submitted and not yet completed. -/
  pending : List Request := []

/-- The index of the block and that of the buffer, packed into 64 bits. -/
def packUserData (blk bi : ℕ) : ℕ := ((blk <<< 16) ||| bi) % 2 ^ 64

/-- A block gets a buffer and an entry of the submission queue. A buffer that is to be written is
    loaded first. -/
def Window.prepare (load : BlockTransfer → Memory → Memory) (v : Window) (b : BlockTransfer)
    (bi : ℕ) : Window :=
  let bpad := roundup b.len 4096
  { v with
    pool := Function.update v.pool bi (load b (v.pool bi))
    iov := Function.update v.iov (bi % 64) (bi, bpad)
    sqes := v.sqes ++ [⟨⟨b.path, b.fileOff, packUserData v.next bi⟩, bi % 64⟩]
    padOf := Function.update v.padOf v.next bpad
    lenOf := Function.update v.lenOf v.next b.len
    memOffOf := Function.update v.memOffOf v.next b.memOff
    next := v.next + 1
    inflight := v.inflight + 1 }

/-- The loop that fills the pipe. There are as many entries in the submission queue as blocks in
    flight, so there is always one left. -/
def fill (load : BlockTransfer → Memory → Memory) (ios : List BlockTransfer) (qd : ℕ) :
    List ℕ → Window → Window
  | [], v => { v with freeBufs := [] }
  | bi :: freeBufs, v =>
    if v.inflight < qd then
      match ios[v.next]? with
      | some b => fill load ios qd freeBufs (v.prepare load b bi)
      | none => { v with freeBufs := bi :: freeBufs }
    else { v with freeBufs := bi :: freeBufs }

/-- `io_uring_submit`: the kernel reads the iovecs. -/
def submit (v : Window) : Window :=
  { v with
    pending := v.pending ++ v.sqes.map fun e =>
      ⟨e.toFlight, (v.iov e.iovIndex).1, (v.iov e.iovIndex).2⟩
    sqes := [] }

/-- A completion is seen: the buffer it names is free again. -/
def Window.reap (v : Window) (i bi : ℕ) : Window :=
  { v with
    pending := v.pending.eraseIdx i
    freeBufs := bi :: v.freeBufs
    inflight := v.inflight - 1
    done := v.done + 1 }

/-- The result of a completion is an `int`. -/
def cqeRes (n : ℕ) : ℤ := (n : ℤ).bmod (2 ^ 32)

/-- The variables before the first block: all buffers are free. -/
def Window.start (qd : ℕ) (pool : ℕ → Memory) : Window :=
  { freeBufs := (List.range qd).reverse, pool }

/-- The sliding window over the blocks: as many of them as possible are submitted, a completion is
    waited for, and its request is finished, until all blocks are done or something fails. What is
    finished leaves the buffers and the memory `x` as `finish` says. -/
def slide {α ρ : Type} (load : BlockTransfer → Memory → Memory) (ios : List BlockTransfer)
    (qd : ℕ) (wait : Window → Calls (Option (ℕ × ρ)))
    (finish : Window → Request → ρ → α → Option ((ℕ → Memory) × α)) :
    ℕ → Window → α → Calls (Bool × α)
  | 0, _, _ => .hang
  | fuel + 1, v, x =>
    if v.done < ios.length then do
      let v := submit (fill load ios qd v.freeBufs v)
      match ← wait v with
      | none => return (false, x)
      | some (i, res) =>
        match v.pending[i]? with
        | none => .hang
        | some q =>
          match finish v q res x with
          | none => return (false, x)
          | some (pool, x) =>
            slide load ios qd wait finish fuel ({ v with pool }.reap i q.bi) x
    else return (true, x)

/-! ## Writing with io_uring -/

/-- The loop that opens the files and reserves the regions. -/
def openStripes (cfg : NvmeConfig) :
    ℕ → List ℕ → List NvmeChunk → Calls (Bool × List NvmeChunk)
  | _, [], chunks => return (true, chunks)
  | i, seg :: segs, chunks =>
    if seg = 0 ∧ i ≠ 0 then openStripes cfg (i + 1) segs chunks
    else do
      match ← openStripe cfg i seg with
      | none => return (false, chunks)
      | some chunk => openStripes cfg (i + 1) segs (chunks ++ [chunk])

/-- A block is copied into a buffer, followed by zeros. -/
def loadBlock (src : List UInt8) (b : BlockTransfer) (m : Memory) : Memory :=
  copyIn m 0 (padTo (roundup b.len 4096) ((src.drop b.memOff).take b.len))

/-- The ring waits until a block is written. -/
def waitBlockWritten (v : Window) : Calls (Option (ℕ × ℤ)) :=
  waitWrite (v.pending.map fun q => ⟨q.path, q.fileOff, readRun (v.pool q.buf) 0 q.len⟩)

/-- A block has to be written as a whole. -/
def finishWrite (v : Window) (q : Request) (res : ℤ) (_ : Unit) :
    Option ((ℕ → Memory) × Unit) :=
  if res < 0 ∨ res ≠ v.padOf q.blk then none else some (v.pool, ())

/-- The sliding window over the blocks that are written. -/
def uringWriteLoop (src : List UInt8) (ios : List BlockTransfer) (qd fuel : ℕ) (v : Window) :
    Calls (Bool × Unit) :=
  slide (loadBlock src) ios qd waitBlockWritten finishWrite fuel v ()

def nvmeWriteUring (cfg : NvmeConfig) (src : List UInt8) (pool : ℕ → Memory) :
    Calls (Bool × List NvmeChunk) := do
  let (ok, chunks) ← openStripes cfg 0 (stripeSegments cfg.stripeCount src.length) []
  if ok then
    if ← setup then
      let ios := blockTransfers cfg.block chunks 0
      let (ok, _) ← uringWriteLoop src ios cfg.qd (ios.length + 1) (.start cfg.qd pool)
      return (ok, chunks)
    else return (false, chunks)
  else return (false, chunks)

/-! ## Reading with io_uring -/

/-- The loop that opens the files of the chunks. -/
def openChunks : List NvmeChunk → Calls Bool
  | [] => return true
  | chunk :: chunks => do
    if ← openFile chunk.path then openChunks chunks else return false

/-- The ring waits until a block is read. -/
def waitBlockRead (v : Window) : Calls (Option (ℕ × Option (List UInt8))) :=
  waitRead (v.pending.map fun q => ⟨q.path, q.fileOff, q.len⟩)

/-- What is read is put into the buffer of the iovec. If it is enough for the block, the block is
    copied from its own buffer. -/
def finishRead (v : Window) (q : Request) :
    Option (List UInt8) → Memory → Option ((ℕ → Memory) × Memory)
  | none, _ => none
  | some bytes, dst =>
    let pool := Function.update v.pool q.buf (copyIn (v.pool q.buf) 0 bytes)
    if cqeRes bytes.length < 0 ∨ cqeRes bytes.length < v.lenOf q.blk then none
    else some (pool, copyIn dst (v.memOffOf q.blk) (readRun (pool q.bi) 0 (v.lenOf q.blk)))

/-- The sliding window over the blocks that are read. -/
def uringReadLoop (ios : List BlockTransfer) (qd fuel : ℕ) (v : Window) (dst : Memory) :
    Calls (Bool × Memory) :=
  slide (fun _ m => m) ios qd waitBlockRead finishRead fuel v dst

/-- `nvme_read_uring`, from the memory as it is. -/
def nvmeReadUring (cfg : NvmeConfig) (chunks : List NvmeChunk) (pool : ℕ → Memory)
    (dst : Memory) : Calls (Bool × Memory) := do
  if ← openChunks chunks then
    if ← setup then
      let ios := blockTransfers cfg.block chunks 0
      uringReadLoop ios cfg.qd (ios.length + 1) (.start cfg.qd pool) dst
    else return (false, dst)
  else return (false, dst)

/-! ## The two engines -/

/-- `nvme_read`. The bounce buffer of the other engine is the first one of the pool. -/
def nvmeRead (cfg : NvmeConfig) (chunks : List NvmeChunk) (pool : ℕ → Memory) (dst : Memory) :
    Calls (Bool × Memory) :=
  if cfg.useUringEngine then nvmeReadUring cfg chunks pool dst
  else nvmeReadPwrite cfg chunks (pool 0) dst

end StateSpectre.Nvme
