import StateSpectre.Nvme.Disk

/-!
# An engine alone on the disk

What the engine with `pwrite` leaves, if nobody else uses the disk: its regions are reserved
(`reserveSegments`), and the blocks of the tensor are written, one after the other
(`wp_nvmeWritePwrite_alone`). What it reads are the bytes that the chunks name
(`wp_nvmeReadPwrite_alone`). Neither depends on how far each call gets.
-/

namespace StateSpectre.Nvme

open Discipline

variable {ι : Type} {t : ι} {s : Disk ι} {cfg : NvmeConfig} {src : List UInt8}
  {chunks : List NvmeChunk} {segs : List ℕ} {c : NvmeChunk}

/-! ## Blocks -/

/-- The bytes that are written for a block. -/
def BlockTransfer.bytes (src : List UInt8) (b : BlockTransfer) : List UInt8 :=
  padTo (roundup b.len 4096) ((src.drop b.memOff).take b.len)

def Disk.writeBlock (src : List UInt8) (s : Disk ι) (b : BlockTransfer) : Disk ι :=
  s.write b.path b.fileOff (b.bytes src)

theorem wp_pwriteAll_alone {path : Path} {woff : ℕ} {abuf : List UInt8}
    (hend : woff + abuf.length ≤ 2 ^ 64) :
    (alone (does t)).wp () (pwriteAll path woff abuf (abuf.length + 1) 0)
      (fun ok s' => ok = true ∧ s' = s.write path woff abuf) s := by
  refine wp_mono (fun ok s' hok => ?_)
    (wp_pwriteAll (W := fun w s' => s' = s.write path woff (abuf.take w)) (fun _ => stable_alone _)
      ?_ (Nat.zero_le _) (by omega) ?_)
  · simpa only [List.take_length] using hok
  · rintro w s' hw - rfl
    have hoff : (woff + w) % 2 ^ 64 = woff + w := Nat.mod_eq_of_lt (by omega)
    have hdrop : (abuf.drop w).length = abuf.length - w := List.length_drop
    have htake : (abuf.take w).length = w := by rw [List.length_take]; omega
    rw [hoff]
    refine ⟨trivial, ⟨_, _, (abuf.drop w).length, le_rfl, List.length_pos_iff.2, rfl, rfl⟩, ?_⟩
    rintro a s'' ⟨n, hn, hpos, rfl, rfl⟩
    refine ⟨n, hpos (List.length_pos_iff.1 (by omega)), by omega, rfl, ?_⟩
    have happend := s.write_append path woff (abuf.take w) ((abuf.drop w).take n)
    rw [htake] at happend
    rw [happend, List.take_add]
  · simp [Disk.write, File.write]

/-- The loop over the blocks of a segment writes them. -/
theorem wp_writeBlocks_alone {block consumed : ℕ} (hblock : 0 < block)
    (hend : c.offset + c.length + 4096 ≤ 2 ^ 64) (hsrc : consumed + c.length ≤ src.length)
    {fuel w : ℕ} (hw : w ≤ c.length) (hfuel : c.length < w + fuel) :
    (alone (does t)).wp ()
      (writeBlocks block c.path c.offset ((src.drop consumed).take c.length) fuel w)
      (fun ok s' => ok = true ∧
        s' = (chunkBlocks block c consumed fuel w).foldl (Disk.writeBlock src) s) s := by
  have hlength : ((src.drop consumed).take c.length).length = c.length := by
    rw [List.length_take, List.length_drop]
    omega
  induction fuel generalizing w s with
  | zero => omega
  | succ fuel ih =>
    rw [writeBlocks, chunkBlocks, hlength]
    split
    · next hlt =>
      have hround := roundup_spec (v := min block (c.length - w)) (by omega)
      have hpiece : (((src.drop consumed).take c.length).drop w).take (min block (c.length - w)) =
          (src.drop (consumed + w)).take (min block (c.length - w)) := by
        rw [List.drop_take, List.take_take, List.drop_drop]
        congr 1
        omega
      have hbytes : (padTo (roundup (min block (c.length - w)) 4096)
          ((src.drop (consumed + w)).take (min block (c.length - w)))).length =
          roundup (min block (c.length - w)) 4096 := by
        rw [padTo, List.length_append, List.length_replicate, List.length_take, List.length_drop]
        omega
      dsimp only
      rw [hpiece, Nat.mod_eq_of_lt (show c.offset + w < 2 ^ 64 by omega)]
      refine wp_bind trivial (wp_mono (fun ok s' hok _ => ?_)
        (wp_pwriteAll_alone (by rw [hbytes]; omega)))
      obtain ⟨rfl, rfl⟩ := hok
      exact ih (by omega) (by omega)
    · exact wp_ret (stable_alone _) ⟨rfl, rfl⟩

/-! ## Segments -/

/-- The regions that are reserved for the segments, from the stripe `i` on: the chunks that are
    recorded, and the disk. -/
def reserveSegments (cfg : NvmeConfig) (t : ι) :
    ℕ → List ℕ → Disk ι → List NvmeChunk × Disk ι
  | _, [], s => ([], s)
  | i, seg :: segs, s =>
    if seg = 0 ∧ i ≠ 0 then reserveSegments cfg t (i + 1) segs s
    else
      let x := reserveSegments cfg t (i + 1) segs (s.reserve t i (roundup seg 4096))
      (⟨cfg.stripePath i, s.next i % 2 ^ 64, seg⟩ :: x.1, x.2)

@[simp] theorem foldl_writeBlock_next (ios : List BlockTransfer) (s : Disk ι) :
    (ios.foldl (Disk.writeBlock src) s).next = s.next := by
  induction ios generalizing s with
  | nil => rfl
  | cons b ios ih => exact ih (s.writeBlock src b)

theorem foldl_writeBlock_reserve (ios : List BlockTransfer) (s : Disk ι) (i n : ℕ) :
    (ios.foldl (Disk.writeBlock src) s).reserve t i n =
      ios.foldl (Disk.writeBlock src) (s.reserve t i n) := by
  induction ios generalizing s with
  | nil => rfl
  | cons b ios ih => exact ih (s.writeBlock src b)

/-- Blocks may be written before or after regions are reserved. -/
theorem reserveSegments_foldl (i : ℕ) (segs : List ℕ) (ios : List BlockTransfer) (s : Disk ι) :
    reserveSegments cfg t i segs (ios.foldl (Disk.writeBlock src) s) =
      ((reserveSegments cfg t i segs s).1,
        ios.foldl (Disk.writeBlock src) (reserveSegments cfg t i segs s).2) := by
  induction segs generalizing i s with
  | nil => rfl
  | cons seg segs ih =>
    rw [reserveSegments, reserveSegments]
    split
    · exact ih _ _
    · simp only [foldl_writeBlock_reserve, foldl_writeBlock_next, ih]

/-- The regions of the segments have room in the numbers of 64 bits. -/
def Disk.HasRoom (s : Disk ι) (i : ℕ) (segs : List ℕ) : Prop :=
  ∀ j seg, segs[j]? = some seg → s.next (i + j) % 2 ^ 64 + seg + 4096 ≤ 2 ^ 64

theorem Disk.HasRoom.tail {i seg : ℕ} (h : s.HasRoom i (seg :: segs)) {s' : Disk ι}
    (hnext : ∀ j > i, s'.next j = s.next j) : s'.HasRoom (i + 1) segs := by
  intro j seg' hseg'
  rw [hnext _ (by omega), Nat.add_assoc i, Nat.add_comm 1]
  exact h (j + 1) seg' hseg'

theorem wp_openStripe_alone (i seg : ℕ) :
    (alone (does t)).wp () (openStripe cfg i seg) (fun c s' =>
      c = some ⟨cfg.stripePath i, s.next i % 2 ^ 64, seg⟩ ∧
        s' = s.reserve t i (roundup seg 4096)) s := by
  rw [openStripe]
  refine wp_call (stable_alone (· = s)) rfl fun s' _ h => ⟨trivial, ⟨true, s', rfl, rfl⟩, ?_⟩
  rintro a s'' ⟨rfl, rfl⟩ _
  refine wp_call (stable_alone (· = s)) h fun s' _ h => ⟨trivial, ⟨_, _, rfl, rfl⟩, ?_⟩
  rintro a s'' ⟨rfl, rfl⟩ _
  subst h
  exact wp_ret (stable_alone _) ⟨rfl, rfl⟩

theorem wp_writeSegments_alone {i consumed : ℕ} (hroom : s.HasRoom i segs)
    (hsrc : consumed + segs.sum ≤ src.length) :
    (alone (does t)).wp () (writeSegments cfg src i segs consumed chunks) (fun r s' =>
      r = (true, chunks ++ (reserveSegments cfg t i segs s).1) ∧
        s' = (blockTransfers cfg.block (reserveSegments cfg t i segs s).1 consumed).foldl
          (Disk.writeBlock src) (reserveSegments cfg t i segs s).2) s := by
  induction segs generalizing i consumed chunks s with
  | nil =>
    rw [writeSegments, reserveSegments]
    exact wp_ret (stable_alone _) ⟨by rw [List.append_nil], rfl⟩
  | cons seg segs ih =>
    rw [List.sum_cons] at hsrc
    rw [writeSegments, reserveSegments]
    split
    · next hzero =>
      obtain ⟨rfl, -⟩ := hzero
      exact ih (hroom.tail fun _ _ => rfl) (by omega)
    · refine wp_bind trivial (wp_mono ?_ (wp_openStripe_alone i seg))
      rintro c s' ⟨rfl, rfl⟩ -
      have hsrc' : consumed + seg ≤ src.length := by omega
      refine wp_bind trivial (wp_mono ?_ (wp_writeBlocks_alone
        (c := ⟨cfg.stripePath i, s.next i % 2 ^ 64, seg⟩) cfg.block_pos (hroom 0 seg rfl) hsrc'
        (Nat.zero_le _) (Nat.lt_add_left 0 (Nat.lt_succ_self seg))))
      rintro ok s' ⟨rfl, rfl⟩ -
      have htail : Disk.HasRoom ((chunkBlocks cfg.block ⟨cfg.stripePath i, s.next i % 2 ^ 64, seg⟩
          consumed (seg + 1) 0).foldl (Disk.writeBlock src) (s.reserve t i (roundup seg 4096)))
          (i + 1) segs := by
        refine hroom.tail fun j hj => ?_
        rw [foldl_writeBlock_next]
        exact Function.update_of_ne hj.ne' ..
      refine wp_mono (fun r s' hr => ?_) (ih htail (by omega))
      rw [reserveSegments_foldl] at hr
      simpa only [if_true, blockTransfers, List.foldl_append, List.append_assoc,
        List.singleton_append] using hr

/-! ## The engine -/

/-- What is recorded of a tensor that is written to the disk, and the disk where its regions are
    reserved. -/
def Disk.layout (cfg : NvmeConfig) (t : ι) (nbytes : ℕ) (s : Disk ι) : List NvmeChunk × Disk ι :=
  reserveSegments cfg t 0 (stripeSegments cfg.stripeCount nbytes) s

theorem wp_nvmeWritePwrite_alone (hroom : s.HasRoom 0 (stripeSegments cfg.stripeCount src.length)) :
    (alone (does t)).wp () (nvmeWritePwrite cfg src) (fun r s' =>
      r = (true, (s.layout cfg t src.length).1) ∧
        s' = (blockTransfers cfg.block (s.layout cfg t src.length).1 0).foldl
          (Disk.writeBlock src) (s.layout cfg t src.length).2) s := by
  rw [nvmeWritePwrite]
  refine wp_call (stable_alone (· = s)) rfl fun s' _ h => ⟨trivial, ⟨true, s', rfl, rfl⟩, ?_⟩
  rintro a s'' ⟨rfl, rfl⟩ _
  subst h
  have hsum := sum_stripeSegments cfg.stripeCount_pos src.length
  exact wp_writeSegments_alone hroom (by omega)

/-- The chunks are in their files. -/
structure Disk.Has (s : Disk ι) (chunks : List NvmeChunk) : Prop where
  le_size : ∀ c ∈ chunks, 0 < c.length → c.offset + c.length ≤ (s.files c.path).size
  bound : ∀ c ∈ chunks, c.offset + c.length + 4096 ≤ 2 ^ 64

theorem Disk.Has.holds (h : s.Has chunks) (hc : c ∈ chunks) :
    s.Holds c.path c.offset (s.bytesOf c) where
  byte k x hx := by
    obtain ⟨hk, rfl⟩ := List.getElem?_eq_some_iff.1 hx
    simp [bytesOf, readRun]
  size hne := by
    rw [← List.length_pos_iff, bytesOf, length_readRun] at hne
    rw [bytesOf, length_readRun]
    exact h.le_size c hc hne

theorem serves_alone (h : s.Has chunks) :
    Serves (alone (does t)) () (· = s) (fun _ => False) chunks s.bytesOf where
  stable := stable_alone _
  failed_stable := stable_alone _
  length _ _ := length_readRun _
  bound := h.bound
  setup s' _ hs := by
    refine ⟨trivial, ⟨true, s', rfl, rfl⟩, ?_⟩
    rintro a s'' ⟨rfl, rfl⟩
    exact ⟨hs, fun h => nomatch h⟩
  openFile c _ s' _ hs := by
    refine ⟨trivial, ⟨true, s', rfl, rfl⟩, ?_⟩
    rintro a s'' ⟨rfl, rfl⟩
    exact ⟨hs, id, fun h => nomatch h⟩
  pread c hc x len hlen s' _ hs := by
    subst hs
    refine ⟨trivial, exists_pread t s' c.path _ len, fun a s'' hdoes => ?_⟩
    exact (h.holds hc).answers (t := t) hlen hdoes

theorem wp_nvmeReadPwrite_alone (h : s.Has chunks) (abuf dst : Memory) :
    (alone (does t)).wp () (nvmeReadPwrite cfg chunks abuf dst) (fun x s' =>
      x = (true, copyIn dst 0 (chunks.flatMap s.bytesOf)) ∧ s' = s) s := by
  refine wp_mono ?_ ((serves_alone h).wp_nvmeReadPwrite cfg.block_pos rfl)
  rintro x s' ⟨rfl, hfalse | hx⟩
  · exact hfalse.elim
  · exact ⟨hx, rfl⟩

end StateSpectre.Nvme
