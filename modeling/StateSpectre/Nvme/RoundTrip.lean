import Mathlib.Algebra.BigOperators.Group.Finset.Basic
import Mathlib.Algebra.Order.BigOperators.Group.Finset
import StateSpectre.Lib.PrefixCode
import StateSpectre.Nvme.Alone

/-!
# What is written is read back

Several threads write their tensors to the stripes, and each reads its own one back, in any
interleaving of their calls (`roundTrip`). The regions that are reserved are apart, as the counter
of a stripe only grows, and a thread writes into its own regions only (`Disk.Sound`,
`owning`). So what it has written stays (`Kept`), and what it reads is what it wrote
(`nvme_round_trip`).

The counters are one for each stripe, so the files have to be different ones. Their paths are cut
to 1023 characters: in a directory of 1011 characters all stripes have the same file, and write to
the same places of it (`stripes_collide`).
-/

namespace StateSpectre.Nvme

open Discipline

/-- The bytes that are reserved in a stripe for a tensor of `nbytes`. -/
def NvmeConfig.padded (cfg : NvmeConfig) (nbytes stripe : ℕ) : ℕ :=
  roundup ((stripeSegments cfg.stripeCount nbytes).getD stripe 0) 4096

variable {ι : Type} {cfg : NvmeConfig} {data : ι → List UInt8} {s s' : Disk ι} {t : ι}
  {bytes : List UInt8} {off : ℕ} {path : Path} {c : NvmeChunk}

/-! ## Regions -/

/-- The range of a file is in the region. -/
structure Region.Has (cfg : NvmeConfig) (r : Region ι) (path : Path) (off len : ℕ) : Prop where
  path : cfg.stripePath r.stripe = path
  le : r.base ≤ off
  end_le : off + len ≤ r.base + r.size

/-- The regions have no byte in common. -/
def Region.Apart (r r' : Region ι) : Prop :=
  r.stripe = r'.stripe → ¬Meet r.base r.size r'.base r'.size

instance : Std.Symm (Region.Apart (ι := ι)) :=
  ⟨fun _ _ h hstripe hmeet => h hstripe.symm hmeet.symm⟩

/-- The regions are those of the segments of the tensors, each reserved once, one behind the
    other. -/
structure Disk.Sound (cfg : NvmeConfig) (data : ι → List UInt8) (s : Disk ι) : Prop where
  stripe_lt : ∀ r ∈ s.log, r.stripe < cfg.stripeCount
  size : ∀ r ∈ s.log, r.size = cfg.padded (data r.owner).length r.stripe
  once : (s.log.map fun r => (r.owner, r.stripe)).Nodup
  next : ∀ i, s.next i = ((s.log.filter (·.stripe = i)).map Region.size).sum
  below : ∀ r ∈ s.log, r.base + r.size ≤ s.next r.stripe
  apart : s.log.Pairwise Region.Apart

theorem Disk.Sound.initial {files : Path → File} : Disk.Sound cfg data { files } where
  stripe_lt _ h := nomatch h
  size _ h := nomatch h
  once := .nil
  next _ := rfl
  below _ h := nomatch h
  apart := .nil

/-- The calls a thread may make: to reserve the region of a segment once, and to write into its own
    regions. -/
def Allowed (cfg : NvmeConfig) (data : ι → List UInt8) (t : ι) : Op → Disk ι → Prop
  | .fetchAdd i n, s => i < cfg.stripeCount ∧ n = cfg.padded (data t).length i ∧
      ∀ r ∈ s.log, r.owner = t → r.stripe ≠ i
  | .pwrite path off bytes, s => ∃ r ∈ s.log, r.owner = t ∧ r.Has cfg path off bytes.length
  | .waitWrite _, _ => False
  | _, _ => True

/-- What a thread relies on: the others do not reserve in its name, and do not write into its
    regions. -/
structure Rely (cfg : NvmeConfig) (t : ι) (s s' : Disk ι) : Prop where
  log : ∀ r, r.owner = t → (r ∈ s'.log ↔ r ∈ s.log)
  byte : ∀ r ∈ s.log, r.owner = t → ∀ x, InRun r.base r.size x →
    (s'.files (cfg.stripePath r.stripe)).byte x = (s.files (cfg.stripePath r.stripe)).byte x
  size : ∀ path, (s.files path).size ≤ (s'.files path).size

theorem Rely.refl (t : ι) (s : Disk ι) : Rely cfg t s s where
  log _ _ := Iff.rfl
  byte _ _ _ _ _ := rfl
  size _ := le_rfl

theorem Rely.trans {s'' : Disk ι} (h : Rely cfg t s s') (h' : Rely cfg t s' s'') :
    Rely cfg t s s'' where
  log r hr := (h'.log r hr).trans (h.log r hr)
  byte r hr ht x hx := (h'.byte r ((h.log r ht).2 hr) ht x hx).trans (h.byte r hr ht x hx)
  size path := (h.size path).trans (h'.size path)

/-- A write into a region of `t` is outside of those of the others. -/
theorem Disk.Sound.rely_write (h : s.Sound cfg data) (hpaths : cfg.PathsDiffer) {r : Region ι}
    (hr : r ∈ s.log) (hhas : r.Has cfg path off bytes.length) {u : ι} (hu : u ≠ r.owner) :
    Rely cfg u s (s.write path off bytes) where
  log _ _ := Iff.rfl
  byte r' hr' howner x hx := by
    by_cases hpath : cfg.stripePath r'.stripe = path
    · have hstripe : r'.stripe = r.stripe :=
        hpaths _ (h.stripe_lt r' hr') _ (h.stripe_lt r hr) (hpath.trans hhas.path.symm)
      have hne : r' ≠ r := fun heq => hu (heq ▸ howner.symm)
      have hapart : ¬Meet r'.base r'.size r.base r.size :=
        h.apart.forall hr' hr hne hstripe
      rw [hpath, Disk.write_files_self]
      refine onRun_of_not_mem fun hin => hapart ⟨x, hx, ?_⟩
      exact ⟨hhas.le.trans hin.1, hin.2.trans_le hhas.end_le⟩
    · rw [Disk.write_files_of_ne _ hpath]
  size path' := s.size_le_write ..

/-- All regions together have room in the numbers of 64 bits. -/
abbrev Room [Fintype ι] (cfg : NvmeConfig) (data : ι → List UInt8) : Prop :=
  ∀ i < cfg.stripeCount, ∑ t, cfg.padded (data t).length i + 4096 ≤ 2 ^ 64

/-- What is reserved in a stripe is reserved for different threads. -/
theorem Disk.Sound.exists_owners (h : s.Sound cfg data) (i : ℕ) :
    ∃ owners : Finset ι, (∀ u ∈ owners, ∃ r ∈ s.log, r.owner = u ∧ r.stripe = i) ∧
      s.next i = ∑ u ∈ owners, cfg.padded (data u).length i := by
  classical
  have hmem : ∀ r ∈ s.log.filter (·.stripe = i), r ∈ s.log ∧ r.stripe = i := by
    intro r hr
    simpa using hr
  have hsize : (s.log.filter (·.stripe = i)).map Region.size =
      ((s.log.filter (·.stripe = i)).map Region.owner).map
        fun t => cfg.padded (data t).length i := by
    rw [List.map_map]
    refine List.map_congr_left fun r hr => ?_
    obtain ⟨hlog, hstripe⟩ := hmem r hr
    rw [h.size r hlog, hstripe]
    rfl
  have hnodup : ((s.log.filter (·.stripe = i)).map Region.owner).Nodup := by
    refine List.Nodup.of_map (fun u => (u, i)) ?_
    rw [List.map_map]
    refine List.Nodup.sublist ?_ h.once
    rw [List.map_congr_left (g := fun r => (r.owner, r.stripe)) fun r hr => by
      rw [Function.comp_apply, (hmem r hr).2]]
    exact List.filter_sublist.map _
  refine ⟨((s.log.filter (·.stripe = i)).map Region.owner).toFinset, fun u hu => ?_, ?_⟩
  · obtain ⟨r, hr, howner⟩ := List.mem_map.1 (List.mem_toFinset.1 hu)
    exact ⟨r, (hmem r hr).1, howner, (hmem r hr).2⟩
  · rw [h.next, hsize, List.sum_toFinset _ hnodup]

section Room

variable [Fintype ι]

theorem Disk.Sound.next_add_le (h : s.Sound cfg data) {i : ℕ}
    (hnew : ∀ r ∈ s.log, r.owner = t → r.stripe ≠ i) :
    s.next i + cfg.padded (data t).length i ≤ ∑ t, cfg.padded (data t).length i := by
  classical
  obtain ⟨owners, howners, hnext⟩ := h.exists_owners i
  have hnot : t ∉ owners := by
    intro ht
    obtain ⟨r, hr, howner, hstripe⟩ := howners t ht
    exact hnew r hr howner hstripe
  rw [hnext, Nat.add_comm,
    ← Finset.sum_insert (f := fun t => cfg.padded (data t).length i) hnot]
  exact Finset.sum_le_univ_sum_of_nonneg fun _ => Nat.zero_le _

theorem Disk.Sound.region_le (h : s.Sound cfg data) (hroom : Room cfg data) {r : Region ι}
    (hr : r ∈ s.log) : r.base + r.size + 4096 ≤ 2 ^ 64 := by
  obtain ⟨owners, -, hnext⟩ := h.exists_owners r.stripe
  have hle : s.next r.stripe ≤ ∑ t, cfg.padded (data t).length r.stripe :=
    hnext ▸ Finset.sum_le_univ_sum_of_nonneg fun _ => Nat.zero_le _
  have hbelow := h.below r hr
  have hall := hroom r.stripe (h.stripe_lt r hr)
  omega

/-- A region that is reserved is behind all others of its stripe. -/
theorem Disk.Sound.reserve (h : s.Sound cfg data) (hroom : Room cfg data) {i : ℕ}
    (hi : i < cfg.stripeCount) (hnew : ∀ r ∈ s.log, r.owner = t → r.stripe ≠ i) :
    (s.reserve t i (cfg.padded (data t).length i)).Sound cfg data := by
  have hle := h.next_add_le (t := t) hnew
  have hbase : s.next i % 2 ^ 64 = s.next i := by
    have := hroom i hi
    exact Nat.mod_eq_of_lt (by omega)
  refine ⟨?_, ?_, ?_, ?_, ?_, ?_⟩
  · exact List.forall_mem_cons.2 ⟨hi, h.stripe_lt⟩
  · exact List.forall_mem_cons.2 ⟨rfl, h.size⟩
  · refine List.nodup_cons.2 ⟨fun hmem => ?_, h.once⟩
    obtain ⟨r, hr, heq⟩ := List.mem_map.1 hmem
    exact hnew r hr (Prod.mk.inj heq).1 (Prod.mk.inj heq).2
  · intro j
    by_cases hj : j = i
    · subst hj
      simp [Disk.reserve, ← h.next, Nat.add_comm]
    · simp [Disk.reserve, Function.update_of_ne hj, Ne.symm hj, ← h.next]
  · refine List.forall_mem_cons.2 ⟨?_, fun r hr => ?_⟩
    · simp only [Disk.reserve, hbase, Function.update_self, le_refl]
    · refine (h.below r hr).trans ?_
      by_cases hri : r.stripe = i
      · simp [Disk.reserve, hri]
      · simp [Disk.reserve, Function.update_of_ne hri]
  · refine List.pairwise_cons.2 ⟨fun r hr hstripe => ?_, h.apart⟩
    have hbelow := h.below r hr
    simp only at hstripe
    rw [← hstripe] at hbelow
    simp only [meet_iff, hbase]
    omega

/-- Threads that write into their own regions. -/
def owning (hpaths : cfg.PathsDiffer) (hroom : Room cfg data) :
    Discipline ι (Disk ι) Op Op.Answer where
  does := does
  inv := Disk.Sound cfg data
  rely := Rely cfg
  allowed := Allowed cfg data
  rely_refl := Rely.refl
  rely_trans _ _ _ _ := Rely.trans
  keeps {t o s a s'} hinv hallowed hdoes := by
    cases o with
    | setup | openFile =>
      obtain ⟨-, rfl⟩ := hdoes
      exact ⟨hinv, fun u _ => .refl u _⟩
    | fetchAdd i n =>
      obtain ⟨-, rfl⟩ := hdoes
      obtain ⟨hi, rfl, hnew⟩ := hallowed
      refine ⟨hinv.reserve hroom hi hnew, fun u hu => ⟨fun r hr => ?_, fun _ _ _ _ _ => rfl,
        fun _ => le_rfl⟩⟩
      refine List.mem_cons.trans (or_iff_right fun heq => hu ?_)
      rw [← hr, heq]
    | pwrite path off bytes =>
      obtain ⟨n, hn, -, -, rfl⟩ := hdoes
      obtain ⟨r, hr, rfl, hhas⟩ := hallowed
      have hhas' : r.Has cfg path off (bytes.take n).length := by
        refine ⟨hhas.path, hhas.le, le_trans ?_ hhas.end_le⟩
        rw [List.length_take]
        omega
      exact ⟨⟨hinv.stripe_lt, hinv.size, hinv.once, hinv.next, hinv.below, hinv.apart⟩,
        fun u hu => hinv.rely_write hpaths hr hhas' hu⟩
    | waitWrite pending => exact hallowed.elim
    | pread | waitRead =>
      obtain ⟨rfl, -⟩ := hdoes
      exact ⟨hinv, fun u _ => .refl u _⟩

end Room

/-! ## What a thread has written -/

/-- The bytes are in a region of the thread. -/
structure Kept (cfg : NvmeConfig) (t : ι) (r : Region ι) (off : ℕ) (bytes : List UInt8)
    (s : Disk ι) : Prop where
  mem : r ∈ s.log
  owner : r.owner = t
  le : r.base ≤ off
  end_le : off + bytes.length ≤ r.base + r.size
  holds : s.Holds (cfg.stripePath r.stripe) off bytes

theorem Kept.rely {r : Region ι} (h : Kept cfg t r off bytes s) (hrely : Rely cfg t s s') :
    Kept cfg t r off bytes s' where
  mem := (hrely.log r h.owner).2 h.mem
  owner := h.owner
  le := h.le
  end_le := h.end_le
  holds.byte k x hx := by
    have hk := (List.getElem?_eq_some_iff.1 hx).1
    have hle := h.le
    have hend := h.end_le
    rw [hrely.byte r h.mem h.owner (off + k) ⟨by omega, by omega⟩, h.holds.byte k x hx]
  holds.size hne := (h.holds.size hne).trans (hrely.size _)

/-- A write to another file, or behind the bytes. -/
theorem Kept.write {r : Region ι} {off woff : ℕ} {bytes wbytes : List UInt8}
    (h : Kept cfg t r off bytes s)
    (hapart : cfg.stripePath r.stripe = path → off + bytes.length ≤ woff) :
    Kept cfg t r off bytes (s.write path woff wbytes) :=
  ⟨h.mem, h.owner, h.le, h.end_le, h.holds.write hapart⟩

/-- The chunk holds the bytes, in the region of a stripe below `i`. -/
structure Stored (cfg : NvmeConfig) (t : ι) (i : ℕ) (s : Disk ι) (c : NvmeChunk)
    (bytes : List UInt8) : Prop where
  length : c.length = bytes.length
  exists_kept : ∃ r : Region ι, r.stripe < i ∧ cfg.stripePath r.stripe = c.path ∧
    Kept cfg t r c.offset bytes s

theorem Stored.imp {i i' : ℕ} (h : Stored cfg t i s c bytes) (hi : i ≤ i')
    (hkept : ∀ r : Region ι, r.stripe < i → Kept cfg t r c.offset bytes s →
      Kept cfg t r c.offset bytes s') : Stored cfg t i' s' c bytes := by
  obtain ⟨hlength, r, hr, hpath, h⟩ := h
  exact ⟨hlength, r, hr.trans_le hi, hpath, hkept r hr h⟩

/-- Before the stripe `i` the chunks hold the first `consumed` bytes of the tensor, and nothing is
    reserved from the stripe `n` on. -/
structure Written (cfg : NvmeConfig) (src : List UInt8) (t : ι) (n i consumed : ℕ)
    (chunks : List NvmeChunk) (s : Disk ι) : Prop where
  stripe_lt : ∀ r ∈ s.log, r.owner = t → r.stripe < n
  stored : ∃ pieces, List.Forall₂ (Stored cfg t i s) chunks pieces ∧
    pieces.flatten = src.take consumed

namespace Written

variable {src : List UInt8} {n n' i i' consumed : ℕ} {chunks : List NvmeChunk}

theorem imp (h : Written cfg src t n i consumed chunks s) (hi : i ≤ i')
    (hlog : ∀ r ∈ s'.log, r.owner = t → r.stripe < n')
    (hkept : ∀ (r : Region ι) off bytes, r.stripe < i → Kept cfg t r off bytes s →
      Kept cfg t r off bytes s') : Written cfg src t n' i' consumed chunks s' := by
  obtain ⟨-, pieces, hpieces, hflat⟩ := h
  exact ⟨hlog, pieces, hpieces.imp fun c bytes hc => hc.imp hi fun _ hr => hkept _ _ _ hr, hflat⟩

theorem rely (h : Written cfg src t n i consumed chunks s) (hrely : Rely cfg t s s') :
    Written cfg src t n i consumed chunks s' :=
  h.imp le_rfl (fun r hr ht => h.stripe_lt r ((hrely.log r ht).1 hr) ht)
    fun _ _ _ _ hkept => hkept.rely hrely

theorem write (h : Written cfg src t n i consumed chunks s)
    (hpath : ∀ j < i, cfg.stripePath j ≠ path) :
    Written cfg src t n i consumed chunks (s.write path off bytes) :=
  h.imp le_rfl h.stripe_lt fun _ _ _ hr hkept => hkept.write fun heq => absurd heq (hpath _ hr)

theorem append (h : Written cfg src t n i consumed chunks s)
    (hc : Stored cfg t n s c ((src.drop consumed).take c.length)) (hi : i ≤ n) :
    Written cfg src t n n (consumed + c.length) (chunks ++ [c]) s := by
  obtain ⟨hlog, pieces, hpieces, hflat⟩ := h
  refine ⟨hlog, pieces ++ [(src.drop consumed).take c.length], ?_, ?_⟩
  · refine List.rel_append (hpieces.imp fun c bytes hc => hc.imp hi fun _ _ h => h) ?_
    exact .cons hc .nil
  · rw [List.flatten_append, hflat, List.flatten_singleton, ← List.take_add]

end Written

/-! ## A thread that writes -/

section Writer

variable [Fintype ι] {hpaths : cfg.PathsDiffer} {hroom : Room cfg data}

/-- A buffer is written to its place in a region. -/
theorem wp_pwriteAll_kept {r : Region ι} {abuf : List UInt8} {P : Disk ι → Prop}
    (hP : (owning hpaths hroom).Stable t P)
    (hwrite : ∀ s woff bytes, off ≤ woff → P s →
      P (s.write (cfg.stripePath r.stripe) woff bytes))
    (hend : off + abuf.length ≤ r.base + r.size) (hkept : Kept cfg t r off [] s) (h : P s) :
    (owning hpaths hroom).wp t
      (pwriteAll (cfg.stripePath r.stripe) (off % 2 ^ 64) abuf (abuf.length + 1) 0)
      (fun ok s' => ok = true ∧ Kept cfg t r off abuf s' ∧ P s') s := by
  refine wp_mono (fun ok s' hok => ?_)
    (wp_pwriteAll (W := fun w s => Kept cfg t r off (abuf.take w) s ∧ P s)
      (fun w _ _ hinv hrely hs => ⟨hs.1.rely hrely, hP hinv hrely hs.2⟩) ?_ (Nat.zero_le _)
      (by omega) ⟨hkept, h⟩)
  · simpa only [List.take_length] using hok
  rintro w s hw hinv ⟨hkept, hPs⟩
  have hregion := hinv.region_le hroom hkept.mem
  have hle := hkept.le
  have hoff : (off % 2 ^ 64 + w) % 2 ^ 64 = off + w := by
    rw [Nat.mod_add_mod, Nat.mod_eq_of_lt (by omega)]
  rw [hoff]
  have hdrop : (abuf.drop w).length = abuf.length - w := List.length_drop
  refine ⟨⟨r, hkept.mem, hkept.owner, rfl, by omega, by omega⟩, ?_, ?_⟩
  · exact ⟨_, _, (abuf.drop w).length, le_rfl, List.length_pos_iff.2, rfl, rfl⟩
  · rintro a s' ⟨n, hn, hpos, rfl, rfl⟩
    have hne : abuf.drop w ≠ [] := List.length_pos_iff.1 (by omega)
    have htake : (abuf.take w).length = w := by rw [List.length_take]; omega
    refine ⟨n, hpos hne, by omega, rfl, ?_, hwrite s _ _ (by omega) hPs⟩
    refine ⟨hkept.mem, hkept.owner, hle, ?_, ?_⟩
    · rw [List.length_take]
      omega
    · rw [List.take_add]
      refine Disk.Holds.append (hkept.holds.write fun _ => ?_) ?_
      · rw [htake]
      · rw [htake]
        exact .of_write

/-- Blocks of a multiple of 4096 stay, with their padding, in the padded segment. -/
theorem add_roundup_le {block w len : ℕ} (hblock : 4096 ∣ block) (hw : 4096 ∣ w) (hlt : w < len)
    (hlen : len + 4096 ≤ 2 ^ 64) :
    w + roundup (min block (len - w)) 4096 ≤ roundup len 4096 := by
  obtain ⟨h₁, h₂, h₃⟩ := roundup_spec (v := min block (len - w)) (by omega)
  obtain ⟨h₄, h₅, h₆⟩ := roundup_spec hlen
  omega

/-- A segment is written to its region, from the offset `w` on. -/
theorem wp_writeBlocks_kept {r : Region ι} {seg : List UInt8} {P : Disk ι → Prop}
    (hblock : 4096 ∣ cfg.block) (hP : (owning hpaths hroom).Stable t P)
    (hwrite : ∀ s woff bytes, P s → P (s.write (cfg.stripePath r.stripe) woff bytes))
    (hlen : seg.length + 4096 ≤ 2 ^ 64) (hsize : r.size = roundup seg.length 4096) {fuel w : ℕ}
    (hw : w ≤ seg.length) (hmul : 4096 ∣ w ∨ w = seg.length) (hfuel : seg.length < w + fuel)
    (hinv : s.Sound cfg data) (hkept : Kept cfg t r r.base (seg.take w) s) (h : P s) :
    (owning hpaths hroom).wp t
      (writeBlocks cfg.block (cfg.stripePath r.stripe) r.base seg fuel w)
      (fun ok s' => ok = true ∧ Kept cfg t r r.base seg s' ∧ P s') s := by
  induction fuel generalizing w s with
  | zero => omega
  | succ fuel ih =>
    rw [writeBlocks]
    split
    · next hlt =>
      have hpos := cfg.block_pos
      have hdvd : 4096 ∣ w := hmul.resolve_right hlt.ne
      have htake : (seg.take w).length = w := List.length_take_of_le hw
      have hround := roundup_spec (v := min cfg.block (seg.length - w)) (by omega)
      have hfits := add_roundup_le hblock hdvd hlt hlen
      dsimp only
      generalize habuf : padTo (roundup (min cfg.block (seg.length - w)) 4096)
        ((seg.drop w).take (min cfg.block (seg.length - w))) = abuf
      have hlength : abuf.length = roundup (min cfg.block (seg.length - w)) 4096 := by
        rw [← habuf, padTo, List.length_append, List.length_replicate, List.length_take,
          List.length_drop]
        omega
      refine wp_bind hinv (wp_mono (fun ok s' hok hinv' => ?_) (wp_pwriteAll_kept (r := r)
        (P := fun s => Kept cfg t r r.base (seg.take w) s ∧ P s)
        (fun _ _ hinv hrely hs => ⟨hs.1.rely hrely, hP hinv hrely hs.2⟩)
        (fun s woff bytes hle hs => ⟨hs.1.write fun _ => by rw [htake]; exact hle,
          hwrite s woff bytes hs.2⟩)
        (by omega) ⟨hkept.mem, hkept.owner, by omega, by rw [List.length_nil]; omega, .nil⟩
        ⟨hkept, h⟩))
      obtain ⟨rfl, habuf', hkept', hP'⟩ := hok
      refine ih (by omega) ?_ (by omega) hinv'
        ⟨hkept'.mem, hkept'.owner, le_rfl, by rw [List.length_take]; omega, ?_⟩ hP'
      · rcases Nat.le_total cfg.block (seg.length - w) with hle | hle
        · rw [min_eq_left hle]
          exact .inl (Nat.dvd_add hdvd hblock)
        · rw [min_eq_right hle]
          exact .inr (by omega)
      · have hholds := habuf'.holds
        rw [← habuf, padTo] at hholds
        rw [List.take_add]
        refine hkept'.holds.append ?_
        rw [htake]
        exact hholds.of_append
    · next hle =>
      rw [List.take_of_length_le (by omega)] at hkept
      exact wp_ret (fun _ _ hinv hrely hs => ⟨hs.1, hs.2.1.rely hrely, hP hinv hrely hs.2.2⟩)
        ⟨rfl, hkept, h⟩

/-- A region is reserved for a segment. -/
theorem wp_openStripe {i seg consumed : ℕ} {chunks : List NvmeChunk}
    (hseg : (stripeSegments cfg.stripeCount (data t).length)[i]? = some seg)
    (h : Written cfg (data t) t i i consumed chunks s) :
    (owning hpaths hroom).wp t (openStripe cfg i seg) (fun c s' =>
      ∃ r : Region ι, c = some ⟨cfg.stripePath r.stripe, r.base, seg⟩ ∧ r.stripe = i ∧
        r.size = roundup seg 4096 ∧ Kept cfg t r r.base [] s' ∧
        Written cfg (data t) t (i + 1) i consumed chunks s') s := by
  have hi : i < cfg.stripeCount := by
    have := (List.getElem?_eq_some_iff.1 hseg).1
    rwa [length_stripeSegments cfg.stripeCount_pos] at this
  have hpadded : roundup seg 4096 = cfg.padded (data t).length i := by
    rw [NvmeConfig.padded, List.getD_eq_getElem?_getD, hseg, Option.getD_some]
  have hstable : (owning hpaths hroom).Stable t (Written cfg (data t) t i i consumed chunks) :=
    fun _ _ _ hrely hs => hs.rely hrely
  rw [openStripe]
  refine wp_call hstable h fun s' _ h' => ⟨trivial, ⟨true, s', rfl, rfl⟩, ?_⟩
  rintro a s'' ⟨rfl, rfl⟩ _
  refine wp_call hstable h' fun s' hinv h'' => ?_
  refine ⟨⟨hi, hpadded, fun r hr ht => (h''.stripe_lt r hr ht).ne⟩, ⟨_, _, rfl, rfl⟩, ?_⟩
  rintro a s'' ⟨rfl, rfl⟩ hinv'
  have hmem : (⟨t, i, s'.next i % 2 ^ 64, roundup seg 4096⟩ : Region ι) ∈
      (s'.reserve t i (roundup seg 4096)).log := List.mem_cons_self
  refine wp_ret ?_ ⟨_, rfl, rfl, rfl, ⟨hmem, rfl, le_rfl, Nat.le_add_right .., .nil⟩,
    h''.imp le_rfl ?_ ?_⟩
  · rintro s₁ s₂ _ hrely ⟨r, hc, hstripe, hsize, hkept, hwritten⟩
    exact ⟨r, hc, hstripe, hsize, hkept.rely hrely, hwritten.rely hrely⟩
  · refine List.forall_mem_cons.2 ⟨fun _ => Nat.lt_succ_self i, fun r hr ht => ?_⟩
    exact (h''.stripe_lt r hr ht).trans (Nat.lt_succ_self i)
  · exact fun r off bytes _ hkept => ⟨List.mem_cons_of_mem _ hkept.mem, hkept.owner, hkept.le,
      hkept.end_le, hkept.holds.byte, hkept.holds.size⟩

/-- The segments are written from the stripe `i` on. -/
theorem wp_writeSegments_written (hblock : 4096 ∣ cfg.block)
    (hlen : (data t).length + 4096 ≤ 2 ^ 64) {i consumed : ℕ} {segs : List ℕ}
    {chunks : List NvmeChunk}
    (hsegs : (stripeSegments cfg.stripeCount (data t).length).drop i = segs)
    (hsum : consumed + segs.sum = (data t).length) (hinv : s.Sound cfg data)
    (h : Written cfg (data t) t i i consumed chunks s) :
    (owning hpaths hroom).wp t (writeSegments cfg (data t) i segs consumed chunks) (fun r s' =>
      ∃ chunks, r = (true, chunks) ∧ Written cfg (data t) t (i + segs.length)
        (i + segs.length) (data t).length chunks s') s := by
  induction segs generalizing i consumed chunks s with
  | nil =>
    rw [List.sum_nil, Nat.add_zero] at hsum
    rw [writeSegments, ← hsum]
    refine wp_ret ?_ ⟨chunks, rfl, h⟩
    rintro s s' - hrely ⟨chunks', hr, h⟩
    exact ⟨chunks', hr, h.rely hrely⟩
  | cons seg segs ih =>
    have hseg : (stripeSegments cfg.stripeCount (data t).length)[i]? = some seg := by
      rw [← List.head?_drop, hsegs, List.head?_cons]
    have hdrop : (stripeSegments cfg.stripeCount (data t).length).drop (i + 1) = segs := by
      rw [← List.drop_drop, hsegs, List.drop_one, List.tail_cons]
    rw [List.sum_cons] at hsum
    rw [writeSegments, List.length_cons, Nat.add_comm segs.length, ← Nat.add_assoc]
    split
    · next hzero =>
      obtain ⟨rfl, -⟩ := hzero
      exact ih hdrop (by omega) hinv (h.imp (Nat.le_succ i) (fun r hr ht =>
        (h.stripe_lt r hr ht).trans (Nat.lt_succ_self i)) fun _ _ _ _ h => h)
    · have hi := (List.getElem?_eq_some_iff.1 hseg).1
      rw [length_stripeSegments cfg.stripeCount_pos] at hi
      have hseglen : (((data t).drop consumed).take seg).length = seg := by
        rw [List.length_take, List.length_drop]
        omega
      refine wp_bind hinv (wp_mono ?_ (wp_openStripe hseg h))
      rintro c s' ⟨r, rfl, rfl, hsize, hkept, hwritten⟩ hinv'
      refine wp_bind hinv' (wp_mono ?_ (wp_writeBlocks_kept hblock
        (P := Written cfg (data t) t (r.stripe + 1) r.stripe consumed chunks)
        (fun _ _ _ hrely hs => hs.rely hrely)
        (fun s woff bytes hs => hs.write fun j hj heq =>
          hj.ne (hpaths j (hj.trans hi) r.stripe hi heq))
        (by omega) (by rw [hsize, hseglen]) (Nat.zero_le _) (.inl (Nat.dvd_zero _)) (by omega)
        hinv' hkept hwritten))
      rintro ok s'' ⟨rfl, hkept', hwritten'⟩ hinv''
      exact ih hdrop (by omega) hinv'' (hwritten'.append
        (c := ⟨cfg.stripePath r.stripe, r.base, seg⟩)
        ⟨hseglen.symm, r, Nat.lt_succ_self _, rfl, hkept'⟩ (Nat.le_succ _))

/-- A writer returns chunks that hold its tensor. -/
theorem wp_nvmeWritePwrite (hblock : 4096 ∣ cfg.block) (hlen : (data t).length + 4096 ≤ 2 ^ 64)
    (hfresh : ∀ r ∈ s.log, r.owner ≠ t) :
    (owning hpaths hroom).wp t (nvmeWritePwrite cfg (data t)) (fun r s' =>
      ∃ chunks, r = (true, chunks) ∧
        Written cfg (data t) t cfg.stripeCount cfg.stripeCount (data t).length chunks s') s := by
  have hcount := length_stripeSegments cfg.stripeCount_pos (data t).length
  have hsum := sum_stripeSegments cfg.stripeCount_pos (data t).length
  have hstart : Written cfg (data t) t 0 0 0 [] s :=
    ⟨fun r hr ht => absurd ht (hfresh r hr), [], .nil, rfl⟩
  rw [nvmeWritePwrite]
  refine wp_call (P := Written cfg (data t) t 0 0 0 []) (fun _ _ _ hrely hs => hs.rely hrely)
    hstart fun s' _ h => ⟨trivial, ⟨true, s', rfl, rfl⟩, ?_⟩
  rintro a s'' ⟨rfl, rfl⟩ hinv
  refine wp_mono ?_ (wp_writeSegments_written hblock hlen List.drop_zero
    (by rw [Nat.zero_add, hsum]) hinv h)
  rw [Nat.zero_add, hcount]
  exact fun _ _ h => h

end Writer

/-! ## A thread that reads back -/

/-- A thread writes a tensor and reads it back. -/
def roundTrip (cfg : NvmeConfig) (src : List UInt8) (abuf dst : Memory) :
    Calls (Bool × Memory) := do
  let (ok, chunks) ← nvmeWritePwrite cfg src
  let (ok', dst) ← nvmeReadPwrite cfg chunks abuf dst
  return (ok && ok', dst)

section Reader

variable [Fintype ι] {hpaths : cfg.PathsDiffer} {hroom : Room cfg data}

/-- The bytes of the chunks that a thread has written are read from its regions. -/
theorem serves_owning {i : ℕ} {chunks : List NvmeChunk} {bytesOf : NvmeChunk → List UInt8}
    (hinv : s.Sound cfg data) (h : ∀ c ∈ chunks, Stored cfg t i s c (bytesOf c)) :
    Serves (owning hpaths hroom) t (fun s => ∀ c ∈ chunks, Stored cfg t i s c (bytesOf c))
      (fun _ => False) chunks bytesOf where
  stable _ _ _ hrely hs c hc := (hs c hc).imp le_rfl fun _ _ hkept => hkept.rely hrely
  failed_stable _ _ _ _ hs := hs
  length c hc := (h c hc).length.symm
  bound c hc := by
    obtain ⟨hlength, r, -, -, hkept⟩ := h c hc
    have hregion := hinv.region_le hroom hkept.mem
    have hend := hkept.end_le
    omega
  setup s _ hs := by
    refine ⟨trivial, ⟨true, s, rfl, rfl⟩, ?_⟩
    rintro a s' ⟨rfl, rfl⟩
    exact ⟨hs, fun h => nomatch h⟩
  openFile c _ s _ hs := by
    refine ⟨trivial, ⟨true, s, rfl, rfl⟩, ?_⟩
    rintro a s' ⟨rfl, rfl⟩
    exact ⟨hs, id, fun h => nomatch h⟩
  pread c hc x len hlen s _ hs := by
    obtain ⟨-, r, -, hpath, hkept⟩ := hs c hc
    refine ⟨trivial, exists_pread t s c.path _ len, fun a s' hdoes => ?_⟩
    obtain ⟨rfl, hanswers⟩ := (hpath ▸ hkept.holds).answers (t := t) hlen hdoes
    exact ⟨hs, hanswers⟩

theorem wp_roundTrip (hblock : 4096 ∣ cfg.block) (hlen : (data t).length + 4096 ≤ 2 ^ 64)
    (hinv : s.Sound cfg data) (hfresh : ∀ r ∈ s.log, r.owner ≠ t) (abuf dst : Memory) :
    (owning hpaths hroom).wp t (roundTrip cfg (data t) abuf dst)
      (fun x _ => x = (true, copyIn dst 0 (data t))) s := by
  rw [roundTrip]
  refine wp_bind hinv (wp_mono ?_ (wp_nvmeWritePwrite hblock hlen hfresh))
  rintro r s' ⟨chunks, rfl, -, pieces, hpieces, hflat⟩ hinv'
  have hbytes : ∀ c bytes, Stored cfg t cfg.stripeCount s' c bytes → bytes = s'.bytesOf c := by
    rintro c bytes ⟨hlength, r, -, hpath, hkept⟩
    exact ((hpath ▸ hkept.holds).bytesOf_eq hlength).symm
  obtain rfl : pieces = chunks.map s'.bytesOf := by
    refine (List.forall₂_eq_eq_eq ▸ List.forall₂_map_right_iff.2 ?_ : pieces = _)
    exact hpieces.flip.imp fun bytes c hc => hbytes c bytes hc
  have hstored : ∀ c ∈ chunks, Stored cfg t cfg.stripeCount s' c (s'.bytesOf c) :=
    List.forall₂_same.1 (List.forall₂_map_right_iff.1 hpieces)
  refine wp_bind hinv' (wp_mono ?_
    ((serves_owning hinv' hstored).wp_nvmeReadPwrite cfg.block_pos hstored))
  rintro x s'' ⟨-, hfalse | rfl⟩ -
  · exact hfalse.elim
  · refine wp_ret (fun _ _ _ _ h => h) ?_
    rw [List.flatMap_def, hflat, List.take_length]
    rfl

end Reader

/-- The directories are short enough for the paths to be whole. -/
theorem NvmeConfig.pathsDiffer_of_short (h : ∀ i < cfg.stripeCount,
    (cfg.stripeDir i).length + (Nat.toDigits 10 i).length + 16 ≤ 1023) : cfg.PathsDiffer := by
  intro i hi j hj heq
  have hwhole : ∀ k < cfg.stripeCount, cfg.stripePath k = cfg.stripeDir k ++
      "/off_stripe".toList ++ '_' :: Nat.toDigits 10 k ++ ".dat".toList := by
    intro k hk
    have hlen := h k hk
    rw [stripePath, List.take_of_length_le]
    · simp
    · simp
      omega
  rw [hwhole i hi, hwhole j hj] at heq
  -- Read from the end, the number of the stripe stops at the underscore.
  have hrev := congrArg List.reverse (List.append_cancel_right heq)
  simp only [List.reverse_append, List.reverse_cons, List.append_assoc, List.singleton_append]
    at hrev
  have hdigit : ∀ k, ∀ c ∈ (Nat.toDigits 10 k).reverse, c.isDigit = true := by
    intro k c hc
    exact Nat.isDigit_of_mem_toDigits (by decide) le_rfl (List.mem_reverse.1 hc)
  obtain ⟨hdigits, -⟩ := PrefixCode.append_cons_inj (hdigit i) (hdigit j) (by decide) (by decide)
    hrev
  exact toDigits_injective (List.reverse_injective hdigits)

/-! ## All threads -/

/-- The threads before their first calls, on a disk with any files. -/
def startPool (cfg : NvmeConfig) (data : ι → List UInt8) (abuf dst : ι → Memory)
    (files : Path → File) : Pool ι (Disk ι) Op Op.Answer (Bool × Memory) where
  world := { files }
  threads t := roundTrip cfg (data t) (abuf t) (dst t)

/-- In every interleaving the regions are apart, a thread writes into its own regions only, each
    thread returns, and what it returns are the bytes it wrote. -/
theorem nvme_round_trip [Fintype ι] [DecidableEq ι] (hpaths : cfg.PathsDiffer)
    (hblock : 4096 ∣ cfg.block) (hlen : ∀ t, (data t).length + 4096 ≤ 2 ^ 64)
    (hroom : Room cfg data) {abuf dst : ι → Memory} {files : Path → File}
    {p : Pool ι (Disk ι) Op Op.Answer (Bool × Memory)}
    (hsteps : Pool.Steps does (startPool cfg data abuf dst files) p) :
    (p.world.log.Pairwise fun r r' => cfg.stripePath r.stripe = cfg.stripePath r'.stripe →
        ¬Meet r.base r.size r'.base r'.size) ∧
      (∀ t path off bytes k, p.threads t = .call (.pwrite path off bytes) k →
        ∃ r ∈ p.world.log, r.owner = t ∧ r.Has cfg path off bytes.length) ∧
      (∀ t r, p.threads t = .ret r → r = (true, copyIn (dst t) 0 (data t))) ∧
      ∀ t, ∃ p' r, Relation.ReflTransGen (Pool.Step does t) p p' ∧ p'.threads t = .ret r := by
  have hstart : (startPool cfg data abuf dst files).Safe (owning hpaths hroom)
      fun t x _ => x = (true, copyIn (dst t) 0 (data t)) :=
    ⟨.initial, fun t => wp_roundTrip hblock (hlen t) .initial (fun _ hr => nomatch hr) _ _⟩
  have hsafe := hstart.steps hsteps
  refine ⟨?_, fun t path off bytes k hcall => (hsafe.call hcall).1, fun t r hret => hsafe.ret hret,
    hsafe.finishes⟩
  have hsound : p.world.Sound cfg data := hsafe.inv
  refine hsound.apart.imp_of_mem fun {r r'} hr hr' hapart hpath => hapart ?_
  exact hpaths _ (hsound.stripe_lt r hr) _ (hsound.stripe_lt r' hr') hpath

/-- Two stripes, in a short directory. -/
def twoStripes : NvmeConfig := { nvmePath := "/nvme".toList, stripeCount := 2 }

theorem twoStripes_differ : twoStripes.PathsDiffer := NvmeConfig.pathsDiffer_of_short (by decide)

/-- Two threads write five bytes and one. -/
def twoTensors (t : Fin 2) : List UInt8 := if t = 0 then [1, 2, 3, 4, 5] else [6]

theorem nvme_round_trip_two : ∃ p, Pool.Steps does
      (startPool twoStripes twoTensors (fun _ _ => 0) (fun _ _ => 0) fun _ => .empty) p ∧
    p.threads 0 = .ret (true, copyIn (fun _ => 0) 0 [1, 2, 3, 4, 5]) := by
  have hpaths : twoStripes.PathsDiffer := by decide +kernel
  have hroom : Room twoStripes twoTensors := by decide +kernel
  have hlen : ∀ t, (twoTensors t).length + 4096 ≤ 2 ^ 64 := by decide
  have hstart : Pool.Steps does
      (startPool twoStripes twoTensors (fun _ _ => 0) (fun _ _ => 0) fun _ => .empty) _ := .refl
  obtain ⟨-, -, -, hreturns⟩ := nvme_round_trip hpaths (by decide) hlen hroom hstart
  obtain ⟨p, r, hsteps, hret⟩ := hreturns 0
  have hsteps := Pool.Steps.of_thread hsteps
  obtain ⟨-, -, hbytes, -⟩ := nvme_round_trip hpaths (by decide) hlen hroom hsteps
  exact ⟨p, hsteps, hbytes 0 r hret ▸ hret⟩

/-- Two stripes, in a directory of 1012 characters. -/
def collidingConfig : NvmeConfig where
  nvmePath := (List.replicate 4 ('/' :: List.replicate 252 'd')).flatten
  stripeCount := 2

/-- The paths of the stripes are cut in front of their numbers. One thread writes two bytes, and
    reads the second one twice. -/
theorem stripes_collide :
    collidingConfig.stripePath 0 = collidingConfig.stripePath 1 ∧
    ∃ p m, Pool.Steps does (startPool collidingConfig (fun _ : Unit => [1, 2]) (fun _ _ => 0)
        (fun _ _ => 0) fun _ => .empty) p ∧
      p.threads () = .ret (true, m) ∧ readRun m 0 2 = [2, 2] := by
  have hpath : collidingConfig.stripePath 0 = collidingConfig.stripePath 1 := by decide +kernel
  have hsafe : (startPool collidingConfig (fun _ : Unit => [1, 2]) (fun _ _ => 0)
      (fun _ _ => 0) fun _ => .empty).Safe (alone (does ()))
        fun _ x _ => x.1 = true ∧ readRun x.2 0 2 = [2, 2] := by
    have hroom : Disk.HasRoom ({ files := fun _ => .empty } : Disk Unit) 0
        (stripeSegments collidingConfig.stripeCount ([1, 2] : List UInt8).length) := by
      intro j seg hseg
      have hmem : seg ∈ [1, 1] := List.mem_of_getElem? hseg
      obtain rfl : seg = 1 := by simpa using hmem
      exact show 0 % 2 ^ 64 + 1 + 4096 ≤ 2 ^ 64 by decide
    have hwrite := wp_nvmeWritePwrite_alone (t := ()) hroom
    refine ⟨trivial, fun _ => wp_bind trivial (wp_mono ?_ hwrite)⟩
    rintro r s' ⟨rfl, hs'⟩ -
    -- Both blocks are written to the same place, the second one last.
    have hholds : s'.Holds (collidingConfig.stripePath 1) 0 [2] := by
      have hlast : s'.Holds (collidingConfig.stripePath 1) 0
          ([2] ++ List.replicate 4095 0) := hs' ▸ .of_write
      exact hlast.of_append
    have hbytes : ∀ c ∈ [(⟨collidingConfig.stripePath 0, 0, 1⟩ : NvmeChunk),
        ⟨collidingConfig.stripePath 1, 0, 1⟩], s'.Holds c.path c.offset [2] ∧ c.length = 1 := by
      simp [hpath, hholds]
    have hhas : s'.Has [⟨collidingConfig.stripePath 0, 0, 1⟩,
        ⟨collidingConfig.stripePath 1, 0, 1⟩] := by
      refine ⟨fun c hc => ?_, by simp⟩
      rw [(hbytes c hc).2]
      exact fun _ => (hbytes c hc).1.size (by decide)
    refine wp_bind trivial (wp_mono ?_ (wp_nvmeReadPwrite_alone hhas _ _))
    rintro x s'' ⟨rfl, rfl⟩ -
    refine wp_ret (stable_alone _) ⟨rfl, ?_⟩
    simp only [List.forall_mem_cons] at hbytes
    obtain ⟨⟨h₀, -⟩, ⟨h₁, -⟩, -⟩ := hbytes
    rw [List.flatMap_cons, List.flatMap_cons, h₀.bytesOf_eq rfl, h₁.bytesOf_eq rfl]
    exact readRun_writeRun rfl
  obtain ⟨p, x, hsteps, hret⟩ := hsafe.finishes ()
  have hsteps := Pool.Steps.of_thread hsteps
  obtain ⟨hok, hbytes⟩ := (hsafe.steps hsteps).ret hret
  exact ⟨hpath, p, x.2, hsteps, hok ▸ hret, hbytes⟩

end StateSpectre.Nvme
