import StateSpectre.Nvme.Loops

/-!
# A disk without errors

What the calls of the engines do if nothing fails. A call may stop before all of its bytes are
transferred, but not before the first one. A request in flight is completed as a whole.

The counters of the stripes are kept as natural numbers; the engines see them in 64 bits. The disk
also keeps a log of the regions that were reserved, and by whom. No call reads it.
-/

namespace StateSpectre.Nvme

/-! ## Files -/

/-- A file: behind its end there are zeros. -/
@[ext] structure File where
  size : ℕ
  byte : ℕ → UInt8
  zero_beyond : ∀ x, size ≤ x → byte x = 0

/-- A file that is just created. -/
def File.empty : File where
  size := 0
  byte _ := 0
  zero_beyond _ _ := rfl

/-- Bytes are written at an offset. What is skipped is filled with zeros. -/
def File.write (f : File) (off : ℕ) (bytes : List UInt8) : File where
  size := if bytes = [] then f.size else max f.size (off + bytes.length)
  byte := copyIn f.byte off bytes
  zero_beyond x hx := by
    split at hx
    · next hnil =>
      rw [hnil, copyIn_nil]
      exact f.zero_beyond x hx
    · rw [copyIn_of_ge (le_trans (le_max_right ..) hx)]
      exact f.zero_beyond x (le_trans (le_max_left ..) hx)

@[simp] theorem File.write_byte (f : File) (off : ℕ) (bytes : List UInt8) :
    (f.write off bytes).byte = copyIn f.byte off bytes := rfl

theorem File.size_le_write (f : File) (off : ℕ) (bytes : List UInt8) :
    f.size ≤ (f.write off bytes).size := by
  simp only [write]
  split
  · exact le_rfl
  · exact le_max_left ..

theorem File.le_size_write (f : File) (off : ℕ) {bytes : List UInt8} (h : bytes ≠ []) :
    off + bytes.length ≤ (f.write off bytes).size := by
  simp only [write, if_neg h]
  exact le_max_right ..

/-- What is written in two steps is written. -/
theorem File.write_append (f : File) (off : ℕ) (bytes bytes' : List UInt8) :
    (f.write off bytes).write (off + bytes.length) bytes' = f.write off (bytes ++ bytes') := by
  refine File.ext ?_ (copyIn_append ..)
  by_cases hnil : bytes = []
  · subst hnil
    simp [write]
  by_cases hnil' : bytes' = []
  · subst hnil'
    simp [write]
  simp only [write, List.append_eq_nil_iff, hnil, hnil', and_self, if_false, List.length_append]
  omega

/-! ## The disk -/

/-- A region that the call `owner` reserved in the file of a stripe. -/
structure Region (ι : Type) where
  owner : ι
  stripe : ℕ
  base : ℕ
  size : ℕ

structure Disk (ι : Type) where
  files : Path → File
  /-- The bytes that are reserved in the file of each stripe (`nvme_stripe_offsets_`). -/
  next : ℕ → ℕ := fun _ => 0
  log : List (Region ι) := []

namespace Disk

variable {ι : Type} (s : Disk ι) {stripes : ℕ}

def write (path : Path) (off : ℕ) (bytes : List UInt8) : Disk ι :=
  { s with files := Function.update s.files path ((s.files path).write off bytes) }

def reserve (t : ι) (stripe n : ℕ) : Disk ι :=
  { s with
    next := Function.update s.next stripe (s.next stripe + n)
    log := ⟨t, stripe, s.next stripe % 2 ^ 64, n⟩ :: s.log }

/-- The bytes that a chunk names. -/
def bytesOf (c : NvmeChunk) : List UInt8 := readRun (s.files c.path).byte c.offset c.length

theorem write_files_self (path : Path) (off : ℕ) (bytes : List UInt8) :
    (s.write path off bytes).files path = (s.files path).write off bytes :=
  Function.update_self ..

theorem write_files_of_ne {path path' : Path} (h : path' ≠ path) (off : ℕ) (bytes : List UInt8) :
    (s.write path off bytes).files path' = s.files path' :=
  Function.update_of_ne h ..

theorem write_append (path : Path) (off : ℕ) (bytes bytes' : List UInt8) :
    (s.write path off bytes).write path (off + bytes.length) bytes' =
      s.write path off (bytes ++ bytes') := by
  simp only [write, Function.update_self, Function.update_idem, File.write_append]

theorem size_le_write (path path' : Path) (off : ℕ) (bytes : List UInt8) :
    (s.files path').size ≤ ((s.write path off bytes).files path').size := by
  by_cases h : path' = path
  · subst h
    rw [write_files_self]
    exact File.size_le_write ..
  · rw [write_files_of_ne s h]

end Disk

/-- What a call of the thread `t` does. -/
def does {ι : Type} (t : ι) : (o : Op) → Disk ι → o.Answer → Disk ι → Prop
  | .setup, s, a, s' => a = true ∧ s' = s
  | .openFile _, s, a, s' => a = true ∧ s' = s
  | .fetchAdd stripe n, s, a, s' => a = s.next stripe % 2 ^ 64 ∧ s' = s.reserve t stripe n
  | .pwrite path off bytes, s, a, s' => ∃ n ≤ bytes.length, (bytes ≠ [] → 0 < n) ∧
      a = some n ∧ s' = s.write path off (bytes.take n)
  | .pread path off len, s, a, s' => s' = s ∧ ∃ n ≤ min len ((s.files path).size - off),
      (0 < len → off < (s.files path).size → 0 < n) ∧
      a = some (readRun (s.files path).byte off n)
  | .waitWrite pending, s, a, s' => ∃ i q, pending[i]? = some q ∧
      a = some (i, cqeRes q.bytes.length) ∧ s' = s.write q.path q.fileOff q.bytes
  | .waitRead pending, s, a, s' => s' = s ∧ ∃ i q, pending[i]? = some q ∧
      a = some (i, some (readRun (s.files q.path).byte q.fileOff
        (min q.len ((s.files q.path).size - q.fileOff))))

/-! ## What files hold -/

/-- The file holds the bytes at the offset. -/
structure Disk.Holds {ι : Type} (s : Disk ι) (path : Path) (off : ℕ) (bytes : List UInt8) :
    Prop where
  byte : ∀ k x, bytes[k]? = some x → (s.files path).byte (off + k) = x
  size : bytes ≠ [] → off + bytes.length ≤ (s.files path).size

namespace Disk.Holds

variable {ι : Type} {s : Disk ι} {path path' : Path} {off off' : ℕ} {bytes bytes' : List UInt8}

theorem nil : s.Holds path off [] where
  byte _ _ h := nomatch h
  size h := absurd rfl h

theorem bytesOf_eq {c : NvmeChunk} (h : s.Holds c.path c.offset bytes)
    (hlength : c.length = bytes.length) : s.bytesOf c = bytes := by
  refine List.ext_getElem (by simp [bytesOf, hlength]) fun k _ hk => ?_
  simp only [bytesOf, readRun, List.getElem_map, List.getElem_range]
  exact h.byte k _ (List.getElem?_eq_getElem hk)

/-- A write to another file, or behind the bytes. -/
theorem write (h : s.Holds path off bytes) (hapart : path = path' → off + bytes.length ≤ off') :
    (s.write path' off' bytes').Holds path off bytes where
  byte k x hx := by
    have hk := (List.getElem?_eq_some_iff.1 hx).1
    by_cases hpath : path = path'
    · subst hpath
      have hle := hapart rfl
      rw [write_files_self, File.write_byte, copyIn_of_lt (by omega), h.byte k x hx]
    · rw [write_files_of_ne _ hpath, h.byte k x hx]
  size hne := (h.size hne).trans (s.size_le_write ..)

theorem of_write : (s.write path off bytes).Holds path off bytes where
  byte k x hx := by
    obtain ⟨hk, rfl⟩ := List.getElem?_eq_some_iff.1 hx
    rw [write_files_self, File.write_byte, copyIn_add hk]
  size hne := by
    rw [write_files_self]
    exact File.le_size_write _ _ hne

theorem append (h : s.Holds path off bytes) (h' : s.Holds path (off + bytes.length) bytes') :
    s.Holds path off (bytes ++ bytes') where
  byte k x hx := by
    rcases Nat.lt_or_ge k bytes.length with hk | hk
    · rw [List.getElem?_append_left hk] at hx
      exact h.byte k x hx
    · obtain ⟨j, rfl⟩ := Nat.exists_eq_add_of_le hk
      rw [List.getElem?_append_right hk, Nat.add_sub_cancel_left] at hx
      rw [← Nat.add_assoc]
      exact h'.byte j x hx
  size hne := by
    rw [List.length_append, ← Nat.add_assoc]
    by_cases hnil : bytes' = []
    · subst hnil
      rw [List.append_nil] at hne
      exact h.size hne
    · exact h'.size hnil

theorem of_append (h : s.Holds path off (bytes ++ bytes')) : s.Holds path off bytes where
  byte k x hx := h.byte k x
    ((List.getElem?_append_left (List.getElem?_eq_some_iff.1 hx).1).trans hx)
  size hne := by
    have hsize := h.size (List.append_ne_nil_of_left_ne_nil hne _)
    rw [List.length_append] at hsize
    omega

/-- A read within the bytes answers with them. -/
theorem answers {t : ι} {s' : Disk ι} {x len : ℕ} {a : Option (List UInt8)}
    (h : s.Holds path off bytes) (hlen : 0 < len)
    (hdoes : does t (.pread path (off + x) len) s a s') : s' = s ∧ Answers False bytes x len a := by
  obtain ⟨rfl, n, hn, hpos, rfl⟩ := hdoes
  refine ⟨rfl, ?_, fun k hk hbytes => ?_, fun hnil => ?_⟩
  · rw [length_readRun]
    omega
  · rw [length_readRun] at hk
    rw [List.getElem?_eq_getElem hbytes, readRun, List.getElem?_map, List.getElem?_range hk,
      Option.map_some, Nat.add_assoc]
    exact congrArg some (h.byte _ _ (List.getElem?_eq_getElem hbytes))
  · -- The file ends behind the bytes, so nothing is read only behind them.
    have hn0 : n = 0 := by simpa using congrArg List.length hnil
    by_contra hlt
    have hsize := h.size (List.length_pos_iff.1 (by omega))
    exact absurd (hpos hlen (by omega)) (by omega)

end Disk.Holds

theorem exists_pread {ι : Type} (t : ι) (s : Disk ι) (path : Path) (off len : ℕ) :
    ∃ a s', does t (.pread path off len) s a s' :=
  ⟨_, s, rfl, min len ((s.files path).size - off), le_rfl, (fun _ _ => by omega), rfl⟩

/-! ## Segments -/

/-- Before the last stripe each one gets its share. -/
theorem stripeSegments_eq (h : 0 < stripes) (nbytes : ℕ) :
    stripeSegments stripes nbytes = List.replicate (stripes - 1) (nbytes / stripes) ++
      [nbytes - (stripes - 1) * (nbytes / stripes)] := by
  have hfold : ∀ n ≤ stripes - 1, (List.range n).foldl (addSegment stripes nbytes) ([], 0) =
      (List.replicate n (nbytes / stripes), n * (nbytes / stripes)) := by
    intro n hn
    induction n with
    | zero => simp
    | succ n ih =>
      rw [List.range_succ, List.foldl_append, ih (by omega), List.foldl_cons, List.foldl_nil,
        addSegment, if_neg (show n ≠ stripes - 1 by omega), ← List.replicate_succ', Nat.succ_mul]
  obtain ⟨n, rfl⟩ : ∃ n, stripes = n + 1 := ⟨stripes - 1, by omega⟩
  rw [stripeSegments, List.range_succ, List.foldl_append, hfold n le_rfl, List.foldl_cons,
    List.foldl_nil, addSegment]
  simp

theorem length_stripeSegments (h : 0 < stripes) (nbytes : ℕ) :
    (stripeSegments stripes nbytes).length = stripes := by
  rw [stripeSegments_eq h]
  simp
  omega

theorem sum_stripeSegments (h : 0 < stripes) (nbytes : ℕ) :
    (stripeSegments stripes nbytes).sum = nbytes := by
  rw [stripeSegments_eq h]
  have hle : (stripes - 1) * (nbytes / stripes) ≤ nbytes :=
    (Nat.mul_le_mul_right _ (Nat.sub_le ..)).trans (Nat.mul_div_le ..)
  simp
  omega

theorem NvmeConfig.block_pos (cfg : NvmeConfig) : 0 < cfg.block := by
  rw [block]
  split
  · omega
  · decide

theorem NvmeConfig.qd_pos (cfg : NvmeConfig) : 0 < cfg.qd :=
  Nat.lt_of_lt_of_le Nat.one_pos (le_max_left ..)

/-- Different stripes have different files. -/
abbrev NvmeConfig.PathsDiffer (cfg : NvmeConfig) : Prop :=
  ∀ i < cfg.stripeCount, ∀ j < cfg.stripeCount, cfg.stripePath i = cfg.stripePath j → i = j

end StateSpectre.Nvme
