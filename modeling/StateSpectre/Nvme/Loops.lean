import StateSpectre.Nvme.Engine

/-!
# The loops of the engines

One rule for each loop, under any discipline: what each round keeps, the loop keeps. The rules are
used for a writer among others (`Nvme.RoundTrip`), for an engine alone (`Nvme.Refinement`) and for
a disk that fails (`Nvme.Faults`).

A reader goes on after an error. So what is known when it returns is that the bytes are there, or
that something has failed (`failed`).
-/

namespace StateSpectre.Nvme

open Discipline

/-! ## Memory -/

theorem copyIn_of_lt (h : k < addr) : copyIn m addr bytes k = m k :=
  onRun_of_not_mem fun hrun => (hrun.1.trans_lt h).false

theorem copyIn_add (h : k < bytes.length) : copyIn m addr bytes (addr + k) = bytes[k] := by
  rw [copyIn, writeRun, onRun_of_mem (inRun_add.2 h), Nat.add_sub_cancel_left,
    List.getD_eq_getElem?_getD, List.getElem?_eq_getElem h, Option.getD_some]

theorem copyIn_of_ge (h : addr + bytes.length ≤ k) : copyIn m addr bytes k = m k :=
  onRun_of_not_mem fun hrun => (hrun.2.trans_le h).false

@[simp] theorem copyIn_nil (m : Memory) (addr : ℕ) : copyIn m addr [] = m :=
  funext fun k => by
    rcases Nat.lt_or_ge k addr with h | h
    · exact copyIn_of_lt h
    · exact copyIn_of_ge h

/-- Bytes that are copied one behind the other. -/
theorem copyIn_append (m : Memory) (addr : ℕ) (bytes bytes' : List UInt8) :
    copyIn (copyIn m addr bytes) (addr + bytes.length) bytes' =
      copyIn m addr (bytes ++ bytes') := by
  funext k
  rcases Nat.lt_or_ge k (addr + bytes.length) with h | h
  · rw [copyIn_of_lt h]
    rcases Nat.lt_or_ge k addr with h' | h'
    · rw [copyIn_of_lt h', copyIn_of_lt h']
    · obtain ⟨j, rfl⟩ := Nat.exists_eq_add_of_le h'
      rw [copyIn_add (by omega), copyIn_add (by rw [List.length_append]; omega),
        List.getElem_append_left]
  · obtain ⟨j, rfl⟩ := Nat.exists_eq_add_of_le h
    rcases Nat.lt_or_ge j bytes'.length with hj | hj
    · rw [copyIn_add hj, Nat.add_assoc, copyIn_add (by rw [List.length_append]; omega)]
      simp
    · rw [copyIn_of_ge (by omega), copyIn_of_ge (by omega),
        copyIn_of_ge (by rw [List.length_append]; omega)]

/-- Rounding up goes to the next multiple, below the limit of 64 bits. -/
theorem roundup_spec {v : ℕ} (h : v + 4096 ≤ 2 ^ 64) :
    v ≤ roundup v 4096 ∧ roundup v 4096 < v + 4096 ∧ 4096 ∣ roundup v 4096 := by
  rw [roundup, Nat.mod_eq_of_lt (by omega)]
  exact ⟨by omega, by omega, Nat.dvd_mul_left ..⟩

variable {ι σ : Type} {D : Discipline ι σ Op Op.Answer} {t : ι} {s : σ} {abuf dst : Memory}
  {k : ℕ} {path : Path} {m : Memory} {rest : List NvmeChunk} {want : List UInt8} {cfg : NvmeConfig}
  {consumed : ℕ} {fuel w : ℕ}

/-! ## Writing -/

/-- The loop over `pwrite`, where `W w` holds once `w` bytes are written. -/
theorem wp_pwriteAll {woff : ℕ} {abuf : List UInt8} {W : ℕ → σ → Prop}
    (hstable : ∀ w, D.Stable t (W w))
    (hcall : ∀ w s, w < abuf.length → D.inv s → W w s →
      D.allowed t (.pwrite path ((woff + w) % 2 ^ 64) (abuf.drop w)) s ∧
      (∃ a s', D.does t (.pwrite path ((woff + w) % 2 ^ 64) (abuf.drop w)) s a s') ∧
      ∀ a s', D.does t (.pwrite path ((woff + w) % 2 ^ 64) (abuf.drop w)) s a s' →
        ∃ n, 0 < n ∧ w + n ≤ abuf.length ∧ a = some n ∧ W (w + n) s')
    (hw : w ≤ abuf.length) (hfuel : abuf.length < w + fuel) (h : W w s) :
    D.wp t (pwriteAll path woff abuf fuel w) (fun ok s' => ok = true ∧ W abuf.length s') s := by
  induction fuel generalizing w s with
  | zero => omega
  | succ fuel ih =>
    rw [pwriteAll]
    split
    · next hlt =>
      refine wp_call_of (hstable w) h (hcall w · hlt) ?_
      rintro a s' ⟨n, hpos, hle, rfl, hW⟩ -
      exact ih hle (by omega) hW
    · next hle =>
      obtain rfl : w = abuf.length := by omega
      exact wp_ret (fun _ _ hinv hrely h => ⟨h.1, hstable _ hinv hrely h.2⟩) ⟨rfl, h⟩

/-! ## Reading -/

/-- What a read at the offset `r` of the bytes `want` answers: an error, or some of these bytes and
    perhaps others behind them, but nothing only behind their end. -/
def Answers (failed : Prop) (want : List UInt8) (r len : ℕ) : Option (List UInt8) → Prop
  | none => failed
  | some got => got.length ≤ len ∧
      (∀ k < got.length, r + k < want.length → got[k]? = want[r + k]?) ∧
      (got = [] → want.length ≤ r)

theorem Answers.slice {failed : Prop} {off n r len : ℕ} {a : Option (List UInt8)}
    (h : Answers failed want (off + r) len a) :
    Answers failed ((want.drop off).take n) r len a := by
  cases a with
  | none => exact h
  | some got =>
    obtain ⟨hlen, hbytes, hend⟩ := h
    refine ⟨hlen, fun k hk hr => ?_, fun hnil => ?_⟩
    · rw [List.length_take, List.length_drop] at hr
      rw [hbytes k hk (by omega), List.getElem?_take_of_lt (by omega), List.getElem?_drop,
        Nat.add_assoc]
    · rw [List.length_take, List.length_drop]
      have := hend hnil
      omega

/-- The loop over `pread`. -/
theorem wp_preadAll {roff bpad : ℕ} {I failed : σ → Prop} (hI : D.Stable t I)
    (hfailed : D.Stable t failed) (hwant : want.length ≤ bpad)
    (hcall : ∀ r s, r < bpad → D.inv s → I s →
      D.allowed t (.pread path ((roff + r) % 2 ^ 64) (bpad - r)) s ∧
      (∃ a s', D.does t (.pread path ((roff + r) % 2 ^ 64) (bpad - r)) s a s') ∧
      ∀ a s', D.does t (.pread path ((roff + r) % 2 ^ 64) (bpad - r)) s a s' →
        I s' ∧ Answers (failed s') want r (bpad - r) a)
    {fuel r : ℕ} {abuf : Memory} (hr : r ≤ bpad) (hfuel : bpad < r + fuel)
    (habuf : ∀ k < r, k < want.length → want[k]? = some (abuf k)) (h : I s) :
    D.wp t (preadAll path roff bpad fuel abuf r) (fun x s' => I s' ∧
      (x.1 = false ∧ failed s' ∨ x.1 = true ∧ readRun x.2 0 want.length = want)) s := by
  have hpost : ∀ x : Bool × Memory, D.Stable t fun s' => I s' ∧
      (x.1 = false ∧ failed s' ∨ x.1 = true ∧ readRun x.2 0 want.length = want) :=
    fun x _ _ hinv hrely hs => ⟨hI hinv hrely hs.1,
      hs.2.imp_left fun hf => ⟨hf.1, hfailed hinv hrely hf.2⟩⟩
  have hdone : ∀ {abuf : Memory} {r : ℕ}, want.length ≤ r →
      (∀ k < r, k < want.length → want[k]? = some (abuf k)) →
      readRun abuf 0 want.length = want := by
    intro abuf r hle habuf
    refine List.ext_getElem? fun k => ?_
    rcases Nat.lt_or_ge k want.length with hk | hk
    · rw [habuf k (by omega) hk]
      simp [readRun, hk]
    · rw [List.getElem?_eq_none (by simpa using hk), List.getElem?_eq_none hk]
  induction fuel generalizing r abuf s with
  | zero => omega
  | succ fuel ih =>
    rw [preadAll]
    split
    · next hlt =>
      refine wp_call_of hI h (hcall r · hlt) fun a s'' hanswer _ => ?_
      obtain ⟨hI'', hgot⟩ := hanswer
      rcases a with _ | _ | ⟨b, got⟩
      · exact wp_ret (hpost _) ⟨hI'', .inl ⟨rfl, hgot⟩⟩
      · exact wp_ret (hpost _) ⟨hI'', .inr ⟨rfl, hdone (hgot.2.2 rfl) habuf⟩⟩
      · obtain ⟨hlen, hbytes, -⟩ := hgot
        rw [List.length_cons] at hlen
        refine ih (by rw [List.length_cons]; omega) (by rw [List.length_cons]; omega)
          (fun k hk hwantk => ?_) hI''
        rcases Nat.lt_or_ge k r with hkr | hkr
        · rw [copyIn_of_lt hkr]
          exact habuf k hkr hwantk
        · obtain ⟨j, rfl⟩ := Nat.exists_eq_add_of_le hkr
          have hj : j < (b :: got).length := by omega
          rw [copyIn_add hj, ← hbytes j hj hwantk, List.getElem?_eq_getElem hj]
    · exact wp_ret (hpost _) ⟨h, .inr ⟨rfl, hdone (by omega) habuf⟩⟩

/-- The disk answers with the bytes of the chunks, as long as nothing fails. -/
structure Serves (D : Discipline ι σ Op Op.Answer) (t : ι) (I failed : σ → Prop)
    (chunks : List NvmeChunk) (bytesOf : NvmeChunk → List UInt8) : Prop where
  stable : D.Stable t I
  failed_stable : D.Stable t failed
  length : ∀ c ∈ chunks, (bytesOf c).length = c.length
  bound : ∀ c ∈ chunks, c.offset + c.length + 4096 ≤ 2 ^ 64
  setup : ∀ s, D.inv s → I s → D.allowed t .setup s ∧ (∃ a s', D.does t .setup s a s') ∧
    ∀ a s', D.does t .setup s a s' → I s' ∧ (a = false → failed s')
  openFile : ∀ c ∈ chunks, ∀ s, D.inv s → I s →
    D.allowed t (.openFile c.path) s ∧ (∃ a s', D.does t (.openFile c.path) s a s') ∧
    ∀ a s', D.does t (.openFile c.path) s a s' →
      I s' ∧ (failed s → failed s') ∧ (a = false → failed s')
  pread : ∀ c ∈ chunks, ∀ x len, 0 < len → ∀ s, D.inv s → I s →
    D.allowed t (.pread c.path (c.offset + x) len) s ∧
    (∃ a s', D.does t (.pread c.path (c.offset + x) len) s a s') ∧
    ∀ a s', D.does t (.pread c.path (c.offset + x) len) s a s' →
      I s' ∧ Answers (failed s') (bytesOf c) x len a

namespace Serves

variable {I failed : σ → Prop} {chunks : List NvmeChunk} {bytesOf : NvmeChunk → List UInt8}
  {block : ℕ}

/-- What is known when a part of a reader is done. -/
theorem stable_or (h : Serves D t I failed chunks bytesOf) (P : Prop) :
    D.Stable t fun s => I s ∧ (failed s ∨ P) :=
  fun _ _ hinv hrely hs => ⟨h.stable hinv hrely hs.1, hs.2.imp_left (h.failed_stable hinv hrely)⟩

/-- The loop over the blocks of a chunk. -/
theorem wp_readBlocks (h : Serves D t I failed chunks bytesOf) (hblock : 0 < block)
    {c : NvmeChunk} (hc : c ∈ chunks) {consumed fuel readSeg : ℕ}
    (hle : readSeg ≤ c.length) (hfuel : c.length < readSeg + fuel) (hinv : D.inv s) (hI : I s) :
    D.wp t (readBlocks block c consumed fuel abuf dst readSeg) (fun x s' => I s' ∧
      (x.1 = false ∧ failed s' ∨ x.1 = true ∧
        x.2.2 = copyIn dst (consumed + readSeg) ((bytesOf c).drop readSeg))) s := by
  have hpost : ∀ (x : Bool × Memory × Memory) (m : Memory), D.Stable t fun s' => I s' ∧
      (x.1 = false ∧ failed s' ∨ x.1 = true ∧ x.2.2 = m) :=
    fun x m _ _ hinv hrely hs => ⟨h.stable hinv hrely hs.1,
      hs.2.imp_left fun hf => ⟨hf.1, h.failed_stable hinv hrely hf.2⟩⟩
  have hlength := h.length c hc
  have hbound := h.bound c hc
  induction fuel generalizing readSeg abuf dst s with
  | zero => omega
  | succ fuel ih =>
    rw [readBlocks]
    split
    · next hlt =>
      have hthis : min block (c.length - readSeg) + 4096 ≤ 2 ^ 64 := by omega
      obtain ⟨hround, hround', -⟩ := roundup_spec hthis
      have hwant : (((bytesOf c).drop readSeg).take (min block (c.length - readSeg))).length =
          min block (c.length - readSeg) := by
        rw [List.length_take, List.length_drop, hlength]
        omega
      refine wp_bind hinv (wp_mono (fun x s' hx hinv' => ?_)
        (wp_preadAll h.stable h.failed_stable (hwant.trans_le hround) (fun r s' hr hinv' hI' => ?_)
          (Nat.zero_le _)
          (by omega) (fun _ hk => absurd hk (Nat.not_lt_zero _)) hI))
      · obtain ⟨ok, abuf'⟩ := x
        obtain ⟨hI', ⟨rfl, hf⟩ | ⟨rfl, hread⟩⟩ := hx
        · exact wp_ret (hpost _ _) ⟨hI', .inl ⟨rfl, hf⟩⟩
        · rw [hwant] at hread
          simp only [hread]
          refine wp_mono (fun x s'' hx => ?_) (ih (by omega) (by omega) hinv' hI')
          refine ⟨hx.1, hx.2.imp_right fun hdone => ⟨hdone.1, ?_⟩⟩
          have happend := copyIn_append dst (consumed + readSeg)
            (((bytesOf c).drop readSeg).take (min block (c.length - readSeg)))
            (((bytesOf c).drop readSeg).drop (min block (c.length - readSeg)))
          rw [List.take_append_drop, hwant, List.drop_drop, Nat.add_assoc] at happend
          rw [hdone.2, happend]
      · have hoff : ((c.offset + readSeg) % 2 ^ 64 + r) % 2 ^ 64 = c.offset + (readSeg + r) := by
          rw [Nat.mod_add_mod, Nat.mod_eq_of_lt (by omega), Nat.add_assoc]
        rw [hoff]
        obtain ⟨hallowed, hanswer, hread⟩ := h.pread c hc (readSeg + r)
          (roundup (min block (c.length - readSeg)) 4096 - r) (by omega) s' hinv' hI'
        exact ⟨hallowed, hanswer, fun a s'' hdoes =>
          ⟨(hread a s'' hdoes).1, (hread a s'' hdoes).2.slice⟩⟩
    · next hge =>
      refine wp_ret (hpost _ _) ⟨hI, .inr ⟨rfl, ?_⟩⟩
      rw [List.drop_eq_nil_of_le (by omega), copyIn_nil]

/-- The loop over the chunks, once something has failed. -/
theorem wp_readChunks_failed (h : Serves D t I failed chunks bytesOf)
    (hrest : ∀ c ∈ rest, c ∈ chunks) (hI : I s) (hf : failed s) :
    D.wp t (readChunks block rest false consumed abuf dst) (fun _ s' => I s' ∧ failed s') s := by
  have hpost : D.Stable t fun s => I s ∧ failed s :=
    fun _ _ hinv hrely hs => ⟨h.stable hinv hrely hs.1, h.failed_stable hinv hrely hs.2⟩
  induction rest generalizing s with
  | nil => exact wp_ret hpost ⟨hI, hf⟩
  | cons c rest ih =>
    obtain ⟨hc, hrest⟩ := List.forall_mem_cons.1 hrest
    rw [readChunks]
    refine wp_call hpost ⟨hI, hf⟩ fun s' hinv' hs' => ?_
    obtain ⟨hallowed, hanswer, hopen⟩ := h.openFile c hc s' hinv' hs'.1
    refine ⟨hallowed, hanswer, fun a s'' hdoes _ => ?_⟩
    obtain ⟨hI'', hkept, -⟩ := hopen a s'' hdoes
    cases a with
    | false => exact wp_ret hpost ⟨hI'', hkept hs'.2⟩
    | true => exact ih hrest hI'' (hkept hs'.2)

/-- The loop over the chunks, of which `rest` are left. -/
theorem wp_readChunks (h : Serves D t I failed chunks bytesOf) (hblock : 0 < block)
    (hrest : ∀ c ∈ rest, c ∈ chunks) (hinv : D.inv s) (hI : I s) :
    D.wp t (readChunks block rest true consumed abuf dst) (fun x s' => I s' ∧
      (failed s' ∨ x.1 = true ∧ x.2.2 = copyIn dst consumed (rest.flatMap bytesOf))) s := by
  induction rest generalizing consumed abuf dst s with
  | nil =>
    rw [readChunks, List.flatMap_nil, copyIn_nil]
    exact wp_ret (h.stable_or _) ⟨hI, .inr ⟨rfl, rfl⟩⟩
  | cons c rest ih =>
    obtain ⟨hc, hrest⟩ := List.forall_mem_cons.1 hrest
    rw [readChunks]
    refine wp_call h.stable hI fun s' hinv' hI' => ?_
    obtain ⟨hallowed, hanswer, hopen⟩ := h.openFile c hc s' hinv' hI'
    refine ⟨hallowed, hanswer, fun a s'' hdoes hinv'' => ?_⟩
    obtain ⟨hI'', -, hclosed⟩ := hopen a s'' hdoes
    cases a with
    | false => exact wp_ret (h.stable_or _) ⟨hI'', .inl (hclosed rfl)⟩
    | true =>
      refine wp_bind hinv'' (wp_mono (fun x s₃ hx hinv₃ => ?_)
        (h.wp_readBlocks hblock hc (Nat.zero_le _) (by omega) hinv'' hI''))
      obtain ⟨ok, abuf', dst'⟩ := x
      obtain ⟨hI₃, ⟨rfl, hf⟩ | ⟨rfl, rfl⟩⟩ := hx
      · exact wp_mono (fun x s₄ hx => ⟨hx.1, .inl hx.2⟩) (h.wp_readChunks_failed hrest hI₃ hf)
      · refine wp_mono (fun x s₄ hx => ⟨hx.1, hx.2.imp_right fun hdone => ⟨hdone.1, ?_⟩⟩)
          (ih hrest hinv₃ hI₃)
        rw [hdone.2, if_pos rfl, List.drop_zero, Nat.add_zero, ← h.length c hc, copyIn_append,
          List.flatMap_cons]

/-- A reader returns the bytes of the chunks, or something has failed. -/
theorem wp_nvmeReadPwrite (h : Serves D t I failed chunks bytesOf) (hblock : 0 < cfg.block)
    (hI : I s) :
    D.wp t (nvmeReadPwrite cfg chunks abuf dst) (fun x s' => I s' ∧
      (failed s' ∨ x = (true, copyIn dst 0 (chunks.flatMap bytesOf)))) s := by
  rw [nvmeReadPwrite]
  refine wp_call_of h.stable hI h.setup fun a s'' ⟨hI'', hfailed⟩ hinv'' => ?_
  cases a with
  | false => exact wp_ret (h.stable_or _) ⟨hI'', .inl (hfailed rfl)⟩
  | true =>
    refine wp_bind hinv'' (wp_mono (fun x s₃ hx _ => ?_)
      (h.wp_readChunks hblock (fun _ hc => hc) hinv'' hI''))
    obtain ⟨ok, consumed, dst'⟩ := x
    exact wp_ret (h.stable_or _) ⟨hx.1, hx.2.imp_right fun hdone => by rw [← hdone.2]⟩

end Serves

end StateSpectre.Nvme
