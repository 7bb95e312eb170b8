import Mathlib.Data.List.Perm.Basic
import StateSpectre.Nvme.Loops

/-!
# The window of blocks in flight

The ring keeps several blocks in flight, each with a buffer of its own, and they are completed in
any order. Each request finds in its user data the block and the buffer it was made for, so that
the window knows at any time which blocks are done and which are in flight (`Numbered`).

A request is made with the buffer that its iovec points to when it is submitted, and an iovec
belongs to a buffer only up to its index modulo 64. As long as at most 64 blocks are in flight, it
is the buffer of the block (`Flying`). All of this is kept when the pipe is filled (`Flying.fill`),
when the requests are submitted (`Flying.submit`) and when one of them is completed
(`Flying.reap`).
-/

namespace StateSpectre.Nvme

/-! ## User data -/

section

variable {blk bi : ℕ} (hblk : blk < 2 ^ 32) (hbi : bi < 2 ^ 16)

include hblk hbi

theorem packUserData_eq : packUserData blk bi = blk * 2 ^ 16 + bi := by
  rw [packUserData, ← Nat.shiftLeft_add_eq_or_of_lt hbi, Nat.shiftLeft_eq, Nat.mod_eq_of_lt]
  omega

theorem packUserData_and : packUserData blk bi &&& 0xFFFF = bi := by
  rw [packUserData_eq hblk hbi, show 0xFFFF = 2 ^ 16 - 1 from rfl, Nat.and_two_pow_sub_one_eq_mod,
    Nat.mul_add_mod', Nat.mod_eq_of_lt hbi]

theorem packUserData_shiftRight : (packUserData blk bi >>> 16) % 2 ^ 32 = blk := by
  rw [packUserData_eq hblk hbi, Nat.shiftRight_eq_div_pow]
  omega

end

theorem Flight.bi_lt (f : Flight) : f.bi < 2 ^ 16 := by
  rw [bi, show 0xFFFF = 2 ^ 16 - 1 from rfl, Nat.and_two_pow_sub_one_eq_mod]
  exact Nat.mod_lt _ (by decide)

/-! ## Blocks -/

theorem filterMap_getElem?_range {α : Type} (l : List α) :
    (List.range l.length).filterMap (l[·]?) = l := by
  induction l with
  | nil => rfl
  | cons a l ih =>
    rw [List.length_cons, List.range_succ_eq_map, List.filterMap_cons, List.getElem?_cons_zero,
      List.filterMap_map]
    exact congrArg _ ih

/-- What is in flight, or prepared to be. -/
def Window.flights (v : Window) : List Flight :=
  v.pending.map Request.toFlight ++ v.sqes.map Sqe.toFlight

/-- What the window has noted of the block of a request. -/
structure Noted (v : Window) (f : Flight) (b : BlockTransfer) : Prop where
  path : f.path = b.path
  fileOff : f.fileOff = b.fileOff
  padOf : v.padOf f.blk = roundup b.len 4096
  lenOf : v.lenOf f.blk = b.len
  memOffOf : v.memOffOf f.blk = b.memOff

variable {ios : List BlockTransfer} {qd : ℕ} {free comp : List ℕ} {v : Window} {q : Request}
  {load : BlockTransfer → Memory → Memory} {b : BlockTransfer} {bi : ℕ}

/-- The blocks `comp` are completed, and the other ones that were taken from the list are in
    flight. There are as many buffers in flight or `free` as there are buffers. -/
structure Numbered (ios : List BlockTransfer) (qd : ℕ) (free comp : List ℕ) (v : Window) :
    Prop where
  free_lt : ∀ bi ∈ free, bi < 2 ^ 16
  length : free.length + v.flights.length = qd
  inflight : v.inflight = v.flights.length
  done : v.done = comp.length
  blks : (comp ++ v.flights.map Flight.blk).Perm (List.range v.next)
  next_le : v.next ≤ ios.length
  noted : ∀ f ∈ v.flights, ∃ b, ios[f.blk]? = some b ∧ Noted v f b

namespace Numbered

theorem start (hqd : qd ≤ 2 ^ 16) (pool : ℕ → Memory) :
    Numbered ios qd (Window.start qd pool).freeBufs [] (Window.start qd pool) where
  free_lt bi hbi := by
    have hlt : bi < qd := by simpa [Window.start] using hbi
    omega
  length := by simp [Window.start, Window.flights]
  inflight := rfl
  done := rfl
  blks := .refl _
  next_le := Nat.zero_le _
  noted _ h := nomatch h

theorem submit (h : Numbered ios qd free comp v) : Numbered ios qd free comp (submit v) := by
  have hflights : (Nvme.submit v).flights = v.flights := by
    simp [Window.flights, Nvme.submit]
  refine { free_lt := h.free_lt, length := hflights ▸ h.length, inflight := hflights ▸ h.inflight
           done := h.done, blks := hflights ▸ h.blks, next_le := h.next_le
           noted := fun f hf => ?_ }
  obtain ⟨b, hb, hn⟩ := h.noted f (hflights ▸ hf)
  exact ⟨b, hb, { hn with }⟩

/-- The contents of the buffers, and what the window has put aside, do not matter. -/
theorem congr (h : Numbered ios qd free comp v) (freeBufs : List ℕ) (pool : ℕ → Memory) :
    Numbered ios qd free comp { v with freeBufs, pool } := by
  refine { h with noted := fun f hf => ?_ }
  obtain ⟨b, hb, hn⟩ := h.noted f hf
  exact ⟨b, hb, { hn with }⟩

/-- A block in flight was taken from the list before. -/
theorem blk_lt (h : Numbered ios qd free comp v) {f : Flight} (hf : f ∈ v.flights) :
    f.blk < v.next :=
  List.mem_range.1 (h.blks.mem_iff.1 (List.mem_append_right _ (List.mem_map_of_mem hf)))

theorem length_blks (h : Numbered ios qd free comp v) :
    comp.length + v.flights.length = v.next := by
  simpa using h.blks.length_eq

/-- No block is in flight that is completed. -/
theorem blk_not_mem (h : Numbered ios qd free comp v) {f : Flight} (hf : f ∈ v.flights) :
    f.blk ∉ comp := fun hmem =>
  (List.nodup_append.1 (h.blks.nodup_iff.2 List.nodup_range)).2.2 _ hmem _
    (List.mem_map_of_mem hf) rfl

/-- One by one, the blocks are completed in their order. -/
theorem blk_eq (h : Numbered ios 1 free comp v) (hcomp : comp = List.range comp.length)
    {f : Flight} (hf : f ∈ v.flights) : f.blk = comp.length := by
  have hlt := h.blk_lt hf
  have hnext := h.length_blks
  have hlength := h.length
  have hnot := h.blk_not_mem hf
  rw [hcomp, List.mem_range] at hnot
  omega

/-- A block is taken from the list. -/
theorem prepare (h : Numbered ios qd (bi :: free) comp v) (hios : ios.length ≤ 2 ^ 32)
    (hb : ios[v.next]? = some b) : Numbered ios qd free comp (v.prepare load b bi) := by
  obtain ⟨hbi, hfree⟩ := List.forall_mem_cons.1 h.free_lt
  have hnext : v.next < ios.length := (List.getElem?_eq_some_iff.1 hb).1
  have hflights : (v.prepare load b bi).flights =
      v.flights ++ [⟨b.path, b.fileOff, packUserData v.next bi⟩] := by
    simp [Window.flights, Window.prepare]
  have hblk : Flight.blk ⟨b.path, b.fileOff, packUserData v.next bi⟩ = v.next :=
    packUserData_shiftRight (by omega) hbi
  have hlength := h.length
  rw [List.length_cons] at hlength
  refine { free_lt := hfree, length := ?_, inflight := ?_, done := h.done, blks := ?_
           next_le := hnext, noted := fun f hf => ?_ }
  · rw [hflights, List.length_append, List.length_singleton]
    omega
  · rw [hflights, List.length_append, List.length_singleton, ← h.inflight]
    rfl
  · rw [hflights, List.map_append, List.map_singleton, ← List.append_assoc, hblk]
    exact (h.blks.append_right _).trans (.of_eq List.range_succ.symm)
  · rw [hflights] at hf
    rcases List.mem_append.1 hf with hf | hf
    · -- The arrays change only at the new block.
      have hne : f.blk ≠ v.next := (h.blk_lt hf).ne
      obtain ⟨b', hb', hn⟩ := h.noted f hf
      exact ⟨b', hb', hn.path, hn.fileOff, (Function.update_of_ne hne ..).trans hn.padOf,
        (Function.update_of_ne hne ..).trans hn.lenOf,
        (Function.update_of_ne hne ..).trans hn.memOffOf⟩
    · obtain rfl := List.mem_singleton.1 hf
      refine ⟨b, (congrArg (ios[·]?) hblk).trans hb, rfl, rfl, ?_, ?_, ?_⟩ <;>
        simp [Window.prepare, hblk]

variable (load) in
/-- Filling the pipe, until it is full, no block is left or no buffer is free. -/
theorem fill (h : Numbered ios qd free comp v) (hios : ios.length ≤ 2 ^ 32) :
    Numbered ios qd (fill load ios qd free v).freeBufs comp (fill load ios qd free v) ∧
      (qd ≤ (fill load ios qd free v).inflight ∨ ios.length ≤ (fill load ios qd free v).next ∨
        (fill load ios qd free v).freeBufs = []) := by
  induction free generalizing v with
  | nil => exact ⟨h.congr _ _, .inr (.inr rfl)⟩
  | cons bi free ih =>
    rw [Nvme.fill]
    split
    · split
      · next hb => exact ih (h.prepare hios hb)
      · next hb => exact ⟨h.congr _ _, .inr (.inl (List.getElem?_eq_none_iff.1 hb))⟩
    · next hfull => exact ⟨h.congr _ _, .inl (Nat.le_of_not_lt hfull)⟩

/-- As long as blocks are left, one is in flight when the pipe is filled. -/
theorem flights_ne_nil (h : Numbered ios qd free comp v) (hqd : 0 < qd)
    (hfull : qd ≤ v.inflight ∨ ios.length ≤ v.next ∨ free = []) (hleft : v.done < ios.length) :
    v.flights ≠ [] := by
  rw [← List.length_pos_iff]
  have hblks := h.length_blks
  have hbufs := h.length
  have hinflight := h.inflight
  have hdone := h.done
  rcases hfull with hfull | hfull | rfl
  · omega
  · omega
  · rw [List.length_nil] at hbufs
    omega

variable (load) in
/-- A round of the loop, up to where it waits. -/
theorem round (h : Numbered ios qd v.freeBufs comp v) (hqd : 0 < qd) (hios : ios.length ≤ 2 ^ 32)
    (hleft : v.done < ios.length) :
    Numbered ios qd (Nvme.submit (Nvme.fill load ios qd v.freeBufs v)).freeBufs comp
        (Nvme.submit (Nvme.fill load ios qd v.freeBufs v)) ∧
      (Nvme.submit (Nvme.fill load ios qd v.freeBufs v)).pending ≠ [] := by
  obtain ⟨hfill, hfull⟩ := h.fill load hios
  have hdone : v.done = (Nvme.fill load ios qd v.freeBufs v).done := h.done.trans hfill.done.symm
  have hne := hfill.flights_ne_nil hqd hfull (hdone ▸ hleft)
  refine ⟨hfill.submit, fun hnil => hne ?_⟩
  simpa [Nvme.submit, Window.flights] using hnil

/-- A request is completed. -/
theorem reap (h : Numbered ios qd v.freeBufs comp v) (hsqes : v.sqes = []) {i : ℕ}
    (hq : v.pending[i]? = some q) :
    Numbered ios qd (v.reap i q.bi).freeBufs (comp ++ [q.blk]) (v.reap i q.bi) := by
  have hflights : v.flights = v.pending.map Request.toFlight := by simp [Window.flights, hsqes]
  have hflights' : (v.reap i q.bi).flights = (v.pending.eraseIdx i).map Request.toFlight := by
    simp [Window.flights, Window.reap, hsqes]
  obtain ⟨hi, hget⟩ := List.getElem?_eq_some_iff.1 hq
  have hperm : v.flights.Perm (q.toFlight :: (v.pending.eraseIdx i).map Request.toFlight) := by
    rw [hflights, ← hget]
    exact ((List.getElem_cons_eraseIdx_perm hi).map Request.toFlight).symm
  have hlength := hperm.length_eq
  have hbufs := h.length
  have hinflight := h.inflight
  rw [List.length_cons] at hlength
  refine { free_lt := List.forall_mem_cons.2 ⟨q.bi_lt, h.free_lt⟩, length := ?_, inflight := ?_
           done := ?_, blks := ?_, next_le := h.next_le, noted := fun f hf => ?_ }
  · rw [hflights', Window.reap, List.length_cons]
    omega
  · rw [hflights']
    change v.inflight - 1 = _
    omega
  · rw [List.length_append, ← h.done]
    rfl
  · rw [hflights', List.append_assoc]
    exact ((hperm.map Flight.blk).append_left _).symm.trans h.blks
  · obtain ⟨b, hb, hn⟩ := h.noted f (hperm.mem_iff.2 (List.mem_cons_of_mem _ (hflights' ▸ hf)))
    exact ⟨b, hb, { hn with }⟩

theorem done_le (h : Numbered ios qd free comp v) : v.done ≤ ios.length := by
  have hblks := h.length_blks
  have hnext := h.next_le
  have hdone := h.done
  omega

/-- All blocks are completed. -/
theorem perm (h : Numbered ios qd free comp v) (hdone : ios.length ≤ v.done) :
    (comp.filterMap (ios[·]?)).Perm ios := by
  have hblks := h.length_blks
  have hnext := h.next_le
  have hcomp := h.done
  have hnil : v.flights = [] := List.eq_nil_of_length_eq_zero (by omega)
  have hperm := h.blks
  rw [hnil, List.map_nil, List.append_nil, show v.next = ios.length by omega] at hperm
  simpa only [filterMap_getElem?_range] using hperm.filterMap (ios[·]?)

end Numbered

/-! ## Rounds -/

/-- A round of the loop: `w` is the window when it waits. -/
structure Round (load : BlockTransfer → Memory → Memory) (ios : List BlockTransfer) (qd : ℕ)
    (comp : List ℕ) (v w : Window) : Prop where
  before : Numbered ios qd v.freeBufs comp v
  left : v.done < ios.length
  eq : submit (fill load ios qd v.freeBufs v) = w
  waits : Numbered ios qd w.freeBufs comp w
  pending : w.pending ≠ []

theorem Round.sqes {w : Window} (h : Round load ios qd comp v w) : w.sqes = [] := by
  rw [← h.eq]
  rfl

section

open Discipline

variable {σ α ρ : Type} {ask : (o : Op) → σ → o.Answer → σ → Prop} {s : σ} {x : α} {fuel : ℕ}
  {wait : Window → Calls (Option (ℕ × ρ))}
  {finish : Window → Request → ρ → α → Option ((ℕ → Memory) × α)}
  {I : List ℕ → Window → α → σ → Prop} {Q : Bool × α → σ → Prop}

/-- What an answer of the ring has to lead to: the loop ends with `Q`, or goes on with `I`. -/
def Leads (finish : Window → Request → ρ → α → Option ((ℕ → Memory) × α))
    (I : List ℕ → Window → α → σ → Prop) (Q : Bool × α → σ → Prop) (comp : List ℕ) (w : Window)
    (x : α) : Option (ℕ × ρ) → σ → Prop
  | none, s => Q (false, x) s
  | some (i, res), s => ∃ q, w.pending[i]? = some q ∧ match finish w q res x with
    | none => Q (false, x) s
    | some (pool, x') => I (comp ++ [q.blk]) ({ w with pool }.reap i q.bi) x' s

theorem Leads.fails {w : Window} {i : ℕ} {res : ρ} (hq : w.pending[i]? = some q)
    (hfinish : finish w q res x = none) (hQ : Q (false, x) s) :
    Leads finish I Q comp w x (some (i, res)) s := by
  refine ⟨q, hq, ?_⟩
  rw [hfinish]
  exact hQ

theorem Leads.goes_on {w : Window} {i : ℕ} {res : ρ} {pool : ℕ → Memory} {x' : α}
    (hq : w.pending[i]? = some q) (hfinish : finish w q res x = some (pool, x'))
    (hI : I (comp ++ [q.blk]) ({ w with pool }.reap i q.bi) x' s) :
    Leads finish I Q comp w x (some (i, res)) s := by
  refine ⟨q, hq, ?_⟩
  rw [hfinish]
  exact hI

theorem Leads.either {w : Window} {i : ℕ} {res : ρ} (hq : w.pending[i]? = some q)
    (hQ : finish w q res x = none → Q (false, x) s)
    (hI : ∀ pool x', finish w q res x = some (pool, x') →
      I (comp ++ [q.blk]) ({ w with pool }.reap i q.bi) x' s) :
    Leads finish I Q comp w x (some (i, res)) s := by
  cases hfinish : finish w q res x with
  | none => exact .fails hq hfinish (hQ hfinish)
  | some r => exact .goes_on hq hfinish (hI r.1 r.2 hfinish)

variable (hqd : 0 < qd) (hios : ios.length ≤ 2 ^ 32)
  (hend : ∀ comp v x s, Numbered ios qd v.freeBufs comp v → ios.length ≤ v.done → I comp v x s →
    Q (true, x) s)
  (hv : Numbered ios qd v.freeBufs comp v) (hfuel : ios.length < v.done + fuel)
  (hI : I comp v x s)

include hqd hios hend hv hfuel hI

/-- What every round keeps holds at the end, whatever the ring answers. -/
theorem wp_slide
    (hround : ∀ comp v w x s, Round load ios qd comp v w → I comp v x s →
      (alone ask).wp () (wait w) (Leads finish I Q comp w x) s) :
    (alone ask).wp () (slide load ios qd wait finish fuel v x) Q s := by
  induction fuel generalizing v comp x s with
  | zero => exact absurd hfuel (Nat.not_lt.2 hv.done_le)
  | succ fuel ih =>
    rw [slide]
    split
    · next hleft =>
      obtain ⟨hw, hne⟩ := hv.round load hqd hios hleft
      generalize hsubmit : Nvme.submit (Nvme.fill load ios qd v.freeBufs v) = w at *
      have hr : Round load ios qd comp v w := ⟨hv, hleft, hsubmit, hw, hne⟩
      refine wp_bind trivial (wp_mono (fun a s' ha _ => ?_) (hround comp v w x s hr hI))
      match a, ha with
      | none, ha => exact wp_ret (stable_alone _) ha
      | some (i, res), ⟨q, hq, ha⟩ =>
        simp only [hq]
        rcases hfinish : finish w q res x with _ | ⟨pool, x'⟩
        · rw [hfinish] at ha
          exact wp_ret (stable_alone _) ha
        · rw [hfinish] at ha
          exact ih (Numbered.reap (v := { w with pool }) (hw.congr _ pool) hr.sqes hq)
            (by change _ < w.done + 1 + fuel; rw [hw.done, ← hv.done]; omega) ha
    · next hdone => exact wp_ret (stable_alone _) (hend _ _ _ _ hv (Nat.le_of_not_lt hdone) hI)

/-- What some answer of the ring keeps in every round holds at the end of some run. -/
theorem slide_runs
    (hround : ∀ comp v w x s, Round load ios qd comp v w → I comp v x s →
      ∃ a s', (wait w).Runs ask s a s' ∧ Leads finish I Q comp w x a s') :
    ∃ r s', (slide load ios qd wait finish fuel v x).Runs ask s r s' ∧ Q r s' := by
  induction fuel generalizing v comp x s with
  | zero => exact absurd hfuel (Nat.not_lt.2 hv.done_le)
  | succ fuel ih =>
    rw [slide]
    split
    · next hleft =>
      obtain ⟨hw, hne⟩ := hv.round load hqd hios hleft
      generalize hsubmit : Nvme.submit (Nvme.fill load ios qd v.freeBufs v) = w at *
      have hr : Round load ios qd comp v w := ⟨hv, hleft, hsubmit, hw, hne⟩
      obtain ⟨a, s', hwait, ha⟩ := hround comp v w x s hr hI
      match a, ha with
      | none, ha => exact ⟨_, _, hwait.bind .ret, ha⟩
      | some (i, res), ⟨q, hq, ha⟩ =>
        split at ha
        · next hnone =>
          refine ⟨_, _, hwait.bind ?_, ha⟩
          simp only [hq, hnone]
          exact .ret
        · next pool x' hsome =>
          obtain ⟨r, s'', hruns, hQ⟩ := ih
            (Numbered.reap (v := { w with pool }) (hw.congr _ pool) hr.sqes hq)
            (by change _ < w.done + 1 + fuel; rw [hw.done, ← hv.done]; omega) ha
          refine ⟨r, s'', hwait.bind ?_, hQ⟩
          simp only [hq, hsome]
          exact hruns
    · next hdone => exact ⟨_, _, .ret, hend _ _ _ _ hv (Nat.le_of_not_lt hdone) hI⟩

end

/-! ## Buffers -/

/-- The requests in flight once those that are prepared are submitted. -/
def Window.requests (v : Window) : List Request := (submit v).pending

theorem Window.mem_flights (hq : q ∈ v.requests) : q.toFlight ∈ v.flights := by
  have hflights : v.requests.map Request.toFlight = v.flights := by
    simp [requests, flights, submit]
  exact hflights ▸ List.mem_map_of_mem hq

variable {L : BlockTransfer → Memory → Prop}

/-- The request has the buffer of the block. `L` says what the buffer is loaded with. -/
structure Loads (L : BlockTransfer → Memory → Prop) (v : Window) (q : Request)
    (b : BlockTransfer) : Prop where
  bi : q.bi = q.buf
  len : q.len = roundup b.len 4096
  loaded : L b (v.pool q.buf)

/-- Each request has the buffer of its block; the other buffers are `free`. -/
structure Flying (L : BlockTransfer → Memory → Prop) (ios : List BlockTransfer) (qd : ℕ)
    (free comp : List ℕ) (v : Window) : Prop extends Numbered ios qd free comp v where
  nodup : (free ++ v.requests.map Request.buf).Nodup
  /-- The buffers in flight, and those that will be, are among 64 consecutive ones. -/
  near : ∃ lo, ∀ bi ∈ free.take (ios.length - v.next) ++ v.requests.map Request.buf,
    lo ≤ bi ∧ bi < lo + 64
  /-- The iovec of an entry is the one of its buffer. -/
  iov : ∀ e ∈ v.sqes, (v.iov e.iovIndex).1 % 64 = e.iovIndex
  loads : ∀ q ∈ v.requests, ∀ b, ios[q.blk]? = some b → Loads L v q b

namespace Flying

theorem start (hqd : qd ≤ 2 ^ 16) (hnear : qd ≤ 64 ∨ ios.length ≤ 64) (pool : ℕ → Memory) :
    Flying L ios qd (Window.start qd pool).freeBufs [] (Window.start qd pool) where
  toNumbered := .start hqd pool
  nodup := by
    rw [show (Window.start qd pool).requests = [] from rfl, List.map_nil, List.append_nil]
    exact (List.reverse_perm _).nodup_iff.2 List.nodup_range
  near := by
    refine ⟨qd - 64, fun bi hbi => ?_⟩
    rw [show (Window.start qd pool).requests = [] from rfl, List.map_nil, List.append_nil] at hbi
    obtain ⟨k, hk, rfl⟩ := List.mem_take_iff_getElem.1 hbi
    simp only [Window.start, List.length_reverse, List.length_range, List.getElem_reverse,
      List.getElem_range] at hk ⊢
    omega
  iov _ h := nomatch h
  loads _ h := nomatch h

theorem submit (h : Flying L ios qd free comp v) : Flying L ios qd free comp (submit v) := by
  have hrequests : (Nvme.submit v).requests = v.requests := List.append_nil _
  exact {
    toNumbered := h.toNumbered.submit
    nodup := hrequests ▸ h.nodup
    near := hrequests ▸ h.near
    iov _ he := nomatch he
    loads q hq b hb := { h.loads q (hrequests ▸ hq) b hb with } }

/-- What the window has put aside does not matter. -/
theorem freeBufs (h : Flying L ios qd free comp v) (l : List ℕ) :
    Flying L ios qd free comp { v with freeBufs := l } :=
  { h with
    toNumbered := h.toNumbered.congr l v.pool
    loads := fun q hq b hb => { h.loads q hq b hb with } }

/-- Where buffers are not loaded, their bytes do not matter. -/
theorem pool (h : Flying (fun _ _ => True) ios qd free comp v) (pool : ℕ → Memory) :
    Flying (fun _ _ => True) ios qd free comp { v with pool } :=
  { h with
    toNumbered := h.toNumbered.congr v.freeBufs pool
    loads := fun q hq b hb => { h.loads q hq b hb with } }

/-- The block of a request, and its buffer. -/
theorem carries (h : Flying L ios qd free comp v) (hq : q ∈ v.requests) :
    ∃ b, ios[q.blk]? = some b ∧ Noted v q.toFlight b ∧ Loads L v q b := by
  obtain ⟨b, hb, hn⟩ := h.noted q.toFlight (Window.mem_flights hq)
  exact ⟨b, hb, hn, h.loads q hq b hb⟩

theorem buf_ne (h : Flying L ios qd (bi :: free) comp v) (hq : q ∈ v.requests) : q.buf ≠ bi := by
  intro hbuf
  exact (List.nodup_cons.1 h.nodup).1 (List.mem_append_right _ (List.mem_map.2 ⟨q, hq, hbuf⟩))

/-- No entry has the iovec of the next buffer: it is another one of the 64. -/
theorem iovIndex_ne (h : Flying L ios qd (bi :: free) comp v) (hnext : v.next < ios.length)
    {e : Sqe} (he : e ∈ v.sqes) : e.iovIndex ≠ bi % 64 := by
  have hmem : (⟨e.toFlight, (v.iov e.iovIndex).1, (v.iov e.iovIndex).2⟩ : Request) ∈ v.requests :=
    List.mem_append_right _ (List.mem_map_of_mem he)
  have hne : (v.iov e.iovIndex).1 ≠ bi := h.buf_ne hmem
  obtain ⟨lo, hlo⟩ := h.near
  have hbuf : lo ≤ (v.iov e.iovIndex).1 ∧ (v.iov e.iovIndex).1 < lo + 64 :=
    hlo _ (List.mem_append_right _ (List.mem_map_of_mem hmem))
  have hbi := hlo bi (List.mem_append_left _ ?_)
  · rw [← h.iov e he]
    omega
  · obtain ⟨n, hn⟩ : ∃ n, ios.length - v.next = n + 1 := ⟨ios.length - v.next - 1, by omega⟩
    rw [hn, List.take_succ_cons]
    exact List.mem_cons_self

/-- The requests when one more block is prepared: the iovecs of the others stay as they are. -/
theorem requests_prepare (h : Flying L ios qd (bi :: free) comp v) (hnext : v.next < ios.length) :
    (v.prepare load b bi).requests =
      v.requests ++ [⟨⟨b.path, b.fileOff, packUserData v.next bi⟩, bi, roundup b.len 4096⟩] := by
  simp only [Window.requests, Nvme.submit, Window.prepare, List.map_append, List.map_cons,
    List.map_nil, Function.update_self, ← List.append_assoc]
  congr 2
  refine List.map_congr_left fun e he => ?_
  rw [Function.update_of_ne (h.iovIndex_ne hnext he)]

theorem prepare (h : Flying L ios qd (bi :: free) comp v) (hios : ios.length ≤ 2 ^ 32)
    (hload : ∀ b ∈ ios, ∀ m, L b (load b m)) (hb : ios[v.next]? = some b) :
    Flying L ios qd free comp (v.prepare load b bi) := by
  have hnext : v.next < ios.length := (List.getElem?_eq_some_iff.1 hb).1
  have hbi := List.forall_mem_cons.1 h.free_lt
  have hrequests : (v.prepare load b bi).requests = _ := h.requests_prepare hnext
  have hblk : Flight.blk ⟨b.path, b.fileOff, packUserData v.next bi⟩ = v.next :=
    packUserData_shiftRight (by omega) hbi.1
  refine { toNumbered := h.toNumbered.prepare hios hb, nodup := ?_, near := ?_
           iov := fun e he => ?_, loads := fun q hq b' hb' => ?_ }
  · rw [hrequests, List.map_append, List.map_singleton, ← List.append_assoc]
    exact (List.perm_append_singleton ..).nodup_iff.2 h.nodup
  · obtain ⟨lo, hlo⟩ := h.near
    refine ⟨lo, fun bi' hbi' => hlo bi' ?_⟩
    obtain ⟨n, hn⟩ : ∃ n, ios.length - v.next = n + 1 := ⟨ios.length - v.next - 1, by omega⟩
    have hn' : ios.length - (v.prepare load b bi).next = n := by
      change ios.length - (v.next + 1) = n
      omega
    rw [hrequests, hn', List.map_append, List.map_singleton, ← List.append_assoc] at hbi'
    rw [hn, List.take_succ_cons]
    exact (List.perm_append_singleton ..).mem_iff.1 hbi'
  · rcases List.mem_append.1 he with he | he
    · simp only [Window.prepare]
      rw [Function.update_of_ne (h.iovIndex_ne hnext he)]
      exact h.iov e he
    · rw [List.mem_singleton.1 he]
      simp [Window.prepare]
  · rw [hrequests] at hq
    rcases List.mem_append.1 hq with hq | hq
    · -- The pool changes only at the buffer of the new block.
      have hl := h.loads q hq b' hb'
      refine ⟨hl.bi, hl.len, ?_⟩
      simp only [Window.prepare]
      rw [Function.update_of_ne (h.buf_ne hq)]
      exact hl.loaded
    · obtain rfl := List.mem_singleton.1 hq
      obtain rfl : b = b' :=
        Option.some.inj (hb.symm.trans ((congrArg (ios[·]?) hblk).symm.trans hb'))
      refine ⟨packUserData_and (by omega) hbi.1, rfl, ?_⟩
      simp only [Window.prepare, Function.update_self]
      exact hload b (List.mem_of_getElem? hb) _

/-- Filling the pipe, until it is full, no block is left or no buffer is free. -/
theorem fill (h : Flying L ios qd free comp v) (hios : ios.length ≤ 2 ^ 32)
    (hload : ∀ b ∈ ios, ∀ m, L b (load b m)) :
    Flying L ios qd (fill load ios qd free v).freeBufs comp (fill load ios qd free v) := by
  induction free generalizing v with
  | nil => exact h.freeBufs _
  | cons bi free ih =>
    rw [Nvme.fill]
    split
    · split
      · next hb => exact ih (h.prepare hios hload hb)
      · exact h.freeBufs _
    · exact h.freeBufs _

/-- A round of the loop, up to where it waits. -/
theorem round {w : Window} (h : Flying L ios qd v.freeBufs comp v)
    (hr : Round load ios qd comp v w) (hios : ios.length ≤ 2 ^ 32)
    (hload : ∀ b ∈ ios, ∀ m, L b (load b m)) : Flying L ios qd w.freeBufs comp w :=
  hr.eq ▸ (h.fill hios hload).submit

/-- A request is completed. -/
theorem reap (h : Flying L ios qd v.freeBufs comp v) (hsqes : v.sqes = []) {i : ℕ}
    (hq : v.pending[i]? = some q) :
    Flying L ios qd (v.reap i q.bi).freeBufs (comp ++ [q.blk]) (v.reap i q.bi) := by
  have hrequests : v.requests = v.pending := by simp [Window.requests, Nvme.submit, hsqes]
  have hrequests' : (v.reap i q.bi).requests = v.pending.eraseIdx i := by
    simp [Window.requests, Nvme.submit, Window.reap, hsqes]
  obtain ⟨hi, hget⟩ := List.getElem?_eq_some_iff.1 hq
  have hperm : v.requests.Perm (q :: v.pending.eraseIdx i) := by
    rw [hrequests, ← hget]
    exact (List.getElem_cons_eraseIdx_perm hi).symm
  obtain ⟨b, -, -, hl⟩ := h.carries (hrequests ▸ List.mem_of_getElem? hq)
  refine { toNumbered := h.toNumbered.reap hsqes hq, nodup := ?_, near := ?_
           iov := fun e he => ?_, loads := fun q' hq' b' hb' => ?_ }
  · rw [hrequests', hl.bi]
    exact (List.perm_middle.symm.trans ((hperm.map Request.buf).append_left _).symm).nodup_iff.2
      h.nodup
  · obtain ⟨lo, hlo⟩ := h.near
    refine ⟨lo, fun bi hbi => hlo bi ?_⟩
    rw [hrequests', hl.bi] at hbi
    rcases List.mem_append.1 hbi with hbi | hbi
    · -- The buffer was in flight, or it was free before.
      change bi ∈ (q.buf :: v.freeBufs).take (ios.length - v.next) at hbi
      cases hleft : ios.length - v.next with
      | zero =>
        rw [hleft] at hbi
        cases hbi
      | succ n =>
        rw [hleft, List.take_succ_cons] at hbi
        rcases List.mem_cons.1 hbi with rfl | hfree
        · exact List.mem_append_right _ (List.mem_map_of_mem (hperm.mem_iff.2 List.mem_cons_self))
        · exact List.mem_append_left _ (List.take_subset_take_left _ (Nat.le_succ n) hfree)
    · refine List.mem_append_right _ ((hperm.map Request.buf).mem_iff.2 ?_)
      exact List.mem_cons_of_mem _ hbi
  · rw [show (v.reap i q.bi).sqes = [] from hsqes] at he
    exact nomatch he
  · rw [hrequests'] at hq'
    have hl' := h.loads q' (hrequests ▸ List.mem_of_mem_eraseIdx hq') b' hb'
    exact { hl' with }

end Flying

end StateSpectre.Nvme
