import Mathlib.Algebra.GroupWithZero.Nat
import Mathlib.Algebra.Order.Group.Nat
import Mathlib.Algebra.BigOperators.Group.List.Basic

/-!
# Reading from stream sockets

The reading end of a stream socket is given by what its reads meet, in order, until the end of the
stream: bytes, in pieces of any size, interruptions and failures. A read takes as much of the first
piece as there is room for (`recv`), so the pieces say where reads are cut short.

`readLoop` repeats reads until a number of bytes is there. How the stream is cut into pieces makes
no difference to it: if there are enough bytes, it takes the first of them and leaves the others
(`readLoop_of_le`); if not, it ends cleanly only if there are none at all (`readLoop_nil`,
`readLoop_of_lt`).
-/

namespace StateSpectre

/-- What the reads of a socket meet. Descriptors `φ` come with the first byte of a piece. -/
inductive Arrival (φ : Type)
  | data (bytes : List UInt8) (fds : List φ) (nonempty : bytes ≠ [])
  | interrupted
  | failed (reason : String)

/-- A socket, by what is still to be met. -/
abbrev Socket (φ : Type) : Type := List (Arrival φ)

/-- What a read returns. There are no bytes only at the end of the stream. -/
inductive Received (φ : Type)
  | bytes (bs : List UInt8) (fds : List φ)
  | interrupted
  | failed (reason : String)

variable {φ ε : Type} {n : ℕ}

/-- The bytes that come with an arrival. -/
def Arrival.bytes : Arrival φ → List UInt8
  | .data bs _ _ => bs
  | .interrupted => []
  | .failed _ => []

/-- How much there is to meet in an arrival. -/
def Arrival.size : Arrival φ → ℕ
  | .data bs _ _ => bs.length
  | .interrupted => 1
  | .failed _ => 1

namespace Socket

/-- The bytes of the stream. -/
def stream (s : Socket φ) : List UInt8 := s.flatMap Arrival.bytes

/-- No read fails. -/
def Clean (s : Socket φ) : Prop := ∀ reason, .failed reason ∉ s

/-- How much there is to meet. -/
def size (s : Socket φ) : ℕ := (s.map Arrival.size).sum

/-- A read with room for `n` bytes. What does not fit stays, without the descriptors. -/
def recv (n : ℕ) : Socket φ → Received φ × Socket φ
  | [] => (.bytes [] [], [])
  | .interrupted :: s => (.interrupted, s)
  | .failed reason :: s => (.failed reason, s)
  | .data bs fds _ :: s =>
    if h : n < bs.length then
      (.bytes (bs.take n) fds, .data (bs.drop n) [] (List.drop_eq_nil_iff.not.2 h.not_ge) :: s)
    else (.bytes bs fds, s)

@[simp] theorem stream_nil : stream ([] : Socket φ) = [] := rfl

@[simp] theorem stream_cons (a : Arrival φ) (s : Socket φ) :
    stream (a :: s) = a.bytes ++ stream s := rfl

@[simp] theorem size_cons (a : Arrival φ) (s : Socket φ) : size (a :: s) = a.size + size s :=
  rfl

@[simp] theorem clean_cons {a : Arrival φ} {s : Socket φ} :
    Clean (a :: s) ↔ (∀ reason, a ≠ .failed reason) ∧ Clean s := by
  simp [Clean, List.mem_cons, not_or, forall_and, eq_comm]

/-- A read that returns bytes, has room for some, and is not at the end. -/
theorem recv_bytes {s s' : Socket φ} {bs : List UInt8} {fds : List φ}
    (h : recv n s = (.bytes bs fds, s')) :
    s.stream = bs ++ s'.stream ∧ bs.length ≤ n ∧ (s.Clean → s'.Clean) ∧
      (0 < n → bs = [] → s = []) ∧ (bs ≠ [] → s'.size < s.size) := by
  rcases s with - | ⟨⟨ds, fds', hne⟩ | - | reason, s⟩
  · simp_all [recv]
  · simp only [recv] at h
    have hpos := List.length_pos_of_ne_nil hne
    split at h <;> rename_i hlt <;> simp only [Prod.mk.injEq, Received.bytes.injEq] at h <;>
      obtain ⟨⟨rfl, rfl⟩, rfl⟩ := h
    · refine ⟨?_, ?_, ?_, ?_, ?_⟩
      · simp [Arrival.bytes, ← List.append_assoc]
      · simp
      · simp
      · simp only [List.take_eq_nil_iff]
        rintro hn (h | h)
        · exact absurd h hn.ne'
        · exact absurd h hne
      · intro htake
        have : n ≠ 0 := by
          rintro rfl
          exact htake rfl
        simp only [size_cons, Arrival.size, List.length_drop]
        omega
    · refine ⟨rfl, not_lt.1 hlt, fun hc => (clean_cons.1 hc).2, fun _ h => absurd h hne,
        fun _ => ?_⟩
      simp only [size_cons, Arrival.size]
      omega
  · simp [recv] at h
  · simp [recv] at h

/-- A read that is interrupted has taken nothing. -/
theorem recv_interrupted {s s' : Socket φ} (h : recv n s = (.interrupted, s')) :
    s = .interrupted :: s' := by
  rcases s with - | ⟨⟨ds, fds', hne⟩ | - | reason, s⟩
  · simp [recv] at h
  · simp only [recv] at h
    split at h <;> simp at h
  · simp only [recv, Prod.mk.injEq, true_and] at h
    rw [h]
  · simp [recv] at h

theorem recv_failed {s s' : Socket φ} {reason : String} (h : recv n s = (.failed reason, s')) :
    .failed reason ∈ s := by
  rcases s with - | ⟨⟨ds, fds', hne⟩ | - | reason, s⟩
  · simp [recv] at h
  · simp only [recv] at h
    split at h <;> simp at h
  · simp [recv] at h
  · simp only [recv, Prod.mk.injEq, Received.failed.injEq] at h
    simp [h.1]

/-! ## Reading a number of bytes -/

/-- Reads are repeated until `len` bytes are in the buffer. The descriptors are those of the first
    read that returns bytes. The end of the stream is clean if it comes before that one. -/
def readLoop (failed : String → ε) (ended : ε) (len : ℕ) (buf : List UInt8)
    (fds : Option (List φ)) (s : Socket φ) :
    Except ε (Option (List UInt8 × List φ) × Socket φ) :=
  if buf.length < len then
    match _h : recv (len - buf.length) s with
    | (.interrupted, s') => readLoop failed ended len buf fds s'
    | (.failed reason, _) => .error (failed reason)
    | (.bytes [] _, s') =>
      if buf = [] ∧ fds = none then .ok (none, s') else .error ended
    | (.bytes (b :: bs) got, s') =>
      readLoop failed ended len (buf ++ b :: bs) (fds.or (some got)) s'
  else .ok (some (buf, fds.getD []), s)
termination_by s.size
decreasing_by
  · rw [recv_interrupted _h]
    simp [Arrival.size]
  · exact (recv_bytes _h).2.2.2.2 (List.cons_ne_nil b bs)

variable {failed : String → ε} {ended : ε} {len : ℕ} {buf a t : List UInt8}
  {fds : Option (List φ)} {s : Socket φ}

/-- What is read is not met again. -/
theorem readLoop_size {r : List UInt8 × List φ} {s' : Socket φ}
    (h : readLoop failed ended len buf fds s = .ok (some r, s')) :
    s'.size ≤ s.size ∧ (buf.length < len → s'.size < s.size) := by
  fun_induction readLoop failed ended len buf fds s with
  | case1 buf fds s hlt s₁ hrecv ih =>
    obtain rfl := recv_interrupted hrecv
    have hle := (ih h).1
    simp only [size_cons, Arrival.size]
    omega
  | case2 | case3 | case4 => simp at h
  | case5 buf fds s hlt b bs got s₁ hrecv ih =>
    have hlt := (recv_bytes hrecv).2.2.2.2 (List.cons_ne_nil b bs)
    have hle := (ih h).1
    omega
  | case6 buf fds s hlt =>
    simp only [Except.ok.injEq, Prod.mk.injEq, Option.some.injEq] at h
    obtain ⟨-, rfl⟩ := h
    exact ⟨le_rfl, fun h => absurd h hlt⟩

/-- If there are enough bytes, the first ones are taken, and what comes after them is left. -/
theorem readLoop_of_le (hc : s.Clean) (hlen : buf.length + a.length = len)
    (hs : s.stream = a ++ t) :
    ∃ fds' s', readLoop failed ended len buf fds s = .ok (some (buf ++ a, fds'), s') ∧ s'.Clean ∧
      s'.stream = t := by
  -- each read takes a part of what is still to come of `a`
  fun_induction readLoop failed ended len buf fds s generalizing a with
  | case1 buf fds s hlt s' hrecv ih =>
    obtain rfl := recv_interrupted hrecv
    exact ih (clean_cons.1 hc).2 hlen hs
  | case2 buf fds s hlt reason s' hrecv => exact absurd (recv_failed hrecv) (hc reason)
  | case3 buf fds s hlt got s' hrecv | case4 buf fds s hlt got s' hrecv =>
    obtain rfl := (recv_bytes hrecv).2.2.2.1 (by omega) rfl
    obtain ⟨rfl, -⟩ := List.append_eq_nil_iff.1 hs.symm
    simp at hlen
    omega
  | case5 buf fds s hlt b bs got s' hrecv ih =>
    obtain ⟨hstream, hle, hclean, -, -⟩ := recv_bytes hrecv
    rw [hstream] at hs
    obtain ⟨a', rfl, hs'⟩ : ∃ a', a = (b :: bs) ++ a' ∧ s'.stream = a' ++ t := by
      rcases List.append_eq_append_iff.1 hs with ⟨c, rfl, h⟩ | ⟨c, h, rfl⟩
      · exact ⟨c, rfl, h⟩
      · have hc : c = [] := by
          rw [h, List.length_append] at hle
          exact List.eq_nil_of_length_eq_zero (by omega)
        exact ⟨[], by simp [h, hc], by simp [hc]⟩
    rw [List.length_append] at hlen
    obtain ⟨fds', s'', hrun, h⟩ := ih (hclean hc) (by simp only [List.length_append]; omega) hs'
    exact ⟨fds', s'', by rw [hrun, List.append_assoc], h⟩
  | case6 buf fds s hlt =>
    obtain rfl : a = [] := List.eq_nil_of_length_eq_zero (by omega)
    exact ⟨fds.getD [], s, by rw [List.append_nil], hc, hs⟩

/-- At the end of the stream there is nothing to read. -/
theorem readLoop_nil (hc : s.Clean) (hlen : 0 < len) (hs : s.stream = []) :
    ∃ s', readLoop failed ended len [] (none : Option (List φ)) s = .ok (none, s') := by
  induction s with
  | nil =>
    refine ⟨[], ?_⟩
    rw [readLoop, if_pos (by exact hlen)]
    rfl
  | cons a s ih =>
    obtain ⟨hfailed, hclean⟩ := clean_cons.1 hc
    obtain ⟨ha, hstream⟩ := List.append_eq_nil_iff.1 hs
    rcases a with ⟨bs, fds, hne⟩ | - | reason
    · exact absurd ha hne
    · obtain ⟨s', hrun⟩ := ih hclean hstream
      refine ⟨s', ?_⟩
      rw [readLoop, if_pos (by exact hlen)]
      exact hrun
    · exact absurd rfl (hfailed reason)

/-- If there are too few bytes, and some are there, this is an error. -/
theorem readLoop_of_lt (hc : s.Clean) (hlen : buf.length + s.stream.length < len)
    (hs : buf ≠ [] ∨ s.stream ≠ []) :
    readLoop failed ended len buf fds s = .error ended := by
  fun_induction readLoop failed ended len buf fds s with
  | case1 buf fds s hlt s' hrecv ih =>
    obtain rfl := recv_interrupted hrecv
    exact ih (clean_cons.1 hc).2 hlen hs
  | case2 buf fds s hlt reason s' hrecv => exact absurd (recv_failed hrecv) (hc reason)
  | case3 buf fds s hlt got s' hrecv hnone =>
    obtain rfl := (recv_bytes hrecv).2.2.2.1 (by omega) rfl
    simp [hnone.1] at hs
  | case4 buf fds s hlt got s' hrecv hnone => rfl
  | case5 buf fds s hlt b bs got s' hrecv ih =>
    obtain ⟨hstream, hle, hclean, -, -⟩ := recv_bytes hrecv
    rw [hstream, List.length_append] at hlen
    exact ih (hclean hc) (by simp only [List.length_append]; omega) (.inl (by simp))
  | case6 buf fds s hlt => omega

end Socket

end StateSpectre
