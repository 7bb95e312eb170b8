import Mathlib.Algebra.GroupWithZero.Nat
import Mathlib.Data.List.Forall2

/-!
# Reading byte strings

A reader takes a value off the front of a byte string, or fails. What it takes is all it looks at:
whatever comes behind is left, and makes no difference (`ByteReader.frame`). Every reader has this
law as a field, and readers are put together as a monad, so that whatever is read step by step has
it.

`p.Reads bs a` says that the reader takes exactly the bytes `bs` for the value `a`. From the law it
follows that the reader fails on every part of `bs` that is cut short (`Reads.truncated`), so that
a decoder only has to be shown to read what the encoder writes.

Numbers are written with their least significant byte first (`leBytes`).
-/

namespace StateSpectre

/-- A reader of values, with its failures. -/
structure ByteReader (ε α : Type) where
  run : List UInt8 → Except ε (α × List UInt8)
  frame : ∀ bs a rest, run bs = .ok (a, rest) →
    ∃ used, bs = used ++ rest ∧ ∀ t, run (used ++ t) = .ok (a, t)

namespace ByteReader

variable {ε α β : Type} {p : ByteReader ε α} {f : α → ByteReader ε β} {bs bs' : List UInt8}
  {a : α} {b : β}

/-! ## The monad -/

instance : Monad (ByteReader ε) where
  pure a := ⟨fun bs => .ok (a, bs), fun bs a' rest h => by
    obtain ⟨rfl, rfl⟩ := Prod.mk.inj (Except.ok.inj h)
    exact ⟨[], rfl, fun _ => rfl⟩⟩
  bind p f := ⟨fun bs => (p.run bs).bind fun x => (f x.1).run x.2, fun bs b rest h => by
    cases hp : p.run bs with
    | error e =>
      rw [hp] at h
      cases h
    | ok x =>
      obtain ⟨a, mid⟩ := x
      rw [hp] at h
      obtain ⟨used, rfl, hused⟩ := p.frame bs a mid hp
      obtain ⟨used', rfl, hused'⟩ := (f a).frame mid b rest h
      refine ⟨used ++ used', (List.append_assoc ..).symm, fun t => ?_⟩
      rw [List.append_assoc, hused]
      exact hused' t⟩

@[simp] theorem run_pure : (pure a : ByteReader ε α).run bs = .ok (a, bs) := rfl

theorem run_bind : (p >>= f).run bs = (p.run bs).bind fun x => (f x.1).run x.2 := rfl

/-! ## What is read -/

/-- The reader takes exactly these bytes for the value. -/
def Reads (p : ByteReader ε α) (bs : List UInt8) (a : α) : Prop := ∀ t, p.run (bs ++ t) = .ok (a, t)

theorem Reads.pure : (pure a : ByteReader ε α).Reads [] a := fun _ => rfl

/-- Reading goes on behind what was read. -/
theorem Reads.run_bind {t : List UInt8} (hp : p.Reads bs a) :
    (p >>= f).run (bs ++ t) = (f a).run t := by
  rw [ByteReader.run_bind, hp t]
  rfl

theorem Reads.bind (hp : p.Reads bs a) (hf : (f a).Reads bs' b) :
    (p >>= f).Reads (bs ++ bs') b := fun t => by
  rw [List.append_assoc, hp.run_bind]
  exact hf t

/-- What is made of a value when it has been read takes no more bytes. -/
theorem Reads.map {g : α → β} (hp : p.Reads bs a) :
    (p >>= fun a => Pure.pure (g a)).Reads bs (g a) := fun _ => hp.run_bind

/-- What is cut short cannot be read. -/
theorem Reads.truncated (h : p.Reads bs a) (hpre : bs' <+: bs) (hne : bs' ≠ bs) :
    ∃ e, p.run bs' = .error e := by
  cases hrun : p.run bs' with
  | error e => exact ⟨e, rfl⟩
  | ok x =>
    -- else it would have left the bytes that are missing
    obtain ⟨a', rest⟩ := x
    obtain ⟨used, rfl, hused⟩ := p.frame bs' a' rest hrun
    obtain ⟨missing, rfl⟩ := hpre
    have hleft := (hused (rest ++ missing)).symm.trans
      ((congrArg p.run (List.append_assoc ..)).symm.trans
        ((congrArg p.run (List.append_nil _)).symm.trans (h [])))
    obtain ⟨-, hnil⟩ := Prod.mk.inj (Except.ok.inj hleft)
    rw [(List.append_eq_nil_iff.1 hnil).2, List.append_nil] at hne
    exact absurd rfl hne

/-! ## Bytes -/

/-- The next `n` bytes, or the failure `e` if there are fewer. -/
def take (e : ε) (n : ℕ) : ByteReader ε {l : List UInt8 // l.length = n} where
  run bs := if h : n ≤ bs.length then
      .ok (⟨bs.take n, List.length_take_of_le h⟩, bs.drop n)
    else .error e
  frame bs a rest h := by
    split at h
    · next hn =>
      obtain ⟨rfl, rfl⟩ := Prod.mk.inj (Except.ok.inj h)
      have hlength := List.length_take_of_le hn
      refine ⟨bs.take n, (List.take_append_drop ..).symm, fun t => ?_⟩
      have hn' : n ≤ (bs.take n ++ t).length := by
        rw [List.length_append, hlength]
        exact Nat.le_add_right ..
      simp only [dif_pos hn', List.take_left' hlength, List.drop_left' hlength]
    · cases h

theorem reads_take {e : ε} {l : List UInt8} {n : ℕ} (h : l.length = n) :
    (take e n).Reads l ⟨l, h⟩ := fun t => by
  have hn : n ≤ (l ++ t).length := by
    rw [List.length_append, h]
    exact Nat.le_add_right ..
  simp only [take, dif_pos hn, List.take_left' h, List.drop_left' h]

/-- `n` values, one after the other. -/
def times (p : ByteReader ε α) : (n : ℕ) → ByteReader ε {l : List α // l.length = n}
  | 0 => pure ⟨[], rfl⟩
  | n + 1 => do
    let a ← p
    let l ← times p n
    pure ⟨a :: l.1, congrArg (· + 1) l.2⟩

/-- If the reader takes each value for the one that it stands for, it takes all of them. -/
theorem reads_times_of_forall₂ {R : β → α → Prop} {write : β → List UInt8}
    (hp : ∀ b a, R b a → p.Reads (write b) a) :
    ∀ {l : List β} {l' : List α} {n : ℕ}, List.Forall₂ R l l' → (h : l'.length = n) →
      (p.times n).Reads (l.flatMap write) ⟨l', h⟩
  | [], [], 0, _, _ => .pure
  | b :: l, a :: l', n + 1, .cons hba hl, h => by
    have hrest := reads_times_of_forall₂ hp hl (Nat.succ.inj h)
    exact (hp b a hba).bind hrest.map

/-- If every value is read from what it is written as, so are all of them. -/
theorem reads_times {write : α → List UInt8} (hp : ∀ a, p.Reads (write a) a) {l : List α} {n : ℕ}
    (h : l.length = n) : (p.times n).Reads (l.flatMap write) ⟨l, h⟩ :=
  reads_times_of_forall₂ (R := fun b a => b = a) (fun _ a h => h ▸ hp a)
    (List.forall₂_same.2 fun _ _ => rfl) h

/-! ## Failure -/

/-- The reader that fails. -/
def fail (e : ε) : ByteReader ε α where
  run _ := .error e
  frame _ _ _ h := nomatch h

end ByteReader

/-! ## Numbers -/

/-- The `k` lowest bytes of a number, the lowest first. -/
def leBytes : (k n : ℕ) → List UInt8
  | 0, _ => []
  | k + 1, n => UInt8.ofNat n :: leBytes k (n / 256)

/-- The number with the given bytes, the lowest first. -/
def leNat : List UInt8 → ℕ
  | [] => 0
  | b :: bs => b.toNat + 256 * leNat bs

@[simp] theorem length_leBytes (k n : ℕ) : (leBytes k n).length = k := by
  induction k generalizing n with
  | zero => rfl
  | succ k ih => rw [leBytes, List.length_cons, ih]

theorem leNat_leBytes {k n : ℕ} (h : n < 256 ^ k) : leNat (leBytes k n) = n := by
  induction k generalizing n with
  | zero => exact (Nat.lt_one_iff.1 h).symm
  | succ k ih =>
    have hdiv : n / 256 < 256 ^ k := by
      rw [Nat.div_lt_iff_lt_mul (by decide), ← Nat.pow_succ]
      exact h
    rw [leBytes, leNat, ih hdiv, UInt8.toNat_ofNat']
    exact Nat.mod_add_div n 256

end StateSpectre
