import StateSpectre.Lib.Prog
import StateSpectre.RestoreWait
import Mathlib.Data.List.FinRange

/-!
# The completion ring in memory

A completion ring is shared by one producer, the rank, and one consumer, the daemon, which use no
lock. Two counters run freely in 64 bits: `tail` is moved by the producer when it has written an
entry, and `head` by the consumer when it has read one. The slot of an index is given by its low
bits, as the capacity is a power of two. Each of the two reads the counter of the other before it
touches the entries, and what it has read may be out of date by then.

Here `ring_push` and `ring_pop` are programs that load and store words, an entry being some number
of them, and the two threads are interleaved between any two of their loads and stores. The ring is
a queue in every interleaving (`ring_fifo`): the discipline of the threads says that the producer
writes to slots with no entry in them, and publishes entries that are written; the invariant says
that the entries between the counters are in their slots.

The daemon's ring of completions, a list with the number of entries read from it, is what this
memory shows (`RingMemory.Shows`), in every interleaving (`ring_refines`).
-/

namespace StateSpectre

variable {n : ℕ} {W : Type} {tail : UInt64} {head : UInt64}

/-! ## Memory -/

/-- The counters and the entries of a ring, entries being of `n` words. What was pushed and popped
    so far is kept for the sake of the proofs, and how much was popped when the producer read the
    counter of the consumer. -/
structure RingMemory (n : ℕ) (W : Type) where
  head : UInt64
  tail : UInt64
  entries : ℕ → Fin n → W
  pushed : List (Fin n → W) := []
  popped : List (Fin n → W) := []
  seen : ℕ := 0

/-- The two that share a ring. -/
inductive RingSide
  | producer
  | consumer
  deriving DecidableEq, Repr

/-- Loads and stores. Moving a counter says which entry is pushed or popped. -/
inductive RingOp (n : ℕ) (W : Type)
  | loadTail
  | loadHead
  | storeWord (slot : ℕ) (i : Fin n) (w : W)
  | loadWord (slot : ℕ) (i : Fin n)
  | storeTail (tail : UInt64) (e : Fin n → W)
  | storeHead (head : UInt64) (e : Fin n → W)

namespace RingOp

/-- What is loaded. -/
def Answer : RingOp n W → Type
  | loadTail | loadHead => UInt64
  | loadWord _ _ => W
  | storeWord _ _ _ | storeTail _ _ | storeHead _ _ => Unit

/-- What a load or a store does. -/
def run (side : RingSide) : (o : RingOp n W) → RingMemory n W → o.Answer × RingMemory n W
  | loadTail, s => (s.tail, s)
  | loadHead, s =>
    match side with
    | .producer => (s.head, { s with seen := s.popped.length })
    | .consumer => (s.head, s)
  | storeWord slot i w, s =>
    ((), { s with
      entries := Function.update s.entries slot (Function.update (s.entries slot) i w) })
  | loadWord slot i, s => (s.entries slot i, s)
  | storeTail tail e, s => ((), { s with tail := tail, pushed := s.pushed ++ [e] })
  | storeHead head e, s => ((), { s with head := head, popped := s.popped ++ [e] })

/-- The same as a relation. -/
def Does (side : RingSide) (o : RingOp n W) (s : RingMemory n W) (a : o.Answer)
    (s' : RingMemory n W) : Prop := o.run side s = (a, s')

end RingOp

/-! ## Programs -/

/-- Programs that load and store. -/
abbrev RingProg (n : ℕ) (W : Type) : Type → Type := Prog (RingOp n W) RingOp.Answer

namespace RingProg

abbrev loadTail : RingProg n W UInt64 := .perform RingOp.loadTail

abbrev loadHead : RingProg n W UInt64 := .perform RingOp.loadHead

abbrev storeWord (slot : ℕ) (i : Fin n) (w : W) : RingProg n W Unit :=
  .perform (RingOp.storeWord slot i w)

abbrev loadWord (slot : ℕ) (i : Fin n) : RingProg n W W :=
  .perform (RingOp.loadWord (W := W) slot i)

abbrev storeTail (tail : UInt64) (e : Fin n → W) : RingProg n W Unit :=
  .perform (RingOp.storeTail tail e)

abbrev storeHead (head : UInt64) (e : Fin n → W) : RingProg n W Unit :=
  .perform (RingOp.storeHead head e)

end RingProg

open RingProg Discipline

def ringSlot (capacity : UInt32) (index : UInt64) : ℕ := (index &&& (capacity - 1).toUInt64).toNat

/-- `ents[slot] = e`, word by word. -/
def storeEntry (slot : ℕ) (e : Fin n → W) : List (Fin n) → RingProg n W Unit
  | [] => return ()
  | i :: is => do
    storeWord slot i (e i)
    storeEntry slot e is

/-- `*out = ents[slot]`, word by word. -/
def loadEntry (slot : ℕ) : List (Fin n) → (Fin n → W) → RingProg n W (Fin n → W)
  | [], out => return out
  | i :: is, out => do
    let w ← loadWord slot i
    loadEntry slot is (Function.update out i w)

def ringPush (capacity : UInt32) (e : Fin n → W) : RingProg n W Bool := do
  let tail ← loadTail
  let head ← loadHead
  if capacity.toUInt64 ≤ tail - head then return false
  else
    storeEntry (ringSlot capacity tail) e (List.finRange n)
    storeTail (tail + 1) e
    return true

/-- `ring_pop`: the entry that is copied to `out`, unless the ring is empty. -/
def ringPop (capacity : UInt32) (out : Fin n → W) : RingProg n W (Option (Fin n → W)) := do
  let head ← loadHead
  let tail ← loadTail
  if head = tail then return none
  else
    let e ← loadEntry (ringSlot capacity head) (List.finRange n) out
    storeHead (head + 1) e
    return some e

/-- What the last call of a thread has returned. -/
inductive RingResult (n : ℕ) (W : Type)
  | idle
  | pushed (e : Fin n → W) (ok : Bool)
  | popped (out : Option (Fin n → W))

/-- The calls of the two threads: the producer pushes any entries, and the consumer pops. -/
inductive RingCall (capacity : UInt32) : RingSide → RingProg n W (RingResult n W) → Prop
  | push (e : Fin n → W) : RingCall capacity .producer do
      let ok ← ringPush capacity e
      return .pushed e ok
  | pop (out : Fin n → W) : RingCall capacity .consumer do
      let out ← ringPop capacity out
      return .popped out

/-- The ring and its two threads. -/
abbrev RingPool (n : ℕ) (W : Type) :=
  Pool RingSide (RingMemory n W) (RingOp n W) RingOp.Answer (RingResult n W)

/-- An empty ring, whose counters and entries have any values. -/
def emptyRing (start : UInt64) (entries : ℕ → Fin n → W) : RingPool n W where
  world := { head := start, tail := start, entries := entries }
  threads _ := .ret .idle

/-! ## Slots -/

/-- The value of a counter that started at `start` and was moved `i` times. -/
def ringIndex (start : UInt64) (i : ℕ) : UInt64 := start + UInt64.ofNat i

variable {capacity : UInt32} {start : UInt64} {i j k : ℕ}

theorem toNat_ringIndex : (ringIndex start i).toNat = (start.toNat + i) % 2 ^ 64 := by
  rw [ringIndex, UInt64.toNat_add, UInt64.toNat_ofNat', Nat.add_mod_mod]

theorem ringIndex_succ : ringIndex start i + 1 = ringIndex start (i + 1) := by
  rw [← UInt64.toNat_inj, UInt64.toNat_add, toNat_ringIndex, toNat_ringIndex, UInt64.toNat_one]
  omega

/-- The distance of two counters that are not too far from each other. -/
theorem toNat_ringIndex_sub (hle : j ≤ i) (hlt : i - j < 2 ^ 64) :
    (ringIndex start i - ringIndex start j).toNat = i - j := by
  rw [UInt64.toNat_sub, toNat_ringIndex, toNat_ringIndex]
  omega

/-- The slot of an index is its remainder, also when the counter has wrapped. -/
theorem ringSlot_ringIndex (hcap : capacity.toNat = 2 ^ k) :
    ringSlot capacity (ringIndex start i) = (start.toNat + i) % capacity.toNat := by
  have hk : k ≤ 64 := by
    by_contra hk
    have hlt := capacity.toNat_lt
    have hle : 2 ^ 64 ≤ 2 ^ k := Nat.pow_le_pow_right Nat.zero_lt_two (by omega)
    omega
  have hpos : 0 < 2 ^ k := Nat.two_pow_pos k
  have hmask : (capacity - 1).toNat = 2 ^ k - 1 := by
    rw [UInt32.toNat_sub_of_le _ _ (UInt32.le_iff_toNat_le.2 (by rw [hcap]; exact hpos)), hcap]
    rfl
  rw [ringSlot, UInt64.toNat_and, UInt32.toNat_toUInt64, hmask, Nat.and_two_pow_sub_one_eq_mod,
    toNat_ringIndex, hcap, Nat.mod_mod_of_dvd _ (Nat.pow_dvd_pow 2 hk)]

/-- Entries that are less than a round apart have different slots. -/
theorem ringSlot_ne (hcap : capacity.toNat = 2 ^ k) (hlt : j < i) (hnear : i < j + capacity.toNat) :
    ringSlot capacity (ringIndex start j) ≠ ringSlot capacity (ringIndex start i) := by
  rw [ringSlot_ringIndex hcap, ringSlot_ringIndex hcap]
  intro heq
  have hzero := Nat.sub_mod_eq_zero_of_mod_eq heq.symm
  have hle := Nat.le_of_dvd (by omega) (Nat.dvd_of_mod_eq_zero hzero)
  omega

/-! ## The discipline -/

/-- The entries that are pushed and not popped are in their slots, at most as many as there are
    slots, and the counters say where they begin and end. -/
structure RingInv (capacity : UInt32) (start : UInt64) (s : RingMemory n W) : Prop where
  head : s.head = ringIndex start s.popped.length
  tail : s.tail = ringIndex start s.pushed.length
  fifo : s.popped <+: s.pushed
  bounded : s.pushed.length ≤ s.popped.length + capacity.toNat
  entries : ∀ i e, s.popped.length ≤ i → s.pushed[i]? = some e →
    s.entries (ringSlot capacity (ringIndex start i)) = e

/-- No entry that is pushed and not popped is in the slot. -/
def RingMemory.Free (capacity : UInt32) (start : UInt64) (s : RingMemory n W) (slot : ℕ) : Prop :=
  ∀ i, s.popped.length ≤ i → i < s.pushed.length → ringSlot capacity (ringIndex start i) ≠ slot

/-- What one side relies on: nobody else moves its counter, or writes the entries if it is the
    producer. -/
def ringRely : RingSide → RingMemory n W → RingMemory n W → Prop
  | .producer, s, s' => s'.pushed = s.pushed ∧ s'.seen = s.seen ∧ s'.entries = s.entries ∧
      s.popped <+: s'.popped
  | .consumer, s, s' => s'.popped = s.popped ∧ s.pushed <+: s'.pushed

/-- What one side may do: the producer writes to free slots, and publishes the next entry when it
    is written; the consumer moves on when it has the next entry. -/
def ringAllowed (capacity : UInt32) (start : UInt64) :
    RingSide → RingOp n W → RingMemory n W → Prop
  | _, .loadTail, _ | _, .loadHead, _ | .consumer, .loadWord .., _ => True
  | .producer, .storeWord slot _ _, s => s.Free capacity start slot
  | .producer, .storeTail tail e, s => tail = ringIndex start (s.pushed.length + 1) ∧
      s.pushed.length < s.popped.length + capacity.toNat ∧
      s.entries (ringSlot capacity (ringIndex start s.pushed.length)) = e
  | .consumer, .storeHead head e, s => head = ringIndex start (s.popped.length + 1) ∧
      s.pushed[s.popped.length]? = some e
  | _, _, _ => False

namespace RingInv

variable {s : RingMemory n W} {e : Fin n → W}

theorem storeWord (h : RingInv capacity start s) {slot : ℕ} {i : Fin n} {w : W}
    (hfree : s.Free capacity start slot) : RingInv capacity start
      { s with
        entries := Function.update s.entries slot (Function.update (s.entries slot) i w) } where
  head := h.head
  tail := h.tail
  fifo := h.fifo
  bounded := h.bounded
  entries j e hj he := by
    have hlt := (List.getElem?_eq_some_iff.1 he).1
    exact (Function.update_of_ne (hfree j hj hlt) ..).trans (h.entries j e hj he)

theorem storeTail (h : RingInv capacity start s)
    (hroom : s.pushed.length < s.popped.length + capacity.toNat)
    (he : s.entries (ringSlot capacity (ringIndex start s.pushed.length)) = e) :
    RingInv capacity start
      { s with tail := ringIndex start (s.pushed.length + 1), pushed := s.pushed ++ [e] } where
  head := h.head
  tail := by rw [List.length_append, List.length_singleton]
  fifo := h.fifo.trans (List.prefix_append ..)
  bounded := by
    rw [List.length_append, List.length_singleton]
    exact hroom
  entries j e' hj he' := by
    by_cases hlt : j < s.pushed.length
    · rw [List.getElem?_append_left hlt] at he'
      exact h.entries j e' hj he'
    · have hlast : j = s.pushed.length := by
        have := (List.getElem?_eq_some_iff.1 he').1
        rw [List.length_append, List.length_singleton] at this
        omega
      subst hlast
      rw [List.getElem?_concat_length] at he'
      exact he.trans (Option.some.inj he')

theorem storeHead (h : RingInv capacity start s) (he : s.pushed[s.popped.length]? = some e) :
    RingInv capacity start
      { s with head := ringIndex start (s.popped.length + 1), popped := s.popped ++ [e] } where
  head := by rw [List.length_append, List.length_singleton]
  tail := h.tail
  fifo := by
    obtain ⟨rest, hrest⟩ := h.fifo
    rw [← hrest, List.getElem?_append_right le_rfl, Nat.sub_self] at he
    cases rest with
    | nil => cases he
    | cons e' rest =>
      cases he
      exact ⟨rest, by rw [← hrest, List.append_assoc, List.singleton_append]⟩
  bounded := by
    have hbounded := h.bounded
    dsimp only
    rw [List.length_append, List.length_singleton]
    omega
  entries j e' hj he' := by
    rw [List.length_append, List.length_singleton] at hj
    exact h.entries j e' (by omega) he'

end RingInv

/-- How the two sides use a ring. -/
def ringDiscipline (capacity : UInt32) (start : UInt64) :
    Discipline RingSide (RingMemory n W) (RingOp n W) RingOp.Answer where
  does := RingOp.Does
  inv := RingInv capacity start
  rely := ringRely
  allowed := ringAllowed capacity start
  rely_refl
    | .producer, _ => ⟨rfl, rfl, rfl, List.prefix_refl _⟩
    | .consumer, _ => ⟨rfl, List.prefix_refl _⟩
  rely_trans
    | .producer, _, _, _, ⟨h₁, h₂, h₃, h₄⟩, ⟨h₁', h₂', h₃', h₄'⟩ =>
      ⟨h₁'.trans h₁, h₂'.trans h₂, h₃'.trans h₃, h₄.trans h₄'⟩
    | .consumer, _, _, _, ⟨h₁, h₂⟩, ⟨h₁', h₂'⟩ => ⟨h₁'.trans h₁, h₂.trans h₂'⟩
  keeps {side o s a s'} hinv hallowed hdoes := by
    cases side with
    | producer =>
      have hothers (h : ringRely .consumer s s') : ∀ u ≠ .producer, ringRely u s s'
        | .producer, hu => absurd rfl hu
        | .consumer, _ => h
      cases o with
      | loadTail =>
        cases hdoes
        exact ⟨hinv, hothers ⟨rfl, List.prefix_refl _⟩⟩
      | loadHead =>
        cases hdoes
        exact ⟨⟨hinv.head, hinv.tail, hinv.fifo, hinv.bounded, hinv.entries⟩,
          hothers ⟨rfl, List.prefix_refl _⟩⟩
      | storeWord slot i w =>
        cases hdoes
        exact ⟨hinv.storeWord hallowed, hothers ⟨rfl, List.prefix_refl _⟩⟩
      | storeTail tail e =>
        cases hdoes
        obtain ⟨rfl, hroom, he⟩ := hallowed
        exact ⟨hinv.storeTail hroom he, hothers ⟨rfl, List.prefix_append ..⟩⟩
      | loadWord | storeHead => exact hallowed.elim
    | consumer =>
      have hothers (h : ringRely .producer s s') : ∀ u ≠ .consumer, ringRely u s s'
        | .producer, _ => h
        | .consumer, hu => absurd rfl hu
      cases o with
      | loadTail | loadHead | loadWord =>
        cases hdoes
        exact ⟨hinv, hothers ⟨rfl, rfl, rfl, List.prefix_refl _⟩⟩
      | storeHead head e =>
        cases hdoes
        obtain ⟨rfl, he⟩ := hallowed
        exact ⟨hinv.storeHead he, hothers ⟨rfl, rfl, rfl, List.prefix_append ..⟩⟩
      | storeWord | storeTail => exact hallowed.elim

/-! ## Pushing -/

section

variable {s : RingMemory n W} {e : Fin n → W}

/-- The producer is about to write the next entry: there is room for it, and there will be. -/
def RingMemory.HasRoom (capacity : UInt32) (start tail : UInt64) (s : RingMemory n W) : Prop :=
  tail = ringIndex start s.pushed.length ∧ s.pushed.length < s.popped.length + capacity.toNat

theorem RingMemory.HasRoom.free (hcap : capacity.toNat = 2 ^ k)
    (h : s.HasRoom capacity start tail) : s.Free capacity start (ringSlot capacity tail) := by
  obtain ⟨rfl, hroom⟩ := h
  intro i hle hlt
  exact ringSlot_ne hcap hlt (by omega)

theorem stable_hasRoom (entries : (ℕ → Fin n → W) → Prop) :
    (ringDiscipline capacity start).Stable .producer fun s : RingMemory n W =>
      s.HasRoom capacity start tail ∧ entries s.entries := by
  rintro s s' - ⟨hpushed, -, hentries, hpopped⟩ ⟨⟨htail, hroom⟩, he⟩
  have hle := hpopped.length_le
  rw [RingMemory.HasRoom, hpushed, hentries]
  exact ⟨⟨htail, by omega⟩, he⟩

/-- The words of an entry are written to its slot. -/
theorem wp_storeEntry (hcap : capacity.toNat = 2 ^ k) (is : List (Fin n))
    (hroom : s.HasRoom capacity start tail)
    (he : ∀ i ∉ is, s.entries (ringSlot capacity tail) i = e i) :
    (ringDiscipline capacity start).wp .producer (storeEntry (ringSlot capacity tail) e is)
      (fun _ s' => s'.HasRoom capacity start tail ∧ s'.entries (ringSlot capacity tail) = e) s := by
  induction is generalizing s with
  | nil =>
    refine wp_ret (stable_hasRoom fun entries => entries _ = e) ⟨hroom, ?_⟩
    funext i
    exact he i List.not_mem_nil
  | cons i is ih =>
    refine wp_call (stable_hasRoom fun entries => ∀ j ∉ i :: is, entries _ j = e j)
      ⟨hroom, he⟩ fun s' _ h => ?_
    refine ⟨h.1.free hcap, ⟨_, _, rfl⟩, fun a s'' hdoes _ => ?_⟩
    cases hdoes
    refine ih h.1 fun j hj => ?_
    dsimp only
    rw [Function.update_self]
    by_cases hji : j = i
    · rw [hji, Function.update_self]
    · rw [Function.update_of_ne hji]
      exact h.2 j (List.not_mem_cons_of_ne_of_not_mem hji hj)

/-- What a push leaves: the entry is the last one that was pushed, or the ring was full when the
    producer read the counter of the consumer. -/
def Pushed (capacity : UInt32) (e : Fin n → W) (ok : Bool) (s : RingMemory n W) : Prop :=
  if ok then s.pushed.getLast? = some e else s.pushed.length = s.seen + capacity.toNat

theorem stable_pushed (ok : Bool) :
    (ringDiscipline capacity start).Stable .producer (Pushed capacity e ok) := by
  rintro s s' - ⟨hpushed, hseen, -, -⟩ h
  rwa [Pushed, hpushed, hseen]

theorem wp_ringPush (hcap : capacity.toNat = 2 ^ k) :
    (ringDiscipline capacity start).wp .producer (ringPush capacity e) (Pushed capacity e) s := by
  -- The producer reads its own counter, which nobody else moves.
  refine wp_call (P := fun _ => True) (fun _ _ _ _ _ => trivial) trivial
    fun s' hinv' _ => ⟨trivial, ⟨_, _, rfl⟩, fun tail s'' hdoes _ => ?_⟩
  cases hdoes
  have htail := hinv'.tail
  refine wp_call (P := fun s₁ => s'.tail = ringIndex start s₁.pushed.length) ?_ htail
    fun s₁ hinv₁ htail₁ => ⟨trivial, ⟨_, _, rfl⟩, fun head s₂ hdoes hinv₂ => ?_⟩
  · rintro s₁ s₂ - ⟨hpushed, -⟩ h
    rwa [hpushed]
  cases hdoes
  -- What it reads of the other one is out of date later on, but the consumer can only have popped
  -- more by then.
  have hle := hinv₁.fifo.length_le
  have hbounded := hinv₁.bounded
  have hlt := capacity.toNat_lt
  have hdistance : (s'.tail - s₁.head).toNat = s₁.pushed.length - s₁.popped.length := by
    rw [htail₁, hinv₁.head]
    exact toNat_ringIndex_sub hle (by omega)
  split
  · next hfull =>
    refine wp_ret (stable_pushed false) ?_
    rw [UInt64.le_iff_toNat_le, hdistance, UInt32.toNat_toUInt64] at hfull
    exact (show s₁.pushed.length = s₁.popped.length + capacity.toNat by omega)
  · next hfull =>
    rw [UInt64.le_iff_toNat_le, hdistance, UInt32.toNat_toUInt64] at hfull
    refine wp_bind hinv₂ (wp_mono (fun _ s₃ h hinv₃ => ?_)
      (wp_storeEntry hcap (List.finRange n) ⟨htail₁, ?_⟩
        fun i hi => absurd (List.mem_finRange i) hi))
    · refine wp_call (stable_hasRoom fun entries => entries _ = e) h fun s₄ _ h₄ => ?_
      obtain ⟨⟨htail₄, hroom⟩, he⟩ := h₄
      refine ⟨⟨?_, hroom, ?_⟩, ⟨_, _, rfl⟩, fun a s₅ hdoes _ => ?_⟩
      · rw [htail₄, ringIndex_succ]
      · rw [← htail₄]
        exact he
      · cases hdoes
        exact wp_ret (stable_pushed true) List.getLast?_concat
    · dsimp only
      omega

/-! ## Popping -/

/-- The consumer is at an entry: it is the next one to be popped. -/
def RingMemory.At (start head : UInt64) (e : Fin n → W) (s : RingMemory n W) : Prop :=
  head = ringIndex start s.popped.length ∧ s.pushed[s.popped.length]? = some e

theorem stable_at :
    (ringDiscipline capacity start).Stable .consumer (RingMemory.At start head e) := by
  rintro s s' - ⟨hpopped, more, hpushed⟩ ⟨hhead, hnext⟩
  have hlt := (List.getElem?_eq_some_iff.1 hnext).1
  rw [RingMemory.At, hpopped, ← hpushed, List.getElem?_append_left hlt]
  exact ⟨hhead, hnext⟩

theorem RingMemory.At.entries (h : s.At start head e) (hinv : RingInv capacity start s) :
    s.entries (ringSlot capacity head) = e := by
  obtain ⟨rfl, hnext⟩ := h
  exact hinv.entries _ e le_rfl hnext

/-- The words of the next entry are read from its slot. -/
theorem wp_loadEntry (is : List (Fin n)) {out : Fin n → W} (hat : s.At start head e)
    (hout : ∀ i ∉ is, out i = e i) :
    (ringDiscipline capacity start).wp .consumer (loadEntry (ringSlot capacity head) is out)
      (fun out' s' => s'.At start head e ∧ out' = e) s := by
  induction is generalizing s out with
  | nil =>
    have heq : out = e := by
      funext i
      exact hout i List.not_mem_nil
    refine wp_ret ?_ ⟨hat, heq⟩
    rintro s₁ s₂ hinv hrely ⟨hat₁, heq⟩
    exact ⟨stable_at hinv hrely hat₁, heq⟩
  | cons i is ih =>
    refine wp_call stable_at hat fun s₁ hinv₁ hat₁ =>
      ⟨trivial, ⟨_, _, rfl⟩, fun w s₂ hdoes _ => ?_⟩
    cases hdoes
    refine ih hat₁ fun j hj => ?_
    by_cases hji : j = i
    · rw [hji, Function.update_self, hat₁.entries hinv₁]
    · rw [Function.update_of_ne hji]
      exact hout j (List.not_mem_cons_of_ne_of_not_mem hji hj)

/-- What a pop leaves: the entry that it returns is the last one that was popped. -/
def Popped (out : Option (Fin n → W)) (s : RingMemory n W) : Prop :=
  ∀ e ∈ out, s.popped.getLast? = some e

theorem stable_popped (out : Option (Fin n → W)) :
    (ringDiscipline capacity start).Stable .consumer (Popped out) := by
  rintro s s' - ⟨hpopped, -⟩ h
  rwa [Popped, hpopped]

theorem wp_ringPop {out : Fin n → W} :
    (ringDiscipline capacity start).wp .consumer (ringPop capacity out) Popped s := by
  refine wp_call (P := fun _ => True) (fun _ _ _ _ _ => trivial) trivial
    fun s' hinv' _ => ⟨trivial, ⟨_, _, rfl⟩, fun head s'' hdoes _ => ?_⟩
  cases hdoes
  have hhead := hinv'.head
  refine wp_call (P := fun s₁ => s'.head = ringIndex start s₁.popped.length) ?_ hhead
    fun s₁ hinv₁ hhead₁ => ⟨trivial, ⟨_, _, rfl⟩, fun tail s₂ hdoes hinv₂ => ?_⟩
  · rintro s₁ s₂ - ⟨hpopped, -⟩ h
    rwa [hpopped]
  cases hdoes
  split
  · exact wp_ret (stable_popped none) nofun
  · next hne =>
    -- The counters differ, so that there is an entry.
    have hlt : s₁.popped.length < s₁.pushed.length := by
      refine lt_of_le_of_ne hinv₁.fifo.length_le fun heq => hne ?_
      rw [hhead₁, hinv₁.tail, heq]
    have hat : s₁.At start s'.head s₁.pushed[s₁.popped.length] :=
      ⟨hhead₁, List.getElem?_eq_getElem hlt⟩
    refine wp_bind hinv₂ (wp_mono (fun e' s₃ h hinv₃ => ?_)
      (wp_loadEntry (List.finRange n) hat fun i hi => absurd (List.mem_finRange i) hi))
    obtain ⟨hat₃, rfl⟩ := h
    refine wp_call stable_at hat₃ fun s₄ _ hat₄ => ?_
    obtain ⟨hhead₄, hnext⟩ := hat₄
    refine ⟨⟨?_, hnext⟩, ⟨_, _, rfl⟩, fun a s₅ hdoes _ => ?_⟩
    · rw [hhead₄, ringIndex_succ]
    · cases hdoes
      refine wp_ret (stable_popped _) fun e he => ?_
      cases he
      exact List.getLast?_concat

end

/-! ## Every interleaving -/

/-- What the last call of a thread leaves. -/
def RingResult.Holds (capacity : UInt32) : RingResult n W → RingMemory n W → Prop
  | .idle, _ => True
  | .pushed e ok, s => Pushed capacity e ok s
  | .popped out, s => Popped out s

theorem wp_ringCall (hcap : capacity.toNat = 2 ^ k) {side : RingSide}
    {prog : RingProg n W (RingResult n W)} {s : RingMemory n W}
    (hcall : RingCall capacity side prog) (hinv : RingInv capacity start s) :
    (ringDiscipline capacity start).wp side prog (RingResult.Holds capacity) s := by
  cases hcall with
  | push e =>
    refine wp_bind hinv (wp_mono (fun ok s' h _ => ?_) (wp_ringPush hcap))
    exact wp_ret (stable_pushed ok) h
  | pop out =>
    refine wp_bind hinv (wp_mono (fun out' s' h _ => ?_) wp_ringPop)
    exact wp_ret (stable_popped out') h

/-- The two threads keep to the discipline, however they are interleaved. -/
theorem ring_safe (hcap : capacity.toNat = 2 ^ k) {entries : ℕ → Fin n → W} {p : RingPool n W}
    (h : Pool.Turns RingOp.Does (RingCall capacity) (emptyRing start entries) p) :
    p.Safe (ringDiscipline capacity start) fun _ => RingResult.Holds capacity := by
  refine Pool.Safe.turns (fun side prog s hcall hinv => wp_ringCall hcap hcall hinv) ?_ h
  refine ⟨⟨?_, ?_, List.prefix_refl _, Nat.zero_le _, fun _ _ _ he => nomatch he⟩, fun side => ?_⟩
  · exact (UInt64.add_zero start).symm
  · exact (UInt64.add_zero start).symm
  · exact fun _ _ _ => trivial

/-- The ring is a queue, for every capacity that is a power of two, every value that the counters
    start from, and every interleaving of the loads and stores of the two threads. What was popped
    is the beginning of what was pushed, and at most `capacity` entries are pending. They are in
    their slots, and no word is stored to one of these slots. A call that has returned has pushed
    or popped its entry last. A push fails only if the ring was full, by the counter of the consumer
    that it read. -/
theorem ring_fifo (hcap : ∃ k, capacity.toNat = 2 ^ k) {entries : ℕ → Fin n → W}
    {p : RingPool n W}
    (h : Pool.Turns RingOp.Does (RingCall capacity) (emptyRing start entries) p) :
    p.world.popped <+: p.world.pushed ∧
    p.world.pushed.length ≤ p.world.popped.length + capacity.toNat ∧
    (∀ i e, p.world.popped.length ≤ i → p.world.pushed[i]? = some e →
      p.world.entries (ringSlot capacity (ringIndex start i)) = e) ∧
    (∀ side slot i w k, p.threads side = .call (.storeWord slot i w) k →
      p.world.Free capacity start slot) ∧
    (∀ side e, p.threads side = .ret (.pushed e true) → p.world.pushed.getLast? = some e) ∧
    (∀ side e, p.threads side = .ret (.popped (some e)) → p.world.popped.getLast? = some e) ∧
    ∀ side e, p.threads side = .ret (.pushed e false) →
      p.world.pushed.length = p.world.seen + capacity.toNat := by
  obtain ⟨k, hcap⟩ := hcap
  have hsafe := ring_safe hcap h
  refine ⟨hsafe.inv.fifo, hsafe.inv.bounded, hsafe.inv.entries, ?_, ?_, ?_, ?_⟩
  · intro side slot i w k hcall
    cases side with
    | producer => exact (hsafe.call hcall).1
    | consumer => exact (hsafe.call hcall).1.elim
  · exact fun side e hret => hsafe.ret hret
  · exact fun side e hret => hsafe.ret hret e rfl
  · exact fun side e hret => hsafe.ret hret

section Wrapped

variable {r : RingResult 1 W} {p : RingPool 1 W} (capacity)

/-- A push into a ring with room for an entry, with no other step in between. -/
theorem push_turns (hret : p.threads .producer = .ret r)
    (hroom : ¬capacity.toUInt64 ≤ p.world.tail - p.world.head) (e : Fin 1 → W) :
    ∃ p', Pool.Turns RingOp.Does (RingCall capacity) p p' ∧
      p'.threads = Function.update p.threads .producer (.ret (.pushed e true)) ∧
      p'.world = { p.world with
        seen := p.world.popped.length
        entries := p'.world.entries
        tail := p.world.tail + 1
        pushed := p.world.pushed ++ [e] } := by
  have h₁ : Pool.Turns RingOp.Does (RingCall capacity) p _ :=
    .single ⟨.producer, .inr (.begin hret (.push e))⟩
  have h₃ := (h₁.tail ⟨.producer, .inl (.call rfl rfl)⟩).tail ⟨.producer, .inl (.call rfl rfl)⟩
  have h₄ := h₃.tail ⟨.producer, .inl (.call (congrArg (Prog.bind · _) (if_neg hroom)) rfl)⟩
  refine ⟨_, h₄.tail ⟨.producer, .inl (.call rfl rfl)⟩, ?_, rfl⟩
  simp only [Function.update_idem]
  rfl

/-- A pop from a ring with an entry, with no other step in between. -/
theorem pop_turns (hret : p.threads .consumer = .ret r) (hne : p.world.head ≠ p.world.tail)
    (out : Fin 1 → W) :
    ∃ p' e, Pool.Turns RingOp.Does (RingCall capacity) p p' ∧
      p'.threads = Function.update p.threads .consumer (.ret (.popped (some e))) ∧
      p'.world = { p.world with
        head := p.world.head + 1
        popped := p.world.popped ++ [e] } := by
  have h₁ : Pool.Turns RingOp.Does (RingCall capacity) p _ :=
    .single ⟨.consumer, .inr (.begin hret (.pop out))⟩
  have h₃ := (h₁.tail ⟨.consumer, .inl (.call rfl rfl)⟩).tail ⟨.consumer, .inl (.call rfl rfl)⟩
  have h₄ := h₃.tail ⟨.consumer, .inl (.call (congrArg (Prog.bind · _) (if_neg hne)) rfl)⟩
  refine ⟨_, _, h₄.tail ⟨.consumer, .inl (.call rfl rfl)⟩, ?_, rfl⟩
  simp only [Function.update_idem]
  rfl

end Wrapped

/-- A counter that is about to wrap. -/
def lastIndex : UInt64 := 0xffffffffffffffff

/-- While the counters wrap, two entries are pushed, and one of them is popped. -/
theorem exists_wrapped :
    ∃ p : RingPool 1 ℕ,
      Pool.Turns RingOp.Does (RingCall 1024) (emptyRing lastIndex fun _ _ => 0) p ∧
      p.world.pushed = [fun _ => 5, fun _ => 6] ∧ p.world.popped.length = 1 := by
  have hroom : ¬(1024 : UInt32).toUInt64 ≤ lastIndex + 1 - (lastIndex + 1) := by decide
  have hne : lastIndex ≠ lastIndex + 1 := by decide
  obtain ⟨p₁, h₁, ht₁, hw₁⟩ := push_turns 1024 (p := emptyRing lastIndex fun _ _ => 0) rfl
    (by decide) fun _ => 5
  obtain ⟨p₂, e, h₂, ht₂, hw₂⟩ := pop_turns 1024 (p := p₁) (by rw [ht₁]; rfl)
    (by rw [hw₁]; exact hne) fun _ => 0
  obtain ⟨p₃, h₃, -, hw₃⟩ := push_turns 1024 (p := p₂) (by rw [ht₂, ht₁]; rfl)
    (by rw [hw₂, hw₁]; exact hroom) fun _ => 6
  refine ⟨p₃, (h₁.trans h₂).trans h₃, ?_, ?_⟩ <;> rw [hw₃, hw₂, hw₁] <;> rfl

/-- An entry is left in the ring after its counters have wrapped: in the first slot. -/
theorem ring_fifo_wrapped :
    ∃ p : RingPool 1 ℕ,
      Pool.Turns RingOp.Does (RingCall 1024) (emptyRing lastIndex fun _ _ => 0) p ∧
      (∃ k, (1024 : UInt32).toNat = 2 ^ k) ∧ p.world.popped <+: p.world.pushed ∧
      p.world.pushed.length = 2 ∧ p.world.popped.length = 1 ∧ p.world.entries 0 = fun _ => 6 := by
  obtain ⟨p, h, hpushed, hpopped⟩ := exists_wrapped
  obtain ⟨hfifo, -, hentries, -⟩ := ring_fifo ⟨10, rfl⟩ h
  have hslot : ringSlot 1024 (ringIndex lastIndex 1) = 0 := by decide
  refine ⟨p, h, ⟨10, rfl⟩, hfifo, by rw [hpushed]; rfl, hpopped, ?_⟩
  exact hslot ▸ hentries 1 _ hpopped.le (by rw [hpushed]; rfl)

/-! ## The ring of the daemon -/

section

variable {c : Config} {s : State} {side : RingSide} {decode : (Fin n → W) → CompletionEntry}
  {entries : ℕ → Fin n → W} {p p' : RingPool n W}

/-- The memory is that of a ring of the daemon that a session has, and whose entries are
    `decode`d. -/
structure RingMemory.Shows (decode : (Fin n → W) → CompletionEntry) (m : RingMemory n W) (s : State)
    (i : ℕ) : Prop where
  active : s.ringOwner i ≠ noIndex ∧ (s.rings i).rankEpoch ≠ 0
  head : (s.rings i).head = m.popped.length
  pending : (s.rings i).pending = (m.pushed.drop m.popped.length).map decode

/-- An entry is pushed into a ring of the daemon, or taken out. -/
def RingStep (c : Config) (i : ℕ) (s s' : State) : Prop :=
  (∃ e, pushRing c s i e = some s') ∨ ∃ e, popRing c s i = some (s', e)

/-- A load or a store leaves the ring of the daemon as it is, or it pushes an entry, or it takes
    one out, which the daemon does in one step. -/
theorem ring_step_shows (hcap : capacity.toNat = 2 ^ k)
    (h : Pool.Turns RingOp.Does (RingCall capacity) (emptyRing start entries) p)
    (hstep : Pool.Step RingOp.Does side p p') (hshows : p.world.Shows decode s i)
    (hi : i < c.ringMaxRanks) (hcapacity : c.ringCapacity = capacity.toNat) :
    ∃ s', Relation.ReflTransGen (RingStep c i) s s' ∧ p'.world.Shows decode s' i := by
  have hsafe := ring_safe hcap h
  have hle := hsafe.inv.fifo.length_le
  obtain ⟨hactive, hhead, hpending⟩ := hshows
  obtain ⟨hcall, hdoes⟩ := hstep
  have hallowed := (hsafe.call hcall).1
  rename_i o _ _ _
  cases o with
  | loadTail | loadWord | storeWord =>
    cases hdoes
    exact ⟨s, .refl, hactive, hhead, hpending⟩
  | loadHead =>
    cases side <;> cases hdoes <;> exact ⟨s, .refl, hactive, hhead, hpending⟩
  | storeTail tail e =>
    cases side with
    | consumer => exact hallowed.elim
    | producer =>
      cases hdoes
      obtain ⟨-, hroom, -⟩ := hallowed
      have hlength : (s.rings i).pending.length < c.ringCapacity := by
        rw [hpending, List.length_map, List.length_drop, hcapacity]
        omega
      refine ⟨_, .single (.inl ⟨decode e, if_pos ⟨hi, hlength⟩⟩), ?_, ?_, ?_⟩
      all_goals dsimp only; rw [Function.update_self]
      · exact hactive
      · exact hhead
      · rw [List.drop_append_of_le_length hle, List.map_append, hpending, List.map_singleton]
  | storeHead head e =>
    cases side with
    | producer => exact hallowed.elim
    | consumer =>
      cases hdoes
      obtain ⟨-, hnext⟩ := hallowed
      obtain ⟨hlt, rfl⟩ := List.getElem?_eq_some_iff.1 hnext
      rw [List.drop_eq_getElem_cons hlt, List.map_cons] at hpending
      refine ⟨_, .single (.inr ⟨_, by
        rw [popRing, hpending]
        exact if_pos ⟨hi, hactive⟩⟩), ?_, ?_, ?_⟩
      all_goals dsimp only; rw [Function.update_self]
      · exact hactive
      · rw [List.length_append, List.length_singleton, hhead]
      · rw [List.length_append, List.length_singleton]

/-- However the loads and stores of the rank and the daemon are interleaved, the memory is that of
    the ring after pushes and pops that are one step each. -/
theorem ring_refines (hcap : ∃ k, capacity.toNat = 2 ^ k) (hi : i < c.ringMaxRanks)
    (hcapacity : c.ringCapacity = capacity.toNat)
    (hs : (emptyRing start entries).world.Shows decode s i)
    (h : Pool.Turns RingOp.Does (RingCall capacity) (emptyRing start entries) p) :
    ∃ s', Relation.ReflTransGen (RingStep c i) s s' ∧ p.world.Shows decode s' i := by
  obtain ⟨k, hcap⟩ := hcap
  induction h with
  | refl => exact ⟨s, .refl, hs⟩
  | tail h hturn ih =>
    obtain ⟨s₁, hs₁, hshows⟩ := ih
    obtain ⟨side, hstep | ⟨hret, hstarts⟩⟩ := hturn
    · obtain ⟨s₂, hs₂, hshows₂⟩ := ring_step_shows hcap h hstep hshows hi hcapacity
      exact ⟨s₂, hs₁.trans hs₂, hshows₂⟩
    -- A call that begins has not touched the memory.
    · exact ⟨s₁, hs₁, hshows⟩

/-- The rank registers, and two entries are pushed into its ring, one of which is popped, while the
    counters wrap. -/
theorem ring_refines_wrapped :
    ∃ (s s' : State) (p : RingPool 1 ℕ), Reached oneRing s ∧
      p.world.pushed.length = 2 ∧ p.world.popped.length = 1 ∧
      Relation.ReflTransGen (RingStep oneRing 0) s s' ∧
      p.world.Shows (fun e => ⟨e 0, 1, 1, 0, .d2hComplete⟩) s' 0 := by
  obtain ⟨s, hs, hactive, hring⟩ := exists_reachable oneRing (fun _ _ => True)
    (p := fun s => (s.ringOwner 0 ≠ noIndex ∧ (s.rings 0).rankEpoch ≠ 0) ∧
      (s.rings 0).head = 0 ∧ (s.rings 0).pending = []) [registers] (by decide)
  obtain ⟨p, h, hpushed, hpopped⟩ := exists_wrapped
  obtain ⟨s', hrefines⟩ := ring_refines (c := oneRing) ⟨10, rfl⟩ (by decide) rfl
    ⟨hactive, hring.1, hring.2⟩ h
  exact ⟨s, s', p, hs, by rw [hpushed]; rfl, hpopped, hrefines⟩

end

end StateSpectre
