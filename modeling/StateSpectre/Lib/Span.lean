import Mathlib.Logic.Basic
import Mathlib.Order.Basic

/-!
# Runs of consecutive indices

A table indexed by numbers is a function on `ℕ`; a *run* is its indices
`b, …, b + n - 1`. An operation on a run changes the function there and nowhere
else (`onRun`), which is all that is needed of it: the two rewriting rules
`onRun_of_mem` and `onRun_of_not_mem`.
-/

namespace StateSpectre

variable {α : Type*} {b n b' n' i : ℕ}

/-- The index `i` is in the run of `n` indices starting at `b`. -/
def InRun (b n i : ℕ) : Prop := b ≤ i ∧ i < b + n

instance : Decidable (InRun b n i) := inferInstanceAs (Decidable (_ ∧ _))

theorem inRun_iff : InRun b n i ↔ ∃ k < n, i = b + k := by
  constructor
  · rintro ⟨h₁, h₂⟩
    exact ⟨i - b, by omega, by omega⟩
  · rintro ⟨k, hk, rfl⟩
    exact ⟨by omega, by omega⟩

theorem inRun_add {k : ℕ} : InRun b n (b + k) ↔ k < n := by
  simp only [InRun]
  omega

@[simp] theorem not_inRun_zero : ¬InRun b 0 i := by
  simp only [InRun]
  omega

/-- What holds along a run can be checked index by index. -/
instance {p : ℕ → Prop} [DecidablePred p] : Decidable (∀ i, InRun b n i → p i) :=
  decidable_of_iff (∀ k < n, p (b + k))
    ⟨fun h i hi => by
      obtain ⟨k, hk, rfl⟩ := inRun_iff.1 hi
      exact h k hk, fun h k hk => h _ (inRun_add.2 hk)⟩

/-- Two runs have an index in common. -/
def Meet (b n b' n' : ℕ) : Prop := ∃ i, InRun b n i ∧ InRun b' n' i

theorem meet_iff : Meet b n b' n' ↔ 0 < n ∧ 0 < n' ∧ b < b' + n' ∧ b' < b + n := by
  simp only [Meet, InRun]
  constructor
  · rintro ⟨i, h⟩
    omega
  · intro h
    exact ⟨max b b', by omega⟩

instance : Decidable (Meet b n b' n') := decidable_of_iff _ meet_iff.symm

theorem Meet.symm (h : Meet b n b' n') : Meet b' n' b n :=
  let ⟨i, h₁, h₂⟩ := h
  ⟨i, h₂, h₁⟩

/-- Changing a function on a run: at `b + k` by `f k`. -/
def onRun (b n : ℕ) (f : ℕ → α → α) (g : ℕ → α) (i : ℕ) : α :=
  if InRun b n i then f (i - b) (g i) else g i

theorem onRun_of_mem {f : ℕ → α → α} {g : ℕ → α} (h : InRun b n i) :
    onRun b n f g i = f (i - b) (g i) := if_pos h

theorem onRun_of_not_mem {f : ℕ → α → α} {g : ℕ → α} (h : ¬InRun b n i) :
    onRun b n f g i = g i := if_neg h

/-- The values of a function along a run. -/
def readRun (g : ℕ → α) (b n : ℕ) : List α := (List.range n).map fun k => g (b + k)

theorem readRun_congr {g g' : ℕ → α} (h : ∀ i, InRun b n i → g i = g' i) :
    readRun g b n = readRun g' b n :=
  List.map_congr_left fun _ hk => h _ (inRun_add.2 (List.mem_range.1 hk))

@[simp] theorem length_readRun (g : ℕ → α) : (readRun g b n).length = n := by
  simp [readRun]

theorem readRun_add (g : ℕ → α) (m : ℕ) :
    readRun g b (n + m) = readRun g b n ++ readRun g (b + n) m := by
  simp only [readRun, List.range_add, List.map_append, List.map_map, Nat.add_assoc]
  rfl

/-- Writing the values `l` along a run, as far as they go. -/
def writeRun (b n : ℕ) (l : List α) (g : ℕ → α) : ℕ → α :=
  onRun b n (fun k a => l.getD k a) g

/-- A run written with as many values as it has indices reads back as them. -/
theorem readRun_writeRun {l : List α} {g : ℕ → α} (hl : l.length = n) :
    readRun (writeRun b n l g) b n = l := by
  refine List.ext_getElem (by simp [hl]) fun k hk hk' => ?_
  have hkn : k < n := by simpa using hk
  simp [readRun, writeRun, onRun_of_mem (inRun_add.2 hkn), hk']

/-- Writing a run leaves a function as it is if the values are in place. -/
theorem writeRun_eq_self_iff {l : List α} {g : ℕ → α} :
    writeRun b n l g = g ↔ ∀ k a, k < n → l[k]? = some a → g (b + k) = a := by
  constructor
  · intro h k a hk ha
    have hrun := congrFun h (b + k)
    rw [writeRun, onRun_of_mem (inRun_add.2 hk), Nat.add_sub_cancel_left, List.getD, ha] at hrun
    exact hrun.symm
  · intro h
    funext i
    by_cases hi : InRun b n i
    · obtain ⟨k, hk, rfl⟩ := inRun_iff.1 hi
      rw [writeRun, onRun_of_mem hi, Nat.add_sub_cancel_left, List.getD]
      cases ha : l[k]? with
      | none => rfl
      | some a => exact (h k a hk ha).symm
    · exact onRun_of_not_mem hi

end StateSpectre
