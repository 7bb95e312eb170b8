import Mathlib.Data.List.Basic

/-!
# Consecutive elements of a list

A position of a list *starts a run* of `n` elements with a property if it and the `n - 1`
positions after it have the property (`StartsRun`). A search for the first such position need not
look at every one: an element without the property rules out all the runs it would lie in, so
that the search goes on behind it (`not_startsRun_of_le`, `startsRun_drop`).
-/

namespace StateSpectre

variable {α : Type*} {p : α → Prop} {n : ℕ} {l : List α} {i k : ℕ} {a : α}

/-- The position `i` of the list starts `n` consecutive elements that meet `p`. -/
def StartsRun (p : α → Prop) (n : ℕ) (l : List α) (i : ℕ) : Prop :=
  i + n ≤ l.length ∧ ∀ j < n, ∀ a, l[i + j]? = some a → p a

/-- The list starts with a run if its first elements meet `p`. -/
theorem startsRun_zero : StartsRun p n l 0 ↔ n ≤ l.length ∧ ∀ a ∈ l.take n, p a := by
  simp only [StartsRun, Nat.zero_add, List.mem_iff_getElem?, List.getElem?_take]
  refine and_congr_right fun _ => ⟨?_, ?_⟩
  · rintro h a ⟨j, hj⟩
    split at hj
    · next hlt => exact h j hlt a hj
    · cases hj
  · intro h j hlt a ha
    exact h a ⟨j, by rw [if_pos hlt, ha]⟩

/-- The runs behind the first `k` elements are those of the list. -/
theorem startsRun_drop (hk : k ≤ l.length) :
    StartsRun p n (l.drop k) i ↔ StartsRun p n l (k + i) := by
  simp only [StartsRun, List.length_drop, List.getElem?_drop, Nat.add_assoc]
  exact and_congr_left fun _ => by omega

/-- No run starts at an element without the property, or shortly before it. -/
theorem not_startsRun_of_le (hk : l[k]? = some a) (ha : ¬p a) (hlt : k < n) (hi : i ≤ k) :
    ¬StartsRun p n l i := by
  rintro ⟨-, h⟩
  refine ha (h (k - i) (by omega) a ?_)
  rwa [Nat.add_sub_cancel' hi]

end StateSpectre
