import Mathlib.Algebra.GroupWithZero.Nat
import Mathlib.Algebra.BigOperators.Group.Finset.Basic
import StateSpectre.Lib.Table

/-!
# Sums over a table

The sum of a quantity over the records of a table (`Table.total`), and how it changes when a
record is added or removed. Tables with the same summand under every key have the same sum
(`Table.total_congr`), whatever their order and whatever records do not count.
-/

namespace StateSpectre

namespace Table

variable {K V : Type} [DecidableEq K] {t t' : Table K V} {k : K} {v : V} {f f' : K → V → ℕ}

/-- The sum of `f` over the records. -/
def total (t : Table K V) (f : K → V → ℕ) : ℕ :=
  ∑ k ∈ t.keys.toFinset, (t.lookup k).elim 0 (f k)

/-- The keys without a record do not count. -/
theorem total_eq_sum {S : Finset K} (h : t.keys.toFinset ⊆ S) :
    t.total f = ∑ k ∈ S, (t.lookup k).elim 0 (f k) := by
  refine Finset.sum_subset h fun k _ hk => ?_
  rw [List.mem_toFinset, ← AList.mem_keys, ← AList.lookup_eq_none] at hk
  rw [hk]
  rfl

/-- Tables with the same summand under every key have the same sum. -/
theorem total_congr (h : ∀ k, (t'.lookup k).elim 0 (f' k) = (t.lookup k).elim 0 (f k)) :
    t'.total f' = t.total f := by
  rw [total_eq_sum (S := t.keys.toFinset ∪ t'.keys.toFinset) Finset.subset_union_right,
    total_eq_sum (S := t.keys.toFinset ∪ t'.keys.toFinset) Finset.subset_union_left]
  exact Finset.sum_congr rfl fun k _ => h k

theorem total_insert (h : t.lookup k = none) : total (t.insert k v) f = t.total f + f k v := by
  have hk : k ∉ t.keys.toFinset := by
    rwa [List.mem_toFinset, ← AList.mem_keys, ← AList.lookup_eq_none]
  have hkeys : AList.keys (t.insert k v) ⊆ k :: t.keys := by
    rw [AList.keys_insert]
    exact List.cons_subset_cons _ List.erase_subset
  have hsub : (AList.keys (t.insert k v)).toFinset ⊆ insert k t.keys.toFinset := by
    intro k' hk'
    rw [← List.toFinset_cons]
    exact List.mem_toFinset.2 (hkeys (List.mem_toFinset.1 hk'))
  rw [total_eq_sum hsub, Finset.sum_insert hk, AList.lookup_insert, Nat.add_comm]
  refine congrArg (· + f k v) (Finset.sum_congr rfl fun k' hk' => ?_)
  have hne : k' ≠ k := ne_of_mem_of_not_mem hk' hk
  rw [AList.lookup_insert_ne hne]

theorem total_erase (h : t.lookup k = some v) : total (t.erase k) f + f k v = t.total f := by
  rw [← total_insert (AList.lookup_erase k t)]
  refine total_congr fun k' => ?_
  rw [lookup_insert, lookup_erase]
  by_cases hk : k' = k
  · rw [if_pos hk, hk, h]
  · rw [if_neg hk, if_neg hk]

theorem Linked.total_eq {R : V → V → Prop} (h : Linked R t t')
    (hf : ∀ k v v', R v v' → f' k v' = f k v) : t'.total f' = t.total f := by
  refine total_congr fun k => ?_
  have hk := h k
  generalize t.lookup k = r, t'.lookup k = r' at hk
  cases hk with
  | none => rfl
  | some hr => exact hf k _ _ hr

end Table

end StateSpectre
