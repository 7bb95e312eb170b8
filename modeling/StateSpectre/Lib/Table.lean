import Mathlib.Data.Finset.Card
import Mathlib.Data.List.AList

/-!
# Tables

Finite tables with a key in at most one row, as association lists
(`AList`): the order of the rows is the order in which the table is iterated,
and everything else is said by `lookup`. This file adds to `AList` what a table
of records needs:

* the lookups after an insertion or an erasure, as one rewriting rule each;
* `Table.modify`, changing the record under a key, if there is one;
* `Table.eraseAll`, erasing a list of keys;
* `Table.Linked`, tables with related records under the same keys;
* `Table.keysWhere`, the keys of some of the records;
* `Table.Indexes`, a second table that leads to the records;
* `Table.rows`, the rows in order, and the orders a table can be put in.
-/

namespace StateSpectre

/-- A finite table of records of `V` under keys of `K`. -/
abbrev Table (K V : Type) := AList fun _ : K => V

namespace Table

variable {K V : Type} [DecidableEq K] {t t' : Table K V} {k k' : K} {v : V} {p : V → Bool}

/-- The lookups after an insertion. -/
theorem lookup_insert (t : Table K V) (k k' : K) (v : V) :
    (t.insert k v).lookup k' = if k' = k then some v else t.lookup k' := by
  split
  · next h => rw [h, AList.lookup_insert]
  · next h => exact AList.lookup_insert_ne h

theorem lookup_insert_eq_some {v' : V} :
    (t.insert k v).lookup k' = some v' ↔ k' = k ∧ v' = v ∨ k' ≠ k ∧ t.lookup k' = some v' := by
  rw [lookup_insert]
  split <;> simp_all [eq_comm]

theorem isSome_lookup_insert (h : (t.lookup k').isSome) : ((t.insert k v).lookup k').isSome := by
  rw [lookup_insert]
  split
  · rfl
  · exact h

theorem lookup_erase (t : Table K V) (k k' : K) :
    (t.erase k).lookup k' = if k' = k then none else t.lookup k' := by
  split
  · next h => rw [h, AList.lookup_erase]
  · next h => exact AList.lookup_erase_ne h

theorem lookup_erase_eq_some :
    (t.erase k).lookup k' = some v ↔ k' ≠ k ∧ t.lookup k' = some v := by
  rw [lookup_erase]
  split <;> simp_all

/-- What is left of a table after an erasure was there before. -/
theorem lookup_of_lookup_erase (h : (t.erase k).lookup k' = some v) : t.lookup k' = some v :=
  (lookup_erase_eq_some.1 h).2

/-! ## Changing a record -/

/-- Changing the record under the key `k` by `f`, if there is one. -/
def modify (t : Table K V) (k : K) (f : V → V) : Table K V :=
  match t.lookup k with
  | some v => t.insert k (f v)
  | none => t

theorem lookup_modify (t : Table K V) (k k' : K) (f : V → V) :
    (t.modify k f).lookup k' = if k' = k then (t.lookup k).map f else t.lookup k' := by
  unfold modify
  split
  · next v hv => rw [lookup_insert, hv]; rfl
  · next hv =>
    split
    · next h => rw [h, hv]; rfl
    · rfl

theorem lookup_modify_eq_some {f : V → V} :
    (t.modify k f).lookup k' = some v ↔
      (k' = k ∧ ∃ w, t.lookup k = some w ∧ f w = v) ∨ (k' ≠ k ∧ t.lookup k' = some v) := by
  rw [lookup_modify]
  split <;> simp_all

theorem lookup_modify_of_lookup {f : V → V} (h : t.lookup k' = some v) :
    (t.modify k f).lookup k' = some (if k' = k then f v else v) := by
  rw [lookup_modify]
  split
  · next hk => rw [← hk, h, Option.map_some]
  · exact h

theorem lookup_modify_self {f : V → V} (h : t.lookup k = some v) :
    (t.modify k f).lookup k = some (f v) := by
  rw [lookup_modify_of_lookup h, if_pos rfl]

theorem modify_modify (t : Table K V) (k : K) (f f' : V → V) :
    (t.modify k f).modify k f' = t.modify k fun v => f' (f v) := by
  rw [modify, modify]
  rcases h : t.lookup k with _ | v
  · simp [modify, h]
  · simp [modify, h, AList.lookup_insert, AList.insert_insert]

theorem isSome_lookup_modify {f : V → V} (h : (t.lookup k').isSome) :
    ((t.modify k f).lookup k').isSome := by
  rw [lookup_modify]
  split
  · next hk => rwa [← hk, Option.isSome_map]
  · exact h

/-- Changing the records under the keys `ks`, where there are. -/
def modifyAll (t : Table K V) (ks : List K) (f : V → V) : Table K V :=
  ks.foldl (fun t k => t.modify k f) t

/-- A change that is made once is made. -/
theorem lookup_modifyAll {f : V → V} (hf : ∀ v, f (f v) = f v) (ks : List K) (t : Table K V)
    (k' : K) :
    (t.modifyAll ks f).lookup k' = (t.lookup k').map fun v => if k' ∈ ks then f v else v := by
  induction ks generalizing t with
  | nil => simp [modifyAll]
  | cons k ks ih =>
    rw [modifyAll, List.foldl_cons, ← modifyAll, ih, lookup_modify]
    by_cases h' : k' = k
    · subst h'
      rw [if_pos rfl, Option.map_map]
      congr 1
      funext v
      by_cases h : k' ∈ ks <;> simp [h, hf]
    · simp [h']

/-! ## Erasing several keys -/

def eraseAll (t : Table K V) (ks : List K) : Table K V :=
  ks.foldl (fun t k => t.erase k) t

theorem lookup_eraseAll (ks : List K) (t : Table K V) (k' : K) :
    (t.eraseAll ks).lookup k' = if k' ∈ ks then none else t.lookup k' := by
  induction ks generalizing t with
  | nil => simp [eraseAll]
  | cons k ks ih =>
    rw [eraseAll, List.foldl_cons, ← eraseAll, ih, lookup_erase]
    by_cases h : k' ∈ ks <;> by_cases h' : k' = k <;> simp [h, h']

theorem lookup_eraseAll_eq_some {ks : List K} :
    (t.eraseAll ks).lookup k' = some v ↔ k' ∉ ks ∧ t.lookup k' = some v := by
  rw [lookup_eraseAll]
  split <;> simp_all

/-! ## Related tables -/

/-- The table `t'` has a record under every key that `t` has one under, and under no
    other, related to the one of `t`. -/
def Linked (R : V → V → Prop) (t t' : Table K V) : Prop :=
  ∀ k, Option.Rel R (t.lookup k) (t'.lookup k)

section Linked

variable {R : V → V → Prop} {f : V → V}

theorem Linked.refl (hR : ∀ v, R v v) (t : Table K V) : Linked R t t := by
  intro k
  rcases t.lookup k with _ | v
  · exact .none
  · exact .some (hR v)

theorem Linked.lookup (h : Linked R t t') (hv : t.lookup k = some v) :
    ∃ v', t'.lookup k = some v' ∧ R v v' := by
  have hk := h k
  rw [hv] at hk
  generalize t'.lookup k = r at hk
  cases hk with
  | some hr => exact ⟨_, rfl, hr⟩

theorem Linked.of_lookup (h : Linked R t t') (hv : t'.lookup k = some v) :
    ∃ v₀, t.lookup k = some v₀ ∧ R v₀ v := by
  have hk := h k
  rw [hv] at hk
  generalize t.lookup k = r at hk
  cases hk with
  | some hr => exact ⟨_, rfl, hr⟩

theorem Linked.isSome (h : Linked R t t') (k : K) :
    (t'.lookup k).isSome = (t.lookup k).isSome := by
  have hk := h k
  generalize t.lookup k = r, t'.lookup k = r' at hk
  cases hk <;> rfl

theorem Linked.lookup_eq_none (h : Linked R t t') : t'.lookup k = none ↔ t.lookup k = none := by
  rw [← Option.isNone_iff_eq_none, ← Option.isNone_iff_eq_none, ← Option.not_isSome,
    ← Option.not_isSome, h.isSome]

/-- Changing the records under some keys. -/
theorem Linked.of_map {p : K → Prop} [DecidablePred p] (hR : ∀ v, R v v)
    (hf : ∀ k v, t.lookup k = some v → p k → R v (f v))
    (h : ∀ k, t'.lookup k = (t.lookup k).map fun v => if p k then f v else v) : Linked R t t' := by
  intro k
  rw [h]
  rcases hv : t.lookup k with _ | v
  · exact .none
  · refine .some ?_
    by_cases hk : p k
    · simpa [hk] using hf k v hv hk
    · simpa [hk] using hR v

theorem Linked.modify (hR : ∀ v, R v v) (hf : ∀ v, t.lookup k = some v → R v (f v)) :
    Linked R t (t.modify k f) := by
  refine .of_map (p := (· = k)) hR (fun k' v hv hk => hf v (hk ▸ hv)) fun k' => ?_
  rw [lookup_modify]
  split
  · next hk => rw [hk]
  · simp

theorem Linked.modify_modify {f' : V → V} (hR : ∀ v, R v v)
    (hf : ∀ v, t.lookup k = some v → R v (f' (f v))) :
    Linked R t ((t.modify k f).modify k f') := by
  rw [Table.modify_modify]
  exact .modify hR hf

end Linked

/-! ## Counting -/

/-- The keys of the records that `p` holds of. -/
def keysWhere (t : Table K V) (p : V → Bool) : Finset K :=
  t.keys.toFinset.filter fun k => (t.lookup k).any p

theorem mem_keysWhere : k ∈ t.keysWhere p ↔ ∃ v, t.lookup k = some v ∧ p v := by
  rw [keysWhere, Finset.mem_filter, List.mem_toFinset, Option.any_eq_true]
  refine ⟨fun h => h.2, fun h => ⟨?_, h⟩⟩
  obtain ⟨v, hv, -⟩ := h
  exact AList.lookup_isSome.1 (Option.isSome_iff_exists.2 ⟨v, hv⟩)

theorem keysWhere_insert : keysWhere (t.insert k v) p =
    if p v then insert k (t.keysWhere p) else (t.keysWhere p).erase k := by
  ext k'
  rw [mem_keysWhere, lookup_insert]
  by_cases hk : k' = k <;> by_cases hp : p v <;> simp [hk, hp, mem_keysWhere]

theorem keysWhere_erase : keysWhere (t.erase k) p = (t.keysWhere p).erase k := by
  ext k'
  rw [mem_keysWhere, lookup_erase]
  by_cases hk : k' = k <;> simp [hk, mem_keysWhere]

theorem card_keysWhere_insert (h : t.lookup k = none) :
    (keysWhere (t.insert k v) p).card = (t.keysWhere p).card + (p v).toNat := by
  have hk : k ∉ t.keysWhere p := by
    rw [mem_keysWhere, h]
    simp
  rw [keysWhere_insert]
  cases p v
  · simp [Finset.erase_eq_of_notMem hk]
  · simp [Finset.card_insert_of_notMem hk]

theorem card_keysWhere_erase (h : t.lookup k = some v) :
    (keysWhere (t.erase k) p).card = (t.keysWhere p).card - (p v).toNat := by
  rw [keysWhere_erase]
  have hk : k ∈ t.keysWhere p ↔ p v := by
    rw [mem_keysWhere, h]
    simp
  cases hp : p v
  · rw [Finset.erase_eq_of_notMem (by simp [hk, hp])]
    simp
  · rw [Finset.card_erase_of_mem (by simp [hk, hp])]
    simp

theorem Linked.keysWhere_eq {R : V → V → Prop} (h : Linked R t t')
    (hp : ∀ v v', R v v' → p v' = p v) : t'.keysWhere p = t.keysWhere p := by
  ext k
  rw [mem_keysWhere, mem_keysWhere]
  constructor
  · rintro ⟨v', hv', hpv⟩
    obtain ⟨v, hv, hr⟩ := h.of_lookup hv'
    exact ⟨v, hv, hp v v' hr ▸ hpv⟩
  · rintro ⟨v, hv, hpv⟩
    obtain ⟨v', hv', hr⟩ := h.lookup hv
    exact ⟨v', hv', (hp v v' hr).symm ▸ hpv⟩

/-! ## Indices -/

section Indexes

variable {I : Type} [DecidableEq I] {key : V → I} {index : Table I K}

/-- The table `index` leads from `key v` to the key of every record `v`, and has no other
    entries. -/
def Indexes (key : V → I) (index : Table I K) (t : Table K V) : Prop :=
  ∀ i k, index.lookup i = some k ↔ ∃ v, t.lookup k = some v ∧ key v = i

theorem Indexes.insert (h : Indexes key index t) (hk : t.lookup k = none)
    (hi : index.lookup (key v) = none) : Indexes key (index.insert (key v) k) (t.insert k v) := by
  intro i k'
  rw [lookup_insert_eq_some, h]
  constructor
  · rintro (⟨rfl, rfl⟩ | ⟨-, w, hw, rfl⟩)
    · exact ⟨v, AList.lookup_insert _, rfl⟩
    · refine ⟨w, lookup_insert_eq_some.2 (.inr ⟨?_, hw⟩), rfl⟩
      rintro rfl
      cases hk.symm.trans hw
  · rintro ⟨w, hw, rfl⟩
    rcases lookup_insert_eq_some.1 hw with ⟨rfl, rfl⟩ | ⟨-, hw⟩
    · exact .inl ⟨rfl, rfl⟩
    · refine .inr ⟨fun he => ?_, w, hw, rfl⟩
      cases hi.symm.trans (he ▸ (h (key w) k').2 ⟨w, hw, rfl⟩)

theorem Indexes.erase (h : Indexes key index t) (hv : t.lookup k = some v) :
    Indexes key (index.erase (key v)) (t.erase k) := by
  intro i k'
  rw [lookup_erase_eq_some, h]
  constructor
  · rintro ⟨hne, w, hw, rfl⟩
    refine ⟨w, lookup_erase_eq_some.2 ⟨?_, hw⟩, rfl⟩
    rintro rfl
    exact hne (congrArg key (Option.some.inj (hw.symm.trans hv)))
  · rintro ⟨w, hw, rfl⟩
    obtain ⟨hne, hw⟩ := lookup_erase_eq_some.1 hw
    refine ⟨fun he => hne ?_, w, hw, rfl⟩
    -- Both records are where the index leads to from their common key.
    have hk' := (h (key w) k').2 ⟨w, hw, rfl⟩
    exact Option.some.inj (hk'.symm.trans ((h (key w) k).2 ⟨v, hv, he.symm⟩))

theorem Indexes.linked {R : V → V → Prop} (h : Indexes key index t) (hl : Linked R t t')
    (hR : ∀ v v', R v v' → key v' = key v) : Indexes key index t' := by
  intro i k
  rw [h]
  constructor
  · rintro ⟨v, hv, rfl⟩
    obtain ⟨v', hv', hr⟩ := hl.lookup hv
    exact ⟨v', hv', hR v v' hr⟩
  · rintro ⟨v', hv', rfl⟩
    obtain ⟨v, hv, hr⟩ := hl.of_lookup hv'
    exact ⟨v, hv, (hR v v' hr).symm⟩

/-- No two records have the same key in the index. -/
theorem Indexes.inj {v' : V} (h : Indexes key index t) (hv : t.lookup k = some v)
    (hv' : t.lookup k' = some v') (he : key v = key v') : k = k' :=
  Option.some.inj (((h (key v') k).2 ⟨v, hv, he⟩).symm.trans ((h (key v') k').2 ⟨v', hv', rfl⟩))

end Indexes

/-! ## Rows -/

def rows (t : Table K V) : List (K × V) := t.entries.map fun r => (r.1, r.2)

/-- The rows of a table are what a lookup finds. -/
theorem mem_rows : (k, v) ∈ t.rows ↔ t.lookup k = some v := by
  simp only [rows, List.mem_map, Prod.mk.injEq, Sigma.exists]
  constructor
  · rintro ⟨_, _, hm, rfl, rfl⟩
    exact AList.mem_lookup_iff.2 hm
  · exact fun h => ⟨k, v, AList.mem_lookup_iff.1 h, rfl, rfl⟩

omit [DecidableEq K] in
theorem nodup_keys_rows (t : Table K V) : (t.rows.map Prod.fst).Nodup := by
  rw [rows, List.map_map]
  exact t.nodupKeys

/-- What holds of the record under a key can be checked. -/
instance {r : Option V} {p : V → Prop} [DecidablePred p] : Decidable (∀ v, r = some v → p v) :=
  match r with
  | none => isTrue nofun
  | some v => decidable_of_iff (p v) ⟨fun h _ hv => Option.some.inj hv ▸ h, fun h => h v rfl⟩

/-- What holds of all records can be checked row by row. -/
instance {p : K → V → Prop} [∀ k v, Decidable (p k v)] :
    Decidable (∀ k v, t.lookup k = some v → p k v) :=
  decidable_of_iff (∀ r ∈ t.rows, p r.1 r.2)
    ⟨fun h k v hv => h (k, v) (mem_rows.2 hv), fun h r hr => h r.1 r.2 (mem_rows.1 hr)⟩

/-- The table `t'` has the rows of `t`, in some order. -/
abbrev Reordered (t t' : Table K V) : Prop := t'.entries.Perm t.entries

/-- The order of the rows does not matter to the lookups. -/
theorem Reordered.lookup_eq (h : Reordered t t') (k : K) : t'.lookup k = t.lookup k :=
  AList.perm_lookup h

omit [DecidableEq K] in
/-- The rows are the same, in some order. -/
theorem Reordered.rows_perm (h : Reordered t t') : t'.rows.Perm t.rows := h.map _

theorem Reordered.linked {R : V → V → Prop} (h : Reordered t t') (hR : ∀ v, R v v) :
    Linked R t t' := by
  intro k
  rw [h.lookup_eq]
  exact Linked.refl hR t k

end Table

end StateSpectre
