import Mathlib.Algebra.Order.BigOperators.Group.Finset
import Mathlib.Data.Set.Card
import Mathlib.Order.Interval.Finset.Nat
import StateSpectre.Lib.Span

/-!
# Sets divided into runs

A set of indices is *tiled* by runs if they cover it and have no index in common (`Tiles`). If
the size of a run can be told from its first index, the runs are found by reading the set from
the left (`startsAt`, `Tiles.mem_iff_startsAt`). A set has as many indices as its runs together
(`Tiles.ncard_eq`). A run is added to a tiling, or taken out of it, as a whole (`Tiles.insert`,
`Tiles.erase`).
-/

namespace StateSpectre

/-- The runs that start at the indices `R`, of the sizes given by `f`, tile the set `S`. -/
structure Tiles (f : ℕ → ℕ) (R : Finset ℕ) (S : Set ℕ) : Prop where
  pos : ∀ b ∈ R, 0 < f b
  apart : ∀ b ∈ R, ∀ b' ∈ R, b ≠ b' → ¬Meet b (f b) b' (f b')
  cover : ∀ i, i ∈ S ↔ ∃ b ∈ R, InRun b (f b) i

/-- How many more indices the run over `i` has, if the set `p` is read from the left. -/
def restAt (f : ℕ → ℕ) (p : ℕ → Bool) : ℕ → ℕ
  | 0 => if p 0 then f 0 - 1 else 0
  | i + 1 =>
    if restAt f p i = 0 then if p (i + 1) then f (i + 1) - 1 else 0 else restAt f p i - 1

/-- A run starts at an index, if the set `p` is read from the left. -/
def startsAt (f : ℕ → ℕ) (p : ℕ → Bool) : ℕ → Bool
  | 0 => p 0
  | i + 1 => p (i + 1) && restAt f p i == 0

namespace Tiles

variable {f f' : ℕ → ℕ} {p : ℕ → Bool} {R : Finset ℕ} {S S' : Set ℕ} {b n : ℕ}

theorem inRun (h : Tiles f R S) (hb : b ∈ R) : InRun b (f b) b :=
  ⟨le_rfl, Nat.lt_add_of_pos_right (h.pos b hb)⟩

theorem mem (h : Tiles f R S) (hb : b ∈ R) : b ∈ S := (h.cover b).2 ⟨b, hb, h.inRun hb⟩

/-- Every index is in its run, or outside of the set. -/
theorem restAt_eq (h : Tiles f R { i | p i }) (i : ℕ) :
    (∀ b ∈ R, InRun b (f b) i → restAt f p i = b + f b - 1 - i) ∧
      (p i = false → restAt f p i = 0) := by
  induction i with
  | zero =>
    refine ⟨fun b hb hi => ?_, fun hp => by simp [restAt, hp]⟩
    obtain rfl : b = 0 := Nat.le_zero.1 hi.1
    simp [restAt, show p 0 from h.mem hb]
  | succ i ih =>
    -- The run over `i` ends there if `i + 1` is not in it.
    have hend : (∀ b ∈ R, InRun b (f b) i → ¬InRun b (f b) (i + 1)) → restAt f p i = 0 := by
      intro hnot
      cases hp : p i with
      | false => exact ih.2 hp
      | true =>
        obtain ⟨b, hb, hi⟩ := (h.cover i).1 hp
        have hlast := hnot b hb hi
        rw [ih.1 b hb hi]
        simp only [InRun] at hi hlast
        omega
    refine ⟨fun b hb hi => ?_, fun hp => ?_⟩
    · rcases hi.1.lt_or_eq with hlt | rfl
      · have hrest := ih.1 b hb ⟨by omega, by have := hi.2; omega⟩
        have hne : restAt f p i ≠ 0 := by
          have := hi.2
          omega
        rw [restAt, if_neg hne, hrest]
        omega
      · have hrest := hend fun b' hb' hi' hi'' =>
          h.apart b' hb' _ hb (by have := hi'.1; omega) ⟨_, hi'', hi⟩
        rw [restAt, if_pos hrest, if_pos (show p (i + 1) from h.mem hb)]
        omega
    · have hrest := hend fun b hb _ hi' => by
        have hmem : p (i + 1) = true := (h.cover (i + 1)).2 ⟨b, hb, hi'⟩
        rw [hp] at hmem
        cases hmem
      rw [restAt, if_pos hrest, hp, if_neg Bool.false_ne_true]

/-- The runs are those found by reading the set from the left, so that a set is tiled in one way
    only. -/
theorem mem_iff_startsAt (h : Tiles f R { i | p i }) : b ∈ R ↔ startsAt f p b := by
  constructor
  · intro hb
    have hp : p b := h.mem hb
    cases b with
    | zero => exact hp
    | succ i =>
      refine Bool.and_eq_true_iff.2 ⟨hp, beq_iff_eq.2 ?_⟩
      cases hpi : p i with
      | false => exact (h.restAt_eq i).2 hpi
      | true =>
        obtain ⟨b', hb', hi⟩ := (h.cover i).1 hpi
        rw [(h.restAt_eq i).1 b' hb' hi]
        by_contra hne
        refine h.apart b' hb' (i + 1) hb (by have := hi.1; omega) ⟨i + 1, ?_, h.inRun hb⟩
        exact ⟨by have := hi.1; omega, by omega⟩
  · intro hs
    cases b with
    | zero =>
      obtain ⟨b, hb, hi⟩ := (h.cover 0).1 hs
      exact Nat.le_zero.1 hi.1 ▸ hb
    | succ i =>
      obtain ⟨hp, hrest⟩ := Bool.and_eq_true_iff.1 hs
      obtain ⟨b, hb, hi⟩ := (h.cover (i + 1)).1 hp
      rcases hi.1.lt_or_eq with hlt | rfl
      · have := (h.restAt_eq i).1 b hb ⟨by omega, by have := hi.2; omega⟩
        have := beq_iff_eq.1 hrest
        have := hi.2
        omega
      · exact hb

/-- A set has as many indices as its runs together. -/
theorem ncard_eq (h : Tiles f R S) : S.ncard = ∑ b ∈ R, f b := by
  have hS : S = (R.biUnion fun b => Finset.Ico b (b + f b) : Finset ℕ) := by
    ext i
    simp only [h.cover i, InRun, Finset.coe_biUnion, Finset.mem_coe, Finset.coe_Ico,
      Set.mem_iUnion, Set.mem_Ico, exists_prop]
  rw [hS, Set.ncard_coe_finset, Finset.card_biUnion]
  · simp
  · intro b hb b' hb' hne
    refine Finset.disjoint_left.2 fun i hi hi' => h.apart b hb b' hb' hne ⟨i, ?_, ?_⟩
    · exact Finset.mem_Ico.1 hi
    · exact Finset.mem_Ico.1 hi'

theorem ncard_pos {i : ℕ} (h : Tiles f R S) (hi : i ∈ S) : 0 < S.ncard := by
  obtain ⟨b, hb, -⟩ := (h.cover i).1 hi
  rw [h.ncard_eq]
  exact Finset.sum_pos h.pos ⟨b, hb⟩

theorem congr (h : Tiles f R S) (hf : ∀ b ∈ R, f' b = f b) (hS : ∀ i, i ∈ S' ↔ i ∈ S) :
    Tiles f' R S' where
  pos b hb := hf b hb ▸ h.pos b hb
  apart b hb b' hb' hne := by
    rw [hf b hb, hf b' hb']
    exact h.apart b hb b' hb' hne
  cover i := by
    rw [hS, h.cover]
    refine exists_congr fun b => and_congr_right fun hb => ?_
    rw [hf b hb]

/-- A run of indices that are not in the set is added. -/
theorem insert (h : Tiles f R S) (hb : f' b = n) (hn : 0 < n) (hnew : ∀ i, InRun b n i → i ∉ S)
    (hf : ∀ a ∈ R, f' a = f a) (hS : ∀ i, i ∈ S' ↔ i ∈ S ∨ InRun b n i) :
    Tiles f' (insert b R) S' := by
  subst hb
  have hapart : ∀ a ∈ R, ¬Meet b (f' b) a (f' a) := by
    rintro a ha ⟨i, hi, hi'⟩
    rw [hf a ha] at hi'
    exact hnew i hi ((h.cover i).2 ⟨a, ha, hi'⟩)
  refine ⟨?_, ?_, fun i => ?_⟩
  · intro a ha
    rcases Finset.mem_insert.1 ha with rfl | ha
    · exact hn
    · exact hf a ha ▸ h.pos a ha
  · intro a ha a' ha' hne
    rcases Finset.mem_insert.1 ha with rfl | hR <;> rcases Finset.mem_insert.1 ha' with rfl | hR'
    · exact absurd rfl hne
    · exact hapart a' hR'
    · exact fun hm => hapart a hR hm.symm
    · rw [hf a hR, hf a' hR']
      exact h.apart a hR a' hR' hne
  · rw [hS, h.cover, Finset.exists_mem_insert, or_comm]
    refine or_congr_right (exists_congr fun a => and_congr_right fun ha => ?_)
    rw [hf a ha]

/-- A run is taken out. -/
theorem erase (h : Tiles f R S) (hb : b ∈ R) (hf : ∀ a ∈ R, a ≠ b → f' a = f a)
    (hS : ∀ i, i ∈ S' ↔ i ∈ S ∧ ¬InRun b (f b) i) : Tiles f' (R.erase b) S' := by
  refine ⟨?_, ?_, fun i => ?_⟩
  · intro a ha
    obtain ⟨hne, ha⟩ := Finset.mem_erase.1 ha
    exact hf a ha hne ▸ h.pos a ha
  · intro a ha a' ha' hne
    obtain ⟨hab, ha⟩ := Finset.mem_erase.1 ha
    obtain ⟨hab', ha'⟩ := Finset.mem_erase.1 ha'
    rw [hf a ha hab, hf a' ha' hab']
    exact h.apart a ha a' ha' hne
  · rw [hS, h.cover]
    constructor
    · rintro ⟨⟨a, ha, hi⟩, hnot⟩
      have hab : a ≠ b := by
        rintro rfl
        exact hnot hi
      exact ⟨a, Finset.mem_erase.2 ⟨hab, ha⟩, by rwa [hf a ha hab]⟩
    · rintro ⟨a, ha, hi⟩
      obtain ⟨hab, ha⟩ := Finset.mem_erase.1 ha
      rw [hf a ha hab] at hi
      exact ⟨⟨a, ha, hi⟩, fun hi' => h.apart a ha b hb hab ⟨i, hi, hi'⟩⟩

end Tiles

end StateSpectre
