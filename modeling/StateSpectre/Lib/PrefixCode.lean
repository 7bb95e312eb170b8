import Mathlib.Data.List.Basic
import Mathlib.Logic.Function.Basic

/-!
# Codes that can be written one behind the other

A function to words is a *prefix code* if a word can be told from whatever is written behind it
(`PrefixCode`). Words that end in a letter that they do not have elsewhere are one
(`PrefixCode.of_terminated`): the end of a word is the first letter that is not of the class its
other letters are of. The digits of a number are a class that separators are not of.
-/

namespace StateSpectre

variable {α β : Type*}

/-- A word can be told from whatever is written behind it. -/
def PrefixCode (f : α → List β) : Prop :=
  ∀ a b r s, f a ++ r = f b ++ s → a = b ∧ r = s

namespace PrefixCode

variable {f : α → List β}

theorem append_eq_iff (hf : PrefixCode f) {a b : α} {r s : List β} :
    f a ++ r = f b ++ s ↔ a = b ∧ r = s := by
  refine ⟨hf a b r s, ?_⟩
  rintro ⟨rfl, rfl⟩
  rfl

theorem injective (hf : PrefixCode f) : Function.Injective f := by
  intro a b h
  exact (hf a b [] [] (by rw [h])).1

/-- The first letter that is not of a class ends a word whose other letters are. -/
theorem append_cons_inj {p : β → Prop} {u v r s : List β} {x y : β} (hu : ∀ a ∈ u, p a)
    (hv : ∀ a ∈ v, p a) (hx : ¬p x) (hy : ¬p y) (h : u ++ x :: r = v ++ y :: s) :
    u = v ∧ x = y ∧ r = s := by
  induction u generalizing v with
  | nil =>
    cases v with
    | nil => exact ⟨rfl, List.cons.inj h⟩
    | cons b v => exact absurd ((List.cons.inj h).1 ▸ hv b List.mem_cons_self) hx
  | cons a u ih =>
    cases v with
    | nil => exact absurd ((List.cons.inj h).1 ▸ hu a List.mem_cons_self) hy
    | cons b v =>
      obtain ⟨rfl, htail⟩ := List.cons.inj h
      obtain ⟨rfl, hxy⟩ := ih (fun c hc => hu c (List.mem_cons_of_mem _ hc))
        (fun c hc => hv c (List.mem_cons_of_mem _ hc)) htail
      exact ⟨rfl, hxy⟩

/-- Words that end in a letter which is not of the class of the others. -/
theorem of_terminated {p : β → Prop} {w : α → List β} {t : α → β} (hw : Function.Injective w)
    (hp : ∀ a, ∀ x ∈ w a, p x) (ht : ∀ a, ¬p (t a)) : PrefixCode fun a => w a ++ [t a] := by
  intro a b r s h
  simp only [List.append_assoc, List.singleton_append] at h
  obtain ⟨hab, -, hrs⟩ := append_cons_inj (hp a) (hp b) (ht a) (ht b) h
  exact ⟨hw hab, hrs⟩

end PrefixCode

/-- A number can be told from its decimal digits. -/
theorem toDigits_injective : Function.Injective (Nat.toDigits 10) := by
  intro a b h
  rw [← Nat.ofDigitChars_ten_toDigits (n := a), h, Nat.ofDigitChars_ten_toDigits]

end StateSpectre
