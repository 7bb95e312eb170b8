import Mathlib.Data.List.Basic
import Mathlib.Logic.Relation

/-!
# Systems taking steps

A system is a partial step function `step s a`, undefined where the action `a`
cannot happen in the state `s`, and giving the next state with what is
answered. Its runs are counted under a *side condition* on the steps taken:

* `Reach init ok step s`: the state `s` is reached from an initial state by
  steps `a` that meet `ok` in the states they are taken in. With no side
  condition these are all the reachable states.
* `Reach.invariant`: the rule for invariants, what holds initially and is
  kept by every step meeting the side condition.

A step that goes over a list, changing the state with each item, meets a
condition *along* the list (`Along`) when every item meets it in the state the
items before it left.
-/

/-- What every step keeps is kept by a sequence of them. -/
theorem Relation.ReflTransGen.invariant {S : Type*} {r : S → S → Prop} {motive : S → Prop}
    {s s' : S} (h : ReflTransGen r s s') (hstep : ∀ s s', motive s → r s s' → motive s')
    (hs : motive s) : motive s' := by
  induction h with
  | refl => exact hs
  | tail _ hlast ih => exact hstep _ _ ih hlast

namespace StateSpectre

variable {S A R X : Type*}

/-- The states reached from `init` by steps meeting the side condition `ok`. -/
inductive Reach (init : S → Prop) (ok : S → A → Prop) (step : S → A → Option (S × R)) : S → Prop
  | init {s : S} : init s → Reach init ok step s
  | step {s s' : S} {a : A} {r : R} :
      Reach init ok step s → ok s a → step s a = some (s', r) → Reach init ok step s'

variable {init : S → Prop} {ok ok' : S → A → Prop} {step : S → A → Option (S × R)} {s s' : S}

/-- What holds initially and is kept by the steps meeting the side condition
    holds in every state they reach. -/
theorem Reach.invariant {motive : S → Prop} (h₀ : ∀ s, init s → motive s)
    (hstep : ∀ s a s' r, motive s → ok s a → step s a = some (s', r) → motive s')
    (h : Reach init ok step s) : motive s := by
  induction h with
  | init hs => exact h₀ _ hs
  | step _ hok hst ih => exact hstep _ _ _ _ ih hok hst

/-- Fewer steps reach fewer states. -/
theorem Reach.mono (h : Reach init ok step s) (hok : ∀ s a, ok s a → ok' s a) :
    Reach init ok' step s := by
  induction h with
  | init hs => exact .init hs
  | step _ ha hst ih => exact .step ih (hok _ _ ha) hst

/-- A run that goes on from a state it has reached. -/
theorem Reach.trans (h : Reach init ok step s) (h' : Reach (· = s) ok step s') :
    Reach init ok step s' := by
  induction h' with
  | init hs => exact hs ▸ h
  | step _ ha hst ih => exact .step ih ha hst

/-! ## Given lists of actions -/

/-- Running a list of actions one after the other, as far as they can happen and
    pass the check. -/
def runActions (check : S → A → Bool) (step : S → A → Option (S × R)) : S → List A → Option S
  | s, [] => some s
  | s, a :: as => if check s a then (step s a).bind fun p => runActions check step p.1 as else none

theorem Reach.runActions {check : S → A → Bool} (hcheck : ∀ s a, check s a → ok s a)
    {as : List A} (hs : Reach init ok step s) (h : runActions check step s as = some s') :
    Reach init ok step s' := by
  induction as generalizing s with
  | nil =>
    cases h
    exact hs
  | cons a as ih =>
    rw [StateSpectre.runActions] at h
    split at h
    · next hc =>
      obtain ⟨p, hp, h⟩ := Option.bind_eq_some_iff.1 h
      exact ih (.step hs (hcheck s a hc) hp) h
    · cases h

/-- A state that a list of actions reaches. -/
theorem Reach.exists_of_any [∀ s a, Decidable (ok s a)] {p : S → Prop} [DecidablePred p] {s₀ : S}
    (h₀ : init s₀) (as : List A)
    (h : (StateSpectre.runActions (fun s a => ok s a) step s₀ as).any (p ·)) :
    ∃ s, Reach init ok step s ∧ p s := by
  obtain ⟨s, hs, hp⟩ := (Option.any_eq_true _ _).1 h
  exact ⟨s, Reach.runActions (fun _ _ => of_decide_eq_true) (.init h₀) hs, of_decide_eq_true hp⟩

/-- A state that a list of actions reaches from another one. -/
theorem Reach.exists_from [∀ s a, Decidable (ok s a)] {p : S → Prop} [DecidablePred p] {s₀ : S}
    {as : List A} (h : (StateSpectre.runActions (fun s a => ok s a) step s₀ as).any (p ·)) :
    ∃ s, Reach (· = s₀) ok step s ∧ p s :=
  exists_of_any rfl as h

/-! ### Answers

What an optional record or the answer of a step is like is decided by evaluating it, so that a
run may be checked against the statement that it exists. -/

/-- It can be told whether a value is an `f x`, and of which `x`. -/
class Recognises (f : X → R) where
  /-- The `x` that a value is the `f x` of. -/
  arg : R → Option X
  arg_eq_some : ∀ r x, arg r = some x ↔ r = f x

instance : Recognises fun r : R => r := ⟨some, fun _ _ => Option.some_inj⟩

instance decidableExistsSome {o : Option S} {p : S → Prop} [DecidablePred p] :
    Decidable (∃ s, o = some s ∧ p s) :=
  match o with
  | none => isFalse (by simp)
  | some s => decidable_of_iff (p s) (by simp)

instance decidableExistsSome₂ {o : Option S} {p : S → X → Prop} [∀ s, Decidable (∃ x, p s x)] :
    Decidable (∃ s x, o = some s ∧ p s x) :=
  decidable_of_iff (∃ s, o = some s ∧ ∃ x, p s x) (by simp)

/-- A step that is answered with `r`. -/
instance decidableAnswered {o : Option (S × R)} {r : R} [DecidableEq R] {p : S → Prop}
    [DecidablePred p] : Decidable (∃ s, o = some (s, r) ∧ p s) :=
  decidable_of_iff (∃ y, o = some y ∧ y.2 = r ∧ p y.1) (by aesop)

/-- A step that is answered with an `f x`. -/
instance decidableRecognised {o : Option (S × R)} {f : X → R} [Recognises f] {p : S → X → Prop}
    [∀ s x, Decidable (p s x)] : Decidable (∃ s x, o = some (s, f x) ∧ p s x) :=
  decidable_of_iff (∃ y, o = some y ∧ ∃ x, Recognises.arg f y.2 = some x ∧ p y.1 x)
    (by simp [Recognises.arg_eq_some])

instance decidableRecognisedPair {y : S × R} {f : X → R} [Recognises f] {p : S → X → Prop}
    [∀ s x, Decidable (p s x)] : Decidable (∃ s x, y = (s, f x) ∧ p s x) :=
  decidable_of_iff (∃ x, Recognises.arg f y.2 = some x ∧ p y.1 x)
    (by simp [Recognises.arg_eq_some, Prod.ext_iff, and_assoc])

instance decidableExistsAnd {q : Prop} {p : X → Prop} [Decidable q] [Decidable (∃ x, p x)] :
    Decidable (∃ x, q ∧ p x) :=
  decidable_of_iff (q ∧ ∃ x, p x) exists_and_left.symm

instance decidableExistsAnd₂ {q : Prop} {p : S → X → Prop} [Decidable q]
    [Decidable (∃ s x, p s x)] : Decidable (∃ s x, q ∧ p s x) :=
  decidable_of_iff (q ∧ ∃ s x, p s x) (by simp)

/-! ## Going over a list -/

/-- Every item of the list meets `c` in the state left by the items before it. -/
def Along (c : S → X → Prop) (f : S → X → S) : S → List X → Prop
  | _, [] => True
  | s, x :: xs => c s x ∧ Along c f (f s x) xs

/-- What holds in every state is met along every list. -/
theorem Along.of_forall {c : S → X → Prop} {f : S → X → S} (h : ∀ s x, c s x) (s : S) :
    ∀ xs : List X, Along c f s xs
  | [] => trivial
  | x :: xs => ⟨h s x, Along.of_forall h _ xs⟩

@[simp] theorem along_true {f : S → X → S} {xs : List X} : Along (fun _ _ => True) f s xs :=
  .of_forall (fun _ _ => trivial) s xs

/-- Two conditions that are met along a list are met together. -/
theorem Along.and {c c' : S → X → Prop} {f : S → X → S} :
    ∀ {s : S} {xs : List X}, Along c f s xs → Along c' f s xs →
      Along (fun s x => c s x ∧ c' s x) f s xs
  | _, [], _, _ => trivial
  | _, _ :: _, h, h' => ⟨⟨h.1, h'.1⟩, h.2.and h'.2⟩

/-- What every item meeting `c` keeps is kept by the whole list. -/
theorem Along.foldl_invariant {c : S → X → Prop} {f : S → X → S} {motive : S → Prop}
    (hf : ∀ s x, motive s → c s x → motive (f s x)) {xs : List X} (hs : motive s)
    (h : Along c f s xs) : motive (xs.foldl f s) := by
  induction xs generalizing s with
  | nil => exact hs
  | cons x xs ih => exact ih (hf _ _ hs h.1) h.2

/-- What every item keeps is kept by the whole list. -/
theorem foldl_invariant {f : S → X → S} {motive : S → Prop} (hf : ∀ s x, motive s → motive (f s x))
    (xs : List X) (hs : motive s) : motive (xs.foldl f s) := by
  induction xs generalizing s with
  | nil => exact hs
  | cons x xs ih => exact ih (hf _ _ hs)

instance Along.decidable {c : S → X → Prop} {f : S → X → S} [∀ s x, Decidable (c s x)] :
    ∀ (s : S) (xs : List X), Decidable (Along c f s xs)
  | _, [] => isTrue trivial
  | s, x :: xs =>
    have := Along.decidable (c := c) (f := f) (f s x) xs
    inferInstanceAs (Decidable (c s x ∧ Along c f (f s x) xs))

end StateSpectre
