import Mathlib.Logic.Function.Basic
import Mathlib.Logic.Relation

/-!
# Programs that call operations

A program is a tree (`Prog`): it returns, or it calls an operation and goes on with what is
answered. What an operation may answer, and what it does to the world, is a relation. So a loop
over the answers of the world is an ordinary recursive function, and a program that never returns
has to say so (`Prog.hang`).

Several threads run programs in one world, and interfere between any two calls. A `Discipline`
says what each of them may rely on, and which calls it may make, such that no call breaks what the
others rely on. Under it a program is proved as if it were alone, up to interference:

* `Discipline.wp` is the weakest precondition of a program of a thread. It includes that no call
  is left without an answer. Programs are composed by `wp_bind`, calls proved by `wp_call`.
* `Pool.Safe.steps`: the threads keep their preconditions, in every interleaving. So what a thread
  returns meets its postcondition (`Pool.Safe.ret`), every call is one that is allowed
  (`Pool.Safe.call`), and every thread can be run until it returns (`Pool.Safe.finishes`).
  Threads that have returned may begin again (`Pool.Safe.turns`).
* A program alone in its world is the case of one thread (`Discipline.alone`).
-/

namespace StateSpectre

/-- A program over operations `O` with answers `A`. -/
inductive Prog (O : Type) (A : O → Type) (α : Type) : Type
  | ret (a : α)
  | hang
  | call (o : O) (k : A o → Prog O A α)

variable {ι σ O α β : Type} {A : O → Type}

namespace Prog

protected def bind : Prog O A α → (α → Prog O A β) → Prog O A β
  | ret a, f => f a
  | hang, _ => hang
  | call o k, f => call o fun a => (k a).bind f

instance : Monad (Prog O A) where
  pure := ret
  bind := Prog.bind

/-- A single call. -/
def perform (o : O) : Prog O A (A o) := call o ret

end Prog

/-! ## Threads -/

/-- What the operations do when a thread calls them, what always holds, what a thread relies on
    between its calls, and when it may make a call. -/
structure Discipline (ι σ O : Type) (A : O → Type) where
  does : ι → (o : O) → σ → A o → σ → Prop
  inv : σ → Prop
  rely : ι → σ → σ → Prop
  allowed : ι → O → σ → Prop
  rely_refl : ∀ t s, rely t s s
  rely_trans : ∀ t s s' s'', rely t s s' → rely t s' s'' → rely t s s''
  /-- A call that is allowed is nothing the other threads have to care about. -/
  keeps : ∀ {t o s a s'}, inv s → allowed t o s → does t o s a s' →
    inv s' ∧ ∀ u ≠ t, rely u s s'

namespace Discipline

variable (D : Discipline ι σ O A) (t : ι)

/-- The thread `t` may run the program from here, and what it returns meets `Q`: whatever the
    others do meanwhile, each of its calls is allowed and is answered. -/
def wp : Prog O A α → (α → σ → Prop) → σ → Prop
  | .ret a, Q, s => ∀ s', D.inv s' → D.rely t s s' → Q a s'
  | .hang, _, _ => False
  | .call o k, Q, s => ∀ s', D.inv s' → D.rely t s s' →
      D.allowed t o s' ∧ (∃ a s'', D.does t o s' a s'') ∧
        ∀ a s'', D.does t o s' a s'' → wp (k a) Q s''

/-- The others do not break `P`. -/
def Stable (P : σ → Prop) : Prop := ∀ ⦃s s'⦄, D.inv s' → D.rely t s s' → P s → P s'

variable {D t} {Q Q' : α → σ → Prop} {p : Prog O A α} {s s' : σ}

theorem wp_stable (h : D.wp t p Q s) (hrely : D.rely t s s') : D.wp t p Q s' := by
  cases p with
  | hang => exact h
  | ret | call => exact fun s'' hinv hrely' => h s'' hinv (D.rely_trans _ _ _ _ hrely hrely')

theorem wp_mono (hQ : ∀ a s, Q a s → Q' a s) (h : D.wp t p Q s) : D.wp t p Q' s := by
  induction p generalizing s with
  | ret a => exact fun s' hinv hrely => hQ _ _ (h s' hinv hrely)
  | hang => exact h
  | call o k ih =>
    intro s' hinv hrely
    obtain ⟨hallowed, hanswer, hk⟩ := h s' hinv hrely
    exact ⟨hallowed, hanswer, fun a s'' hdoes => ih a (hk a s'' hdoes)⟩

theorem wp_ret {a : α} (hstable : D.Stable t (Q a)) (h : Q a s) : D.wp t (.ret a) Q s :=
  fun _ hinv hrely => hstable hinv hrely h

/-- A program is run after another one. -/
theorem wp_bind {f : α → Prog O A β} {Q : β → σ → Prop} (hinv : D.inv s)
    (h : D.wp t p (fun a s' => D.inv s' → D.wp t (f a) Q s') s) : D.wp t (p >>= f) Q s := by
  induction p generalizing s with
  | ret a => exact h s hinv (D.rely_refl t s) hinv
  | hang => exact h
  | call o k ih =>
    intro s' hinv' hrely
    obtain ⟨hallowed, hanswer, hk⟩ := h s' hinv' hrely
    exact ⟨hallowed, hanswer, fun a s'' hdoes =>
      ih a (D.keeps hinv' hallowed hdoes).1 (hk a s'' hdoes)⟩

/-- A call, from what the others do not break. -/
theorem wp_call {o : O} {f : A o → Prog O A β} {P : σ → Prop} {Q : β → σ → Prop}
    (hP : D.Stable t P) (h : P s)
    (hcall : ∀ s', D.inv s' → P s' → D.allowed t o s' ∧ (∃ a s'', D.does t o s' a s'') ∧
      ∀ a s'', D.does t o s' a s'' → D.inv s'' → D.wp t (f a) Q s'') :
    D.wp t (.perform o >>= f) Q s := by
  intro s' hinv hrely
  obtain ⟨hallowed, hanswer, hk⟩ := hcall s' hinv (hP hinv hrely h)
  exact ⟨hallowed, hanswer, fun a s'' hdoes => hk a s'' hdoes (D.keeps hinv hallowed hdoes).1⟩

/-- A call that is answered with `R`. -/
theorem wp_call_of {o : O} {f : A o → Prog O A β} {P : σ → Prop} {R : A o → σ → Prop}
    {Q : β → σ → Prop} (hP : D.Stable t P) (h : P s)
    (hcall : ∀ s', D.inv s' → P s' → D.allowed t o s' ∧ (∃ a s'', D.does t o s' a s'') ∧
      ∀ a s'', D.does t o s' a s'' → R a s'')
    (hR : ∀ a s', R a s' → D.inv s' → D.wp t (f a) Q s') : D.wp t (.perform o >>= f) Q s := by
  refine wp_call hP h fun s' hinv hs' => ?_
  obtain ⟨hallowed, hanswer, hk⟩ := hcall s' hinv hs'
  exact ⟨hallowed, hanswer, fun a s'' hdoes => hR a s'' (hk a s'' hdoes)⟩

end Discipline

/-! ## Pools -/

/-- The world, and what is left of the program of each thread. -/
structure Pool (ι σ O : Type) (A : O → Type) (α : Type) where
  world : σ
  threads : ι → Prog O A α

namespace Pool

variable (D : Discipline ι σ O A)

/-- Each thread may run what is left of its program. -/
structure Safe (Q : ι → α → σ → Prop) (p : Pool ι σ O A α) : Prop where
  inv : D.inv p.world
  wp : ∀ t, D.wp t (p.threads t) (Q t) p.world

section

variable {D} {Q : ι → α → σ → Prop} {p : Pool ι σ O A α} {t : ι} (h : p.Safe D Q)

include h

theorem Safe.ret {a : α} (hret : p.threads t = .ret a) : Q t a p.world := by
  have hwp := h.wp t
  rw [hret] at hwp
  exact hwp _ h.inv (D.rely_refl t _)

theorem Safe.call {o : O} {k : A o → Prog O A α} (hcall : p.threads t = .call o k) :
    D.allowed t o p.world ∧ (∃ a s', D.does t o p.world a s') ∧
      ∀ a s', D.does t o p.world a s' → D.wp t (k a) (Q t) s' := by
  have hwp := h.wp t
  rw [hcall] at hwp
  exact hwp _ h.inv (D.rely_refl t _)

end

variable [DecidableEq ι]

/-- The thread `t` makes its next call. -/
inductive Step (does : ι → (o : O) → σ → A o → σ → Prop) (t : ι) :
    Pool ι σ O A α → Pool ι σ O A α → Prop
  | call {p : Pool ι σ O A α} {o : O} {k : A o → Prog O A α} {a : A o} {s' : σ}
      (hcall : p.threads t = .call o k) (hdoes : does t o p.world a s') :
      Step does t p ⟨s', Function.update p.threads t (k a)⟩

/-- Calls of any threads, one after the other. -/
abbrev Steps (does : ι → (o : O) → σ → A o → σ → Prop) :
    Pool ι σ O A α → Pool ι σ O A α → Prop :=
  Relation.ReflTransGen fun p p' => ∃ t, Step does t p p'

theorem Steps.of_thread {does : ι → (o : O) → σ → A o → σ → Prop} {t : ι}
    {p p' : Pool ι σ O A α} (h : Relation.ReflTransGen (Step does t) p p') : Steps does p p' :=
  h.lift id fun _ _ hstep => ⟨t, hstep⟩

variable {D} {Q : ι → α → σ → Prop} {p p' : Pool ι σ O A α} {t : ι}

theorem Safe.step (h : p.Safe D Q) (hstep : Step D.does t p p') : p'.Safe D Q := by
  obtain ⟨hcall, hdoes⟩ := hstep
  obtain ⟨hallowed, -, hk⟩ := h.call hcall
  obtain ⟨hinv, hothers⟩ := D.keeps h.inv hallowed hdoes
  refine ⟨hinv, fun u => ?_⟩
  dsimp only
  by_cases hu : u = t
  · subst hu
    rw [Function.update_self]
    exact hk _ _ hdoes
  · rw [Function.update_of_ne hu]
    exact Discipline.wp_stable (h.wp u) (hothers u hu)

/-- Threads that may run their programs may run them in every interleaving. -/
theorem Safe.steps (h : p.Safe D Q) (hsteps : Steps D.does p p') : p'.Safe D Q := by
  induction hsteps with
  | refl => exact h
  | tail _ hstep ih =>
    obtain ⟨t, hstep⟩ := hstep
    exact ih.step hstep

/-- A thread that goes on returns. -/
theorem Safe.finishes (h : p.Safe D Q) (t : ι) :
    ∃ p' a, Relation.ReflTransGen (Step D.does t) p p' ∧ p'.threads t = .ret a := by
  generalize hprog : p.threads t = prog
  induction prog generalizing p with
  | ret a => exact ⟨p, a, .refl, hprog⟩
  | hang =>
    have hwp := h.wp t
    rw [hprog] at hwp
    exact hwp.elim
  | call o k ih =>
    obtain ⟨-, ⟨a, s', hdoes⟩, -⟩ := h.call hprog
    have hstep : Step D.does t p ⟨s', Function.update p.threads t (k a)⟩ := .call hprog hdoes
    obtain ⟨p', b, hsteps, hret⟩ := ih a (h.step hstep) (Function.update_self ..)
    exact ⟨p', b, .head hstep hsteps, hret⟩

/-! ### Threads that begin again -/

/-- The thread `t` has returned, and begins another one of its programs. -/
inductive Begin (starts : ι → Prog O A α → Prop) (t : ι) :
    Pool ι σ O A α → Pool ι σ O A α → Prop
  | begin {p : Pool ι σ O A α} {a : α} {prog : Prog O A α} (hret : p.threads t = .ret a)
      (hstarts : starts t prog) : Begin starts t p ⟨p.world, Function.update p.threads t prog⟩

/-- Calls of any threads, which begin their programs again and again. -/
abbrev Turns (does : ι → (o : O) → σ → A o → σ → Prop) (starts : ι → Prog O A α → Prop) :
    Pool ι σ O A α → Pool ι σ O A α → Prop :=
  Relation.ReflTransGen fun p p' => ∃ t, Step does t p p' ∨ Begin starts t p p'

/-- Threads whose programs may be run from everywhere may begin them as often as they like. -/
theorem Safe.turns {starts : ι → Prog O A α → Prop}
    (hstarts : ∀ t prog s, starts t prog → D.inv s → D.wp t prog (Q t) s) (h : p.Safe D Q)
    (hturns : Turns D.does starts p p') : p'.Safe D Q := by
  induction hturns with
  | refl => exact h
  | tail _ hturn ih =>
    obtain ⟨t, hstep | ⟨hret, hprog⟩⟩ := hturn
    · exact ih.step hstep
    · refine ⟨ih.inv, fun u => ?_⟩
      dsimp only
      by_cases hu : u = t
      · subst hu
        rw [Function.update_self]
        exact hstarts _ _ _ hprog ih.inv
      · rw [Function.update_of_ne hu]
        exact ih.wp u

end Pool

/-! ## A program alone -/

variable {does : (o : O) → σ → A o → σ → Prop}

/-- The program, alone, returns `b` and leaves the world `s'`. -/
inductive Prog.Runs (does : (o : O) → σ → A o → σ → Prop) : Prog O A α → σ → α → σ → Prop
  | ret {a : α} {s : σ} : Runs does (.ret a) s a s
  | call {o : O} {k : A o → Prog O A α} {s s' s'' : σ} {a : A o} {b : α}
      (hdoes : does o s a s') (hruns : Runs does (k a) s' b s'') : Runs does (.call o k) s b s''

theorem Prog.Runs.bind {p : Prog O A α} {f : α → Prog O A β} {s s' s'' : σ} {a : α} {b : β}
    (h : p.Runs does s a s') (hf : (f a).Runs does s' b s'') : (p >>= f).Runs does s b s'' := by
  induction h with
  | ret => exact hf
  | call hdoes _ ih => exact .call hdoes (ih hf)

theorem Prog.Runs.of_bind {p : Prog O A α} {f : α → Prog O A β} {s s'' : σ} {b : β}
    (h : (p >>= f).Runs does s b s'') :
    ∃ a s', p.Runs does s a s' ∧ (f a).Runs does s' b s'' := by
  induction p generalizing s with
  | ret a => exact ⟨a, s, .ret, h⟩
  | hang => exact nomatch h
  | call o k ih =>
    cases h with
    | call hdoes h =>
      obtain ⟨a, s', hp, hf⟩ := ih _ h
      exact ⟨a, s', .call hdoes hp, hf⟩

/-- The discipline of a program that is alone. -/
def Discipline.alone (does : (o : O) → σ → A o → σ → Prop) : Discipline Unit σ O A where
  does _ := does
  inv _ := True
  rely _ s s' := s' = s
  allowed _ _ _ := True
  rely_refl _ _ := rfl
  rely_trans _ _ _ _ h h' := h'.trans h
  keeps _ _ _ := ⟨trivial, fun u hu => absurd (Subsingleton.elim u _) hu⟩

namespace Discipline

variable {p : Prog O A α} {Q : α → σ → Prop} {s s' : σ}

theorem stable_alone (P : σ → Prop) : (alone does).Stable () P := by
  rintro s s' - rfl h
  exact h

/-- What a program alone returns meets its postcondition. -/
theorem wp_alone_runs {b : α} (h : (alone does).wp () p Q s) (hruns : p.Runs does s b s') :
    Q b s' := by
  induction hruns with
  | ret => exact h _ trivial rfl
  | call hdoes _ ih => exact ih ((h _ trivial rfl).2.2 _ _ hdoes)

/-- A program alone returns. -/
theorem wp_alone_exists (h : (alone does).wp () p Q s) : ∃ b s', p.Runs does s b s' := by
  induction p generalizing s with
  | ret a => exact ⟨a, s, .ret⟩
  | hang => exact h.elim
  | call o k ih =>
    obtain ⟨-, ⟨a, s', hdoes⟩, hk⟩ := h s trivial rfl
    obtain ⟨b, s'', hruns⟩ := ih a (hk a s' hdoes)
    exact ⟨b, s'', .call hdoes hruns⟩

end Discipline

/-- Alone, the program returns `a` and leaves the world `s'`, whatever the operations answer. -/
def Prog.Yields (does : (o : O) → σ → A o → σ → Prop) (p : Prog O A α) (s : σ) (a : α)
    (s' : σ) : Prop :=
  (Discipline.alone does).wp () p (fun b s'' => b = a ∧ s'' = s') s

theorem Prog.Yields.runs_iff {p : Prog O A α} {s s' s'' : σ} {a b : α}
    (h : p.Yields does s a s') : p.Runs does s b s'' ↔ b = a ∧ s'' = s' := by
  have hend : ∀ {b s''}, p.Runs does s b s'' → b = a ∧ s'' = s' := fun hruns =>
    Discipline.wp_alone_runs (Q := fun b s'' => b = a ∧ s'' = s') h hruns
  refine ⟨hend, ?_⟩
  rintro ⟨rfl, rfl⟩
  obtain ⟨b', s', hruns⟩ := Discipline.wp_alone_exists h
  obtain ⟨rfl, rfl⟩ := hend hruns
  exact hruns

end StateSpectre
