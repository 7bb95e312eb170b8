import Mathlib.Init

/-!
# Computations that may fail

What is known of a computation in `Except` that did not fail: each of its steps did not
(`bind_eq_ok`), and what its steps keep is kept by a loop of them (`foldlM_keeps`,
`mem_mapM`, `forM_eq_ok`).

A computation in `EStateM` changes a state besides, which is left as it is then when it fails. It
is proved by saying how it ends in both cases (`Ends`), step by step (`Ends.bind`).
-/

namespace StateSpectre

variable {α β ε : Type}

theorem bind_eq_ok {x : Except ε α} {f : α → Except ε β} {b : β} :
    x >>= f = .ok b ↔ ∃ a, x = .ok a ∧ f a = .ok b := by
  cases x with
  | error e => exact ⟨(fun h => nomatch h), fun ⟨_, h, _⟩ => nomatch h⟩
  | ok a => exact ⟨fun h => ⟨a, rfl, h⟩, fun ⟨_, h, h'⟩ => Except.ok.inj h ▸ h'⟩

theorem foldlM_keeps {f : β → α → Except ε β} (P : β → Prop)
    (hstep : ∀ b a b', P b → f b a = .ok b' → P b') {l : List α} {b b' : β} (hb : P b)
    (h : l.foldlM f b = .ok b') : P b' := by
  induction l generalizing b with
  | nil =>
    obtain rfl : b = b' := Except.ok.inj h
    exact hb
  | cons a l ih =>
    rw [List.foldlM_cons, bind_eq_ok] at h
    obtain ⟨c, hc, h⟩ := h
    exact ih (hstep b a c hb hc) h

theorem mem_mapM {f : α → Except ε β} {l : List α} {l' : List β} (h : l.mapM f = .ok l') {b : β}
    (hb : b ∈ l') : ∃ a ∈ l, f a = .ok b := by
  induction l generalizing l' with
  | nil =>
    obtain rfl : [] = l' := Except.ok.inj h
    exact nomatch hb
  | cons a l ih =>
    simp only [List.mapM_cons, bind_eq_ok] at h
    obtain ⟨c, hc, cs, hcs, h⟩ := h
    obtain rfl : c :: cs = l' := Except.ok.inj h
    rcases List.mem_cons.1 hb with rfl | hb
    · exact ⟨a, List.mem_cons_self, hc⟩
    · obtain ⟨a', ha', hf⟩ := ih hcs hb
      exact ⟨a', List.mem_cons_of_mem _ ha', hf⟩

theorem forM_eq_ok {f : α → Except ε Unit} {l : List α} (h : l.forM f = .ok ()) :
    ∀ a ∈ l, f a = .ok () := by
  induction l with
  | nil => exact fun _ ha => nomatch ha
  | cons a l ih =>
    obtain ⟨_, ha, hl⟩ := bind_eq_ok.1 h
    exact List.forall_mem_cons.2 ⟨ha, ih hl⟩

/-! ## With a state -/

variable {σ : Type}

/-- From `s` the computation returns and `Q` holds then, or it fails and `E` holds. -/
def Ends (x : EStateM ε σ α) (s : σ) (Q : α → σ → Prop) (E : ε → σ → Prop) : Prop :=
  match x s with
  | .ok a s' => Q a s'
  | .error e s' => E e s'

namespace Ends

variable {x : EStateM ε σ α} {f : α → EStateM ε σ β} {s : σ} {Q Q' : α → σ → Prop}
  {E E' : ε → σ → Prop}

theorem mono (h : Ends x s Q E) (hQ : ∀ a s', Q a s' → Q' a s') (hE : ∀ e s', E e s' → E' e s') :
    Ends x s Q' E' := by
  unfold Ends at h ⊢
  split at h
  · exact hQ _ _ h
  · exact hE _ _ h

theorem bind {Q : β → σ → Prop} (h : Ends x s (fun a s' => Ends (f a) s' Q E) E) :
    Ends (x >>= f) s Q E := by
  change match EStateM.bind x f s with | .ok b s' => Q b s' | .error e s' => E e s'
  unfold Ends at h
  rw [EStateM.bind]
  split at h
  · next heq =>
    rw [heq]
    exact h
  · next heq =>
    rw [heq]
    exact h

end Ends

end StateSpectre
