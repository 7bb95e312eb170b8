import StateSpectre.Lib.Fallible
import StateSpectre.Yaml.Parser

/-!
# The parser in place

The parser of the configuration goes over a vector of lines, with a position that it moves, and
rewrites the line of an item when it has come to it. Here it is written down in this way, with the
reads of the vector as they are in the source: a read behind the end is a fault of its own. Each
of the three functions notes where it was entered and where it returned.

It terminates (`parse_terminates`). The weight of a position is the number of the lines that are
left, together with the number of their characters. It goes down with every line, and also when the
line of an item is rewritten, as it loses its dash. The position goes on in each call that finds
lines, because a block is always entered with the indentation of its first line.

What it returns is what the parser of lists of lines returns (`parseNode_follows`).
-/

namespace StateSpectre.Yaml.InPlace

/-! ## The vector of lines -/

/-- Why there is no tree: as before, or lines were read behind the end. -/
inductive Fault where
  | parse (e : ParseError)
  | outOfBounds
  deriving DecidableEq, Repr

/-- The functions of the parser. -/
inductive Fn where
  | node
  | map
  | seq
  deriving DecidableEq, Repr

/-- A call that has returned: the position where it was entered, and the one that it left. -/
structure Return where
  fn : Fn
  entry : ℕ
  exit : ℕ
  deriving DecidableEq, Repr

/-- The lines, the position, and the calls that have returned so far. -/
structure Cursor where
  lines : List SrcLine
  i : ℕ := 0
  returns : List Return := []
  deriving Repr

/-- What the parser does to the lines and the position, which it is given by reference. -/
abbrev Parse := EStateM Fault Cursor

/-- `i < lines.size()`. -/
def more : Parse Bool := fun s => .ok (decide (s.i < s.lines.length)) s

/-- `lines[i]`. -/
def line : Parse SrcLine := fun s =>
  match s.lines[s.i]? with
  | some l => .ok l s
  | none => .error .outOfBounds s

/-- `++i`. -/
def advance : Parse Unit := fun s => .ok () { s with i := s.i + 1 }

/-- `lines[i]` is given another indentation and text. -/
def rewrite (indent : ℕ) (text : Text) : Parse Unit := fun s =>
  match s.lines[s.i]? with
  | some l => .ok () { s with lines := s.lines.set s.i { l with indent := indent, text := text } }
  | none => .error .outOfBounds s

/-- A call, which notes that it has returned. -/
def call (fn : Fn) (body : Parse YamlNode) : Parse YamlNode := do
  let entry ← get
  let node ← body
  modify fun s => { s with returns := s.returns ++ [⟨fn, entry.i, s.i⟩] }
  return node

/-- `parse_map` or `parse_seq`, up to its loop. -/
def enter (fn : Fn) (loop : ℕ → Parse YamlNode) : Parse YamlNode := call fn do
  if ← more then
    let l ← line
    loop l.lineno
  else loop 0

/-! ## The parser -/

mutual

def parseNode : ℕ → ℕ → Parse YamlNode
  | 0, _ => throw (.parse .outOfFuel)
  | fuel + 1, indent => call .node do
    if ← more then
      let l ← line
      if isItem l.text then enter .seq (seqLoop fuel indent [])
      else if ':' ∉ l.text then do
        advance
        return .scalar (strip l.text) l.lineno
      else enter .map (mapLoop fuel indent [])
    else return .empty 0
  termination_by structural fuel => fuel

/-- What is below a key or a dash. -/
def parseNested : ℕ → ℕ → ℕ → Parse YamlNode
  | 0, _, _ => throw (.parse .outOfFuel)
  | fuel + 1, indent, curLine => do
    if ← more then
      let next ← line
      if indent < next.indent then parseNode fuel next.indent
      else return .empty curLine
    else return .empty curLine
  termination_by structural fuel => fuel

/-- The loop of `parse_map`. -/
def mapLoop : ℕ → ℕ → List (Text × YamlNode) → ℕ → Parse YamlNode
  | 0, _, _, _ => throw (.parse .outOfFuel)
  | fuel + 1, indent, map, start => do
    if ← more then
      let l ← line
      if l.indent = indent ∧ !isItem l.text then
        match splitColon l.text with
        | none => throw (.parse (.thrown
            s!"config parse error at line {l.lineno}: expected 'key: value'"))
        | some (before, behind) => do
          let key := strip before
          let val := strip behind
          advance
          if val ≠ [] then mapLoop fuel indent (insertKey key (.scalar val l.lineno) map) start
          else do
            let child ← parseNested fuel indent l.lineno
            mapLoop fuel indent (insertKey key child map) start
      else return .map map start
    else return .map map start
  termination_by structural fuel => fuel

/-- The loop of `parse_seq`. -/
def seqLoop : ℕ → ℕ → List YamlNode → ℕ → Parse YamlNode
  | 0, _, _, _ => throw (.parse .outOfFuel)
  | fuel + 1, indent, seq, start => do
    if ← more then
      let l ← line
      if l.indent = indent ∧ isItem l.text then
        let content := l.text.drop (itemStart l.text)
        if content = [] then do
          advance
          let child ← parseNested fuel indent l.lineno
          seqLoop fuel indent (seq ++ [child]) start
        else do
          let itemIndent := indent + itemStart l.text
          rewrite itemIndent content
          let child ← parseNode fuel itemIndent
          seqLoop fuel indent (seq ++ [child]) start
      else return .seq seq start
    else return .seq seq start
  termination_by structural fuel => fuel

end

variable {α : Type} {s s' s'' : Cursor} {l : SrcLine} {Q : YamlNode → Cursor → Prop}
  {E : Fault → Cursor → Prop} {indent fuel : ℕ} {start : ℕ} {curLine : ℕ}
  {map : List (Text × YamlNode)} {seq : List YamlNode}

section

variable {f : Unit → Parse YamlNode}

theorem ends_more {f : Bool → Parse YamlNode}
    (hmore : ∀ l, s.lines[s.i]? = some l → Ends (f true) s Q E)
    (hend : s.lines.length ≤ s.i → Ends (f false) s Q E) : Ends (more >>= f) s Q E := by
  refine Ends.bind (x := more) ?_
  by_cases hlt : s.i < s.lines.length
  · have h := hmore _ (List.getElem?_eq_getElem hlt)
    change Ends (f (decide (s.i < s.lines.length))) s Q E
    rwa [decide_eq_true hlt]
  · have h := hend (Nat.le_of_not_lt hlt)
    change Ends (f (decide (s.i < s.lines.length))) s Q E
    rwa [decide_eq_false hlt]

theorem ends_line {f : SrcLine → Parse YamlNode} (hl : s.lines[s.i]? = some l)
    (h : Ends (f l) s Q E) : Ends (line >>= f) s Q E := by
  refine Ends.bind ?_
  rw [Ends, line, hl]
  exact h

theorem ends_advance (h : Ends (f ()) { s with i := s.i + 1 } Q E) :
    Ends (advance >>= f) s Q E := Ends.bind h

theorem ends_rewrite {text : Text} (hl : s.lines[s.i]? = some l)
    (h : Ends (f ())
      { s with lines := s.lines.set s.i { l with indent := indent, text := text } } Q E) :
    Ends (rewrite indent text >>= f) s Q E := by
  refine Ends.bind ?_
  rw [Ends, rewrite, hl]
  exact h

end

/-- A call ends as its body does, with a note. -/
theorem ends_call {fn : Fn} {body : Parse YamlNode} (h : Ends body s
      (fun node s' => Q node { s' with returns := s'.returns ++ [⟨fn, s.i, s'.i⟩] }) E) :
    Ends (call fn body) s Q E := by
  refine Ends.bind (?_ : Ends get s _ _)
  exact Ends.bind h

/-- A block is entered at a line. -/
theorem ends_enter {fn : Fn} {loop : ℕ → Parse YamlNode} (hl : s.lines[s.i]? = some l)
    (h : Ends (loop l.lineno) s
      (fun node s' => Q node { s' with returns := s'.returns ++ [⟨fn, s.i, s'.i⟩] }) E) :
    Ends (enter fn loop) s Q E := by
  refine ends_call (ends_more (fun l' hl' => ends_line hl' ?_) fun hend => ?_)
  · rwa [Option.some.inj (hl'.symm.trans hl)]
  · exact absurd (List.getElem?_eq_some_iff.1 hl).1 (Nat.not_lt.2 hend)

theorem drop_eq_cons (hl : s.lines[s.i]? = some l) :
    s.lines.drop s.i = l :: s.lines.drop (s.i + 1) := by
  obtain ⟨hi, rfl⟩ := List.getElem?_eq_some_iff.1 hl
  exact List.drop_eq_getElem_cons hi

theorem drop_set_eq_cons {l' : SrcLine} (hl : s.lines[s.i]? = some l) :
    (s.lines.set s.i l').drop s.i = l' :: s.lines.drop (s.i + 1) := by
  have hi : s.i < (s.lines.set s.i l').length := by
    rw [List.length_set]
    exact (List.getElem?_eq_some_iff.1 hl).1
  rw [List.drop_eq_getElem_cons hi, List.getElem_set_self,
    List.drop_set_of_lt (Nat.lt_add_one _)]

/-! ## Progress -/

/-- Every call that was entered with lines left has gone on. -/
def Cursor.Advances (s : Cursor) : Prop :=
  ∀ r ∈ s.returns, r.entry < s.lines.length → r.entry < r.exit

/-- The number of the lines and of their characters. -/
def weight (lines : List SrcLine) : ℕ := (lines.map fun l => l.text.length + 1).sum

theorem weight_cons (l : SrcLine) (lines : List SrcLine) :
    weight (l :: lines) = l.text.length + 1 + weight lines := rfl

theorem weight_drop_le (lines : List SrcLine) (k : ℕ) : weight (lines.drop k) ≤ weight lines := by
  conv_rhs => rw [← List.take_append_drop k lines]
  rw [weight, weight, List.map_append, List.sum_append]
  exact Nat.le_add_left ..

/-- What is left at the position. -/
def Cursor.weight (s : Cursor) : ℕ := InPlace.weight (s.lines.drop s.i)

/-- From one position the parser comes to another, behind which the lines are unchanged. -/
structure Cursor.Leads (s s' : Cursor) : Prop where
  length : s'.lines.length = s.lines.length
  le : s.i ≤ s'.i
  inside : s.i ≤ s.lines.length → s'.i ≤ s.lines.length
  rest : s'.lines.drop s'.i = s.lines.drop s'.i

namespace Cursor.Leads

theorem refl (s : Cursor) : s.Leads s := ⟨rfl, le_rfl, id, rfl⟩

theorem trans (h : s.Leads s') (h' : s'.Leads s'') : s.Leads s'' where
  length := h'.length.trans h.length
  le := h.le.trans h'.le
  inside hs := h.length ▸ h'.inside (h.length ▸ h.inside hs)
  rest := by
    have hdrop := congrArg (List.drop (s''.i - s'.i)) h.rest
    rw [List.drop_drop, List.drop_drop, Nat.add_sub_cancel' h'.le] at hdrop
    exact h'.rest.trans hdrop

theorem next (hl : s.lines[s.i]? = some l) : s.Leads { s with i := s.i + 1 } where
  length := rfl
  le := Nat.le_succ _
  inside _ := (List.getElem?_eq_some_iff.1 hl).1
  rest := rfl

/-- The line at the position was rewritten, and is left behind. -/
theorem of_rewrite (h : { s with lines := s.lines.set s.i l }.Leads s') (hlt : s.i < s'.i) :
    s.Leads s' where
  length := by rw [h.length, List.length_set]
  le := h.le
  inside hs := by simpa using h.inside (by simpa using hs)
  rest := by rw [h.rest, List.drop_set_of_lt hlt]

theorem note {r : List Return} (h : s.Leads s') : s.Leads { s' with returns := r } :=
  ⟨h.length, h.le, h.inside, h.rest⟩

/-- Less is left behind a line. -/
theorem weight_lt (h : s.Leads s') (hl : s.lines[s.i]? = some l) (hlt : s.i < s'.i) :
    s'.weight < s.weight := by
  have hdrop : s.lines.drop s'.i = (s.lines.drop (s.i + 1)).drop (s'.i - (s.i + 1)) := by
    rw [List.drop_drop, Nat.add_sub_cancel' hlt]
  rw [Cursor.weight, Cursor.weight, h.rest, hdrop, drop_eq_cons hl, weight_cons]
  have hle := weight_drop_le (s.lines.drop (s.i + 1)) (s'.i - (s.i + 1))
  omega

end Cursor.Leads

namespace Cursor

theorem Advances.of_eq (h : s.Advances) (hreturns : s'.returns = s.returns)
    (hlength : s'.lines.length = s.lines.length) : s'.Advances := by
  rw [Advances, hreturns, hlength]
  exact h

/-- A call that has gone on is noted. -/
theorem Advances.note {fn : Fn} (h : s'.Advances) (hleads : s.Leads s')
    (hlt : s.i < s.lines.length → s.i < s'.i) :
    Advances { s' with returns := s'.returns ++ [⟨fn, s.i, s'.i⟩] } := by
  intro r hr hentry
  rcases List.mem_append.1 hr with hr | hr
  · exact h r hr hentry
  · obtain rfl := List.mem_singleton.1 hr
    exact hlt (hleads.length ▸ hentry)

theorem Advances.rewrite (h : s.Advances) (l : SrcLine) :
    Advances { s with lines := s.lines.set s.i l } := h.of_eq rfl List.length_set

/-- An item loses its dash when its line is rewritten. -/
theorem weight_rewrite_lt (indent : ℕ) (hl : s.lines[s.i]? = some l) (hitem : isItem l.text) :
    { s with
      lines := s.lines.set s.i
        { l with indent := indent, text := l.text.drop (itemStart l.text) } }.weight
      < s.weight := by
  have hpos : l.text.length ≠ 0 := by
    intro hzero
    rw [List.length_eq_zero_iff.1 hzero] at hitem
    cases hitem
  have hstart : 0 < itemStart l.text := Nat.lt_add_right _ Nat.zero_lt_one
  dsimp only [Cursor.weight]
  rw [drop_eq_cons hl, drop_set_eq_cons hl, weight_cons, weight_cons, List.length_drop]
  omega

end Cursor

/-- A call has failed with an exception. -/
def Failed (length : ℕ) (e : Fault) (s : Cursor) : Prop :=
  s.Advances ∧ s.lines.length = length ∧ ∃ message, e = .parse (.thrown message)

/-- The computation returns or throws, and goes on if it begins at a line that meets `P`. -/
def GoesOn (x : Parse YamlNode) (s : Cursor) (P : SrcLine → Prop) : Prop :=
  Ends x s (fun _ s' => s'.Advances ∧ s.Leads s' ∧
    ∀ l, s.lines[s.i]? = some l → P l → s.i < s'.i) (Failed s.lines.length)

/-- With so much fuel every call returns or throws. -/
structure Progress (fuel : ℕ) : Prop where
  node : ∀ s indent, s.Advances → (∀ l, s.lines[s.i]? = some l → l.indent = indent) →
    3 * s.weight + 2 ≤ fuel → GoesOn (parseNode fuel indent) s fun _ => True
  nested : ∀ s indent curLine, s.Advances → 3 * s.weight + 3 ≤ fuel →
    GoesOn (parseNested fuel indent curLine) s fun _ => False
  map : ∀ s indent map start, s.Advances → 3 * s.weight + 1 ≤ fuel →
    GoesOn (mapLoop fuel indent map start) s fun l => l.indent = indent ∧ !isItem l.text
  seq : ∀ s indent seq start, s.Advances → 3 * s.weight + 1 ≤ fuel →
    GoesOn (seqLoop fuel indent seq start) s fun l => l.indent = indent ∧ isItem l.text

/-- It stops where it is, as it is at no such line. -/
theorem GoesOn.stop {P : SrcLine → Prop} {node : YamlNode} (hs : s.Advances)
    (hP : ∀ l, s.lines[s.i]? = some l → ¬P l) : GoesOn (return node) s P :=
  ⟨hs, .refl s, fun l hl h => absurd h (hP l hl)⟩

/-- A call that goes on is noted as such. -/
theorem GoesOn.call {fn : Fn} {body : Parse YamlNode} (h : GoesOn body s fun _ => True) :
    GoesOn (call fn body) s fun _ => True := by
  refine ends_call (h.mono (fun _ s' h' => ⟨h'.1.note h'.2.1 fun hlt => ?_, h'.2.1.note, h'.2.2⟩)
    fun _ _ => id)
  exact h'.2.2 _ (List.getElem?_eq_getElem hlt) trivial

theorem GoesOn.enter {fn : Fn} {loop : ℕ → Parse YamlNode} {P : SrcLine → Prop}
    (h : GoesOn (loop l.lineno) s P) (hl : s.lines[s.i]? = some l) (hP : P l) :
    GoesOn (enter fn loop) s fun _ => True := by
  refine ends_enter hl (h.mono (fun _ s' h' => ?_) fun _ _ => id)
  have hlt := h'.2.2 l hl hP
  exact ⟨h'.1.note h'.2.1 fun _ => hlt, h'.2.1.note, fun _ _ _ => hlt⟩

theorem not_line_of_le {P : SrcLine → Prop} (hend : s.lines.length ≤ s.i) (l : SrcLine)
    (hl : s.lines[s.i]? = some l) : P l :=
  absurd (List.getElem?_eq_some_iff.1 hl).1 (Nat.not_lt.2 hend)

namespace Progress

theorem nested_succ (h : Progress fuel) (hs : s.Advances) (hfuel : 3 * s.weight + 3 ≤ fuel + 1) :
    GoesOn (parseNested (fuel + 1) indent curLine) s fun _ => False := by
  rw [parseNested]
  refine ends_more (fun next hnext => ends_line hnext ?_) fun _ => GoesOn.stop hs fun _ _ => id
  split
  · refine (h.node s next.indent hs (fun l hl => ?_) (by omega)).mono (fun _ s' h' => ?_)
      fun _ _ => id
    · rw [Option.some.inj (hl.symm.trans hnext)]
    · exact ⟨h'.1, h'.2.1, fun _ _ => False.elim⟩
  · exact GoesOn.stop hs fun _ _ => id

/-- A loop goes on behind the line where it was. -/
theorem again {loop : Parse YamlNode} {P : SrcLine → Prop} (hloop : GoesOn loop s' P)
    (hleads : s.Leads s') (hlt : s.i < s'.i) :
    Ends loop s' (fun _ s'' => s''.Advances ∧ s.Leads s'' ∧
      ∀ l, s.lines[s.i]? = some l → P l → s.i < s''.i) (Failed s.lines.length) := by
  rw [GoesOn, hleads.length] at hloop
  refine hloop.mono (fun _ s'' h' => ?_) fun _ _ => id
  exact ⟨h'.1, hleads.trans h'.2.1, fun _ _ _ => hlt.trans_le h'.2.1.le⟩

/-- What is nested begins behind the line. -/
theorem nested_next (h : Progress fuel) (hs : s.Advances) (hl : s.lines[s.i]? = some l)
    (hfuel : 3 * s.weight ≤ fuel) :
    Ends (parseNested fuel indent curLine) { s with i := s.i + 1 }
      (fun _ s' => s'.Advances ∧ s.Leads s' ∧ s.i < s'.i ∧ s'.weight < s.weight)
      (Failed s.lines.length) := by
  have hnext := Cursor.Leads.next hl
  have hs' : Cursor.Advances { s with i := s.i + 1 } := hs.of_eq rfl rfl
  have hless := hnext.weight_lt hl (Nat.lt_succ_self _)
  refine (h.nested _ indent curLine hs' (by omega)).mono (fun _ s₂ h₂ => ?_) fun _ _ => id
  have hleads := hnext.trans h₂.2.1
  have hlt : s.i < s₂.i := h₂.2.1.le
  exact ⟨h₂.1, hleads, hlt, hleads.weight_lt hl hlt⟩

theorem map_succ (h : Progress fuel) (hs : s.Advances) (hfuel : 3 * s.weight + 1 ≤ fuel + 1) :
    GoesOn (mapLoop (fuel + 1) indent map start) s
      fun l => l.indent = indent ∧ !isItem l.text := by
  rw [mapLoop]
  refine ends_more (fun l hl => ends_line hl ?_) fun hend => GoesOn.stop hs (not_line_of_le hend)
  split
  · split
    · exact ⟨hs, rfl, _, rfl⟩
    · refine ends_advance ?_
      split
      · have hnext := Cursor.Leads.next hl
        have hs' : Cursor.Advances { s with i := s.i + 1 } := hs.of_eq rfl rfl
        have hless := hnext.weight_lt hl (Nat.lt_succ_self _)
        exact again (h.map _ indent _ start hs' (by omega)) hnext (Nat.lt_succ_self _)
      · refine Ends.bind ((h.nested_next hs hl (by omega)).mono (fun child s₂ h₂ => ?_)
          fun _ _ => id)
        obtain ⟨hs₂, hleads, hlt, hless⟩ := h₂
        exact again (h.map s₂ indent _ start hs₂ (by omega)) hleads hlt
  · next hcond => exact GoesOn.stop hs fun l' hl' => Option.some.inj (hl.symm.trans hl') ▸ hcond

theorem seq_succ (h : Progress fuel) (hs : s.Advances) (hfuel : 3 * s.weight + 1 ≤ fuel + 1) :
    GoesOn (seqLoop (fuel + 1) indent seq start) s
      fun l => l.indent = indent ∧ isItem l.text := by
  rw [seqLoop]
  refine ends_more (fun l hl => ends_line hl ?_) fun hend => GoesOn.stop hs (not_line_of_le hend)
  split
  · next hcond =>
    dsimp only
    split
    · refine ends_advance (Ends.bind ((h.nested_next hs hl (by omega)).mono
        (fun child s₂ h₂ => ?_) fun _ _ => id))
      obtain ⟨hs₂, hleads, hlt, hless⟩ := h₂
      exact again (h.seq s₂ indent _ start hs₂ (by omega)) hleads hlt
    · -- The line is shorter now, and the item begins where it is indented to.
      refine ends_rewrite hl ?_
      have hset := List.getElem?_set_self (a := { l with
        indent := indent + itemStart l.text, text := l.text.drop (itemStart l.text) })
        (List.getElem?_eq_some_iff.1 hl).1
      have hless := Cursor.weight_rewrite_lt (indent + itemStart l.text) hl hcond.2
      refine Ends.bind ((h.node _ (indent + itemStart l.text)
        (hs.rewrite _) ?_ (by omega)).mono (fun child s₂ h₂ => ?_) ?_)
      · intro l' hl'
        rw [← Option.some.inj (hset.symm.trans hl')]
      · have hlt : s.i < s₂.i := h₂.2.2 _ hset trivial
        have hleads := h₂.2.1.of_rewrite hlt
        have hless₂ := hleads.weight_lt hl hlt
        exact again (h.seq s₂ indent _ start h₂.1 (by omega)) hleads hlt
      · intro e s₂ hfailed
        rwa [List.length_set] at hfailed
  · next hcond => exact GoesOn.stop hs fun l' hl' => Option.some.inj (hl.symm.trans hl') ▸ hcond

theorem node_succ (h : Progress fuel) (hs : s.Advances)
    (hindent : ∀ l, s.lines[s.i]? = some l → l.indent = indent)
    (hfuel : 3 * s.weight + 2 ≤ fuel + 1) :
    GoesOn (parseNode (fuel + 1) indent) s fun _ => True := by
  rw [parseNode]
  refine GoesOn.call (ends_more (fun l hl => ends_line hl ?_) fun hend =>
    GoesOn.stop hs (not_line_of_le hend))
  split
  · next hitem => exact (h.seq s indent [] l.lineno hs (by omega)).enter hl ⟨hindent l hl, hitem⟩
  · next hitem =>
    split
    · exact ends_advance ⟨hs.of_eq rfl rfl, .next hl, fun _ _ _ => Nat.lt_succ_self _⟩
    · exact (h.map s indent [] l.lineno hs (by omega)).enter hl
        ⟨hindent l hl, by simpa using hitem⟩

end Progress

/-- Every amount of fuel is enough for the positions that it is meant for. -/
theorem progress (fuel : ℕ) : Progress fuel := by
  induction fuel with
  | zero =>
    refine ⟨?_, ?_, ?_, ?_⟩
    · exact fun s _ _ _ hfuel => absurd hfuel (by omega)
    · exact fun s _ _ _ hfuel => absurd hfuel (by omega)
    · exact fun s _ _ _ _ hfuel => absurd hfuel (by omega)
    · exact fun s _ _ _ _ hfuel => absurd hfuel (by omega)
  | succ fuel ih =>
    exact ⟨fun _ _ hs hindent hfuel => ih.node_succ hs hindent hfuel,
      fun _ _ _ hs hfuel => ih.nested_succ hs hfuel,
      fun _ _ _ _ hs hfuel => ih.map_succ hs hfuel, fun _ _ _ _ hs hfuel => ih.seq_succ hs hfuel⟩

/-- For every list of lines, with fuel for its characters: `parse_node`, called as by `load_config`,
    returns or throws an exception of its own, so that no call below it goes on forever or reads
    behind the end. Each call that was entered with lines left and has returned has advanced, also
    if there is an exception later on. -/
theorem parse_terminates (lines : List SrcLine) :
    ∃ enough, ∀ fuel ≥ enough,
      Ends (parseNode fuel (lines.head?.elim 0 SrcLine.indent)) { lines := lines }
        (fun _ s => s.i ≤ lines.length ∧ (lines ≠ [] → 0 < s.i) ∧
          ∀ r ∈ s.returns, r.entry < lines.length → r.entry < r.exit)
        (fun e s => (∃ message, e = .parse (.thrown message)) ∧
          ∀ r ∈ s.returns, r.entry < lines.length → r.entry < r.exit) := by
  refine ⟨3 * weight lines + 2, fun fuel hfuel => ?_⟩
  refine ((progress fuel).node { lines := lines } _ (fun _ hr => nomatch hr) (fun l hl => ?_)
    hfuel).mono (fun _ s h => ?_) fun e s h => ?_
  · have hhead : lines.head? = some l := List.head?_eq_getElem?.trans hl
    rw [hhead]
    rfl
  · obtain ⟨hs, hleads, hlt⟩ := h
    refine ⟨hleads.inside (Nat.zero_le _), fun hne => ?_, ?_⟩
    · exact hlt _ (List.getElem?_eq_getElem (List.length_pos_iff.2 hne)) trivial
    rw [← hleads.length]
    exact hs
  · obtain ⟨hs, hlength, hmessage⟩ := h
    refine ⟨hmessage, ?_⟩
    rw [← hlength]
    exact hs

/-! ## The parser of lists -/

/-- The computation ends as that on the lines that are left. -/
def Follows (x : Parse α) (s : Cursor) (r : Except ParseError (α × List SrcLine)) : Prop :=
  Ends x s (fun a s' => r = .ok (a, s'.lines.drop s'.i))
    fun e _ => ∃ e', e = .parse e' ∧ r = .error e'

namespace Follows

variable {node : YamlNode} {r : Except ParseError (YamlNode × List SrcLine)}

theorem call {fn : Fn} {body : Parse YamlNode} (h : Follows body s r) :
    Follows (call fn body) s r := ends_call h

theorem bind {x : Parse YamlNode} {f : YamlNode → Parse YamlNode}
    {g : YamlNode × List SrcLine → Except ParseError (YamlNode × List SrcLine)}
    (hx : Follows x s r) (hf : ∀ a s', Follows (f a) s' (g (a, s'.lines.drop s'.i))) :
    Follows (x >>= f) s (r >>= g) := by
  refine Ends.bind (hx.mono (fun a s' h => ?_) fun e s' h => ?_)
  · rw [h]
    exact hf a s'
  · obtain ⟨e', he, hr⟩ := h
    exact ⟨e', he, by rw [hr]; rfl⟩

end Follows

/-- The functions in place follow those on lists. -/
structure FollowsAll (fuel : ℕ) : Prop where
  node : ∀ s indent,
    Follows (parseNode fuel indent) s (Yaml.parseNode fuel indent (s.lines.drop s.i))
  nested : ∀ s indent curLine, Follows (parseNested fuel indent curLine) s
    (Yaml.parseNested fuel indent curLine (s.lines.drop s.i))
  map : ∀ s indent map start, Follows (mapLoop fuel indent map start) s
    (parseMap fuel indent map start (s.lines.drop s.i))
  seq : ∀ s indent seq start, Follows (seqLoop fuel indent seq start) s
    (parseSeq fuel indent seq start (s.lines.drop s.i))

namespace FollowsAll

theorem nested_succ (h : FollowsAll fuel) : Follows (parseNested (fuel + 1) indent curLine) s
      (Yaml.parseNested (fuel + 1) indent curLine (s.lines.drop s.i)) := by
  rw [parseNested]
  refine ends_more (fun next hnext => ends_line hnext ?_) fun hend => ?_
  · have hdrop := drop_eq_cons hnext
    rw [hdrop, Yaml.parseNested]
    split
    · rw [← hdrop]
      exact h.node s next.indent
    · rw [← hdrop]
      rfl
  · have hnil := List.drop_eq_nil_iff.2 hend
    rw [hnil, Yaml.parseNested, ← hnil]
    rfl

theorem map_succ (h : FollowsAll fuel) : Follows (mapLoop (fuel + 1) indent map start) s
      (parseMap (fuel + 1) indent map start (s.lines.drop s.i)) := by
  rw [mapLoop]
  refine ends_more (fun l hl => ends_line hl ?_) fun hend => ?_
  · have hdrop := drop_eq_cons hl
    rw [hdrop, parseMap]
    split
    · rcases splitColon l.text with _ | ⟨before, behind⟩
      · exact ⟨_, rfl, rfl⟩
      · refine ends_advance ?_
        dsimp only
        split
        · exact h.map { s with i := s.i + 1 } indent _ start
        · exact Follows.bind (h.nested { s with i := s.i + 1 } indent l.lineno) fun child s' =>
            h.map s' indent _ start
    · rw [← hdrop]
      rfl
  · have hnil := List.drop_eq_nil_iff.2 hend
    rw [hnil, parseMap, ← hnil]
    rfl

theorem seq_succ (h : FollowsAll fuel) : Follows (seqLoop (fuel + 1) indent seq start) s
      (parseSeq (fuel + 1) indent seq start (s.lines.drop s.i)) := by
  rw [seqLoop]
  refine ends_more (fun l hl => ends_line hl ?_) fun hend => ?_
  · have hdrop := drop_eq_cons hl
    rw [hdrop, parseSeq]
    split
    · dsimp only
      split
      · exact ends_advance (Follows.bind (h.nested { s with i := s.i + 1 } indent l.lineno)
          fun child s' => h.seq s' indent _ start)
      · refine ends_rewrite hl (Follows.bind ?_ fun child s' => h.seq s' indent _ start)
        have hnode := h.node
          { s with
            lines := s.lines.set s.i
              { l with
                indent := indent + itemStart l.text, text := l.text.drop (itemStart l.text) } }
          (indent + itemStart l.text)
        dsimp only at hnode
        rwa [drop_set_eq_cons hl] at hnode
    · rw [← hdrop]
      rfl
  · have hnil := List.drop_eq_nil_iff.2 hend
    rw [hnil, parseSeq, ← hnil]
    rfl

theorem node_succ (h : FollowsAll fuel) :
    Follows (parseNode (fuel + 1) indent) s
      (Yaml.parseNode (fuel + 1) indent (s.lines.drop s.i)) := by
  rw [parseNode]
  refine Follows.call (ends_more (fun l hl => ends_line hl ?_) fun hend => ?_)
  · have hdrop := drop_eq_cons hl
    rw [hdrop, Yaml.parseNode]
    split
    · rw [← hdrop]
      exact ends_enter hl (h.seq s indent [] l.lineno)
    · split
      · exact ends_advance rfl
      · rw [← hdrop]
        exact ends_enter hl (h.map s indent [] l.lineno)
  · have hnil := List.drop_eq_nil_iff.2 hend
    rw [hnil, Yaml.parseNode, ← hnil]
    rfl

end FollowsAll

theorem followsAll (fuel : ℕ) : FollowsAll fuel := by
  induction fuel with
  | zero =>
    refine ⟨?_, ?_, ?_, ?_⟩
    · exact fun s _ => ⟨_, rfl, by rw [Yaml.parseNode]⟩
    · exact fun s _ _ => ⟨_, rfl, by rw [Yaml.parseNested]⟩
    · exact fun s _ _ _ => ⟨_, rfl, by rw [parseMap]⟩
    · exact fun s _ _ _ => ⟨_, rfl, by rw [parseSeq]⟩
  | succ fuel ih =>
    exact ⟨fun _ _ => ih.node_succ, fun _ _ _ => ih.nested_succ, fun _ _ _ _ => ih.map_succ,
      fun _ _ _ _ => ih.seq_succ⟩

/-- The parser in place returns the tree that the parser of lists returns, and leaves the position
    where that one leaves the lines; or both fail in the same way. -/
theorem parseNode_follows (fuel indent : ℕ) (lines : List SrcLine) :
    Follows (parseNode fuel indent) { lines := lines } (Yaml.parseNode fuel indent lines) :=
  (followsAll fuel).node { lines := lines } indent

end StateSpectre.Yaml.InPlace
