import Mathlib.Data.List.Forall2
import StateSpectre.Yaml.Parser

/-!
# Trees and their rendering

A tree of scalars, maps and sequences (`YamlTree`) is written in block style: the entries of a map
one below the other, the value behind its key if it is a scalar, and below it otherwise, indented
by two spaces; the items of a sequence behind a dash (`YamlTree.render`). Blank lines and comments
may be put anywhere between the lines (`Written`).

Not every string can be written so (`PlainText`), and as a key, or as an item of a sequence, less
than as the value of a map (`Name`). The trees that can be written are the valid ones
(`YamlTree.Valid`).
-/

namespace StateSpectre.Yaml

/-! ## Trees -/

/-- A tree without line numbers, with the entries of a map in any order. -/
inductive YamlTree where
  | scalar (s : Text)
  | map (entries : List (Text × YamlTree))
  | seq (items : List YamlTree)

/-- The node is that tree: the same scalars, the same items in order, and the same values under
    the same keys. -/
inductive YamlNode.Is : YamlNode → YamlTree → Prop
  | scalar (s : Text) (line : ℕ) : Is (.scalar s line) (.scalar s)
  | map {m : List (Text × YamlNode)} {nodes : List YamlNode} {entries : List (Text × YamlTree)}
      (line : ℕ) : m.Perm ((entries.map Prod.fst).zip nodes) →
        List.Forall₂ Is nodes (entries.map Prod.snd) → Is (.map m line) (.map entries)
  | seq {nodes : List YamlNode} {items : List YamlTree} (line : ℕ) :
      List.Forall₂ Is nodes items → Is (.seq nodes line) (.seq items)

/-! ## Rendering -/

/-- A line: its indentation and its text. -/
abbrev Line := ℕ × Text

/-- The first line of an item, with its dash in front of it. -/
def dashed (n : ℕ) : List Line → List Line
  | [] => []
  | (_, t) :: lines => (n, '-' :: ' ' :: t) :: lines

/-- An entry of a map, whose value is rendered as those lines if it is no scalar. -/
def entryLines (n : ℕ) (key : Text) (value : YamlTree) (lines : List Line) : List Line :=
  match value with
  | .scalar s => [(n, key ++ ':' :: ' ' :: s)]
  | _ => (n, key ++ [':']) :: lines

mutual

/-- The lines of a tree that is indented by `n`. -/
def YamlTree.render (n : ℕ) : YamlTree → List Line
  | .scalar s => [(n, s)]
  | .map entries => renderEntries n entries
  | .seq items => renderItems n items

def renderEntries (n : ℕ) : List (Text × YamlTree) → List Line
  | [] => []
  | (key, value) :: entries =>
    entryLines n key value (value.render (n + 2)) ++ renderEntries n entries

def renderItems (n : ℕ) : List YamlTree → List Line
  | [] => []
  | item :: items => dashed n (item.render (n + 2)) ++ renderItems n items

end

/-- A line that is not seen: it is blank up to its end, or up to a comment. -/
def Unseen (raw : Text) : Prop := (∀ c ∈ stripComment raw, isBlank c) ∧ '\n' ∉ raw

/-- The lines are written in that order, with lines that are not seen anywhere between them. -/
inductive Written : List Text → List Line → Prop
  | nil : Written [] []
  | unseen {raw : Text} {raws : List Text} {lines : List Line} :
      Unseen raw → Written raws lines → Written (raw :: raws) lines
  | line {n : ℕ} {t : Text} {raws : List Text} {lines : List Line} :
      Written raws lines → Written ((List.replicate n ' ' ++ t) :: raws) ((n, t) :: lines)

/-! ## Valid trees -/

/-- The characters that end a line or start a comment, and tabs. -/
def isSpecial (c : Char) : Bool := c == '#' || c == '\n' || c == '\r' || c == '\t'

/-- A string that can be written: it is not empty, has no special characters, and no space at its
    ends. -/
structure PlainText (s : Text) : Prop where
  ne_nil : s ≠ []
  plain : ∀ c ∈ s, isSpecial c = false
  head : s.head? ≠ some ' '
  last : s.getLast? ≠ some ' '

/-- A string that can be written as a key, or as an item: it cannot be taken for an entry of a map,
    or for an item of a sequence. -/
structure Name (s : Text) : Prop extends PlainText s where
  no_colon : ':' ∉ s
  not_item : isItem s = false

/-- The value of an entry is a scalar. -/
def YamlTree.IsScalar : YamlTree → Prop
  | .scalar _ => True
  | _ => False

/-- The trees that can be written. -/
inductive YamlTree.Valid : YamlTree → Prop
  | scalar {s : Text} : Name s → Valid (.scalar s)
  | map {entries : List (Text × YamlTree)} : entries ≠ [] → (entries.map Prod.fst).Nodup →
      (∀ e ∈ entries, Name e.1) → (∀ e ∈ entries, ∀ s, e.2 = .scalar s → PlainText s) →
      (∀ e ∈ entries, ¬e.2.IsScalar → Valid e.2) → Valid (.map entries)
  | seq {items : List YamlTree} : items ≠ [] → (∀ t ∈ items, Valid t) → Valid (.seq items)

/-! ## Plain texts -/

namespace PlainText

variable {s t : Text}

theorem not_isBlank (h : PlainText s) {c : Char} (hc : c ∈ s) (hspace : c ≠ ' ') :
    isBlank c = false := by
  have hspecial := h.plain c hc
  simp only [isSpecial, isBlank, Bool.or_eq_false_iff, beq_eq_false_iff_ne] at hspecial ⊢
  exact ⟨⟨hspace, hspecial.2⟩, hspecial.1.2⟩

theorem not_isBlank_head (h : PlainText s) : ∀ c ∈ s.head?, isBlank c = false := fun _ hc =>
  h.not_isBlank (List.mem_of_mem_head? hc) fun he => h.head (he ▸ hc)

theorem not_isBlank_last (h : PlainText s) : ∀ c ∈ s.getLast?, isBlank c = false := fun _ hc =>
  h.not_isBlank (List.mem_of_mem_getLast? hc) fun he => h.last (he ▸ hc)

/-- A plain text with other characters between its parts. -/
theorem append (hs : PlainText s) (ht : PlainText t) (mid : Text)
    (hmid : ∀ c ∈ mid, isSpecial c = false) :
    PlainText (s ++ mid ++ t) where
  ne_nil := by simp [hs.ne_nil]
  plain := by
    simp only [List.mem_append]
    rintro c ((hc | hc) | hc)
    · exact hs.plain c hc
    · exact hmid c hc
    · exact ht.plain c hc
  head := by
    rw [List.append_assoc, List.head?_append_of_ne_nil _ hs.ne_nil]
    exact hs.head
  last := by
    rw [List.getLast?_append_of_ne_nil _ ht.ne_nil]
    exact ht.last

theorem singleton {c : Char} (hc : isSpecial c = false) (hspace : c ≠ ' ') : PlainText [c] where
  ne_nil := List.cons_ne_nil c []
  plain := List.forall_mem_singleton.2 hc
  head h := hspace (Option.some.inj h)
  last h := hspace (Option.some.inj h)

theorem strip_eq (h : PlainText s) : strip s = s := by
  have hdrop : s.dropWhile isBlank = s := by
    cases s with
    | nil => rfl
    | cons c s => exact List.dropWhile_cons_of_neg (by simp [h.not_isBlank_head c rfl])
  rw [strip, hdrop, rstrip, List.rdropWhile_eq_self_iff]
  intro hne
  simp [h.not_isBlank_last _ (List.getLast?_eq_getLast_of_ne_nil hne)]

/-- No space is in front of it. -/
theorem takeWhile_space (h : PlainText s) : s.takeWhile (· == ' ') = [] := by
  cases s with
  | nil => rfl
  | cons c s => exact List.takeWhile_cons_of_neg fun hc => h.head (by rw [← beq_iff_eq.1 hc]; rfl)

end PlainText

/-! ## Rendered lines -/

/-- An entry is one line, or a line above those of its value. -/
theorem entryLines_eq (n : ℕ) (key : Text) (value : YamlTree) (lines : List Line) :
    (∃ s, value = .scalar s ∧
        entryLines n key value lines = [(n, key ++ ':' :: ' ' :: s)]) ∨
      ¬value.IsScalar ∧ entryLines n key value lines = (n, key ++ [':']) :: lines := by
  cases value with
  | scalar s => exact .inl ⟨s, rfl, rfl⟩
  | map entries => exact .inr ⟨fun h => h, rfl⟩
  | seq items => exact .inr ⟨fun h => h, rfl⟩

/-- Rendering starts with a line of the indentation. -/
theorem YamlTree.Valid.render_eq_cons {t : YamlTree} (h : t.Valid) (n : ℕ) :
    ∃ text lines, t.render n = (n, text) :: lines := by
  induction h generalizing n with
  | @scalar s _ => exact ⟨s, [], rfl⟩
  | @map entries hne =>
    obtain ⟨⟨key, value⟩, entries, rfl⟩ := List.exists_cons_of_ne_nil hne
    rw [YamlTree.render, renderEntries]
    rcases entryLines_eq n key value (value.render (n + 2)) with ⟨s, -, heq⟩ | ⟨-, heq⟩
    · exact ⟨_, _, by rw [heq]; rfl⟩
    · exact ⟨_, _, by rw [heq]; rfl⟩
  | @seq items hne _ ih =>
    obtain ⟨item, items, rfl⟩ := List.exists_cons_of_ne_nil hne
    obtain ⟨text, lines, heq⟩ := ih item List.mem_cons_self (n + 2)
    exact ⟨'-' :: ' ' :: text, lines ++ renderItems n items, by
      rw [YamlTree.render, renderItems, heq]; rfl⟩

theorem mem_renderEntries {n : ℕ} {entries : List (Text × YamlTree)} {l : Line} :
    l ∈ renderEntries n entries ↔
      ∃ e ∈ entries, l ∈ entryLines n e.1 e.2 (e.2.render (n + 2)) := by
  induction entries with
  | nil => simp [renderEntries]
  | cons e entries ih => simp [renderEntries, ih]

theorem mem_renderItems {n : ℕ} {items : List YamlTree} {l : Line} :
    l ∈ renderItems n items ↔ ∃ t ∈ items, l ∈ dashed n (t.render (n + 2)) := by
  induction items with
  | nil => simp [renderItems]
  | cons t items ih => simp [renderItems, ih]

/-- All lines have plain texts. -/
theorem YamlTree.Valid.render_plain {t : YamlTree} (h : t.Valid) (n : ℕ) :
    ∀ l ∈ t.render n, PlainText l.2 := by
  induction h generalizing n with
  | scalar hs =>
    intro l hl
    rw [YamlTree.render, List.mem_singleton] at hl
    exact hl ▸ hs.toPlainText
  | map _ _ hkeys hscalars _ ih =>
    intro l hl
    obtain ⟨⟨key, value⟩, he, hl⟩ := mem_renderEntries.1 hl
    have hkey := (hkeys _ he).toPlainText
    rcases entryLines_eq n key value (value.render (n + 2)) with ⟨s, hs, heq⟩ | ⟨hs, heq⟩
    · rw [heq, List.mem_singleton] at hl
      rw [hl]
      simpa using hkey.append (hscalars _ he s hs) [':', ' '] (by simp [isSpecial])
    · rw [heq] at hl
      rcases List.mem_cons.1 hl with rfl | hl
      · simpa using hkey.append (.singleton rfl (by decide)) [] (fun _ hc => nomatch hc)
      · exact ih _ he hs (n + 2) l hl
  | seq _ hitems ih =>
    intro l hl
    obtain ⟨t, ht, hl⟩ := mem_renderItems.1 hl
    obtain ⟨text, lines, heq⟩ := (hitems t ht).render_eq_cons (n + 2)
    have hplain := ih t ht (n + 2)
    rw [heq] at hl hplain
    rcases List.mem_cons.1 hl with rfl | hl
    · have hdash : PlainText ['-'] := .singleton rfl (by decide)
      exact hdash.append (hplain _ List.mem_cons_self) [' '] (List.forall_mem_singleton.2 rfl)
    · exact hplain l (List.mem_cons_of_mem _ hl)

end StateSpectre.Yaml
