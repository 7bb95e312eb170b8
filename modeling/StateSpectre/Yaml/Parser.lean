import Mathlib.Algebra.GroupWithZero.Nat
import Mathlib.Data.List.DropRight
import Mathlib.Data.Char
import Mathlib.Order.Lex

/-!
# The parser of the configuration

The configuration is a file in a subset of YAML. It is cut into the lines that are not blank, each
with its indentation and without its comment (`tokenize`), and these are parsed by three functions
that call each other: a line with a dash starts a sequence, one with a colon a map, and any other
one is a scalar (`parseNode`). A map or a sequence goes on as long as lines have its indentation.

The item of a sequence starts behind the dash. To parse it, its first line is rewritten as if the
dash were a part of the indentation. So the parser goes through the lines from the first to the
last, but may stay at a line for a while. It is given fuel here, for each call and for each round
of a loop.
-/

namespace StateSpectre.Yaml

/-- A string of characters. -/
abbrev Text := List Char

/-! ## Trees -/

/-- A node of the tree (`YamlNode`), with the line where it began. A map is kept in the order of
    its keys. -/
inductive YamlNode where
  | empty (line : ℕ)
  | scalar (scalar : Text) (line : ℕ)
  | map (map : List (Text × YamlNode)) (line : ℕ)
  | seq (seq : List YamlNode) (line : ℕ)
  deriving Repr

/-- A value is put under its key, in place of the one that is there. -/
def insertKey (key : Text) (node : YamlNode) : List (Text × YamlNode) → List (Text × YamlNode)
  | [] => [(key, node)]
  | (k, v) :: m =>
    if key < k then (key, node) :: (k, v) :: m
    else if key = k then (key, node) :: m
    else (k, v) :: insertKey key node m

/-- Why there is no tree: an exception with its message, or the fuel is used up. -/
inductive ParseError where
  | thrown (message : String)
  | outOfFuel
  deriving DecidableEq, Repr

/-! ## Lines -/

/-- A line that is not blank: its indentation, its number and its text. -/
structure SrcLine where
  indent : ℕ
  lineno : ℕ
  text : Text
  deriving DecidableEq, Repr

/-- The characters that are stripped. -/
def isBlank (c : Char) : Bool := c == ' ' || c == '\t' || c == '\r'

/-- Without blanks at the end. -/
def rstrip (s : Text) : Text := s.rdropWhile isBlank

/-- Without blanks at both ends. -/
def strip (s : Text) : Text := rstrip (s.dropWhile isBlank)

/-- Without the comment. -/
def stripComment (s : Text) : Text := s.takeWhile (· != '#')

/-- A line of the file, if it is not blank. Tabs are refused where the text starts. -/
def tokenizeLine (lineno : ℕ) (raw : Text) : Except ParseError (Option SrcLine) :=
  let trimmed := rstrip (stripComment raw)
  if strip trimmed = [] then .ok none
  else
    let indent := (trimmed.takeWhile (· == ' ')).length
    if '\t' ∈ trimmed ∧ indent < (trimmed.takeWhile fun c => c == ' ' || c == '\t').length then
      .error (.thrown (s!"config parse error at line {lineno}: tabs are not allowed" ++
        " for indentation"))
    else .ok (some ⟨indent, lineno, trimmed.drop indent⟩)

/-- The lines from the number `lineno` on. -/
def tokenizeFrom : ℕ → List Text → Except ParseError (List SrcLine)
  | _, [] => .ok []
  | lineno, raw :: raws => do
    let line ← tokenizeLine lineno raw
    let lines ← tokenizeFrom (lineno + 1) raws
    return line.toList ++ lines

/-- The lines of a file that are not blank. -/
def tokenize (content : Text) : Except ParseError (List SrcLine) :=
  tokenizeFrom 1 (content.splitOn '\n')

/-! ## The parser -/

/-- The line starts an item of a sequence. -/
def isItem (t : Text) : Bool := ['-', ' '].isPrefixOf t || t == ['-']

/-- The parts of a line before and behind its first colon. -/
def splitColon (t : Text) : Option (Text × Text) :=
  if ':' ∈ t then some (t.takeWhile (· != ':'), (t.dropWhile (· != ':')).tail) else none

/-- Where the content of an item begins: behind its dash and the spaces that follow. -/
def itemStart (t : Text) : ℕ := 1 + ((t.drop 1).takeWhile (· == ' ')).length

mutual

/-- `parse_node`: a node from the first of the lines on, and the lines behind it. -/
def parseNode : ℕ → ℕ → List SrcLine → Except ParseError (YamlNode × List SrcLine)
  | 0, _, _ => .error .outOfFuel
  | _ + 1, _, [] => .ok (.empty 0, [])
  | fuel + 1, indent, l :: rest =>
    if isItem l.text then parseSeq fuel indent [] l.lineno (l :: rest)
    else if ':' ∉ l.text then .ok (.scalar (strip l.text) l.lineno, rest)
    else parseMap fuel indent [] l.lineno (l :: rest)
  termination_by structural fuel => fuel

/-- What is below a key or a dash: a nested block, if the next line is indented more deeply, and
    nothing otherwise. -/
def parseNested : ℕ → ℕ → ℕ → List SrcLine → Except ParseError (YamlNode × List SrcLine)
  | 0, _, _, _ => .error .outOfFuel
  | _ + 1, _, line, [] => .ok (.empty line, [])
  | fuel + 1, indent, line, next :: rest =>
    if indent < next.indent then parseNode fuel next.indent (next :: rest)
    else .ok (.empty line, next :: rest)
  termination_by structural fuel => fuel

/-- The loop of `parse_map`, with the entries so far and the line where the map began. -/
def parseMap : ℕ → ℕ → List (Text × YamlNode) → ℕ → List SrcLine →
    Except ParseError (YamlNode × List SrcLine)
  | 0, _, _, _, _ => .error .outOfFuel
  | _ + 1, _, map, line, [] => .ok (.map map line, [])
  | fuel + 1, indent, map, line, l :: rest =>
    if l.indent = indent ∧ !isItem l.text then
      match splitColon l.text with
      | none =>
        .error (.thrown s!"config parse error at line {l.lineno}: expected 'key: value'")
      | some (before, behind) =>
        let key := strip before
        let val := strip behind
        if val ≠ [] then
          parseMap fuel indent (insertKey key (.scalar val l.lineno) map) line rest
        else do
          let (child, rest) ← parseNested fuel indent l.lineno rest
          parseMap fuel indent (insertKey key child map) line rest
    else .ok (.map map line, l :: rest)
  termination_by structural fuel => fuel

/-- The loop of `parse_seq`, with the items so far and the line where the sequence began. -/
def parseSeq : ℕ → ℕ → List YamlNode → ℕ → List SrcLine →
    Except ParseError (YamlNode × List SrcLine)
  | 0, _, _, _, _ => .error .outOfFuel
  | _ + 1, _, seq, line, [] => .ok (.seq seq line, [])
  | fuel + 1, indent, seq, line, l :: rest =>
    if l.indent = indent ∧ isItem l.text then
      let content := l.text.drop (itemStart l.text)
      if content = [] then do
        let (child, rest) ← parseNested fuel indent l.lineno rest
        parseSeq fuel indent (seq ++ [child]) line rest
      else do
        -- The line is rewritten as if the item started it.
        let itemIndent := indent + itemStart l.text
        let (child, rest) ←
          parseNode fuel itemIndent ({ l with indent := itemIndent, text := content } :: rest)
        parseSeq fuel indent (seq ++ [child]) line rest
    else .ok (.seq seq line, l :: rest)
  termination_by structural fuel => fuel

end

/-- The tree of a file: its first line sets the indentation. -/
def parseFile (fuel : ℕ) (content : Text) : Except ParseError (YamlNode × List SrcLine) := do
  let lines ← tokenize content
  parseNode fuel (lines.head?.elim 0 SrcLine.indent) lines

end StateSpectre.Yaml
