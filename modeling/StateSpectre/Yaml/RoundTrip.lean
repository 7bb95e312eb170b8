import StateSpectre.Yaml.Render

/-!
# The parser inverts the rendering

What is written is cut into the lines that were rendered (`tokenize_written`), and these are parsed
to the tree they were rendered from (`YamlTree.Valid.parses`). A block ends where a line is
indented less than it (`EndsAt`): in front of such a line every loop of the parser ends, and every
line of the block is indented at least as much as it. An item is parsed from a line that was
rewritten, and this is the line that the item was rendered to before it got its dash.
-/

namespace StateSpectre.Yaml

/-! ## Lines -/

/-- The indentation and the text of a line. -/
def SrcLine.shape (l : SrcLine) : Line := (l.indent, l.text)

theorem tokenizeLine_of_unseen {raw : Text} (h : Unseen raw) (lineno : ℕ) :
    tokenizeLine lineno raw = .ok none := by
  have htrim : rstrip (stripComment raw) = [] := List.rdropWhile_eq_nil_iff.2 h.1
  rw [tokenizeLine, htrim]
  rfl

theorem tokenizeLine_of_plain {t : Text} (h : PlainText t) (lineno n : ℕ) :
    tokenizeLine lineno (List.replicate n ' ' ++ t) = .ok (some ⟨n, lineno, t⟩) := by
  have hspaces : ∀ c ∈ List.replicate n ' ', c = ' ' := fun c => List.eq_of_mem_replicate
  have hspecial : ∀ c ∈ List.replicate n ' ' ++ t, isSpecial c = false := by
    refine List.forall_mem_append.2 ⟨fun c hc => ?_, h.plain⟩
    rw [hspaces c hc]
    rfl
  have hcomment : stripComment (List.replicate n ' ' ++ t) = List.replicate n ' ' ++ t := by
    refine List.takeWhile_eq_self_iff.2 fun c hc => bne_iff_ne.2 fun he => ?_
    cases he ▸ hspecial c hc
  have htrim : rstrip (List.replicate n ' ' ++ t) = List.replicate n ' ' ++ t := by
    refine List.rdropWhile_eq_self_iff.2 fun hne => ?_
    rw [List.getLast_append_of_ne_nil _ h.ne_nil]
    simp [h.not_isBlank_last _ (List.getLast?_eq_getLast_of_ne_nil h.ne_nil)]
  have hstrip : strip (List.replicate n ' ' ++ t) = t := by
    rw [strip, List.dropWhile_append_of_pos fun c hc => hspaces c hc ▸ rfl, ← strip, h.strip_eq]
  have htake : ((List.replicate n ' ' ++ t).takeWhile (· == ' ')).length = n := by
    rw [List.takeWhile_append_of_pos fun c hc => beq_iff_eq.2 (hspaces c hc), h.takeWhile_space,
      List.append_nil, List.length_replicate]
  have htab : '\t' ∉ List.replicate n ' ' ++ t := fun hc => by cases hspecial _ hc
  rw [tokenizeLine]
  simp only [hcomment, htrim, hstrip, h.ne_nil, htake, htab, false_and, if_false]
  rw [List.drop_left' (List.length_replicate ..)]

theorem tokenizeFrom_written {raws : List Text} {lines : List Line} (h : Written raws lines)
    (hplain : ∀ l ∈ lines, PlainText l.2) (lineno : ℕ) :
    ∃ toks, tokenizeFrom lineno raws = .ok toks ∧ toks.map SrcLine.shape = lines := by
  induction h generalizing lineno with
  | nil => exact ⟨[], rfl, rfl⟩
  | unseen hraw _ ih =>
    obtain ⟨toks, htoks, hshape⟩ := ih hplain (lineno + 1)
    refine ⟨toks, ?_, hshape⟩
    rw [tokenizeFrom, tokenizeLine_of_unseen hraw, htoks]
    rfl
  | @line n t raws lines _ ih =>
    obtain ⟨toks, htoks, hshape⟩ :=
      ih (fun l hl => hplain l (List.mem_cons_of_mem _ hl)) (lineno + 1)
    refine ⟨⟨n, lineno, t⟩ :: toks, ?_, by rw [List.map_cons, hshape]; rfl⟩
    rw [tokenizeFrom, tokenizeLine_of_plain (hplain _ List.mem_cons_self), htoks]
    rfl

/-- What is written has no line that a newline would cut. -/
theorem Written.no_newline {raws : List Text} {lines : List Line} (h : Written raws lines)
    (hplain : ∀ l ∈ lines, PlainText l.2) : ∀ raw ∈ raws, '\n' ∉ raw := by
  induction h with
  | nil => exact fun _ hr => nomatch hr
  | unseen hraw _ ih => exact List.forall_mem_cons.2 ⟨hraw.2, ih hplain⟩
  | @line n t raws lines _ ih =>
    refine List.forall_mem_cons.2 ⟨?_, ih fun l hl => hplain l (List.mem_cons_of_mem _ hl)⟩
    rw [List.mem_append, not_or]
    refine ⟨fun hmem => ?_, fun hmem => ?_⟩
    · cases List.eq_of_mem_replicate hmem
    · cases (hplain _ List.mem_cons_self).plain _ hmem

/-- What is written has a line, if a tree is. -/
theorem Written.ne_nil {raws : List Text} {t : YamlTree} {n : ℕ} (h : Written raws (t.render n))
    (ht : t.Valid) : raws ≠ [] := by
  rintro rfl
  obtain ⟨text, lines, hcons⟩ := ht.render_eq_cons n
  rw [hcons] at h
  cases h

/-! ## Steps of the parser -/

variable {fuel n line : ℕ} {l next : SrcLine} {rest : List SrcLine} {m : List (Text × YamlNode)}
  {nodes : List YamlNode} {key s : Text}

/-- The lines behind a block that is indented by `n` are indented less, as far as the first one
    tells. -/
def EndsAt (n : ℕ) (rest : List SrcLine) : Prop := ∀ l ∈ rest.head?, l.indent < n

theorem EndsAt.mono {n' : ℕ} (h : EndsAt n rest) (hn : n ≤ n') : EndsAt n' rest :=
  fun l hl => (h l hl).trans_le hn

/-- A key with a colon behind it starts no item. -/
theorem Name.isItem_append (h : Name key) (s : Text) : isItem (key ++ ':' :: s) = false := by
  have hitem := h.not_item
  match key, h.ne_nil with
  | [c], _ =>
    have hc : '-' ≠ c := by
      rintro rfl
      cases hitem
    simp [isItem, List.isPrefixOf]
  | c :: d :: key, _ => simpa [isItem, List.isPrefixOf] using hitem

theorem Name.splitColon_append (h : Name key) (s : Text) :
    splitColon (key ++ ':' :: s) = some (key, s) := by
  have hpos : ∀ c ∈ key, c != ':' := fun c hc => bne_iff_ne.2 fun he => h.no_colon (he ▸ hc)
  rw [splitColon, if_pos (by simp), List.takeWhile_append_of_pos hpos,
    List.dropWhile_append_of_pos hpos]
  simp

theorem itemStart_dash (h : PlainText s) : itemStart ('-' :: ' ' :: s) = 2 := by
  simp [itemStart, h.takeWhile_space]

/-- A map ends in front of a line that is indented less. -/
theorem parseMap_end (h : EndsAt n rest) :
    parseMap (fuel + 1) n m line rest = .ok (.map m line, rest) := by
  cases rest with
  | nil => rfl
  | cons l rest =>
    have hlt := h l rfl
    rw [parseMap, if_neg fun hl => hlt.ne hl.1]

/-- A sequence ends in front of a line that is indented less. -/
theorem parseSeq_end (h : EndsAt n rest) :
    parseSeq (fuel + 1) n nodes line rest = .ok (.seq nodes line, rest) := by
  cases rest with
  | nil => rfl
  | cons l rest =>
    have hlt := h l rfl
    rw [parseSeq, if_neg fun hl => hlt.ne hl.1]

/-- An entry whose value is a scalar. -/
theorem parseMap_scalar (hl : l.shape = (n, key ++ ':' :: ' ' :: s)) (hkey : Name key)
    (hs : PlainText s) : parseMap (fuel + 1) n m line (l :: rest) =
      parseMap fuel n (insertKey key (.scalar s l.lineno) m) line rest := by
  obtain ⟨hindent, htext⟩ := Prod.mk.inj hl
  have hval : strip (' ' :: s) = s := hs.strip_eq
  rw [parseMap, if_pos ⟨hindent, by simp [htext, hkey.isItem_append]⟩, htext,
    hkey.splitColon_append]
  simp only [hval, hkey.strip_eq, ne_eq, hs.ne_nil, not_false_eq_true, if_true]

/-- An entry whose value is below it. -/
theorem parseMap_nested {child : YamlNode} {rest' : List SrcLine}
    (hl : l.shape = (n, key ++ [':'])) (hkey : Name key) (hnext : n < next.indent)
    (hchild : parseNode fuel next.indent (next :: rest) = .ok (child, rest')) :
    parseMap (fuel + 2) n m line (l :: next :: rest) =
      parseMap (fuel + 1) n (insertKey key child m) line rest' := by
  obtain ⟨hindent, htext⟩ := Prod.mk.inj hl
  have hval : strip [] = [] := rfl
  rw [parseMap, if_pos ⟨hindent, by simp [htext, hkey.isItem_append]⟩, htext,
    hkey.splitColon_append]
  simp only [hval, hkey.strip_eq, ne_eq, not_true_eq_false, if_false]
  rw [parseNested, if_pos hnext, hchild]
  rfl

/-- An item. -/
theorem parseSeq_item {child : YamlNode} {rest' : List SrcLine}
    (hl : l.shape = (n, '-' :: ' ' :: s)) (hs : PlainText s)
    (hchild : parseNode fuel (n + 2) ({ l with indent := n + 2, text := s } :: rest) =
      .ok (child, rest')) :
    parseSeq (fuel + 1) n nodes line (l :: rest) =
      parseSeq fuel n (nodes ++ [child]) line rest' := by
  obtain ⟨hindent, htext⟩ := Prod.mk.inj hl
  rw [parseSeq, if_pos ⟨hindent, by rw [htext]; rfl⟩, htext, itemStart_dash hs]
  simp only [List.drop_succ_cons, List.drop_zero, hs.ne_nil, if_false, hchild]
  rfl

/-! ## Maps -/

/-- Entries are put into a map, one after the other. -/
def insertKeys (xs m : List (Text × YamlNode)) : List (Text × YamlNode) :=
  xs.foldl (fun m x => insertKey x.1 x.2 m) m

theorem insertKey_perm (node : YamlNode) (h : key ∉ m.map Prod.fst) :
    (insertKey key node m).Perm ((key, node) :: m) := by
  induction m with
  | nil => exact .refl _
  | cons x m ih =>
    obtain ⟨k, v⟩ := x
    rw [List.map_cons, List.mem_cons, not_or] at h
    rw [insertKey]
    split
    · exact .refl _
    · rw [if_neg h.1]
      exact ((ih h.2).cons _).trans (.swap ..)

theorem insertKeys_perm {xs : List (Text × YamlNode)} (hxs : (xs.map Prod.fst).Nodup)
    (hm : ∀ x ∈ xs, x.1 ∉ m.map Prod.fst) : (insertKeys xs m).Perm (xs ++ m) := by
  induction xs generalizing m with
  | nil => exact .refl _
  | cons x xs ih =>
    rw [List.map_cons, List.nodup_cons] at hxs
    have hperm := insertKey_perm x.2 (hm x List.mem_cons_self)
    refine (ih hxs.2 fun y hy hmem => ?_).trans ((hperm.append_left xs).trans List.perm_middle)
    rw [(hperm.map Prod.fst).mem_iff, List.map_cons, List.mem_cons] at hmem
    rcases hmem with he | hmem
    · exact hxs.1 (he ▸ List.mem_map_of_mem hy)
    · exact hm y (List.mem_cons_of_mem _ hy) hmem

/-! ## Blocks -/

/-- The lines of the tree are parsed to it, in front of whatever ends the block. -/
def Parses (t : YamlTree) : Prop :=
  ∀ (n : ℕ) (ls rest : List SrcLine), ls.map SrcLine.shape = t.render n → EndsAt n rest →
    ∃ node N, YamlNode.Is node t ∧ ∀ fuel ≥ N, parseNode fuel n (ls ++ rest) = .ok (node, rest)

/-- A nested block ends in front of the next line of the block around it. -/
theorem EndsAt.nested {ls : List SrcLine} (hrest : EndsAt n rest)
    (hls : ∀ l ∈ (ls.map SrcLine.shape).head?, l.1 = n) : EndsAt (n + 2) (ls ++ rest) := by
  cases ls with
  | nil => exact hrest.mono (Nat.le_add_right n 2)
  | cons l ls =>
    rintro _ ⟨rfl⟩
    have hl : l.indent = n := hls l.shape rfl
    omega

theorem head_renderEntries {entries : List (Text × YamlTree)} :
    ∀ l ∈ (renderEntries n entries).head?, l.1 = n := by
  cases entries with
  | nil => exact fun _ hl => nomatch hl
  | cons e entries =>
    intro l hl
    rw [renderEntries] at hl
    rcases entryLines_eq n e.1 e.2 (e.2.render (n + 2)) with ⟨s, -, heq⟩ | ⟨-, heq⟩ <;>
    · rw [heq] at hl
      cases hl
      rfl

theorem head_renderItems {items : List YamlTree} (h : ∀ t ∈ items, t.Valid) :
    ∀ l ∈ (renderItems n items).head?, l.1 = n := by
  cases items with
  | nil => exact fun _ hl => nomatch hl
  | cons t items =>
    intro l hl
    obtain ⟨text, lines, heq⟩ := (h t List.mem_cons_self).render_eq_cons (n + 2)
    rw [renderItems, heq] at hl
    cases hl
    rfl

/-- The entries of a map, one after the other. -/
theorem parseMap_entries {entries : List (Text × YamlTree)} (hkeys : ∀ e ∈ entries, Name e.1)
    (hscalars : ∀ e ∈ entries, ∀ s, e.2 = .scalar s → PlainText s)
    (hvalid : ∀ e ∈ entries, ¬e.2.IsScalar → e.2.Valid)
    (hparses : ∀ e ∈ entries, ¬e.2.IsScalar → Parses e.2) {ls : List SrcLine}
    (hls : ls.map SrcLine.shape = renderEntries n entries) (hrest : EndsAt n rest) :
    ∃ nodes N, List.Forall₂ YamlNode.Is nodes (entries.map Prod.snd) ∧
      ∀ fuel ≥ N, ∀ m line, parseMap fuel n m line (ls ++ rest) =
        .ok (.map (insertKeys ((entries.map Prod.fst).zip nodes) m) line, rest) := by
  induction entries generalizing ls with
  | nil =>
    obtain rfl := List.map_eq_nil_iff.1 hls
    refine ⟨[], 1, .nil, fun fuel hfuel m line => ?_⟩
    obtain ⟨fuel, rfl⟩ := Nat.exists_eq_add_of_le' hfuel
    exact parseMap_end hrest
  | cons e entries ih =>
    obtain ⟨key, value⟩ := e
    have hkey := hkeys _ List.mem_cons_self
    have hrec := @ih (fun e he => hkeys e (List.mem_cons_of_mem _ he))
      (fun e he => hscalars e (List.mem_cons_of_mem _ he))
      (fun e he => hvalid e (List.mem_cons_of_mem _ he))
      (fun e he => hparses e (List.mem_cons_of_mem _ he))
    rw [renderEntries] at hls
    rcases entryLines_eq n key value (value.render (n + 2)) with ⟨s, hs, heq⟩ | ⟨hs, heq⟩
    · rw [heq] at hls
      obtain ⟨l, ls, rfl, hl, hls⟩ := List.map_eq_cons_iff.1 hls
      obtain ⟨nodes, N, hnodes, hparse⟩ := hrec hls
      refine ⟨.scalar s l.lineno :: nodes, N + 1, .cons (hs ▸ .scalar ..) hnodes,
        fun fuel hfuel m line => ?_⟩
      obtain ⟨fuel, rfl⟩ := Nat.exists_eq_add_of_le' ((Nat.le_add_left 1 N).trans hfuel)
      rw [List.cons_append, parseMap_scalar hl hkey (hscalars _ List.mem_cons_self s hs)]
      exact hparse fuel (by omega) _ line
    · rw [heq] at hls
      obtain ⟨l, ls, rfl, hl, hls⟩ := List.map_eq_cons_iff.1 hls
      obtain ⟨ls₁, ls₂, rfl, hls₁, hls₂⟩ := List.map_eq_append_iff.1 hls
      obtain ⟨nodes, N, hnodes, hparse⟩ := hrec hls₂
      obtain ⟨node, N', hnode, hchild⟩ := hparses _ List.mem_cons_self hs (n + 2) ls₁ (ls₂ ++ rest)
        hls₁ (hrest.nested (hls₂ ▸ head_renderEntries))
      -- The first line of the value is the next one.
      obtain ⟨text, lines, hcons⟩ := (hvalid _ List.mem_cons_self hs).render_eq_cons (n + 2)
      rw [hcons] at hls₁
      obtain ⟨next, ls₁, rfl, hnext, -⟩ := List.map_eq_cons_iff.1 hls₁
      have hindent : next.indent = n + 2 := (Prod.mk.inj hnext).1
      refine ⟨node :: nodes, max N N' + 2, .cons hnode hnodes, fun fuel hfuel m line => ?_⟩
      obtain ⟨fuel, rfl⟩ := Nat.exists_eq_add_of_le' ((Nat.le_add_left 2 _).trans hfuel)
      have hlines : l :: (next :: ls₁ ++ ls₂) ++ rest = l :: next :: (ls₁ ++ (ls₂ ++ rest)) := by
        simp
      rw [hlines, parseMap_nested hl hkey (by omega) (hindent ▸ hchild fuel (by omega))]
      exact hparse (fuel + 1) (by omega) _ line

/-- The items of a sequence, one after the other. -/
theorem parseSeq_items {items : List YamlTree} (hvalid : ∀ t ∈ items, t.Valid)
    (hparses : ∀ t ∈ items, Parses t) {ls : List SrcLine}
    (hls : ls.map SrcLine.shape = renderItems n items) (hrest : EndsAt n rest) :
    ∃ nodes N, List.Forall₂ YamlNode.Is nodes items ∧ ∀ fuel ≥ N, ∀ before line,
      parseSeq fuel n before line (ls ++ rest) = .ok (.seq (before ++ nodes) line, rest) := by
  induction items generalizing ls with
  | nil =>
    obtain rfl := List.map_eq_nil_iff.1 hls
    refine ⟨[], 1, .nil, fun fuel hfuel before line => ?_⟩
    obtain ⟨fuel, rfl⟩ := Nat.exists_eq_add_of_le' hfuel
    rw [List.append_nil]
    exact parseSeq_end hrest
  | cons t items ih =>
    have ht := hvalid t List.mem_cons_self
    obtain ⟨text, lines, hcons⟩ := ht.render_eq_cons (n + 2)
    have hplain := ht.render_plain (n + 2)
    rw [hcons] at hplain
    rw [renderItems, hcons] at hls
    obtain ⟨l, ls, rfl, hl, hls⟩ := List.map_eq_cons_iff.1 hls
    obtain ⟨ls₁, ls₂, rfl, hls₁, hls₂⟩ := List.map_eq_append_iff.1 hls
    have hvalid' : ∀ t ∈ items, t.Valid := fun t ht => hvalid t (List.mem_cons_of_mem _ ht)
    obtain ⟨nodes, N, hnodes, hparse⟩ :=
      ih hvalid' (fun t ht => hparses t (List.mem_cons_of_mem _ ht)) hls₂
    -- The line is rewritten to the first one of the item.
    have hitem : ({ l with indent := n + 2, text := text } :: ls₁).map SrcLine.shape =
        t.render (n + 2) := by
      rw [hcons, List.map_cons, hls₁]
      rfl
    obtain ⟨node, N', hnode, hchild⟩ := hparses t List.mem_cons_self (n + 2) _ (ls₂ ++ rest) hitem
      (hrest.nested (hls₂ ▸ head_renderItems hvalid'))
    refine ⟨node :: nodes, max N N' + 1, .cons hnode hnodes, fun fuel hfuel before line => ?_⟩
    obtain ⟨fuel, rfl⟩ := Nat.exists_eq_add_of_le' ((Nat.le_add_left 1 _).trans hfuel)
    rw [List.cons_append, List.append_assoc]
    refine (parseSeq_item hl (hplain _ List.mem_cons_self) (hchild fuel (by omega))).trans ?_
    rw [hparse fuel (by omega), List.append_assoc]
    rfl

/-- Every valid tree is parsed from its lines. -/
theorem YamlTree.Valid.parses {t : YamlTree} (h : t.Valid) : Parses t := by
  induction h with
  | @scalar s hs =>
    intro n ls rest hls hrest
    obtain ⟨l, ls, rfl, hl, hnil⟩ := List.map_eq_cons_iff.1 hls
    obtain rfl := List.map_eq_nil_iff.1 hnil
    obtain ⟨-, htext⟩ := Prod.mk.inj hl
    refine ⟨.scalar s l.lineno, 1, .scalar .., fun fuel hfuel => ?_⟩
    obtain ⟨fuel, rfl⟩ := Nat.exists_eq_add_of_le' hfuel
    rw [List.singleton_append, parseNode, htext, hs.not_item, if_neg Bool.false_ne_true,
      if_pos hs.no_colon, hs.strip_eq]
  | @map entries hne hnodup hkeys hscalars hvalid ih =>
    intro n ls rest hls hrest
    obtain ⟨nodes, N, hnodes, hparse⟩ :=
      parseMap_entries hkeys hscalars hvalid ih hls hrest
    have hfst : ((entries.map Prod.fst).zip nodes).map Prod.fst = entries.map Prod.fst := by
      refine List.map_fst_zip ?_
      rw [hnodes.length_eq, List.length_map, List.length_map]
    have hperm := insertKeys_perm (m := []) (hfst.symm ▸ hnodup) fun _ _ => List.not_mem_nil
    rw [List.append_nil] at hperm
    -- The first line has a colon, and no dash.
    obtain ⟨⟨key, value⟩, entries, rfl⟩ := List.exists_cons_of_ne_nil hne
    obtain ⟨l, ls, s, rfl, htext⟩ : ∃ l ls' s, ls = l :: ls' ∧ l.text = key ++ ':' :: s := by
      rw [YamlTree.render, renderEntries] at hls
      rcases entryLines_eq n key value (value.render (n + 2)) with ⟨s, -, heq⟩ | ⟨-, heq⟩
      · rw [heq] at hls
        obtain ⟨l, ls, rfl, hl, -⟩ := List.map_eq_cons_iff.1 hls
        exact ⟨l, ls, ' ' :: s, rfl, (Prod.mk.inj hl).2⟩
      · rw [heq] at hls
        obtain ⟨l, ls, rfl, hl, -⟩ := List.map_eq_cons_iff.1 hls
        exact ⟨l, ls, [], rfl, (Prod.mk.inj hl).2⟩
    refine ⟨.map _ l.lineno, N + 1, .map _ hperm hnodes, fun fuel hfuel => ?_⟩
    obtain ⟨fuel, rfl⟩ := Nat.exists_eq_add_of_le' ((Nat.le_add_left 1 N).trans hfuel)
    rw [List.cons_append, parseNode, htext, (hkeys _ List.mem_cons_self).isItem_append,
      if_neg Bool.false_ne_true, if_neg (by simp)]
    exact hparse fuel (by omega) [] l.lineno
  | @seq items hne hvalid ih =>
    intro n ls rest hls hrest
    obtain ⟨nodes, N, hnodes, hparse⟩ := parseSeq_items hvalid ih hls hrest
    obtain ⟨t, items, rfl⟩ := List.exists_cons_of_ne_nil hne
    obtain ⟨text, lines, hcons⟩ := (hvalid t List.mem_cons_self).render_eq_cons (n + 2)
    rw [YamlTree.render, renderItems, hcons] at hls
    obtain ⟨l, ls, rfl, hl, -⟩ := List.map_eq_cons_iff.1 hls
    obtain ⟨-, htext⟩ := Prod.mk.inj hl
    refine ⟨.seq nodes l.lineno, N + 1, .seq _ hnodes, fun fuel hfuel => ?_⟩
    obtain ⟨fuel, rfl⟩ := Nat.exists_eq_add_of_le' ((Nat.le_add_left 1 N).trans hfuel)
    rw [List.cons_append, parseNode, htext, show isItem ('-' :: ' ' :: text) = true from rfl,
      if_pos rfl]
    exact hparse fuel (by omega) [] l.lineno

/-! ## Files -/

/-- The lines of a tree, with comments and blank lines anywhere between them, are parsed to the
    tree and to no line left, if there is enough fuel. -/
theorem parseFile_rendered {t : YamlTree} {n : ℕ} {raws : List Text} (h : t.Valid)
    (hwritten : Written raws (t.render n)) :
    ∃ node N, YamlNode.Is node t ∧
      ∀ fuel ≥ N, parseFile fuel (['\n'].intercalate raws) = .ok (node, []) := by
  have hplain := h.render_plain n
  have hsplit : (['\n'].intercalate raws).splitOn '\n' = raws :=
    List.splitOn_intercalate '\n' (hwritten.no_newline hplain) (hwritten.ne_nil h)
  obtain ⟨toks, htoks, hshape⟩ := tokenizeFrom_written hwritten hplain 1
  obtain ⟨node, N, hnode, hparse⟩ := h.parses n toks [] hshape (fun _ hl => nomatch hl)
  have hindent : toks.head?.elim 0 SrcLine.indent = n := by
    obtain ⟨text, lines, hcons⟩ := h.render_eq_cons n
    rw [hcons] at hshape
    obtain ⟨l, ls, rfl, hl, -⟩ := List.map_eq_cons_iff.1 hshape
    exact (Prod.mk.inj hl).1
  refine ⟨node, N, hnode, fun fuel hfuel => ?_⟩
  have hnode := hparse fuel hfuel
  rw [List.append_nil] at hnode
  rw [parseFile, tokenize, hsplit, htoks]
  show parseNode fuel (toks.head?.elim 0 SrcLine.indent) toks = _
  rw [hindent, hnode]

/-- A map with a sequence of a sequence in it. -/
def nestedTree : YamlTree := .map [(['k'], .seq [.seq [.scalar ['x'], .scalar ['y']]])]

/-- It is written with a comment above it, and a blank line in it. -/
def nestedLines : List Text :=
  ["# top".toList, "k:".toList, "  - - x".toList, "".toList, "    - y".toList]

theorem parseFile_rendered_nested :
    ∃ node N, YamlNode.Is node nestedTree ∧
      ∀ fuel ≥ N, parseFile fuel (['\n'].intercalate nestedLines) = .ok (node, []) := by
  have hk : Name ['k'] := ⟨.singleton rfl (by decide), by decide, rfl⟩
  have hx : Name ['x'] := ⟨.singleton rfl (by decide), by decide, rfl⟩
  have hy : Name ['y'] := ⟨.singleton rfl (by decide), by decide, rfl⟩
  refine parseFile_rendered (n := 0) (.map (by decide) (by decide) ?_ ?_ ?_) ?_
  · exact List.forall_mem_singleton.2 hk
  · exact List.forall_mem_singleton.2 fun s hs => nomatch hs
  · refine List.forall_mem_singleton.2 fun _ => .seq (by decide) (List.forall_mem_singleton.2 ?_)
    refine .seq (by decide) (List.forall_mem_cons.2 ⟨?_, List.forall_mem_singleton.2 ?_⟩)
    · exact .scalar hx
    · exact .scalar hy
  · have hunseen : ∀ raw, stripComment raw = [] → '\n' ∉ raw → Unseen raw := fun raw h hline =>
      ⟨by simp [h], hline⟩
    exact .unseen (hunseen _ (by decide) (by decide)) (.line (n := 0) (.line (n := 2)
      (.unseen (hunseen _ (by decide) (by decide)) (.line (n := 4) .nil))))

end StateSpectre.Yaml
