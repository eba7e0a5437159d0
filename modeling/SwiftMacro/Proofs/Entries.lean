import SwiftMacro.Proofs.Firsts
/-!
# What an entry reads

An entry skips blanks, matches its content, skips blanks again and has to be at the end of the text.
`readChars_eq_ok` says so without the entry rule itself: the nodes are those of the content, with
offsets that count the blanks in front of it. `ReadsAt` is for such readings: `Reads` with the spans of
the items, given where the text stands.
-/

namespace SwiftMacro

open Peg

namespace Entry

/-- What an entry matches between the blanks at both ends of a text. -/
def content : Entry → Peg Rule
  | source => Rule.statements
  | expression => .rule .expr
  | accessor => .rule .accessor
  | type => .rule .typeExpr

/-- The rules of the nodes that an entry lists. -/
def listed : Entry → List Rule
  | source => statementRules
  | expression => [.expr]
  | accessor => [.accessor]
  | type => [.typeExpr]

theorem body_rule (entry : Entry) :
    entry.rule.body = .empty ++ entry.content ++ .rule .endOfInput := by
  cases entry <;> rfl

theorem build_rule (entry : Entry) (span : Span) (text : String) (items : List Item) :
    entry.rule.build span text items = .ok (.nodes (nodesOf entry.listed items)) := by
  cases entry <;> rfl

/-- The tree of a text that an entry matches, by its content. -/
theorem matches_rule_iff {entry : Entry} {s rest : List Char} {trees : List (Tree Rule)} :
    sourceGrammar.Matches .spaced (.rule entry.rule) s trees rest ↔
      rest = [] ∧ ∃ parts y, sourceGrammar.Matches .spaced entry.content (after .spaced s) parts y ∧
        after .spaced y = [] ∧
        trees = [.node entry.rule ((sourceGrammar.gap .spaced s).1 ++ parts ++
          (sourceGrammar.gap .spaced y).1 ++ [.node .endOfInput []])] := by
  have hclose : ∀ ps, sourceGrammar.close entry.rule .spaced ps = [.node entry.rule ps] := by
    cases entry <;> exact fun _ => rfl
  have hinside : (sourceGrammar.style entry.rule).inside .spaced = .spaced := by cases entry <;> rfl
  have hbody : sourceGrammar.body entry.rule = .empty ++ entry.content ++ .rule .endOfInput :=
    entry.body_rule
  have hend : ∀ {y ps r}, sourceGrammar.Matches .spaced (.rule .endOfInput) y ps r ↔
      y = [] ∧ r = [] ∧ ps = [.node .endOfInput []] := by
    intro y ps r
    refine Grammar.matches_rule.trans ⟨?_, ?_⟩
    · rintro ⟨inner, hnot, rfl⟩
      obtain ⟨hfails, rfl, rfl⟩ := Grammar.matches_not.1 hnot
      cases r with
      | nil => exact ⟨rfl, rfl, rfl⟩
      | cons c r => cases Grammar.fails_one.1 hfails c rfl
    · rintro ⟨rfl, rfl, rfl⟩
      exact ⟨[], Grammar.matches_not.2 ⟨fails_nil rfl rfl, rfl, rfl⟩, rfl⟩
  rw [Grammar.matches_rule, hinside, hbody]
  constructor
  · rintro ⟨inner, hseq, rfl⟩
    obtain ⟨front, y, back, hfront, hback, rfl⟩ := Grammar.matches_seq.1 hseq
    obtain ⟨ps, r, parts, hempty, hcontent, rfl⟩ := Grammar.matches_seq.1 hfront
    obtain ⟨rfl, rfl⟩ := Grammar.matches_empty.1 hempty
    obtain ⟨hy, rfl, rfl⟩ := hend.1 hback
    exact ⟨rfl, parts, y, hcontent, hy, by rw [hclose]; rfl⟩
  · rintro ⟨rfl, parts, y, hcontent, hy, rfl⟩
    have hfront : sourceGrammar.Matches .spaced (.empty ++ entry.content) s
        ((sourceGrammar.gap .spaced s).1 ++ parts) y :=
      Grammar.matches_seq.2 ⟨[], s, parts, Grammar.matches_empty.2 ⟨rfl, rfl⟩, hcontent, rfl⟩
    exact ⟨_, Grammar.matches_seq.2 ⟨_, y, _, hfront, hend.2 ⟨hy, rfl, rfl⟩, rfl⟩, (hclose _).symm⟩

end Entry

/-- The number of bytes that are skipped in front of a text. -/
def blankLength (s : List Char) : Nat := byteLength (Trivia.split s).1

theorem byteLength_gap (s : List Char) :
    byteLength (Tree.charsOf (sourceGrammar.gap .spaced s).1) = blankLength s := by
  change byteLength ((Trivia.split s).1 ++ []) = _
  rw [List.append_nil, blankLength]

/-! ## Reading at an offset -/

/-- The expression matches at the start of `s`, which stands at a byte offset, and leaves `rest`;
`items` are what is built from the match. -/
def ReadsAt (layout : Layout) (offset : Nat) (e : Peg Rule) (s : List Char) (items : List Item)
    (rest : List Char) : Prop :=
  ∃ parts, sourceGrammar.Matches layout e s parts rest ∧ Tree.itemsOf offset parts = .ok items

section ReadsAt

variable {layout : Layout} {o o' : Nat} {a b e : Peg Rule} {s r rest : List Char}
  {items front back : List Item}

theorem ReadsAt.accepts (h : ReadsAt layout o e s items rest) : sourceGrammar.Accepts layout e s rest := by
  obtain ⟨parts, hmatch, -⟩ := h
  exact ⟨parts, hmatch⟩

/-- Further to the right the same is read, moved. -/
theorem readsAt_shift {k : Nat} : ReadsAt layout (o + k) e s items rest ↔
    ∃ plain, ReadsAt layout o e s plain rest ∧ items = plain.map (Item.mapSpans (Span.shift k)) := by
  unfold ReadsAt
  simp only [Tree.itemsOf_shift]
  constructor
  · rintro ⟨parts, hmatch, hitems⟩
    cases hplain : Tree.itemsOf o parts with
    | error e => rw [hplain] at hitems; cases hitems
    | ok plain =>
      rw [hplain] at hitems
      exact ⟨plain, ⟨parts, hmatch, hplain⟩, (Except.ok.inj hitems).symm⟩
  · rintro ⟨plain, ⟨parts, hmatch, hplain⟩, rfl⟩
    exact ⟨parts, hmatch, by rw [hplain]; rfl⟩

theorem readsAt_lit (w : String) : ReadsAt layout o (.lit w) (w.toList ++ rest) [] rest :=
  ⟨_, Grammar.matches_lit.2 ⟨rfl, rfl⟩, rfl⟩

/-- The second part stands where as many bytes are left as it has. -/
theorem ReadsAt.seq {r' : List Char} (ha : ReadsAt layout o a s front r) (hr : after layout r = r')
    (ho : o + byteLength s = o' + byteLength r') (hb : ReadsAt layout o' b r' back rest) :
    ReadsAt layout o (a ++ b) s (front ++ back) rest := by
  subst hr
  obtain ⟨ps, hps, hfront⟩ := ha
  obtain ⟨qs, hqs, hback⟩ := hb
  refine ⟨_, Grammar.matches_seq.2 ⟨ps, r, qs, hps, hqs, rfl⟩, ?_⟩
  -- The trees of `a` and of the blanks behind it spell what lies between `s` and `r'`.
  have htext := hps.text sourceGrammar_blanksSplit
  have hgap : Tree.charsOf (sourceGrammar.gap layout r).1 ++ after layout r = r :=
    Grammar.gap_text sourceGrammar_blanksSplit layout r
  have hplace : o + byteLength (Tree.charsOf (ps ++ (sourceGrammar.gap layout r).1)) = o' := by
    have hleft := congrArg byteLength htext
    have hright := congrArg byteLength hgap
    rw [byteLength_append] at hleft hright
    rw [Tree.charsOf_append, byteLength_append]
    omega
  refine Tree.itemsOf_append_eq_ok.2 ⟨front, back, ?_, by rw [hplace]; exact hback, rfl⟩
  exact Tree.itemsOf_append_eq_ok.2 ⟨front, [], hfront, itemsOf_gap layout r _,
    (List.append_nil front).symm⟩

theorem readsAt_opt_none (h : sourceGrammar.Fails layout a s) : ReadsAt layout o (.opt a) s [] s :=
  ⟨[], Grammar.matches_opt.2 (.inr ⟨h, rfl, rfl⟩), rfl⟩

theorem ReadsAt.opt (h : ReadsAt layout o a s items rest) : ReadsAt layout o (.opt a) s items rest := by
  obtain ⟨parts, hmatch, hitems⟩ := h
  exact ⟨parts, Grammar.matches_opt.2 (.inl hmatch), hitems⟩

theorem ReadsAt.alt_left (h : ReadsAt layout o a s items rest) :
    ReadsAt layout o (a / b) s items rest := by
  obtain ⟨parts, hmatch, hitems⟩ := h
  exact ⟨parts, Grammar.matches_alt.2 (.inl hmatch), hitems⟩

theorem ReadsAt.alt_right (hf : sourceGrammar.Fails layout a s) (h : ReadsAt layout o b s items rest) :
    ReadsAt layout o (a / b) s items rest := by
  obtain ⟨parts, hmatch, hitems⟩ := h
  exact ⟨parts, Grammar.matches_alt.2 (.inr ⟨hf, hmatch⟩), hitems⟩

theorem readsAt_many_nil (h : sourceGrammar.Fails layout a s) : ReadsAt layout o (.many a) s [] s :=
  ⟨[], Grammar.matches_many.2 (.inl ⟨h, rfl, rfl⟩), rfl⟩

/-- A repetition with one turn. -/
theorem ReadsAt.once (h : ReadsAt layout o a s items rest)
    (hf : sourceGrammar.Fails layout a (after layout rest)) :
    ReadsAt layout o (.many a) s items rest := by
  obtain ⟨parts, hmatch, hitems⟩ := h
  have hlast : sourceGrammar.Matches layout (.more a) rest [] rest :=
    Grammar.matches_more.2 (.inl ⟨hf, rfl, rfl⟩)
  exact ⟨parts, Grammar.matches_many.2
    (.inr ⟨parts, rest, [], hmatch, hlast, (List.append_nil parts).symm⟩), hitems⟩

/-- A visible rule makes one item of its text. -/
theorem ReadsAt.rule {r : Rule} {w : List Char} {part : Part} (hr : r.style.outside layout ≠ .hidden)
    (hs : s = w ++ rest) (h : ReadsAt (r.style.inside layout) o r.body s items rest)
    (hbuild : r.build ⟨o, o + byteLength w⟩ (String.ofList w) items = .ok part) :
    ReadsAt layout o (.rule r) s [⟨r, ⟨o, o + byteLength w⟩, part⟩] rest := by
  obtain ⟨parts, hmatch, hitems⟩ := h
  obtain rfl : w = Tree.charsOf parts :=
    List.append_cancel_right (hs.symm.trans (hmatch.text sourceGrammar_blanksSplit).symm)
  have hclose : sourceGrammar.close r layout parts = [.node r parts] := if_neg hr
  refine ⟨_, Grammar.matches_rule.2 ⟨parts, hmatch, rfl⟩, ?_⟩
  rw [hclose]
  exact Tree.itemsOf_cons_eq_ok.2 ⟨_, [], Tree.items_node_eq_ok.2 ⟨items, part, hitems, hbuild, rfl⟩, rfl,
    rfl⟩

theorem ReadsAt.single {r : Rule} (hr : r.style.outside layout ≠ .hidden)
    (h : ReadsAt layout o (.rule r) s items rest) : ∃ place part, items = [⟨r, place, part⟩] := by
  obtain ⟨parts, hmatch, hitems⟩ := h
  obtain ⟨inner, -, rfl⟩ := Grammar.matches_rule.1 hmatch
  have hclose : sourceGrammar.close r layout inner = [.node r inner] := if_neg hr
  rw [hclose] at hitems
  obtain ⟨front, back, hfront, hback, rfl⟩ := Tree.itemsOf_cons_eq_ok.1 hitems
  obtain rfl := Except.ok.inj hback
  obtain ⟨_, part, -, -, rfl⟩ := Tree.items_node_eq_ok.1 hfront
  exact ⟨_, part, rfl⟩

/-- A word makes an item of its text, with nothing inside. -/
theorem readsAt_word {r : Rule} {w : List Char} {part : Part} (hr : r.style = .word) (hl : layout ≠ .hidden)
    (h : sourceGrammar.Accepts .hidden r.body (w ++ rest) rest)
    (hbuild : r.build ⟨o, o + byteLength w⟩ (String.ofList w) [] = .ok part) :
    ReadsAt layout o (.rule r) (w ++ rest) [⟨r, ⟨o, o + byteLength w⟩, part⟩] rest := by
  obtain ⟨parts, hm⟩ := h
  obtain ⟨its, hits, hnil⟩ := (builds_of_hidden hm (isWordy_body hr)).itemsOf o
  obtain rfl := List.map_eq_nil_iff.1 hnil.symm
  refine ReadsAt.rule (by rw [hr]; exact hl) rfl ?_ hbuild
  rw [hr]
  exact ⟨parts, hm, hits⟩

end ReadsAt

/-! ## Entries -/

/-- A text is its blanks and the rest. -/
theorem blankLength_add (s : List Char) : blankLength s + byteLength (after .spaced s) = byteLength s := by
  rw [blankLength, after_spaced, ← byteLength_append, Trivia.split_append]

section Items

variable {s y : List Char} {parts : List (Tree Rule)} {items : List Item}

/-- The blanks of an entry make no items, and the end of its text makes one with nothing in it. -/
theorem itemsOf_entry (h : Tree.itemsOf (blankLength s) parts = .ok items) :
    ∃ place, Tree.itemsOf 0 ((sourceGrammar.gap .spaced s).1 ++ parts ++
      (sourceGrammar.gap .spaced y).1 ++ [.node .endOfInput []]) =
        .ok (items ++ [⟨.endOfInput, place, .nothing⟩]) := by
  have hfront : Tree.itemsOf 0 ((sourceGrammar.gap .spaced s).1 ++ parts) = .ok items :=
    Tree.itemsOf_append_eq_ok.2 ⟨[], items, rfl, by rw [byteLength_gap, Nat.zero_add]; exact h, rfl⟩
  have hboth := Tree.itemsOf_append_eq_ok.2
    ⟨items, [], hfront, itemsOf_gap .spaced y _, (List.append_nil items).symm⟩
  exact ⟨_, Tree.itemsOf_append_eq_ok.2 ⟨items, _, hboth, rfl, rfl⟩⟩

theorem itemsOf_content (h : Tree.itemsOf 0 ((sourceGrammar.gap .spaced s).1 ++ parts ++
      (sourceGrammar.gap .spaced y).1 ++ [.node .endOfInput []]) = .ok items) :
    ∃ inner place, Tree.itemsOf (blankLength s) parts = .ok inner ∧
      items = inner ++ [⟨.endOfInput, place, .nothing⟩] := by
  obtain ⟨both, last, hboth, hlast, rfl⟩ := Tree.itemsOf_append_eq_ok.1 h
  obtain ⟨most, behind, hmost, hbehind, rfl⟩ := Tree.itemsOf_append_eq_ok.1 hboth
  obtain ⟨front, inner, hfront, hinner, rfl⟩ := Tree.itemsOf_append_eq_ok.1 hmost
  obtain rfl := Except.ok.inj ((itemsOf_gap .spaced s 0).symm.trans hfront)
  obtain rfl := Except.ok.inj ((itemsOf_gap .spaced y _).symm.trans hbehind)
  obtain rfl := Except.ok.inj hlast
  rw [byteLength_gap, Nat.zero_add] at hinner
  exact ⟨inner, _, hinner, by rw [List.append_nil, List.nil_append, List.append_nil]⟩

end Items

/-- The nodes that an entry reads are those of its content. -/
theorem readChars_eq_ok {entry : Entry} {s : List Char} {nodes : List Node} :
    readChars entry s = .ok nodes ↔
      ∃ items y, ReadsAt .spaced (blankLength s) entry.content (after .spaced s) items y ∧
        after .spaced y = [] ∧ nodes = nodesOf entry.listed items := by
  have hlast : ∀ items place, nodesOf entry.listed (items ++ [⟨.endOfInput, place, .nothing⟩]) =
      nodesOf entry.listed items := fun items place => by
    rw [nodesOf, List.filterMap_append]
    exact List.append_nil _
  constructor
  · intro h
    obtain ⟨trees, rest, its, hmatch, hits, rfl⟩ := readChars_eq_ok_iff_matches.1 h
    obtain ⟨-, parts, y, hcontent, hy, rfl⟩ := Entry.matches_rule_iff.1 hmatch
    obtain ⟨front, none, hfront, hnone, rfl⟩ := Tree.itemsOf_cons_eq_ok.1 hits
    obtain rfl := Except.ok.inj hnone
    obtain ⟨inner, part, hinner, hpart, rfl⟩ := Tree.items_node_eq_ok.1 hfront
    obtain ⟨items, place, hitems, rfl⟩ := itemsOf_content hinner
    rw [Entry.build_rule, hlast] at hpart
    obtain rfl := Except.ok.inj hpart
    exact ⟨items, y, ⟨parts, hcontent, hitems⟩, hy, by simp [genericsOf]⟩
  · rintro ⟨items, y, ⟨parts, hcontent, hitems⟩, hy, rfl⟩
    have hmatch := Entry.matches_rule_iff.2 ⟨rfl, parts, y, hcontent, hy, rfl⟩
    obtain ⟨place, hall⟩ := itemsOf_entry (y := y) hitems
    unfold readChars
    rw [parse_eq_some.2 hmatch]
    simp only [Tree.itemsOf, Tree.items, hall, Entry.build_rule, hlast]
    simp [genericsOf]

/-- A statement with the semicolon that may stand behind it. -/
def terminated : Peg Rule := Rule.statement ++ .opt (.lit ";")

/-- A statement at the end of a text is the only one. -/
theorem ReadsAt.statements {o : Nat} {s y : List Char} {items : List Item}
    (h : ReadsAt .spaced o Rule.statement s items y) (hy : after .spaced y = []) :
    ReadsAt .spaced o Rule.statements s items [] := by
  have hsemicolon : ReadsAt .spaced (o + byteLength s) (.opt (.lit ";")) [] [] [] :=
    readsAt_opt_none (fails_nil rfl rfl)
  have hone : ReadsAt .spaced o terminated s (items ++ []) [] := h.seq hy rfl hsemicolon
  rw [List.append_nil] at hone
  exact hone.once (by rw [after_nil]; exact fails_nil rfl rfl)

/-- A text stands for one node where an entry reads just this node. -/
theorem readOne_eq_ok {entry : Entry} {text : String} {n : Node} :
    readOne entry text = .ok n ↔ read entry text = .ok [n] := by
  unfold readOne
  split
  · next e he => simp [he]
  · next m hm => simp [hm]
  · next ns hne hns =>
    simp only [hns, Except.ok.injEq, reduceCtorEq, false_iff]
    exact hne n

end SwiftMacro
