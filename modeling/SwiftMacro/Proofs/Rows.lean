import SwiftMacro.Proofs.Reading
/-!
# Rows of rules

Below a rule the tree holds a row of nodes, and the expression of the rule says which rows there can
be: `Peg.Row` is the language of these rows. Building looks at nothing else. It picks the parts of a
rule out of the row, and `Rule.Expects` says of which rows it takes every part and misses none. These
are the rows that there can be (`expects_of_row`), and of each of them the rule makes something
(`build_ok`), so that the only text that is matched and not built is that of a string literal.
-/

namespace SwiftMacro

/-! ## The rows of an expression -/

/-- Rows put together from any number of rows. -/
inductive Repeats (P : List Rule → Prop) : List Rule → Prop
  | nil : Repeats P []
  | cons {xs ys : List Rule} (h : P xs) (hs : Repeats P ys) : Repeats P (xs ++ ys)

/-- The rows of visible rules that a match of the expression can leave. -/
def Peg.Row : Peg Rule → List Rule → Prop
  | .empty, rs | .one _, rs | .lit _, rs | .not _, rs => rs = []
  | .seq a b, rs => ∃ xs ys, a.Row xs ∧ b.Row ys ∧ rs = xs ++ ys
  | .alt a b, rs => a.Row rs ∨ b.Row rs
  | .opt a, rs => rs = [] ∨ a.Row rs
  | .many a, rs | .more a, rs => Repeats a.Row rs
  | .rule r, rs => rs = [r]

section Row

variable {a b : Peg Rule} {rs : List Rule}

theorem row_append : (a ++ b).Row rs ↔ ∃ xs ys, a.Row xs ∧ b.Row ys ∧ rs = xs ++ ys := Iff.rfl

theorem row_opt : (Peg.opt a).Row rs ↔ rs = [] ∨ a.Row rs := Iff.rfl

theorem row_empty : Peg.empty.Row rs ↔ rs = [] := Iff.rfl

theorem row_lit {w : String} : (Peg.lit w).Row rs ↔ rs = [] := Iff.rfl

theorem row_rule {r : Rule} : (Peg.rule r).Row rs ↔ rs = [r] := Iff.rfl

/-- A rule in a repeated row is in one of its rows. -/
theorem Repeats.exists_of_mem {P : List Rule → Prop} (h : Repeats P rs) {r : Rule} (hr : r ∈ rs) :
    ∃ xs, P xs ∧ r ∈ xs := by
  induction h with
  | nil => cases hr
  | cons hx _ ih =>
    rcases List.mem_append.1 hr with hr | hr
    · exact ⟨_, hx, hr⟩
    · exact ih hr

/-- Only rules of the expression stand in its rows. -/
theorem Peg.Row.mem_rules {e : Peg Rule} {r : Rule} (h : e.Row rs) (hr : r ∈ rs) : r ∈ e.rules := by
  induction e generalizing rs with
  | empty | one _ | lit _ | not _ _ =>
    obtain rfl : rs = [] := h
    cases hr
  | seq a b iha ihb =>
    obtain ⟨xs, ys, hx, hy, rfl⟩ := h
    rcases List.mem_append.1 hr with hr | hr
    · exact List.mem_append_left _ (iha hx hr)
    · exact List.mem_append_right _ (ihb hy hr)
  | alt a b iha ihb =>
    rcases h with h | h
    · exact List.mem_append_left _ (iha h hr)
    · exact List.mem_append_right _ (ihb h hr)
  | opt a ih =>
    rcases h with rfl | h
    · cases hr
    · exact ih h hr
  | many a ih | more a ih =>
    obtain ⟨xs, hx, hr⟩ := Repeats.exists_of_mem h hr
    exact ih hx hr
  | rule r' =>
    obtain rfl : rs = [r'] := h
    exact hr

theorem Peg.Row.subset {e : Peg Rule} {qs : List Rule} (h : e.Row rs) (hqs : e.rules ⊆ qs) : rs ⊆ qs :=
  fun _ hr => hqs (h.mem_rules hr)

end Row

/-! ## The rows of a tree -/

/-- The rule of a tree that is a node. -/
def Tree.rule? : Tree Rule → Option Rule
  | .text _ => none
  | .node r _ => some r

/-- The rules of the nodes among the trees. -/
def heads (ts : List (Tree Rule)) : List Rule := ts.filterMap Tree.rule?

theorem heads_append (ts us : List (Tree Rule)) : heads (ts ++ us) = heads ts ++ heads us :=
  List.filterMap_append

theorem heads_gap (layout : Layout) (s : List Char) : heads (sourceGrammar.gap layout s).1 = [] := by
  cases layout <;> rfl

/-- What holds of the attempt to match an expression in a layout at the start of a text, if it then
holds of the attempts made for its parts. -/
structure HandsDown (C : Layout → Peg Rule → List Char → Prop) : Prop where
  seq : ∀ {layout a b s}, C layout (.seq a b) s → C layout a s ∧ ∀ t, C layout b (after layout t)
  alt : ∀ {layout a b s}, C layout (.alt a b) s → C layout a s ∧ C layout b s
  opt : ∀ {layout a s}, C layout (.opt a) s → C layout a s
  many : ∀ {layout a s}, C layout (.many a) s → C layout a s ∧ ∀ t, C layout (.more a) t
  more : ∀ {layout a s}, C layout (.more a) s → C layout a (after layout s) ∧ ∀ t, C layout (.more a) t
  rule : ∀ {layout r s}, C layout (.rule r) s → C (r.style.inside layout) r.body s

/-- What holds of texts, and of each node whose rule was matched if it holds of the trees below, holds
of all trees of a match; and where rules are visible, the nodes stand in a row of the expression. Of
the attempt to match its rule, each node may use all that is handed down. -/
theorem trees_of_attempt {P : Tree Rule → Prop} {C : Layout → Peg Rule → List Char → Prop}
    (hC : HandsDown C) (text : ∀ cs, P (.text cs))
    (node : ∀ (r : Rule) (layout : Layout) (ps : List (Tree Rule)) (rest : List Char),
      C layout (.rule r) (Tree.charsOf ps ++ rest) →
      sourceGrammar.Matches (r.style.inside layout) r.body (Tree.charsOf ps ++ rest) ps rest →
      (r.style ≠ .word → r.body.Row (heads ps)) → (∀ t ∈ ps, P t) → P (.node r ps))
    {layout : Layout} {e : Peg Rule} {s rest : List Char} {parts : List (Tree Rule)}
    (hc : C layout e s) (h : sourceGrammar.Matches layout e s parts rest) :
    (∀ t ∈ parts, P t) ∧ (layout ≠ .hidden → e.Row (heads parts)) := by
  have hgap : ∀ layout s, ∀ t ∈ (sourceGrammar.gap layout s).1, P t := by
    intro layout s t ht
    cases layout with
    | spaced => exact List.mem_singleton.1 ht ▸ text _
    | joined | hidden => cases ht
  induction h using Grammar.Matches.induct with
  | empty | not => exact ⟨by simp, fun _ => rfl⟩
  | @one _ _ c => exact ⟨by simpa using text [c], fun _ => rfl⟩
  | @lit _ w => exact ⟨by simpa using text w.toList, fun _ => rfl⟩
  | @seq _ _ _ _ _ r _ _ _ _ iha ihb =>
    obtain ⟨hps, hprow⟩ := iha (hC.seq hc).1
    obtain ⟨hqs, hqrow⟩ := ihb ((hC.seq hc).2 r)
    refine ⟨?_, fun hl => ⟨_, _, hprow hl, hqrow hl, ?_⟩⟩
    · simp only [List.mem_append]
      rintro t ((ht | ht) | ht)
      · exact hps t ht
      · exact hgap _ _ t ht
      · exact hqs t ht
    · rw [heads_append, heads_append, heads_gap, List.append_nil]
  | altFirst _ ih =>
    obtain ⟨hps, hrow⟩ := ih (hC.alt hc).1
    exact ⟨hps, fun hl => .inl (hrow hl)⟩
  | altSecond _ _ ih =>
    obtain ⟨hps, hrow⟩ := ih (hC.alt hc).2
    exact ⟨hps, fun hl => .inr (hrow hl)⟩
  | optSome _ ih =>
    obtain ⟨hps, hrow⟩ := ih (hC.opt hc)
    exact ⟨hps, fun hl => .inr (hrow hl)⟩
  | optNone => exact ⟨by simp, fun _ => .inl rfl⟩
  | manyStop | moreStop => exact ⟨by simp, fun _ => .nil⟩
  | @manyTurn _ _ _ _ r _ _ _ _ iha ihmore =>
    obtain ⟨hps, hprow⟩ := iha (hC.many hc).1
    obtain ⟨hqs, hqrow⟩ := ihmore ((hC.many hc).2 r)
    refine ⟨fun t ht => (List.mem_append.1 ht).elim (hps t) (hqs t), fun hl => ?_⟩
    rw [heads_append]
    exact .cons (hprow hl) (hqrow hl)
  | @moreTurn _ _ _ _ r _ _ _ _ iha ihmore =>
    obtain ⟨hps, hprow⟩ := iha (hC.more hc).1
    obtain ⟨hqs, hqrow⟩ := ihmore ((hC.more hc).2 r)
    refine ⟨?_, fun hl => ?_⟩
    · simp only [List.mem_append]
      rintro t ((ht | ht) | ht)
      · exact hgap _ _ t ht
      · exact hps t ht
      · exact hqs t ht
    · rw [heads_append, heads_append, heads_gap, List.nil_append]
      exact .cons (hprow hl) (hqrow hl)
  | @rule layout r _ inner rest hi ih =>
    obtain ⟨hps, hrow⟩ := ih (hC.rule hc)
    by_cases hidden : r.style.outside layout = .hidden
    · have hclose : sourceGrammar.close r layout inner = inner := if_pos hidden
      rw [hclose]
      exact ⟨hps, fun hl => absurd hidden (outside_ne_hidden _ hl)⟩
    · have hclose : sourceGrammar.close r layout inner = [.node r inner] := if_neg hidden
      have htext := hi.text sourceGrammar_blanksSplit
      rw [hclose]
      refine ⟨fun u hu => ?_, fun _ => rfl⟩
      rw [List.mem_singleton.1 hu]
      exact node r layout inner rest (by rw [htext]; exact hc) (by rw [htext]; exact hi)
        (fun hword => hrow (inside_ne_hidden hidden hword)) hps

/-- The same where nothing is handed down. -/
theorem trees_of_matches {P : Tree Rule → Prop} (text : ∀ cs, P (.text cs))
    (node : ∀ (r : Rule) (layout : Layout) (ps : List (Tree Rule)) (rest : List Char),
      sourceGrammar.Matches (r.style.inside layout) r.body (Tree.charsOf ps ++ rest) ps rest →
      (r.style ≠ .word → r.body.Row (heads ps)) → (∀ t ∈ ps, P t) → P (.node r ps))
    {layout : Layout} {e : Peg Rule} {s rest : List Char} {parts : List (Tree Rule)}
    (h : sourceGrammar.Matches layout e s parts rest) :
    (∀ t ∈ parts, P t) ∧ (layout ≠ .hidden → e.Row (heads parts)) := by
  have hC : HandsDown fun _ _ _ => True := by constructor <;> simp
  exact trees_of_attempt hC text (fun r layout ps rest _ => node r layout ps rest) trivial h

/-! ## What kind of part a rule makes -/

/-- The kinds of parts. -/
inductive PartKind where
  | nothing | word | node | nodes | argument | arguments | castTo | operation
deriving DecidableEq

def Part.kind : Part → PartKind
  | nothing => .nothing
  | word _ => .word
  | node _ => .node
  | nodes _ => .nodes
  | argument _ => .argument
  | arguments _ => .arguments
  | castTo _ _ => .castTo
  | operation _ _ => .operation

/-- The kind of the part that a rule makes. -/
def Rule.partKind : Rule → PartKind
  | endOfInput | keyword | escape | importDecl | importKeyword => .nothing
  | identifier | modifier | bindingKeyword | accessorKind | qualifiedName | optionalMark
  | castOperator | binaryOperator | prefixOperator | forceUnwrap | argumentLabel | stringText
  | memberSuffix => .word
  | genericClause | sourceFile | expressionEntry | accessorEntry | typeEntry => .nodes
  | argument => .argument
  | argumentClause => .arguments
  | castTail => .castTo
  | binaryTail => .operation
  | _ => .node

/-- The part is of the kind that the rule makes. -/
def Item.Fits (i : Item) : Prop := i.part.kind = i.rule.partKind

theorem kind_of_build {r : Rule} {span : Span} {text : String} {items : List Item} {part : Part}
    (h : r.build span text items = .ok part) : part.kind = r.partKind := by
  cases r <;> simp only [Rule.build] at h <;> (try split at h) <;>
    first
      | (cases h; done)
      | (obtain rfl := Except.ok.inj h; rfl)

theorem Item.Fits.word {i : Item} (h : i.Fits) (hr : i.rule.partKind = .word) :
    ∃ w, i.part = .word w := by
  have hkind : i.part.kind = .word := h.trans hr
  generalize i.part = part at hkind
  cases part <;> first | exact ⟨_, rfl⟩ | cases hkind

theorem Item.Fits.node {i : Item} (h : i.Fits) (hr : i.rule.partKind = .node) :
    ∃ n, i.part = .node n := by
  have hkind : i.part.kind = .node := h.trans hr
  generalize i.part = part at hkind
  cases part <;> first | exact ⟨_, rfl⟩ | cases hkind

section Picked

variable {items : List Item} (hfits : ∀ i ∈ items, i.Fits)

include hfits

/-- A word in the row is among the words. -/
theorem wordsOf_ne_nil {r : Rule} (hr : r ∈ items.map Item.rule) (hkind : r.partKind = .word) :
    wordsOf r items ≠ [] := by
  obtain ⟨i, hi, rfl⟩ := List.mem_map.1 hr
  obtain ⟨w, hw⟩ := (hfits i hi).word hkind
  have hmem : w ∈ wordsOf i.rule items := List.mem_filterMap.2 ⟨i, hi, by simp [Item.wordOf?, hw]⟩
  exact List.ne_nil_of_mem hmem

theorem nodesOf_ne_nil {rules : List Rule} {r : Rule} (hr : r ∈ items.map Item.rule)
    (hrules : r ∈ rules) (hkind : r.partKind = .node) : nodesOf rules items ≠ [] := by
  obtain ⟨i, hi, rfl⟩ := List.mem_map.1 hr
  obtain ⟨n, hn⟩ := (hfits i hi).node hkind
  have hmem : n ∈ nodesOf rules items :=
    List.mem_filterMap.2 ⟨i, hi, by simp [Item.nodeOf?, hn, hrules]⟩
  exact List.ne_nil_of_mem hmem

/-- The items of a row of one node. -/
theorem items_node {d : Rule} (hrow : items.map Item.rule = [d]) (hd : d.partKind = .node) :
    ∃ span n, items = [⟨d, span, .node n⟩] := by
  obtain ⟨⟨_, span, part⟩, rfl, rfl⟩ := List.map_eq_singleton_iff.1 hrow
  obtain ⟨n, rfl⟩ := (hfits _ List.mem_cons_self).node hd
  exact ⟨span, n, rfl⟩

/-- The items of a row that starts with a word. -/
theorem items_word_cons {w : Rule} {rs : List Rule} (hrow : items.map Item.rule = w :: rs)
    (hw : w.partKind = .word) :
    ∃ span t rest, items = ⟨w, span, .word t⟩ :: rest ∧ rest.map Item.rule = rs ∧
      ∀ i ∈ rest, i.Fits := by
  obtain ⟨⟨_, span, part⟩, rest, rfl, rfl, hrest⟩ := List.map_eq_cons_iff.1 hrow
  obtain ⟨t, rfl⟩ := (hfits _ List.mem_cons_self).word hw
  exact ⟨span, t, rest, rfl, hrest, fun i hi => hfits i (List.mem_cons_of_mem _ hi)⟩

/-- The items of a row that starts with a node. -/
theorem items_node_cons {d : Rule} {rs : List Rule} (hrow : items.map Item.rule = d :: rs)
    (hd : d.partKind = .node) :
    ∃ span n rest, items = ⟨d, span, .node n⟩ :: rest ∧ rest.map Item.rule = rs ∧
      ∀ i ∈ rest, i.Fits := by
  obtain ⟨⟨_, span, part⟩, rest, rfl, rfl, hrest⟩ := List.map_eq_cons_iff.1 hrow
  obtain ⟨n, rfl⟩ := (hfits _ List.mem_cons_self).node hd
  exact ⟨span, n, rest, rfl, hrest, fun i hi => hfits i (List.mem_cons_of_mem _ hi)⟩

/-- The items of a row of a word and a node. -/
theorem items_word_node {w d : Rule} (hrow : items.map Item.rule = [w, d]) (hw : w.partKind = .word)
    (hd : d.partKind = .node) :
    ∃ span t place n, items = [⟨w, span, .word t⟩, ⟨d, place, .node n⟩] := by
  obtain ⟨span, t, rest, rfl, hrest, hfits⟩ := items_word_cons hfits hrow hw
  obtain ⟨place, n, rfl⟩ := items_node hfits hrest hd
  exact ⟨span, t, place, n, rfl⟩

end Picked

theorem nodesOf_cons_of_not_mem {rules : List Rule} {i : Item} (hi : i.rule ∉ rules)
    (items : List Item) : nodesOf rules (i :: items) = nodesOf rules items := by
  have hnone : i.nodeOf? rules = none := by
    unfold Item.nodeOf?
    split
    · exact if_neg hi
    · rfl
  rw [nodesOf, List.filterMap_cons_none hnone, nodesOf]

theorem nodesOf_eq_nil_of_forall {rules : List Rule} {items : List Item}
    (h : ∀ r ∈ items.map Item.rule, r ∉ rules) : nodesOf rules items = [] := by
  induction items with
  | nil => rfl
  | cons i items ih =>
    rw [nodesOf_cons_of_not_mem (h i.rule List.mem_cons_self)]
    exact ih fun r hr => h r (List.mem_cons_of_mem _ hr)

/-! ## The items of a row -/

/-- The items are those of the row, and each has the kind of part that its rule makes. -/
def IsRow (rs : List Rule) (items : List Item) : Prop :=
  items.map Item.rule = rs ∧ ∀ i ∈ items, i.Fits

theorem isRow_nil : IsRow [] [] := ⟨rfl, by simp⟩

theorem IsRow.append {rs qs : List Rule} {items jtems : List Item} (h : IsRow rs items)
    (h' : IsRow qs jtems) : IsRow (rs ++ qs) (items ++ jtems) := by
  refine ⟨by rw [List.map_append, h.1, h'.1], fun i hi => ?_⟩
  exact (List.mem_append.1 hi).elim (h.2 i) (h'.2 i)

theorem heads_cons (t : Tree Rule) (ts : List (Tree Rule)) :
    heads (t :: ts) = t.rule?.toList ++ heads ts := by
  unfold heads
  cases ht : t.rule? with
  | none => rw [List.filterMap_cons_none ht]; rfl
  | some r => rw [List.filterMap_cons_some ht]; rfl

/-- A tree that is a node makes one item, a text none. -/
theorem isRow_of_items {offset : Nat} {t : Tree Rule} {items : List Item}
    (h : Tree.items offset t = .ok items) : IsRow t.rule?.toList items := by
  cases t with
  | text _ =>
    obtain rfl := Except.ok.inj h
    exact isRow_nil
  | node r ps =>
    obtain ⟨_, part, -, hpart, rfl⟩ := Tree.items_node_eq_ok.1 h
    refine ⟨rfl, fun i hi => ?_⟩
    rw [List.mem_singleton.1 hi]
    exact kind_of_build hpart

theorem isRow_of_itemsOf {offset : Nat} {ts : List (Tree Rule)} {items : List Item}
    (h : Tree.itemsOf offset ts = .ok items) : IsRow (heads ts) items := by
  induction ts generalizing offset items with
  | nil =>
    obtain rfl := Except.ok.inj h
    exact isRow_nil
  | cons t ts ih =>
    obtain ⟨front, back, hfront, hback, rfl⟩ := Tree.itemsOf_cons_eq_ok.1 h
    rw [heads_cons]
    exact (isRow_of_items hfront).append (ih hback)

/-! ## What each rule expects -/

/-- The rules that are an operand by themselves. -/
def operandRules : List Rule :=
  [.stringLiteral, .floatLiteral, .integerLiteral, .booleanLiteral, .nilLiteral, .macroUse,
    .implicitMember, .tupleExpr, .identifier]

/-- The parts of a rule are as building takes them: none that is needed is missing, and none is left
over that building has no use for. A word is only its text, and of an import nothing is taken. -/
def Rule.Expects (r : Rule) (rs : List Rule) : Prop :=
  match r with
  | sourceFile => rs ⊆ .endOfInput :: .importDecl :: statementRules
  | expressionEntry => rs = [.expr, .endOfInput]
  | accessorEntry => rs = [.accessor, .endOfInput]
  | typeEntry => rs = [.typeExpr, .endOfInput]
  | stringLiteral => rs ⊆ [.interpolation, .stringText]
  | interpolation | initialValue => rs = [.expr]
  | attributeUse | macroUse => ∃ types arguments, rs = .identifier :: (types ++ arguments) ∧
      (types = [] ∨ types = [.genericClause]) ∧ (arguments = [] ∨ arguments = [.argumentClause])
  | variableDecl => ∃ front bindings, rs = front ++ .bindingKeyword :: bindings ∧
      front ⊆ [.attributeUse, .modifier] ∧ bindings ⊆ [.patternBinding]
  | functionDecl => ∃ front body, rs = front ++ .identifier :: body ∧
      front ⊆ [.attributeUse, .modifier] ∧ body ⊆ .importDecl :: statementRules
  | patternBinding => ∃ pattern types values accessors,
      rs = pattern :: (types ++ values ++ accessors) ∧ pattern ∈ patternRules ∧
      (types = [] ∨ types = [.declaredType]) ∧ (values = [] ∨ values = [.initialValue]) ∧
      accessors ⊆ [.accessor]
  | declaredType => rs = [.typeExpr]
  | accessor => ∃ body, rs = .accessorKind :: body ∧ body ⊆ .importDecl :: statementRules
  | tuplePattern => rs ⊆ patternRules
  | typeExpr => ∃ marks, rs = .typeReference :: marks ∧ marks ⊆ [.optionalMark]
  | typeReference => rs = [.qualifiedName] ∨ rs = [.qualifiedName, .genericClause]
  | genericClause => rs ⊆ [.typeExpr]
  | expr => ∃ tails, rs = .prefixExpr :: tails ∧ tails ⊆ [.castTail, .binaryTail]
  | castTail => rs = [.castOperator, .typeExpr]
  | binaryTail => rs = [.binaryOperator, .prefixExpr]
  | prefixExpr => rs = [.postfixExpr] ∨ rs = [.prefixOperator, .postfixExpr]
  | postfixExpr => ∃ operand suffixes, rs = operand :: suffixes ∧ operand ∈ operandRules ∧
      suffixes ⊆ [.argumentClause, .memberSuffix, .forceUnwrap]
  | namePattern | memberSuffix | implicitMember => rs = [.identifier]
  | tupleExpr | argumentClause => rs ⊆ [.argument]
  | argument => rs = [.expr] ∨ rs = [.argumentLabel, .expr]
  | _ => True

/-- What the expression of a rule matches is what the rule expects. -/
theorem expects_of_row {r : Rule} {rs : List Rule} (h : r.style ≠ .word → r.body.Row rs) :
    r.Expects rs := by
  cases r with
  | sourceFile | stringLiteral | tuplePattern | genericClause | tupleExpr | argumentClause =>
    exact (h (by decide)).subset (by decide)
  | expressionEntry | accessorEntry | typeEntry | interpolation | initialValue | declaredType | castTail
  | binaryTail | namePattern | memberSuffix | implicitMember | argument | prefixExpr | typeReference =>
    simpa [Rule.Expects, Rule.body, row_append, row_opt, row_empty, row_lit, row_rule] using h (by decide)
  | attributeUse | macroUse =>
    obtain ⟨_, arguments, ⟨_, types, ⟨_, _, rfl, rfl, rfl⟩, htypes, rfl⟩, harguments, rfl⟩ := h (by decide)
    exact ⟨types, arguments, by simp, htypes, harguments⟩
  | variableDecl =>
    obtain ⟨_, bindings, ⟨front, _, hfront, rfl, rfl⟩, hbindings, rfl⟩ := h (by decide)
    exact ⟨front, bindings, by simp, hfront.subset (by decide), hbindings.subset (by decide)⟩
  | functionDecl =>
    obtain ⟨_, _, ⟨_, body, ⟨_, _, ⟨_, _, ⟨_, _, ⟨_, _, ⟨front, _, hfront, rfl, rfl⟩, rfl, rfl⟩, rfl,
      rfl⟩, rfl, rfl⟩, rfl, rfl⟩, hbody, rfl⟩, rfl, rfl⟩ := h (by decide)
    exact ⟨front, body, by simp, hfront.subset (by decide), hbody.subset (by decide)⟩
  | patternBinding =>
    obtain ⟨_, accessors, ⟨_, values, ⟨_, types, hpattern, htypes, rfl⟩, hvalues, rfl⟩, haccessors, rfl⟩ :=
      h (by decide)
    obtain ⟨pattern, rfl⟩ : ∃ pattern, _ = [pattern] := by
      rcases hpattern with (hpattern | hpattern) | hpattern <;> exact ⟨_, hpattern⟩
    have hmem : pattern ∈ patternRules := hpattern.subset (by decide) List.mem_cons_self
    exact ⟨pattern, types, values, accessors, by simp, hmem, htypes, hvalues, haccessors.subset (by decide)⟩
  | accessor =>
    obtain ⟨_, _, ⟨_, body, ⟨_, _, rfl, rfl, rfl⟩, hbody, rfl⟩, rfl, rfl⟩ := h (by decide)
    exact ⟨body, by simp, hbody.subset (by decide)⟩
  | typeExpr =>
    obtain ⟨_, marks, rfl, hmarks, rfl⟩ := h (by decide)
    exact ⟨marks, rfl, Peg.Row.subset (e := .many _) hmarks (by decide)⟩
  | expr =>
    obtain ⟨_, tails, rfl, htails, rfl⟩ := h (by decide)
    exact ⟨tails, rfl, Peg.Row.subset (e := .many _) htails (by decide)⟩
  | postfixExpr =>
    obtain ⟨_, suffixes, hoperand, hsuffixes, rfl⟩ := h (by decide)
    obtain ⟨operand, rfl⟩ : ∃ operand, _ = [operand] := by
      rcases hoperand with (((((((h | h) | h) | h) | h) | h) | h) | h) | h <;> exact ⟨_, h⟩
    have hmem : operand ∈ operandRules := hoperand.subset (by decide) List.mem_cons_self
    exact ⟨operand, suffixes, rfl, hmem, hsuffixes.subset (by decide)⟩
  | _ => trivial

theorem kind_of_mem_operandRules : ∀ r ∈ operandRules, r = .identifier ∨ r.partKind = .node := by decide

theorem kind_of_mem_patternRules : ∀ r ∈ patternRules, r.partKind = .node := by decide

/-- The rule and those below it have the parts that they expect. -/
inductive Tree.Expected : Tree Rule → Prop
  | text (cs : List Char) : Expected (.text cs)
  | node {r : Rule} {ts : List (Tree Rule)} (hr : r.Expects (heads ts)) (hts : ∀ t ∈ ts, t.Expected) :
      Expected (.node r ts)

/-- In the tree of a match all rules have the parts that they expect. -/
theorem expected_of_matches {layout : Layout} {e : Peg Rule} {s rest : List Char}
    {trees : List (Tree Rule)} (h : sourceGrammar.Matches layout e s trees rest) :
    ∀ t ∈ trees, t.Expected :=
  (trees_of_matches .text (fun _ _ _ _ _ hrow hts => .node (expects_of_row hrow) hts) h).1

/-! ## Building never gets stuck -/

/-- A named type with the marks behind it. -/
theorem build_typeExpr {place : Span} {n : Node} {marks : List Item}
    (h : ∀ r ∈ marks.map Item.rule, r = .optionalMark) (span : Span) (text : String) :
    Rule.build .typeExpr span text (⟨.typeReference, place, .node n⟩ :: marks) =
      .ok (.node (marks.foldl (fun type mark => ⟨.optionalType type, type.span.cover mark.span⟩) n)) := by
  have hnodes : nodesOf [.typeReference] marks = [] := by
    refine nodesOf_eq_nil_of_forall fun r hr => ?_
    rw [h r hr]
    decide
  have hone : nodesOf [.typeReference] (⟨.typeReference, place, .node n⟩ :: marks) =
      n :: nodesOf [.typeReference] marks := rfl
  rw [hnodes] at hone
  simp only [Rule.build, hone]
  rfl

/-- A rule makes something of the parts that it expects. Only the text of a string literal is looked at
again. -/
theorem build_ok {r : Rule} (hr : r ≠ .stringText) {items : List Item} (hfits : ∀ i ∈ items, i.Fits)
    (h : r.Expects (items.map Item.rule)) (span : Span) (text : String) :
    ∃ part, r.build span text items = .ok part := by
  have hword : ∀ {w : Rule}, w ∈ items.map Item.rule → w.partKind = .word →
      ∃ t ts, wordsOf w items = t :: ts := fun hw hkind =>
    List.exists_cons_of_ne_nil (wordsOf_ne_nil hfits hw hkind)
  cases r with
  | stringText => exact absurd rfl hr
  | stringLiteral =>
    simp only [Rule.build]
    split
    · exact ⟨_, rfl⟩
    · exact ⟨_, rfl⟩
  | attributeUse | macroUse =>
    obtain ⟨types, arguments, hrs, -, -⟩ := h
    obtain ⟨name, names, h⟩ := hword (w := .identifier) (by simp [hrs]) rfl
    simp only [Rule.build, h]
    exact ⟨_, rfl⟩
  | implicitMember | memberSuffix =>
    have hrs : items.map Item.rule = [.identifier] := h
    obtain ⟨name, names, h⟩ := hword (w := .identifier) (by simp [hrs]) rfl
    simp only [Rule.build, h]
    exact ⟨_, rfl⟩
  | functionDecl =>
    obtain ⟨front, body, hrs, -, -⟩ := h
    obtain ⟨name, names, h⟩ := hword (w := .identifier) (by simp [hrs]) rfl
    simp only [Rule.build, h]
    exact ⟨_, rfl⟩
  | variableDecl =>
    obtain ⟨front, bindings, hrs, -, -⟩ := h
    obtain ⟨word, words, h⟩ := hword (w := .bindingKeyword) (by simp [hrs]) rfl
    simp only [Rule.build, h]
    exact ⟨_, rfl⟩
  | accessor =>
    obtain ⟨body, hrs, -⟩ := h
    obtain ⟨word, words, h⟩ := hword (w := .accessorKind) (by simp [hrs]) rfl
    simp only [Rule.build, h]
    exact ⟨_, rfl⟩
  | typeReference =>
    obtain ⟨name, names, h⟩ := hword (w := .qualifiedName) (by rcases h with h | h <;> simp [h]) rfl
    simp only [Rule.build, h]
    exact ⟨_, rfl⟩
  | interpolation | initialValue | declaredType =>
    obtain ⟨_, n, rfl⟩ := items_node hfits h rfl
    exact ⟨_, rfl⟩
  | patternBinding =>
    obtain ⟨p, types, values, accessors, hrs, hp, -⟩ := h
    obtain ⟨n, ns, h⟩ := List.exists_cons_of_ne_nil
      (nodesOf_ne_nil hfits (by simp [hrs]) hp (kind_of_mem_patternRules p hp))
    simp only [Rule.build, h]
    exact ⟨_, rfl⟩
  | argument =>
    rcases h with h | h
    · obtain ⟨_, n, rfl⟩ := items_node hfits h rfl
      exact ⟨_, rfl⟩
    · obtain ⟨_, label, _, n, rfl⟩ := items_word_node hfits h rfl rfl
      exact ⟨_, rfl⟩
  | castTail | binaryTail =>
    obtain ⟨_, word, _, n, rfl⟩ := items_word_node hfits h rfl rfl
    exact ⟨_, rfl⟩
  | prefixExpr =>
    rcases h with h | h
    · obtain ⟨_, n, rfl⟩ := items_node hfits h rfl
      exact ⟨_, rfl⟩
    · obtain ⟨_, operator, _, n, rfl⟩ := items_word_node hfits h rfl rfl
      exact ⟨_, rfl⟩
  | expr =>
    obtain ⟨tails, hrs, -⟩ := h
    obtain ⟨_, n, rest, rfl, -, -⟩ := items_node_cons hfits hrs rfl
    exact ⟨_, rfl⟩
  | typeExpr =>
    obtain ⟨marks, hrs, hmarks⟩ := h
    obtain ⟨_, n, rest, rfl, hrest, -⟩ := items_node_cons hfits hrs rfl
    exact ⟨_, build_typeExpr (fun r hr => List.mem_singleton.1 (hmarks (hrest ▸ hr))) span text⟩
  | postfixExpr =>
    obtain ⟨operand, suffixes, hrs, hoperand, -⟩ := h
    rcases kind_of_mem_operandRules operand hoperand with rfl | hkind
    · obtain ⟨_, name, rest, rfl, -, -⟩ := items_word_cons hfits hrs rfl
      exact ⟨_, rfl⟩
    · obtain ⟨_, n, rest, rfl, -, -⟩ := items_node_cons hfits hrs hkind
      exact ⟨_, rfl⟩
  | _ => exact ⟨_, rfl⟩

end SwiftMacro
