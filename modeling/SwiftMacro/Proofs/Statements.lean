import SwiftMacro.Proofs.Continuations
/-!
# Statements line by line

`Lines ns s rest` says that the statements `ns` are read one after the other from `s` up to `rest`, the
end of a block or of the text. A line in front of others is read with them (`Lines.expression` here, for
expressions): either as a statement of its own, or as one with the first of them, as `Node.joinFront`
says.
-/

namespace SwiftMacro

open Peg

/-! ## Items of a declaration -/

section Items

variable (rules : List Rule) (r r' : Rule)

theorem nodesOf_append (front back : List Item) :
    nodesOf rules (front ++ back) = nodesOf rules front ++ nodesOf rules back :=
  List.filterMap_append ..

theorem wordsOf_append (front back : List Item) :
    wordsOf r (front ++ back) = wordsOf r front ++ wordsOf r back :=
  List.filterMap_append ..

/-- A node as an item of a rule. -/
def nodeItem (n : Node) : Item := ⟨r, default, .node n⟩

theorem nodesOf_map_nodeItem (ns : List Node) :
    nodesOf rules (ns.map (nodeItem r)) = if r ∈ rules then ns else [] := by
  by_cases h : r ∈ rules
  · rw [if_pos h]
    exact filterMap_map_eq_self (fun n => if_pos h) ns
  · rw [if_neg h]
    exact filterMap_map_eq_nil (fun n => if_neg h) ns

theorem wordsOf_map_nodeItem (ns : List Node) : wordsOf r (ns.map (nodeItem r')) = [] :=
  filterMap_map_eq_nil (fun _ => by rfl) ns

theorem nodesOf_map_wordItem (ws : List String) :
    nodesOf rules (ws.map fun w => wordItem r w.toList) = [] :=
  filterMap_map_eq_nil (fun _ => by rfl) ws

theorem wordsOf_map_wordItem (ws : List String) :
    wordsOf r (ws.map fun w => wordItem r' w.toList) = if r' = r then ws else [] := by
  by_cases h : r' = r
  · rw [if_pos h]
    exact filterMap_map_eq_self (fun w => by simp [Item.wordOf?, wordItem, h]) ws
  · rw [if_neg h]
    exact filterMap_map_eq_nil (fun w => if_neg h) ws

end Items

/-! ## Statements as items -/

/-- The rule that reads a statement. -/
def statementRule (n : Node) : Rule :=
  match n.shape with
  | .variableDecl _ _ _ _ => .variableDecl
  | .functionDecl _ _ _ _ => .functionDecl
  | _ => .expr

/-- A statement as an item of its rule. -/
def statementItem (n : Node) : Item := ⟨statementRule n, default, .node n⟩

theorem nodesOf_map_statementItem (ns : List Node) :
    nodesOf statementRules (ns.map statementItem) = ns := by
  refine filterMap_map_eq_self (fun n => ?_) ns
  unfold statementItem statementRule
  split <;> rfl

theorem wordsOf_map_statementItem (r : Rule) (ns : List Node) : wordsOf r (ns.map statementItem) = [] :=
  filterMap_map_eq_nil (fun _ => by rfl) ns

theorem nodesOf_attribute_map_statementItem (ns : List Node) :
    nodesOf [.attributeUse] (ns.map statementItem) = [] := by
  refine filterMap_map_eq_nil (fun n => ?_) ns
  unfold statementItem statementRule
  split <;> rfl

theorem isNegated_of_statementRule {n : Node} (h : statementRule n ≠ .expr) : n.isNegated = false := by
  obtain ⟨shape, span⟩ := n
  cases shape <;> first | rfl | exact absurd rfl h

theorem isBareDeclaration_of_statementRule {n : Node} (h : statementRule n = .expr) :
    n.isBareDeclaration = false := by
  obtain ⟨shape, span⟩ := n
  cases shape <;> first | rfl | cases h

theorem statementRule_withModifier (m : String) (n : Node) :
    statementRule (n.withModifier m) = statementRule n := by
  obtain ⟨shape, span⟩ := n
  cases shape <;> rfl

theorem statementRule_of_expression {n : Node} (h : Readable .expression n) :
    statementRule n = .expr := by
  cases h with
  | binary | cast => rfl
  | ofUnary h =>
    cases h with
    | prefixed => rfl
    | ofOperand h =>
      cases h with
      | call | member | unwrap => rfl
      | ofPrimary h => cases h <;> rfl

theorem statementRule_subtractedFrom {n : Node} (lhs : Node) (h : n.isNegated = true) :
    statementRule (n.subtractedFrom lhs) = .expr := by
  obtain ⟨shape, span⟩ := n
  cases shape <;> first | rfl | cases h

/-- An expression goes on with a line that starts with a minus sign. -/
theorem merged_of_isNegated {s t : Node} (hs : statementRule s = .expr) (ht : t.isNegated = true) :
    s.runsInto t = true ∧ s.merged t = t.subtractedFrom s := by
  obtain ⟨shape, span⟩ := s
  cases shape with
  | variableDecl | functionDecl => cases hs
  | identifier name => simp [Node.runsInto, Node.merged, ht]
  | _ => exact ⟨ht, rfl⟩

/-- It goes on with another line only if it is a modifier in front of a declaration. -/
theorem modifier_of_runsInto {s t : Node} (ht : t.isNegated = false) (h : s.runsInto t = true) :
    ∃ m ∈ Rule.modifiers, s.shape = .identifier m ∧ t.isBareDeclaration = true := by
  unfold Node.runsInto at h
  split at h
  · next name hshape =>
    simp only [ht, Bool.false_or, Bool.and_eq_true, decide_eq_true_eq] at h
    exact ⟨name, h.1, hshape, h.2⟩
  · rw [ht, Bool.and_false] at h
    cases h
  · cases h
  · rw [ht] at h
    cases h

/-- What reading a statement says of the rules that come before its own. -/
theorem statement_cases {s r : List Char} {t : Node}
    (h : Reads .spaced Rule.statement s [statementItem t] r) :
    (statementRule t = .variableDecl ∧
      Reads .spaced (.rule .variableDecl) s [⟨.variableDecl, default, .node t⟩] r) ∨
    (statementRule t = .functionDecl ∧ sourceGrammar.Fails .spaced (.rule .variableDecl) s ∧
      Reads .spaced (.rule .functionDecl) s [⟨.functionDecl, default, .node t⟩] r) ∨
    (statementRule t = .expr ∧
      sourceGrammar.Fails .spaced (.rule .variableDecl / .rule .functionDecl) s ∧
      Reads .spaced (.rule .expr) s [⟨.expr, default, .node t⟩] r) := by
  have hrule : ∀ {rule : Rule}, Reads .spaced (.rule rule) s [statementItem t] r →
      statementRule t = rule := fun h =>
    List.mem_singleton.1 (h.rule_mem (by decide) _ List.mem_cons_self)
  rcases reads_alt.1 h with h | ⟨hfails, h⟩
  · rcases reads_alt.1 h with h | ⟨hfails, h⟩
    · rcases reads_alt.1 h with h | ⟨-, h⟩
      · have himport := hrule h
        unfold statementRule at himport
        split at himport <;> cases himport
      · have hr := hrule h
        rw [statementItem, hr] at h
        exact .inl ⟨hr, h⟩
    · have hr := hrule h
      rw [statementItem, hr] at h
      exact .inr (.inl ⟨hr, (Grammar.fails_alt.1 hfails).2, h⟩)
  · have hr := hrule h
    rw [statementItem, hr] at h
    obtain ⟨hfront, hfunction⟩ := Grammar.fails_alt.1 hfails
    exact .inr (.inr ⟨hr, Grammar.fails_alt.2 ⟨(Grammar.fails_alt.1 hfront).2, hfunction⟩, h⟩)

/-! ## Lines -/

/-- A statement ends there: at the end of the text, at a closing brace or in front of a statement. -/
def Settled (s : List Char) : Prop := Stops (fun c => !(c == '\x7d' || Category.statement.starts c)) s

theorem Settled.ne {s : List Char} (h : Settled s) (c : Char)
    (hc : (c == '\x7d' || Category.statement.starts c) = false) : Stops (· == c) s := by
  refine h.mono fun x hx => ?_
  rw [beq_iff_eq.1 hx, hc]
  rfl

/-- A line starts there. -/
structure StartsLine (s : List Char) : Prop where
  solid : after .spaced s = s
  settled : Settled s
  signature : sourceGrammar.Fails .spaced signature s

theorem startsLine {n : Node} (h : Readable .statement n) (d : Nat) (s : List Char)
    (hs : sourceGrammar.Fails .spaced signature (n.charsAt d ++ s)) : StartsLine (n.charsAt d ++ s) := by
  refine ⟨after_charsAt h d s, ?_, hs⟩
  obtain ⟨c, t, ht, hc⟩ := charsAt_eq_cons h d
  rw [ht]
  exact stops_cons.2 (by rw [hc, Bool.or_true]; rfl)

/-- The statements are read one after the other, from the start of a line to the end of a block or of
the text. -/
inductive Lines : List Node → List Char → List Char → Prop
  | done : Lines [] [] []
  | brace (s : List Char) : Lines [] ('\x7d' :: s) ('\x7d' :: s)
  | cons {n : Node} {ns : List Node} {s r rest : List Char} (start : StartsLine s)
      (first : ReadsPast .spaced Rule.statement s [statementItem n] r)
      (more : Lines ns (after .spaced r) rest) : Lines (n :: ns) s rest

namespace Lines

variable {ns : List Node} {s f rest : List Char}

theorem start (h : Lines ns s rest) : StartsLine s := by
  cases h with
  | done => exact ⟨after_nil, stops_nil _, fails_nil rfl rfl⟩
  | brace s => exact ⟨after_solid rfl s, stops_cons.2 rfl, fails_of_first s rfl rfl rfl rfl⟩
  | cons start => exact start

theorem follows (h : Lines ns (after .spaced f) rest) (hf : Ends f) : FollowsStatement f where
  word := (hf.stops rfl)
  brace := h.start.settled.ne '\x7b' rfl
  signature := h.start.signature

/-- Lines are read as the statements of a block. -/
theorem readsPast_more (h : Lines ns (after .spaced s) rest) :
    ReadsPast .spaced (.more (Rule.statement ++ .opt (.lit ";"))) s (ns.map statementItem) rest := by
  generalize hq : after .spaced s = q at h
  induction h generalizing s with
  | done =>
    refine (readsPast_more_nil ?_).of_after (hq.trans after_nil.symm)
    rw [hq]
    exact fails_nil rfl rfl
  | brace t =>
    refine (readsPast_more_nil ?_).of_after (hq.trans (after_solid rfl t).symm)
    rw [hq]
    exact fails_of_first t rfl rfl rfl rfl
  | @cons n ns q r rest start first more ih =>
    have hsemicolon : sourceGrammar.Fails .spaced (.lit ";") (after .spaced r) :=
      fails_lit_of_head (c := ';') rfl (more.start.settled.ne ';' rfl)
    have hturn := first.seq (readsPast_opt_none hsemicolon)
    rw [← hq] at hturn
    exact hturn.more_cons (ih (after_after r))

theorem readsPast (h : Lines ns (after .spaced s) rest) :
    ReadsPast .spaced Rule.statements (after .spaced s) (ns.map statementItem) rest :=
  h.readsPast_more.many_of_more

/-- A chain in front of the lines goes on with the first of them if that starts with a minus sign, and
only then. -/
theorem tail_cases (h : Lines ns (after .spaced f) rest) :
    (∃ t ts ops r, ns = t :: ts ∧ t.isNegated = true ∧
      sourceGrammar.Fails .spaced (.rule .variableDecl / .rule .functionDecl) (after .spaced f) ∧
      ReadsPast .spaced (.more tail) f ops r ∧
      (∀ lhs : Node, lhs.span = default → ops.foldl applyTail lhs = t.subtractedFrom lhs) ∧
      Lines ts (after .spaced r) rest) ∨
    (ReadsPast .spaced (.more tail) f [] f ∧ ∀ t ∈ ns.head?, t.isNegated = false) := by
  generalize hq : after .spaced f = q at h
  cases h with
  | done =>
    refine .inr ⟨readsPast_more_nil ?_, fun t ht => nomatch ht⟩
    rw [hq]
    exact fails_nil rfl rfl
  | brace s =>
    refine .inr ⟨readsPast_more_nil ?_, fun t ht => nomatch ht⟩
    rw [hq]
    exact fails_of_first s rfl rfl rfl rfl
  | @cons t ts _ r _ start first more =>
    obtain ⟨r', hread, hafter⟩ := first
    have hcast : ∀ v, Stops Rule.isNameChar v → _ := fun v hv =>
      Grammar.fails_alt.1 (fails_declaration_as hv)
    have hother : statementRule t ≠ .expr → sourceGrammar.Fails .spaced tail q →
        ReadsPast .spaced (.more tail) f [] f ∧ ∀ t' ∈ (t :: ts).head?, t'.isNegated = false := by
      intro hrule hfails
      rw [← hq] at hfails
      refine ⟨readsPast_more_nil hfails, fun t' ht' => ?_⟩
      obtain rfl := Option.some.inj ht'
      exact isNegated_of_statementRule hrule
    rcases statement_cases hread with ⟨hrule, h⟩ | ⟨hrule, -, h⟩ | ⟨-, hfails, h⟩
    · refine .inr (hother (by rw [hrule]; decide)
        (fails_tail start.solid h.accepts (fun v hv => ?_) (by decide) rfl rfl))
      exact (Grammar.fails_alt.1 (hcast v hv).1).2
    · refine .inr (hother (by rw [hrule]; decide)
        (fails_tail start.solid h.accepts (fun v hv => ?_) (by decide) rfl rfl))
      exact (hcast v hv).2
    · rw [← hq] at h
      rcases SwiftMacro.tail_cases h with ⟨hneg, ops, hops, hfold⟩ | ⟨hneg, hfailsTail⟩
      · exact .inl ⟨t, ts, ops, r, rfl, hneg, hfails, hops.of_after hafter, hfold, more⟩
      · refine .inr ⟨readsPast_more_nil hfailsTail, fun t' ht' => ?_⟩
        obtain rfl := Option.some.inj ht'
        exact hneg

theorem noBareDeclaration (h : Lines ns s rest)
    (hns : ∀ t ∈ ns.head?, t.isBareDeclaration = false) : NoBareDeclaration s := by
  cases h with
  | done => exact .inl (fails_nil rfl rfl)
  | brace s => exact .inl (fails_of_first s rfl rfl rfl rfl)
  | @cons t ts _ r _ start first more =>
    obtain ⟨r', hread, -⟩ := first
    rcases statement_cases hread with ⟨-, h⟩ | ⟨-, -, h⟩ | ⟨-, hfails, -⟩
    · exact .inr (accepts_attribute_of_reads (.inl rfl) h (hns t rfl))
    · exact .inr (accepts_attribute_of_reads (.inr rfl) h (hns t rfl))
    · exact .inl hfails

/-- A modifier in the line before a declaration without attributes. -/
theorem modifier {m : String} (hm : m ∈ Rule.modifiers) (hf : Ends f) {t : Node} {ts : List Node}
    (hbare : t.isBareDeclaration = true) (hstart : StartsLine (m.toList ++ f))
    (h : Lines (t :: ts) (after .spaced f) rest) :
    Lines (t.withModifier m :: ts) (m.toList ++ f) rest := by
  generalize hq : after .spaced f = q at h
  cases h with
  | @cons _ _ _ r _ start first more =>
    obtain ⟨r', hread, hafter⟩ := first
    have himport : sourceGrammar.Fails .spaced (.rule .importDecl) (m.toList ++ f) :=
      fails_import_modifier hm (hf.stops rfl)
    have hitem : statementItem (t.withModifier m) =
        ⟨statementRule t, default, .node (t.withModifier m)⟩ := by
      rw [statementItem, statementRule_withModifier]
    refine .cons hstart ?_ more
    rw [hitem]
    rcases statement_cases hread with ⟨hrule, h⟩ | ⟨hrule, hvariable, h⟩ | ⟨hrule, -, -⟩
    · rw [← hq] at h
      have hall := reads_of_modifier hm (hf.stops rfl) (.inl rfl) hbare h
      rw [hrule]
      exact ⟨r', reads_alt_left (reads_alt_left (reads_alt_right himport hall)), hafter⟩
    · rw [← hq] at h hvariable
      have hall := reads_of_modifier hm (hf.stops rfl) (.inr rfl) hbare h
      have hfront := fails_variable_modifier hm (hf.stops rfl) (.inl hvariable)
      rw [hrule]
      exact ⟨r', reads_alt_left (reads_alt_right (Grammar.fails_alt.2 ⟨himport, hfront⟩) hall),
        hafter⟩
    · rw [isBareDeclaration_of_statementRule hrule] at hbare
      cases hbare

/-- A line with an expression. -/
theorem expression {n : Node} (h : Readable .expression n) (d : Nat) (hf : Ends f)
    (hlines : Lines ns (after .spaced f) rest) : Lines (n.joinFront ns) (n.charsAt d ++ f) rest := by
  have hfollows := hlines.follows hf
  have hrule := statementRule_of_expression h
  have hstart : StartsLine (n.charsAt d ++ f) :=
    startsLine (.ofExpression h) d f (fails_signature h d hfollows.brace)
  rcases hlines.tail_cases with ⟨t, ts, ops, r, rfl, hneg, hdecl, hops, hfold, hmore⟩ | ⟨hnone, hneg⟩
  · obtain ⟨hruns, hmerged⟩ := merged_of_isNegated hrule hneg
    have hread := roundTrips h d f ops r hf hops
    rw [hfold n h.span_eq] at hread
    have hdeclaration := fails_declaration h d hfollows fun _ _ _ => .inl hdecl
    rw [Node.joinFront, if_pos hruns, hmerged]
    refine .cons hstart ?_ hmore
    rw [statementItem, statementRule_subtractedFrom n hneg]
    exact ReadsPast.alt_right hdeclaration hread
  · have hread := roundTrips h d f [] f hf hnone
    have hown : (∀ m ∈ Rule.modifiers, n.shape = .identifier m → NoBareDeclaration (after .spaced f)) →
        Lines (n :: ns) (n.charsAt d ++ f) rest := by
      intro hnext
      refine .cons hstart ?_ hlines
      rw [statementItem, hrule]
      exact ReadsPast.alt_right (fails_declaration h d hfollows hnext) hread
    cases ns with
    | nil => exact hown fun _ _ _ => hlines.noBareDeclaration (by rintro t ⟨⟩)
    | cons t ts =>
      cases hruns : n.runsInto t with
      | false =>
        rw [Node.joinFront, if_neg (by rw [hruns]; exact Bool.false_ne_true)]
        refine hown fun m hm hshape => hlines.noBareDeclaration fun t' ht' => ?_
        obtain rfl := Option.some.inj ht'
        rw [Node.runsInto, hshape] at hruns
        simpa [hm] using (Bool.or_eq_false_iff.1 hruns).2
      | true =>
        obtain ⟨m, hm, hshape, hbare⟩ := modifier_of_runsInto (hneg t rfl) hruns
        have hmerged : n.merged t = t.withModifier m := by
          rw [Node.merged, hshape]
          exact if_neg (by rw [hneg t rfl]; exact Bool.false_ne_true)
        have htext : n.charsAt d = m.toList := by
          obtain ⟨shape, span⟩ := n
          obtain rfl : shape = .identifier m := hshape
          exact charsAt_identifier ..
        rw [htext] at hstart ⊢
        rw [Node.joinFront, if_pos hruns, hmerged]
        exact hlines.modifier hm hf hbare hstart

end Lines

end SwiftMacro
