import SwiftMacro.Proofs.CutStatements
import SwiftMacro.Proofs.Entries
import SwiftMacro.Proofs.Parts
/-!
# Nodes that are read on their own

A text that one rule matches as a whole, with one node made of it (`Whole`), is read by the entry for
nodes of that kind, and as the same node (`readChars_of_whole`). On the way from the rule to the entry
each rule in between has nothing to add: the text is at its end, so nothing follows the operand, and
no sign stands in front of it.
-/

namespace SwiftMacro

open Peg

/-! ## Trees with nothing around them -/

/-- Texts of no characters. -/
def Blank (ts : List (Tree Rule)) : Prop := ∀ t ∈ ts, t = .text []

theorem blank_nil : Blank [] := by simp [Blank]

theorem blank_text : Blank [.text []] := by simp [Blank]

theorem itemsOf_blank {ts : List (Tree Rule)} (h : Blank ts) (offset : Nat) :
    Tree.itemsOf offset ts = .ok [] := by
  induction ts with
  | nil => rfl
  | cons t ts ih =>
    obtain rfl := h t List.mem_cons_self
    have ih := ih fun u hu => h u (List.mem_cons_of_mem _ hu)
    simp [Tree.itemsOf, Tree.items, Tree.chars, byteLength, ih]

theorem charsOf_blank {ts : List (Tree Rule)} (h : Blank ts) : Tree.charsOf ts = [] := by
  induction ts with
  | nil => rfl
  | cons t ts ih =>
    obtain rfl := h t List.mem_cons_self
    exact ih fun u hu => h u (List.mem_cons_of_mem _ hu)

theorem itemsOf_padded {front ts back : List (Tree Rule)} (hfront : Blank front) (hback : Blank back)
    {offset : Nat} {items : List Item} (h : Tree.itemsOf offset ts = .ok items) :
    Tree.itemsOf offset (front ++ ts ++ back) = .ok items := by
  refine Tree.itemsOf_append_eq_ok.2 ⟨items, [], ?_, itemsOf_blank hback _, (List.append_nil _).symm⟩
  refine Tree.itemsOf_append_eq_ok.2 ⟨[], items, itemsOf_blank hfront _, ?_, rfl⟩
  rw [charsOf_blank hfront]
  exact h

theorem itemsOf_singleton {t : Tree Rule} {offset : Nat} {items : List Item}
    (h : t.items offset = .ok items) : Tree.itemsOf offset [t] = .ok items := by
  simp [Tree.itemsOf, h]

theorem items_of_build {d : Rule} {ts : List (Tree Rule)} {offset : Nat} {items : List Item}
    {part : Part} (hitems : Tree.itemsOf offset ts = .ok items)
    (hbuild : ∀ span text, d.build span text items = .ok part) :
    ∃ place, Tree.items offset (.node d ts) = .ok [⟨d, place, part⟩] :=
  ⟨_, Tree.items_node_eq_ok.2 ⟨items, part, hitems, hbuild _ _, rfl⟩⟩

/-- In front of a text that starts with no blanks is no gap. -/
theorem gap_of_after {s : List Char} (h : after .spaced s = s) :
    (sourceGrammar.gap .spaced s).1 = [.text []] := by
  have htext : (Trivia.split s).1 ++ after .spaced s = s := Trivia.split_append s
  rw [h] at htext
  change [Tree.text (Trivia.split s).1] = _
  rw [List.append_left_eq_self.1 htext]

/-! ## One rule for the whole text -/

/-- The rule matches the whole text and makes a node of it. -/
def Whole (d : Rule) (q : List Char) (n : Node) : Prop :=
  ∃ ps place, sourceGrammar.Matches .spaced (.rule d) q [.node d ps] [] ∧
    Tree.items 0 (.node d ps) = .ok [⟨d, place, .node n⟩]

section Whole

variable {d e : Rule} {q : List Char} {n : Node}

/-- A tree of a longer text, on its own. -/
theorem exists_whole {ps : List (Tree Rule)} {offset : Nat} {place : Span}
    (hmatch : sourceGrammar.Matches .spaced (.rule d) q [.node d ps] [])
    (hitems : Tree.items offset (.node d ps) = .ok [⟨d, place, .node n⟩]) :
    ∃ m, Whole d q m ∧ m.shift offset = n := by
  rw [← Nat.zero_add offset, Tree.items_shift] at hitems
  cases h0 : Tree.items 0 (.node d ps) with
  | error e => rw [h0] at hitems; cases hitems
  | ok its =>
    rw [h0] at hitems
    obtain ⟨⟨r, place₀, part⟩, rfl, hitem⟩ := List.map_eq_singleton_iff.1 (Except.ok.inj hitems)
    obtain ⟨hr, -, hpart⟩ := Item.mk.inj hitem
    obtain rfl : r = d := hr
    cases part with
    | node m => exact ⟨m, ⟨ps, place₀, hmatch, h0⟩, Part.node.inj hpart⟩
    | _ => cases hpart

/-- A rule that finds only one other rule there and adds nothing to its node. -/
theorem Whole.up (h : Whole d q n)
    (hbuild : ∀ span text place, e.build span text [⟨d, place, .node n⟩] = .ok (.node n))
    (hmatch : ∀ ps, sourceGrammar.Matches .spaced (.rule d) q [.node d ps] [] →
      ∃ front back, Blank front ∧ Blank back ∧
        sourceGrammar.Matches .spaced (.rule e) q [.node e (front ++ [.node d ps] ++ back)] []) :
    Whole e q n := by
  obtain ⟨ps, place, hrule, hitems⟩ := h
  obtain ⟨front, back, hfront, hback, hmatch⟩ := hmatch ps hrule
  obtain ⟨place', hplace⟩ := items_of_build (itemsOf_padded hfront hback (itemsOf_singleton hitems))
    fun span text => hbuild span text place
  exact ⟨_, place', hmatch, hplace⟩

/-- A rule whose expression matches is a node where blanks are skipped. -/
theorem matches_node {s y : List Char} {parts : List (Tree Rule)}
    (h : sourceGrammar.Matches (d.style.inside .spaced) d.body s parts y) :
    sourceGrammar.Matches .spaced (.rule d) s [.node d parts] y := by
  have hvisible : d.style.outside .spaced ≠ .hidden := outside_ne_hidden _ (by decide)
  exact Grammar.matches_rule.2 ⟨parts, h, (if_neg hvisible).symm⟩

/-- Where rules that bring their own layout are visible, the layout around them is no matter. -/
theorem matches_joined {s y : List Char} {parts : List (Tree Rule)} (hd : d.style ≠ .plain)
    (h : sourceGrammar.Matches .spaced (.rule d) s parts y) :
    sourceGrammar.Matches .joined (.rule d) s parts y := by
  obtain ⟨inner, hinner, rfl⟩ := Grammar.matches_rule.1 h
  have hinside : d.style.inside .spaced = d.style.inside .joined ∧
      sourceGrammar.close d .spaced inner = sourceGrammar.close d .joined inner := by
    unfold Grammar.close
    change _ ∧ (if d.style.outside .spaced = _ then _ else _) =
      if d.style.outside .joined = _ then _ else _
    cases hstyle : d.style with
    | plain => exact absurd hstyle hd
    | word | joined | spaced => exact ⟨rfl, rfl⟩
  change sourceGrammar.Matches (d.style.inside .spaced) _ _ _ _ at hinner
  rw [hinside.1] at hinner
  exact Grammar.matches_rule.2 ⟨inner, hinner, hinside.2⟩

/-! ## From operands to expressions -/

theorem Whole.postfixExpr (h : Whole d q n) (hd : d ∈ primaryRules) : Whole .postfixExpr q n := by
  have hplain : ∀ d ∈ primaryRules, d.style ≠ .plain := by decide
  refine h.up (fun _ _ _ => rfl) fun ps hrule => ⟨[], [], blank_nil, blank_nil, matches_node ?_⟩
  have hprimary := matches_primary hd (matches_joined (hplain d hd) hrule)
  have hnone : sourceGrammar.Matches .joined (.many suffix) [] [] [] :=
    Grammar.matches_many.2 (.inl ⟨fails_nil rfl rfl, rfl, rfl⟩)
  exact Grammar.matches_seq.2 ⟨_, [], [], hprimary, hnone, rfl⟩

theorem Whole.prefixExpr (h : Whole .postfixExpr q n) (hq : after .spaced q = q) :
    Whole .prefixExpr q n := by
  refine h.up (fun _ _ _ => rfl) fun ps hrule =>
    ⟨[.text []], [], blank_text, blank_nil, matches_node ?_⟩
  have hoperand : sourceGrammar.Matches .spaced (.rule .postfixExpr) (after .spaced q)
      [.node .postfixExpr ps] [] := by
    rw [hq]
    exact hrule
  have hsign : sourceGrammar.Fails .spaced (.rule .prefixOperator) q :=
    fails_prefixOperator_before ⟨_, hoperand⟩
  refine Grammar.matches_seq.2 ⟨[], q, _, Grammar.matches_opt.2 (.inr ⟨hsign, rfl, rfl⟩), hoperand, ?_⟩
  exact congrArg (· ++ [_]) (gap_of_after hq).symm

theorem Whole.expr (h : Whole .prefixExpr q n) : Whole .expr q n := by
  refine h.up (fun _ _ _ => rfl) fun ps hrule =>
    ⟨[], [.text []], blank_nil, blank_text, matches_node ?_⟩
  have hnone : sourceGrammar.Matches .spaced (.many tail) (after .spaced []) [] [] := by
    rw [after_nil]
    exact Grammar.matches_many.2 (.inl ⟨fails_nil rfl rfl, rfl, rfl⟩)
  refine Grammar.matches_seq.2 ⟨_, [], [], hrule, hnone, ?_⟩
  rw [List.append_nil]
  exact congrArg ([_] ++ ·) (gap_of_after after_nil).symm

theorem Whole.typeExpr (h : Whole .typeReference q n) : Whole .typeExpr q n := by
  refine h.up (fun _ _ _ => rfl) fun ps hrule => ⟨[], [], blank_nil, blank_nil, matches_node ?_⟩
  have hnone : sourceGrammar.Matches .joined (.many (.rule .optionalMark)) [] [] [] :=
    Grammar.matches_many.2 (.inl ⟨fails_nil rfl rfl, rfl, rfl⟩)
  exact Grammar.matches_seq.2 ⟨_, [], [], matches_joined (by decide) hrule, hnone, rfl⟩

/-! ## Entries -/

/-- A declaration is a statement: nothing that is tried first matches it. -/
theorem ReadsAt.statement {o : Nat} {s y : List Char} {items : List Item} (hd : d ∈ ledRules)
    (hs : after .spaced s = s) (h : ReadsAt .spaced o (.rule d) s items y) :
    ReadsAt .spaced o Rule.statement s items y := by
  have himport := fails_import_of_led hd hs h.accepts
  simp only [ledRules, List.mem_cons, List.not_mem_nil, or_false] at hd
  rcases hd with rfl | rfl
  · exact ((h.alt_right himport).alt_left).alt_left
  · exact (h.alt_right (Grammar.fails_alt.2 ⟨himport, fails_variable_of_function h.accepts⟩)).alt_left

/-- What an entry reads from a text that its content matches as a whole. -/
theorem readChars_of_content {entry : Entry} {place : Span} (hq : after .spaced q = q)
    (hd : d ∈ entry.listed) (h : ReadsAt .spaced 0 entry.content q [⟨d, place, .node n⟩] []) :
    readChars entry q = .ok [n] := by
  have hzero : blankLength q = 0 := by
    have hall := blankLength_add q
    rw [hq] at hall
    omega
  refine readChars_eq_ok.2 ⟨_, [], by rw [hzero, hq]; exact h, after_nil, ?_⟩
  simp [nodesOf, Item.nodeOf?, hd]

theorem Whole.readsAt (h : Whole d q n) :
    ∃ place, ReadsAt .spaced 0 (.rule d) q [⟨d, place, .node n⟩] [] := by
  obtain ⟨ps, place, hmatch, hitems⟩ := h
  exact ⟨place, _, hmatch, itemsOf_singleton hitems⟩

/-- What one rule makes of a whole text is what the entry for it reads. -/
theorem readChars_of_whole {entry : Entry} (hd : d.entry? = some entry) (hq : after .spaced q = q)
    (h : Whole d q n) : readChars entry q = .ok [n] := by
  -- The entries match an expression and a type: the rules of operands have some way to go up to there.
  have hexpr : Whole .expr q n → readChars .expression q = .ok [n] := by
    intro h
    obtain ⟨_, h⟩ := h.readsAt
    exact readChars_of_content hq (by decide) h
  have hoperand : Whole .postfixExpr q n → readChars .expression q = .ok [n] :=
    fun h => hexpr (h.prefixExpr hq).expr
  have htype : Whole .typeExpr q n → readChars .type q = .ok [n] := by
    intro h
    obtain ⟨_, h⟩ := h.readsAt
    exact readChars_of_content hq (by decide) h
  cases d with
  | stringLiteral | integerLiteral | floatLiteral | booleanLiteral | nilLiteral | macroUse
  | implicitMember | tupleExpr =>
    obtain rfl := Option.some.inj hd
    exact hoperand (h.postfixExpr (by decide))
  | postfixExpr =>
    obtain rfl := Option.some.inj hd
    exact hoperand h
  | prefixExpr =>
    obtain rfl := Option.some.inj hd
    exact hexpr h.expr
  | expr =>
    obtain rfl := Option.some.inj hd
    exact hexpr h
  | typeReference =>
    obtain rfl := Option.some.inj hd
    exact htype h.typeExpr
  | typeExpr =>
    obtain rfl := Option.some.inj hd
    exact htype h
  | accessor =>
    obtain rfl := Option.some.inj hd
    obtain ⟨_, h⟩ := h.readsAt
    exact readChars_of_content hq (by decide) h
  | variableDecl | functionDecl =>
    obtain rfl := Option.some.inj hd
    obtain ⟨_, h⟩ := h.readsAt
    exact readChars_of_content hq (by decide) ((h.statement (by decide) hq).statements after_nil)
  | _ => cases hd

end Whole
end SwiftMacro
