import SwiftMacro.Proofs.Openings
/-!
# Where a chain goes on

An expression is read as far as operators follow, over the ends of lines. Whether one follows is decided
by the next statement: if that is an expression with a minus sign in front, it is read as a subtraction
(`reads_tail_of_negated`), and if it is anything else no chain goes on there (`fails_tail`).
-/

namespace SwiftMacro

open Peg

/-! ## Joined chains -/

namespace Node

theorem isNegated_applyTail (n : Node) (i : Item) : (applyTail n i).isNegated = n.isNegated := by
  unfold applyTail
  split <;> rfl

theorem isNegated_foldl (n : Node) (items : List Item) :
    (items.foldl applyTail n).isNegated = n.isNegated := by
  induction items generalizing n with
  | nil => rfl
  | cons i items ih => rw [List.foldl_cons, ih, isNegated_applyTail]

theorem span_afterSign (lhs n : Node) : (lhs.afterSign n).span = n.span := by
  unfold afterSign
  split <;> rfl

theorem span_subtractedFrom (n lhs : Node) : (n.subtractedFrom lhs).span = n.span := by
  unfold subtractedFrom
  unfold mapFirst
  split
  · rfl
  · rfl
  · exact span_afterSign lhs n

theorem subtractedFrom_applyTail (n lhs : Node) (i : Item) :
    (applyTail n i).subtractedFrom lhs = applyTail (n.subtractedFrom lhs) i := by
  have hspan := span_subtractedFrom n lhs
  unfold applyTail
  split
  · rw [hspan]
    rfl
  · rw [hspan]
    rfl
  · rfl

/-- What follows an operand follows it also when it is subtracted from something. -/
theorem subtractedFrom_foldl (n lhs : Node) (items : List Item) :
    (items.foldl applyTail n).subtractedFrom lhs = items.foldl applyTail (n.subtractedFrom lhs) := by
  induction items generalizing n with
  | nil => rfl
  | cons i items ih => rw [List.foldl_cons, ih, subtractedFrom_applyTail, List.foldl_cons]

end Node

/-! ## Where no operator follows -/

theorem eq_of_accepts_castTail {s r : List Char}
    (h : sourceGrammar.Accepts .spaced (.rule .castTail) s r) :
    ∃ v, s = ['a', 's'] ++ v ∧ Stops Rule.isNameChar v := by
  have hbody : sourceGrammar.Accepts .spaced (Rule.body .castTail) s r := Grammar.accepts_rule.1 h
  obtain ⟨q, hq, -⟩ := Grammar.accepts_seq.1 hbody
  have hword : sourceGrammar.Accepts .hidden (Rule.body .castOperator) s q := Grammar.accepts_rule.1 hq
  obtain ⟨p, hp, hend⟩ := Grammar.accepts_seq.1 hword
  obtain ⟨v, hv, hmark⟩ := Grammar.accepts_seq.1 hp
  refine ⟨v, Grammar.accepts_lit.1 hv, ?_⟩
  rcases Grammar.accepts_opt.1 hmark with hmark | ⟨-, rfl⟩
  · obtain ⟨w, hw, hvw⟩ := mem_of_accepts_anyOf hmark
    have hvw' : v = w.toList ++ p := hvw
    simp only [List.mem_cons, List.not_mem_nil, or_false] at hw
    rcases hw with rfl | rfl
    · rw [hvw']
      exact stops_cons.2 rfl
    · rw [hvw']
      exact stops_cons.2 rfl
  · exact Grammar.fails_one.1 (Grammar.accepts_not.1 hend).1

/-- No chain goes on where something else can be read that starts neither with an operator nor with
`as`. -/
theorem fails_tail {e : Peg Rule} {s r : List Char} (hs : after .spaced s = s)
    (h : sourceGrammar.Accepts .spaced e s r)
    (hcast : ∀ v, Stops Rule.isNameChar v → sourceGrammar.Fails .spaced e (['a', 's'] ++ v))
    (hopens : ∀ c ∈ "?=!<>&|+-*/%".toList, e.opens c = false)
    (he : e.mayBeEmpty sourceRanks = false)
    (hb : e.isBounded sourceRanks sourceGrammar.depth = true) :
    sourceGrammar.Fails .spaced tail s := by
  refine Grammar.fails_alt.2 ⟨?_, ?_⟩
  · refine fails_of_not_accepts (fun q hq => ?_) rfl
    obtain ⟨v, rfl, hv⟩ := eq_of_accepts_castTail hq
    exact h.not_fails (hcast v hv)
  · cases s with
    | nil => exact fails_nil rfl rfl
    | cons c s =>
      by_cases hc : c ∈ "?=!<>&|+-*/%".toList
      · exact absurd (fails_of_opens hs (hopens c hc) he hb) h.not_fails
      · refine fails_of_opens hs ?_ rfl rfl
        simpa [Peg.opens, Rule.firsts, isOperatorStart] using hc

/-- No operand starts with a keyword that is no literal. -/
theorem fails_primary_keyword {k : String} (hk : k ∈ Rule.keywords) (hliteral : k ∉ literalWords)
    {v : List Char} (hv : Stops Rule.isNameChar v) :
    sourceGrammar.Fails .joined Rule.primary (k.toList ++ v) := by
  refine Grammar.fails_alt.2 ⟨?_, fails_identifier_keyword hk hv⟩
  refine fails_unnamed (isNameStart_of_mem_keywords k hk) (isNameChar_of_mem_keywords k hk) hv fun w hw heq => ?_
  exact hliteral (String.toList_inj.1 heq ▸ hw)

theorem fails_postfix_keyword {k : String} (hk : k ∈ Rule.keywords) (hliteral : k ∉ literalWords)
    {v : List Char} (hv : Stops Rule.isNameChar v) :
    sourceGrammar.Fails .spaced (.rule .postfixExpr) (k.toList ++ v) :=
  Grammar.fails_rule.2 (Grammar.fails_seq.2 (.inl (fails_primary_keyword hk hliteral hv)))

theorem fails_postfix_as {v : List Char} (hv : Stops Rule.isNameChar v) :
    sourceGrammar.Fails .spaced (.rule .postfixExpr) (['a', 's'] ++ v) :=
  fails_postfix_keyword (k := "as") (by decide) (by decide) hv

/-! ## What follows an expression -/

theorem isNegated_of_operand {n : Node} (h : Readable .operand n) : n.isNegated = false := by
  cases h with
  | ofPrimary h => cases h <;> rfl
  | call | member | unwrap => rfl

/-- An operand with what touches it is read as a node. -/
theorem exists_operand {s r : List Char} {items : List Item}
    (h : Reads .spaced (.rule .postfixExpr) s items r) :
    ∃ n, items = [⟨.postfixExpr, default, .node n⟩] ∧ Readable .operand n := by
  obtain ⟨text, inner, part, -, -, hbuild, rfl⟩ := (reads_rule (by exact Layout.noConfusion)).1 h
  obtain ⟨n, rfl⟩ : ∃ n, part = .node n := by
    simp only [Rule.build] at hbuild
    split at hbuild
    · exact ⟨_, (Except.ok.inj hbuild).symm⟩
    · exact ⟨_, (Except.ok.inj hbuild).symm⟩
    · cases hbuild
  obtain ⟨-, c, hc, hread⟩ := h.readable _ List.mem_cons_self
  obtain rfl : c = .operand := (Option.some.inj hc).symm
  exact ⟨n, rfl, hread⟩

/-- A sign in front of an operand. -/
theorem sign_of_reads {s r : List Char} {items : List Item}
    (h : Reads .spaced (.rule .prefixOperator) s items r) :
    ∃ w ∈ ["-", "!"], s = w.toList ++ r ∧ items = [wordItem .prefixOperator w.toList] := by
  obtain ⟨text, hs, haccepts, rfl⟩ := (reads_spelled rfl (fun _ => rfl) (by decide)).1 h
  obtain ⟨q, hq, hend⟩ := Grammar.accepts_seq.1 haccepts
  obtain ⟨w, hw, hsw⟩ := mem_of_accepts_anyOf hq
  obtain ⟨-, rfl⟩ := Grammar.accepts_not.1 hend
  refine ⟨w, hw, hsw, ?_⟩
  rw [List.append_cancel_right (hs.symm.trans hsw)]

/-- An operand stands behind a minus sign, or no chain goes on with it. -/
theorem prefix_cases {s r : List Char} {items : List Item} (hs : after .spaced s = s)
    (h : Reads .spaced (.rule .prefixExpr) s items r) :
    ∃ n, items = [⟨.prefixExpr, default, .node n⟩] ∧
      ((∃ operand q, n = ⟨.prefixed "-" operand, default⟩ ∧ s = '-' :: q ∧
          Reads .spaced (.rule .postfixExpr) (after .spaced q)
            [⟨.postfixExpr, default, .node operand⟩] r) ∨
        (n.isNegated = false ∧ sourceGrammar.Fails .spaced tail s)) := by
  obtain ⟨text, inner, part, -, hbody, hbuild, rfl⟩ := (reads_plain rfl (by decide)).1 h
  obtain ⟨front, q, back, hsign, hoperand, rfl⟩ := reads_seq.1 hbody
  obtain ⟨operand, rfl, hread⟩ := exists_operand hoperand
  rcases reads_opt.1 hsign with hsign | ⟨-, rfl, rfl⟩
  · obtain ⟨w, hw, rfl, rfl⟩ := sign_of_reads hsign
    have hpart : Rule.build .prefixExpr default (String.ofList text)
        ([wordItem .prefixOperator w.toList] ++ [⟨.postfixExpr, default, .node operand⟩]) =
        .ok (.node ⟨.prefixed w operand, default⟩) := by
      simp [Rule.build, wordsOf, nodesOf, wordItem, Item.wordOf?, Item.nodeOf?]
    obtain rfl := Except.ok.inj (hpart.symm.trans hbuild)
    refine ⟨_, rfl, ?_⟩
    simp only [List.mem_cons, List.not_mem_nil, or_false] at hw
    rcases hw with rfl | rfl
    · exact .inl ⟨operand, q, rfl, rfl, hoperand⟩
    · refine .inr ⟨rfl, Grammar.fails_alt.2 ⟨fails_of_first q rfl rfl rfl rfl, ?_⟩⟩
      -- Of the operators, only `!=` starts with an exclamation mark.
      refine Grammar.fails_rule.2 (Grammar.fails_seq.2 (.inl ?_))
      refine fails_of_not_accepts (fun t ht => ?_) rfl
      obtain ⟨op, hop, heq⟩ := mem_of_accepts_anyOf (Grammar.accepts_rule.1 ht)
      have hmark : ∀ op ∈ Rule.operators, op.toList.head? = some '!' → op.toList = ['!', '='] := by
        decide
      have heq' : '!' :: q = op.toList ++ t := heq
      have hhead : op.toList.head? = some '!' := by
        obtain ⟨c, u, hu, -⟩ := operator_eq_cons hop
        rw [hu, List.cons_append] at heq'
        rw [hu, List.head?_cons, (List.cons.inj heq').1]
      rw [hmark op hop hhead] at heq'
      obtain rfl : q = '=' :: t := (List.cons.inj heq').2
      rw [after_solid rfl] at hoperand
      exact hoperand.accepts.not_fails (fails_of_first t rfl rfl rfl rfl)
  · have hpart : Rule.build .prefixExpr default (String.ofList text)
        ([] ++ [⟨.postfixExpr, default, .node operand⟩]) = .ok (.node operand) := rfl
    obtain rfl := Except.ok.inj (hpart.symm.trans hbuild)
    rw [hs] at hoperand
    exact ⟨operand, rfl, .inr ⟨isNegated_of_operand hread,
      fails_tail hs hoperand.accepts (fun _ => fails_postfix_as) (by decide) rfl rfl⟩⟩

theorem fails_prefixOperator_of_operand {s r : List Char} (hs : after .spaced s = s)
    (h : sourceGrammar.Accepts .spaced (.rule .postfixExpr) s r) :
    sourceGrammar.Fails .spaced (.rule .prefixOperator) s := by
  cases s with
  | nil => exact fails_nil rfl rfl
  | cons c s =>
    by_cases hc : c = '-' ∨ c = '!'
    · rcases hc with rfl | rfl
      · exact absurd (fails_of_opens hs rfl rfl rfl) h.not_fails
      · exact absurd (fails_of_opens hs rfl rfl rfl) h.not_fails
    · refine fails_of_opens hs ?_ rfl rfl
      simpa [Peg.opens, Rule.firsts] using hc

/-- An operand with nothing behind it that goes on. -/
theorem accepts_expr_of_operand {s r : List Char} (hs : after .spaced s = s)
    (h : sourceGrammar.Accepts .spaced (.rule .postfixExpr) s r)
    (htail : sourceGrammar.Fails .spaced tail (after .spaced r)) :
    sourceGrammar.Accepts .spaced (.rule .expr) s (after .spaced r) := by
  have hsign := fails_prefixOperator_of_operand hs h
  have hprefix : sourceGrammar.Accepts .spaced (.rule .prefixExpr) s r := by
    refine Grammar.accepts_rule.2
      (Grammar.accepts_seq.2 ⟨s, Grammar.accepts_opt.2 (.inr ⟨hsign, rfl⟩), ?_⟩)
    change sourceGrammar.Accepts .spaced _ (after .spaced s) r
    rwa [hs]
  exact Grammar.accepts_rule.2
    (Grammar.accepts_seq.2 ⟨r, hprefix, Grammar.accepts_many.2 (.inl ⟨htail, rfl⟩)⟩)

/-- A minus sign in front of an operand is read as an operator as well. -/
theorem readsPast_minus {q r : List Char} {operand : Node}
    (h : Reads .spaced (.rule .postfixExpr) (after .spaced q)
      [⟨.postfixExpr, default, .node operand⟩] r) :
    ReadsPast .spaced tail ('-' :: q) [⟨.binaryTail, default, .operation "-" operand⟩] r := by
  have hoperator : Reads .spaced (.rule .binaryOperator) ('-' :: q) [wordItem .binaryOperator ['-']] q :=
    (reads_spelled rfl (fun _ => rfl) (by decide)).2
      ⟨['-'], rfl, accepts_anyOf.2 ⟨"-", rfl, rfl⟩, rfl⟩
  have hnone := readsPast_opt_none (fails_prefixOperator_of_operand (after_after q) h.accepts)
  have hoperand : ReadsPast .spaced (.rule .prefixExpr) (after .spaced q)
      [⟨.prefixExpr, default, .node operand⟩] r :=
    (hnone.next (after_after q) h.past).plain rfl (by decide) fun _ => rfl
  refine ReadsPast.alt_right (fails_of_first q rfl rfl rfl rfl) ?_
  exact (hoperator.past.seq hoperand).plain rfl (by decide) fun _ => rfl

/-- An expression in the next line goes on with a chain if it starts with a minus sign, and only then. -/
theorem tail_cases {f r : List Char} {t : Node}
    (h : Reads .spaced (.rule .expr) (after .spaced f) [⟨.expr, default, .node t⟩] r) :
    (t.isNegated = true ∧ ∃ ops, ReadsPast .spaced (.more tail) f ops r ∧
      ∀ lhs : Node, lhs.span = default → ops.foldl applyTail lhs = t.subtractedFrom lhs) ∨
    (t.isNegated = false ∧ sourceGrammar.Fails .spaced tail (after .spaced f)) := by
  obtain ⟨text, inner, part, -, hbody, hbuild, heq⟩ := (reads_plain rfl (by decide)).1 h
  simp only [List.cons.injEq, Item.mk.injEq, true_and, and_true] at heq
  subst heq
  obtain ⟨front, q, back, hfirst, hmore, rfl⟩ := reads_seq.1 hbody
  obtain ⟨n, rfl, hn⟩ := prefix_cases (after_after f) hfirst
  obtain rfl : back.foldl applyTail n = t := Part.node.inj (Except.ok.inj hbuild)
  rw [Node.isNegated_foldl]
  rcases hn with ⟨operand, q', rfl, hq, hoperand⟩ | ⟨hneg, hfails⟩
  · have hminus := readsPast_minus hoperand
    rw [← hq] at hminus
    refine .inl ⟨rfl, _, hminus.more_cons hmore.past.more_of_many, fun lhs hlhs => ?_⟩
    rw [Node.subtractedFrom_foldl, List.singleton_append, List.foldl_cons]
    refine congrArg (back.foldl applyTail) ?_
    simp only [applyTail, hlhs]
    rfl
  · exact .inr ⟨hneg, hfails⟩

end SwiftMacro
