import SwiftMacro.Proofs.Words
/-!
# First characters

`Rule.firsts` says with which characters the text of a rule can start. It is too large for some rules
and never too small (`firsts_of_opens`), so a rule fails where another character stands:
`fails_of_first`. Blanks and the beginning of a comment are left out, since they may be skipped.
-/

namespace SwiftMacro

open Peg

/-- The first characters of operators. -/
def isOperatorStart (c : Char) : Bool := "?=!<>&|+-*/%".toList.contains c

/-- The first characters of operands. -/
def isOperandStart (c : Char) : Bool :=
  Rule.isNameStart c || c.isDigit || "\"#.(".toList.contains c

/-- The first characters of expressions. -/
def isExpressionStart (c : Char) : Bool := isOperandStart c || c == '-' || c == '!'

/-- The characters with which a rule can start. -/
def Rule.firsts : Rule → Char → Bool
  | endOfInput => fun _ => false
  | sourceFile | expressionEntry | accessorEntry | typeEntry | stringText => fun _ => true
  | keyword | identifier | booleanLiteral | nilLiteral | modifier | bindingKeyword | accessor
  | accessorKind | importDecl | importKeyword | namePattern | wildcardPattern | typeExpr
  | typeReference | qualifiedName | castTail | castOperator | argumentLabel => isNameStart
  | integerLiteral | floatLiteral => Char.isDigit
  | stringLiteral => (· == '"')
  | escape | interpolation => (· == '\\')
  | attributeUse => (· == '@')
  | variableDecl | functionDecl => fun c => c == '@' || isNameStart c
  | patternBinding => fun c => c == '(' || isNameStart c
  | declaredType => (· == ':')
  | initialValue => (· == '=')
  | tuplePattern | tupleExpr | argumentClause => (· == '(')
  | genericClause => (· == '<')
  | optionalMark => (· == '?')
  | binaryTail | binaryOperator => isOperatorStart
  | expr | prefixExpr | argument => isExpressionStart
  | prefixOperator => fun c => c == '-' || c == '!'
  | postfixExpr => isOperandStart
  | memberSuffix | implicitMember => (· == '.')
  | forceUnwrap => (· == '!')
  | macroUse => (· == '#')

/-- Whether the expression can take a text that starts with the character. -/
def Peg.opens (c : Char) : Peg Rule → Bool
  | empty | not _ => false
  | one p => p c
  | lit w => w.toList.head? == some c
  | seq a b => a.opens c || (a.mayBeEmpty sourceRanks && b.opens c)
  | alt a b => a.opens c || b.opens c
  | opt a | many a | more a => a.opens c
  | rule r => r.firsts c

theorem opens_append (a b : Peg Rule) (c : Char) :
    (a ++ b).opens c = (a.opens c || (a.mayBeEmpty sourceRanks && b.opens c)) := rfl

theorem opens_div (a b : Peg Rule) (c : Char) : (a / b).opens c = (a.opens c || b.opens c) := rfl

theorem mayBeEmpty_append (a b : Peg Rule) :
    (a ++ b).mayBeEmpty sourceRanks = (a.mayBeEmpty sourceRanks && b.mayBeEmpty sourceRanks) := rfl

theorem mayBeEmpty_div (a b : Peg Rule) :
    (a / b).mayBeEmpty sourceRanks = (a.mayBeEmpty sourceRanks || b.mayBeEmpty sourceRanks) := rfl

theorem mayBeEmpty_rule (r : Rule) :
    sourceRanks.mayBeEmpty r = (r = .sourceFile || r = .endOfInput : Bool) := by
  cases r <;> rfl

theorem opens_anyOf (ws : List String) (c : Char) :
    (Rule.anyOf ws).opens c = ws.any fun w => w.toList.head? == some c := by
  induction ws with
  | nil => rfl
  | cons w ws ih =>
    cases ws with
    | nil => simp [Rule.anyOf, Peg.opens]
    | cons v vs =>
      rw [List.any_cons, ← ih]
      rfl

theorem isNameStart_of_opens {ws : List String} {c : Char} (h : (Rule.anyOf ws).opens c = true)
    (hws : ws.all (fun w => w.toList.head?.all Rule.isNameStart) = true) :
    Rule.isNameStart c = true := by
  rw [opens_anyOf] at h
  obtain ⟨w, hw, hc⟩ := List.any_eq_true.1 h
  have hstart := List.all_eq_true.1 hws w hw
  rw [beq_iff_eq.1 hc] at hstart
  exact hstart

/-- The first characters of a rule are those of its expression. -/
theorem firsts_of_opens (r : Rule) (c : Char) (h : r.body.opens c = true) : r.firsts c = true := by
  cases r with
  | sourceFile | expressionEntry | accessorEntry | typeEntry | stringText => rfl
  | endOfInput => cases h
  | keyword | booleanLiteral | modifier | bindingKeyword | accessorKind =>
    rw [Rule.body, opens_append] at h
    simp only [Rule.wordEnd, Peg.opens, Bool.and_false, Bool.or_false] at h
    exact isNameStart_of_opens h (by decide)
  | binaryOperator =>
    rw [Rule.body, opens_anyOf] at h
    simp only [Rule.operators, List.any_cons, List.any_nil, Bool.or_false, Bool.or_eq_true,
      beq_iff_eq] at h
    simp only [Rule.firsts, isOperatorStart, List.contains_eq_mem, decide_eq_true_eq]
    rcases h with h | h | h | h | h | h | h | h | h | h | h | h | h | h <;>
      (obtain rfl := Option.some.inj h; decide)
  | functionDecl =>
    rw [Rule.body] at h
    simp only [opens_append, mayBeEmpty_append, Peg.opens, Peg.mayBeEmpty, Rule.firsts] at h ⊢
    rcases Decidable.em (c = 'f') with rfl | hf
    · rfl
    · simpa [Ne.symm hf] using h
  | prefixExpr | prefixOperator | postfixExpr | argument =>
    simp [Rule.body, Rule.primary, Rule.anyOf, opens_append, opens_div, mayBeEmpty_div, Peg.opens,
      Peg.mayBeEmpty, mayBeEmpty_rule, Rule.firsts, isExpressionStart, isOperandStart] at h ⊢
    grind
  | _ =>
    simp [Rule.body, Rule.use, Rule.parenthesized, Rule.commaSeparated, Rule.pattern, Rule.firsts,
      Rule.wordEnd, Rule.anyOf, plus, Peg.opens, opens_append, opens_div, mayBeEmpty_append,
      mayBeEmpty_div, Peg.mayBeEmpty, mayBeEmpty_rule] at h ⊢
    first | exact h | (subst h; rfl)

/-- Where no blanks stand, a match either takes nothing, or starts with a character that the expression
can start with. -/
theorem opens_of_matches {c : Char} {s : List Char} (hs : after .spaced (c :: s) = c :: s)
    {layout : Layout} {e : Peg Rule} {parts : List (Tree Rule)} {rest : List Char}
    (h : sourceGrammar.Matches layout e (c :: s) parts rest) : rest = c :: s ∨ e.opens c = true := by
  have hgap : ∀ layout, (sourceGrammar.gap layout (c :: s)).2 = c :: s := by
    intro layout
    cases layout with
    | spaced => exact hs
    | joined | hidden => rfl
  generalize ht : c :: s = t at h ⊢
  induction h using Grammar.Matches.induct with
  | empty | optNone | manyStop | moreStop | not => exact .inl rfl
  | one hp =>
    obtain ⟨rfl, -⟩ := List.cons.inj ht
    exact .inr hp
  | @lit _ w =>
    simp only [Peg.opens, beq_iff_eq]
    cases hl : w.toList with
    | nil => exact .inl rfl
    | cons d t =>
      rw [hl] at ht
      exact .inr (congrArg some (List.cons.inj ht).1.symm)
  | seq ha _ iha ihb =>
    subst ht
    simp only [Peg.opens, Bool.or_eq_true, Bool.and_eq_true]
    rcases iha rfl with rfl | hopens
    · rw [hgap] at ihb
      refine (ihb rfl).imp_right fun hopens => .inr ⟨?_, hopens⟩
      refine Bool.not_eq_false _ ▸ fun hne => ?_
      have := ha.length_lt sourceGrammar_blanksSplit sourceGrammar_ranked hne
      omega
    · exact .inr (.inl hopens)
  | altFirst _ ih =>
    simp only [Peg.opens, Bool.or_eq_true]
    exact (ih ht).imp_right .inl
  | altSecond _ _ ih =>
    simp only [Peg.opens, Bool.or_eq_true]
    exact (ih ht).imp_right .inr
  | optSome _ ih => exact ih ht
  | manyTurn _ _ iha ihmore =>
    subst ht
    rcases iha rfl with rfl | hopens
    · exact ihmore rfl
    · exact .inr hopens
  | moreTurn _ _ iha ihmore =>
    subst ht
    rw [hgap] at iha
    rcases iha rfl with rfl | hopens
    · exact ihmore rfl
    · exact .inr hopens
  | @rule _ r _ _ _ _ ih => exact (ih ht).imp_right (firsts_of_opens r c)

/-- An expression that takes a character fails where none stands that it can start with. -/
theorem fails_of_opens {layout : Layout} {e : Peg Rule} {c : Char} {s : List Char}
    (hs : after .spaced (c :: s) = c :: s) (h : e.opens c = false)
    (he : e.mayBeEmpty sourceRanks = false)
    (hb : e.isBounded sourceRanks sourceGrammar.depth = true) :
    sourceGrammar.Fails layout e (c :: s) := by
  refine fails_of_not_accepts ?_ hb
  rintro rest ⟨parts, hm⟩
  rcases opens_of_matches hs hm with rfl | ho
  · have := hm.length_lt sourceGrammar_blanksSplit sourceGrammar_ranked he
    omega
  · rw [h] at ho
    cases ho

theorem fails_of_first {layout : Layout} {e : Peg Rule} {c : Char} (s : List Char)
    (hc : isSolid c = true) (h : e.opens c = false)
    (he : e.mayBeEmpty sourceRanks = false)
    (hb : e.isBounded sourceRanks sourceGrammar.depth = true) :
    sourceGrammar.Fails layout e (c :: s) := fails_of_opens (after_solid hc s) h he hb

/-- An expression that takes a character fails at the end. -/
theorem fails_nil {layout : Layout} {e : Peg Rule}
    (he : e.mayBeEmpty sourceRanks = false)
    (hb : e.isBounded sourceRanks sourceGrammar.depth = true) :
    sourceGrammar.Fails layout e [] := by
  refine fails_of_not_accepts ?_ hb
  rintro rest ⟨parts, hm⟩
  have := hm.length_lt sourceGrammar_blanksSplit sourceGrammar_ranked he
  simp at this

end SwiftMacro
