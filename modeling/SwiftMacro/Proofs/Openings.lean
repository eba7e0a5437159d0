import SwiftMacro.Proofs.Leading
/-!
# Expressions are no declarations

A statement is read as a declaration if it can be. `fails_declaration` says that the text of an
expression cannot, unless it is a modifier in front of a declaration. Since `func` need not end with its
last letter, a call such as `functor()` could be taken for a function if a brace followed; none does.
-/

namespace SwiftMacro

open Peg

theorem fails_signature_of_stops {s : List Char} (h : Stops (· == '(') s) :
    sourceGrammar.Fails .spaced signature s := by
  refine Grammar.fails_seq.2 (.inl (Grammar.fails_seq.2 (.inl ?_)))
  exact fails_lit_of_head (c := '(') rfl h

theorem argument_eq_cons {a : Argument Node} (ha : a.IsReadable) :
    ∃ c t, a.chars = c :: t ∧ isExpressionStart c = true := by
  obtain ⟨hlabel, hread⟩ := ha
  obtain ⟨l, e⟩ := a
  cases l with
  | none => exact charsAt_eq_cons hread 0
  | some l =>
    obtain ⟨c, t, ht, hc⟩ := (hlabel l rfl).start
    refine ⟨c, _, by simp only [Argument.chars, ht]; rfl, ?_⟩
    exact isExpressionStart_of_isOperandStart (isOperandStart_of_isNameStart hc)

/-- Parentheses are a signature only if they are empty and a brace follows. -/
theorem fails_signature_arguments {as : List (Argument Node)} (has : ∀ a ∈ as, a.IsReadable)
    {s : List Char} (hs : Stops (· == '\x7b') (after .spaced s)) :
    sourceGrammar.Fails .spaced signature (argumentsChars as ++ s) := by
  have hopen : ∀ t, sourceGrammar.Accepts .spaced (.lit "(") ('(' :: t) t := fun t =>
    Grammar.accepts_lit.2 rfl
  cases as with
  | nil =>
    refine Grammar.fails_seq.2 (.inr ⟨s, Grammar.accepts_seq.2 ⟨')' :: s, hopen _, ?_⟩, ?_⟩)
    · change sourceGrammar.Accepts .spaced _ (after .spaced (')' :: s)) s
      rw [after_solid rfl]
      exact Grammar.accepts_lit.2 rfl
    · exact fails_lit_of_head (c := '\x7b') rfl hs
  | cons a as =>
    obtain ⟨c, t, ht, hc⟩ := argument_eq_cons (has a List.mem_cons_self)
    rw [argumentsChars, commaChars, ht]
    refine Grammar.fails_seq.2 (.inl (Grammar.fails_seq.2 (.inr ⟨_, hopen _, ?_⟩)))
    have hstarts : Category.expression.starts c = true := hc
    change sourceGrammar.Fails .spaced _ (after .spaced (c :: _))
    rw [after_solid (isSolid_of_starts hstarts)]
    refine fails_lit_of_head (c := ')') rfl (stops_cons.2 (beq_eq_false_iff_ne.2 ?_))
    rintro rfl
    cases hc

/-- What may follow an expression that is a statement. -/
structure FollowsStatement (s : List Char) : Prop where
  word : Stops Rule.isNameChar s
  brace : Stops (· == '\x7b') (after .spaced s)
  signature : sourceGrammar.Fails .spaced signature (after .spaced s)

theorem Behind.brace {s u : List Char} (h : Behind s u) : Stops (· == '\x7b') (after .spaced u) :=
  h.after_stops (by decide) (by decide)

theorem Behind.signature {s u : List Char} (h : Behind s u)
    (hs : Stops (· == '\x7b') (after .spaced s)) :
    sourceGrammar.Fails .spaced signature (after .spaced u) := by
  have harguments : ∀ (as : List (Argument Node)) (v : List Char),
      after .spaced (argumentsChars as ++ v) = argumentsChars as ++ v := fun as v => after_solid rfl _
  cases h with
  | call has =>
    rw [harguments]
    exact fails_signature_arguments has hs
  | calls has h =>
    rw [harguments]
    exact fails_signature_arguments has h.brace
  | member u | unwrap u =>
    rw [after_solid rfl]
    exact fails_signature_of_stops (stops_cons.2 rfl)
  | @operator op known u =>
    have hops : ∀ op ∈ Rule.operators, op.toList.head?.any (· == '(') = false := by decide
    have hop := hops op known
    obtain ⟨c, t, ht, -⟩ := operator_eq_cons known
    rw [after_space, after_operator known]
    rw [ht] at hop ⊢
    exact fails_signature_of_stops (stops_cons.2 hop)
  | cast kind u =>
    obtain ⟨t, ht⟩ := castWord_eq_cons kind
    rw [after_space, after_castWord, ht]
    exact fails_signature_of_stops (stops_cons.2 rfl)

theorem Behind.fails_declaration {s u : List Char} (h : Behind s u) :
    sourceGrammar.Fails .spaced (.rule .variableDecl / .rule .functionDecl) (after .spaced u) := by
  cases h with
  | call | calls =>
    rw [argumentsChars, List.append_assoc, List.cons_append, after_solid rfl]
    exact fails_of_first _ rfl rfl rfl rfl
  | member u | unwrap u =>
    rw [after_solid rfl]
    exact fails_of_first _ rfl rfl rfl rfl
  | @operator op known u =>
    have hafter := after_operator known u
    have hops : ∀ op ∈ Rule.operators, op.toList.head?.any
        ((.rule .variableDecl / .rule .functionDecl : Peg Rule).opens ·) = false := by decide
    have hop := hops op known
    obtain ⟨c, t, ht, -⟩ := operator_eq_cons known
    rw [after_space, hafter]
    rw [ht] at hop hafter ⊢
    exact fails_of_opens hafter hop rfl rfl
  | cast kind u =>
    rw [after_space, after_castWord]
    have has : ∃ v, (Render.castWord kind).toList ++ ' ' :: u = ['a', 's'] ++ v ∧
        Stops Rule.isNameChar v := by
      cases kind
      · exact ⟨' ' :: u, rfl, stops_cons.2 rfl⟩
      · exact ⟨'?' :: ' ' :: u, rfl, stops_cons.2 rfl⟩
      · exact ⟨'!' :: ' ' :: u, rfl, stops_cons.2 rfl⟩
    obtain ⟨v, hv, hstop⟩ := has
    rw [hv]
    obtain ⟨hfront, hfunction⟩ := Grammar.fails_alt.1 (fails_declaration_as hstop)
    exact Grammar.fails_alt.2 ⟨(Grammar.fails_alt.1 hfront).2, hfunction⟩

/-- No declaration starts with a digit. -/
theorem exists_cons_of_digits {w : List Char} (hw : IsDigits w) (s : List Char) :
    ∃ c u, w ++ s = c :: u ∧ isSolid c = true ∧ declaration.opens c = false := by
  obtain ⟨c, t, rfl, hc⟩ := eq_cons_of_isDigits hw
  have hat : (c == '@') = false := by
    refine beq_eq_false_iff_ne.2 ?_
    rintro rfl
    cases hc
  refine ⟨c, t ++ s, rfl, isSolid_of_isDigit hc, ?_⟩
  simp [declaration, opens_div, Peg.opens, Rule.firsts, isNameStart_of_isDigit hc, hat]

theorem fails_declaration_digits {w : List Char} (hw : IsDigits w) (s : List Char) :
    sourceGrammar.Fails .spaced declaration (w ++ s) := by
  obtain ⟨c, u, hu, hc, hopens⟩ := exists_cons_of_digits hw s
  rw [hu]
  exact fails_of_first u hc hopens rfl rfl

/-- The text of an expression is no declaration, unless it is a modifier in front of one. -/
theorem fails_declaration {n : Node} (h : Readable .expression n) (d : Nat) {s : List Char}
    (hs : FollowsStatement s)
    (hnext : ∀ m ∈ Rule.modifiers, n.shape = .identifier m → NoBareDeclaration (after .spaced s)) :
    sourceGrammar.Fails .spaced declaration (n.charsAt d ++ s) := by
  obtain ⟨p, u, hp, htext, hu⟩ | ⟨c, t, hc, htext⟩ := startsPrimary h rfl d s
  · have hfollows : FollowsStatement u := by
      rcases hu with ⟨-, rfl⟩ | hu
      · exact hs
      · exact ⟨hu.word, hu.brace, hu.signature hs.brace⟩
    have hword : ∀ k : String, k ∈ ["true", "false", "nil"] →
        sourceGrammar.Fails .spaced declaration (k.toList ++ u) := by
      have hwords : ∀ k ∈ ["true", "false", "nil"], k.toList.head?.any Rule.isNameStart = true ∧
          (∀ c ∈ k.toList, Rule.isNameChar c = true) ∧ (∀ m ∈ Rule.modifiers, k.toList ≠ m.toList) ∧
          (∀ m ∈ ["import", "var", "let", "func"], k.toList ≠ m.toList) ∧
          ¬ "func".toList <+: k.toList := by decide
      intro k hk
      obtain ⟨hstart, hchars, hmodifier, hkeyword, hfunc⟩ := hwords k hk
      exact fails_declaration_word hstart hchars hfollows.word hmodifier hkeyword
        fun h => absurd h hfunc
    rw [htext]
    cases hp with
    | emptyString | string =>
      rw [charsAt_string]
      exact fails_of_first _ rfl rfl rfl rfl
    | integer digits =>
      rw [charsAt_integer, String.toList_ofList]
      exact fails_declaration_digits digits u
    | float whole part =>
      rw [charsAt_float, String.toList_ofList, List.append_assoc]
      exact fails_declaration_digits whole _
    | boolean value =>
      rw [charsAt_boolean]
      cases value
      · exact hword "false" (by decide)
      · exact hword "true" (by decide)
    | nil =>
      rw [charsAt_nil]
      exact hword "nil" (by decide)
    | macroUse =>
      rw [charsAt_macroUse]
      exact fails_of_first _ rfl rfl rfl rfl
    | implicitMember =>
      rw [charsAt_implicitMember]
      exact fails_of_first _ rfl rfl rfl rfl
    | tuple =>
      rw [charsAt_tuple]
      exact fails_of_first _ rfl rfl rfl rfl
    | @identifier name isName =>
      rw [charsAt_identifier]
      by_cases hm : name ∈ Rule.modifiers
      · refine fails_declaration_modifier hm hfollows.word ?_
        rcases hu with ⟨rfl, rfl⟩ | hu
        · exact hnext name hm rfl
        · exact .inl hu.fails_declaration
      · refine fails_declaration_word (isName_iff.1 isName).1 isName.chars hfollows.word ?_ ?_
          fun _ => hfollows.signature
        · rintro m hmem heq
          exact hm (String.toList_inj.1 heq ▸ hmem)
        · have hkeywords : ["import", "var", "let", "func"] ⊆ Rule.keywords := by decide
          exact fun k hk => isName.notKeyword k (hkeywords hk)
  · rw [htext]
    simp only [List.mem_cons, List.not_mem_nil, or_false] at hc
    rcases hc with rfl | rfl
    · exact fails_of_first _ rfl rfl rfl rfl
    · exact fails_of_first _ rfl rfl rfl rfl

/-- The text of an expression is no signature. -/
theorem fails_signature {n : Node} (h : Readable .expression n) (d : Nat) {s : List Char}
    (hs : Stops (· == '\x7b') (after .spaced s)) :
    sourceGrammar.Fails .spaced signature (n.charsAt d ++ s) := by
  obtain ⟨p, u, hp, htext, hu⟩ | ⟨c, t, hc, htext⟩ := startsPrimary h rfl d s
  · have hbrace : Stops (· == '\x7b') (after .spaced u) := by
      rcases hu with ⟨-, rfl⟩ | hu
      · exact hs
      · exact hu.brace
    have hdigits : ∀ {w : List Char}, IsDigits w → ∀ v, Stops (· == '(') (w ++ v) := by
      intro w hw v
      obtain ⟨c, t, rfl, hc⟩ := eq_cons_of_isDigits hw
      refine stops_cons.2 (beq_eq_false_iff_ne.2 ?_)
      rintro rfl
      cases hc
    rw [htext]
    cases hp with
    | tuple labels inner =>
      rw [charsAt_tuple]
      exact fails_signature_arguments (fun a ha => ⟨labels a ha, inner a ha⟩) hbrace
    | integer digits =>
      rw [charsAt_integer, String.toList_ofList]
      exact fails_signature_of_stops (hdigits digits u)
    | float whole part =>
      rw [charsAt_float, String.toList_ofList, List.append_assoc]
      exact fails_signature_of_stops (hdigits whole _)
    | boolean value =>
      rw [charsAt_boolean]
      cases value
      · exact fails_signature_of_stops (stops_cons.2 rfl)
      · exact fails_signature_of_stops (stops_cons.2 rfl)
    | identifier isName =>
      obtain ⟨c, t, ht, hc⟩ := isName.start
      rw [charsAt_identifier, ht]
      refine fails_signature_of_stops (stops_cons.2 (beq_eq_false_iff_ne.2 ?_))
      rintro rfl
      cases hc
    | emptyString | string =>
      rw [charsAt_string]
      exact fails_signature_of_stops (stops_cons.2 rfl)
    | nil =>
      rw [charsAt_nil]
      exact fails_signature_of_stops (stops_cons.2 rfl)
    | macroUse =>
      rw [charsAt_macroUse]
      exact fails_signature_of_stops (stops_cons.2 rfl)
    | implicitMember =>
      rw [charsAt_implicitMember]
      exact fails_signature_of_stops (stops_cons.2 rfl)
  · rw [htext]
    simp only [List.mem_cons, List.not_mem_nil, or_false] at hc
    rcases hc with rfl | rfl
    · exact fails_signature_of_stops (stops_cons.2 rfl)
    · exact fails_signature_of_stops (stops_cons.2 rfl)

end SwiftMacro
