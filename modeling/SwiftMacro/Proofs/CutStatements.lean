import SwiftMacro.Proofs.CutDeclarations
import SwiftMacro.Proofs.Openings
/-!
# Statements that are cut off

No sign separates statements, so where one ends depends on how the next one starts. `EndsStatement`
collects what a statement asks of the place behind it. It holds in front of a brace and a semicolon,
and it passes from the place behind a statement to the place in front of it (`EndsStatement.before`),
so a block can be cut off from its last statement to its first (`cut_statements`).
-/

namespace SwiftMacro

open Peg

/-! ## How statements start -/

section Starts

variable {layout : Layout} {s t y : List Char} {c : Char}

theorem accepts_expr_of_statement (hs : after .spaced s = s) (hc : s.head? = some c)
    (hopens : declaration.opens c = false) (h : sourceGrammar.Accepts .spaced Rule.statement s y) :
    sourceGrammar.Accepts .spaced (.rule .expr) s y := by
  cases s with
  | nil => cases hc
  | cons d s =>
    obtain rfl := Option.some.inj hc
    have hfails : sourceGrammar.Fails .spaced declaration (d :: s) := fails_of_opens hs hopens rfl rfl
    rcases Grammar.accepts_alt.1 h with h | ⟨-, h⟩
    · exact absurd hfails h.not_fails
    · exact h

/-- An expression starts with an operand, or with a sign and then an operand. -/
theorem operand_of_accepts_expr (h : sourceGrammar.Accepts .spaced (.rule .expr) s y) :
    (∃ t z, (s = '-' :: t ∨ s = '!' :: t) ∧
      sourceGrammar.Accepts .spaced (.rule .postfixExpr) (after .spaced t) z) ∨
    ∃ z, sourceGrammar.Accepts .spaced (.rule .postfixExpr) (after .spaced s) z := by
  obtain ⟨z, hprefix, -⟩ := Grammar.accepts_seq.1 (Grammar.accepts_rule.1 h)
  obtain ⟨t, hsign, hoperand⟩ := Grammar.accepts_seq.1 (Grammar.accepts_rule.1 hprefix)
  rcases Grammar.accepts_opt.1 hsign with hsign | ⟨-, rfl⟩
  · obtain ⟨_, hword, hnot⟩ := Grammar.accepts_seq.1 (Grammar.accepts_rule.1 hsign)
    obtain ⟨-, rfl⟩ := Grammar.accepts_not.1 hnot
    obtain ⟨w, hw, hs⟩ := mem_of_accepts_anyOf hword
    simp only [List.mem_cons, List.not_mem_nil, or_false] at hw
    rcases hw with rfl | rfl
    · exact .inl ⟨t, z, .inl hs, hoperand⟩
    · exact .inl ⟨t, z, .inr hs, hoperand⟩
  · exact .inr ⟨z, hoperand⟩

theorem primary_of_accepts_postfix (h : sourceGrammar.Accepts layout (.rule .postfixExpr) s y) :
    ∃ rule ∈ primaryRules, ∃ t, sourceGrammar.Accepts .joined (.rule rule) s t := by
  obtain ⟨t, ⟨parts, hprimary⟩, -⟩ := Grammar.accepts_seq.1 (Grammar.accepts_rule.1 h)
  obtain ⟨rule, hrule, h⟩ := exists_of_matches_primary hprimary
  exact ⟨rule, hrule, t, parts, h⟩

/-- The first character of an operand tells its rule. -/
theorem accepts_rule_of_expr {rule : Rule} (hc : isSolid c = true)
    (honly : ∀ r ∈ primaryRules, r ≠ rule → r.firsts c = false)
    (hsign : Rule.firsts .prefixOperator c = false)
    (h : sourceGrammar.Accepts .spaced (.rule .expr) (c :: t) y) :
    ∃ z, sourceGrammar.Accepts .joined (.rule rule) (c :: t) z := by
  rcases operand_of_accepts_expr h with ⟨_, _, hs | hs, -⟩ | ⟨_, hoperand⟩
  · rw [(List.cons.inj hs).1] at hsign
    cases hsign
  · rw [(List.cons.inj hs).1] at hsign
    cases hsign
  · rw [after_solid hc] at hoperand
    obtain ⟨r, hr, z, hz⟩ := primary_of_accepts_postfix hoperand
    by_cases hrule : r = rule
    · exact ⟨z, hrule ▸ hz⟩
    · have hsubset : [r] ⊆ primaryRules := by simpa using hr
      have hfails : sourceGrammar.Fails .joined (.rule r) (c :: t) :=
        fails_primary_of_first hc hsubset (by simpa using honly r hr hrule) r List.mem_cons_self
      exact absurd hfails hz.not_fails

/-- Behind a sign stands an operand. -/
theorem operand_of_sign (hc : c = '-' ∨ c = '!')
    (h : sourceGrammar.Accepts .spaced (.rule .expr) (c :: t) y) :
    ∃ z, sourceGrammar.Accepts .spaced (.rule .postfixExpr) (after .spaced t) z := by
  rcases operand_of_accepts_expr h with ⟨u, z, hs | hs, hoperand⟩ | ⟨_, hoperand⟩
  · exact ⟨z, (List.cons.inj hs).2 ▸ hoperand⟩
  · exact ⟨z, (List.cons.inj hs).2 ▸ hoperand⟩
  · rcases hc with rfl | rfl
    · exact absurd (fails_of_first t rfl rfl rfl rfl)
        (after_solid (c := '-') rfl t ▸ hoperand).not_fails
    · exact absurd (fails_of_first t rfl rfl rfl rfl)
        (after_solid (c := '!') rfl t ▸ hoperand).not_fails

theorem stops_of_operand (h : sourceGrammar.Accepts .spaced (.rule .postfixExpr) (after .spaced s) y) :
    Stops (· == '=') s := by
  cases s with
  | nil => exact stops_nil _
  | cons c s =>
    refine stops_cons.2 (beq_eq_false_iff_ne.2 ?_)
    rintro rfl
    rw [after_solid rfl] at h
    exact h.not_fails (fails_of_first s rfl rfl rfl rfl)

end Starts

/-! ## Declarations exclude each other -/

/-- Of two words at the start of one text, one starts with the other. -/
theorem prefix_comparable {w v t u : List Char} (h : w ++ t = v ++ u) : w <+: v ∨ v <+: w :=
  List.prefix_or_prefix_of_prefix ⟨t, rfl⟩ ⟨u, h.symm⟩

/-- The rules of declarations that attributes and modifiers may lead. -/
def ledRules : List Rule := [.variableDecl, .functionDecl]

/-- What stands behind the attributes and modifiers of a declaration. -/
def ledBy (d : Rule) : Peg Rule := if d = .functionDecl then .lit "func" else .rule .bindingKeyword

section Led

variable {s t y : List Char} {d : Rule} (hd : d ∈ ledRules)

include hd

theorem accepts_led_mono {s' : List Char}
    (hmono : ∀ q, sourceGrammar.Accepts .spaced (leading ++ ledBy d) s q →
      sourceGrammar.Accepts .spaced (leading ++ ledBy d) s' q)
    (h : sourceGrammar.Accepts .spaced (.rule d) s y) :
    sourceGrammar.Accepts .spaced (.rule d) s' y := by
  simp only [ledRules, List.mem_cons, List.not_mem_nil, or_false] at hd
  rcases hd with rfl | rfl
  · have hbody : sourceGrammar.Accepts .spaced (Rule.body .variableDecl) s y := Grammar.accepts_rule.1 h
    have hall : sourceGrammar.Accepts .spaced (Rule.body .variableDecl) s' y :=
      accepts_seq_mono hmono hbody
    exact Grammar.accepts_rule.2 hall
  · have hbody : sourceGrammar.Accepts .spaced (Rule.body .functionDecl) s y := Grammar.accepts_rule.1 h
    have hall : sourceGrammar.Accepts .spaced (Rule.body .functionDecl) s' y :=
      accepts_seq_mono (fun _ => accepts_seq_mono fun _ => accepts_seq_mono fun _ =>
        accepts_seq_mono fun _ => accepts_seq_mono fun _ => accepts_seq_mono hmono) hbody
    exact Grammar.accepts_rule.2 hall

theorem led_of_accepts (h : sourceGrammar.Accepts .spaced (.rule d) s y) :
    ∃ q, sourceGrammar.Accepts .spaced (leading ++ ledBy d) s q := by
  simp only [ledRules, List.mem_cons, List.not_mem_nil, or_false] at hd
  rcases hd with rfl | rfl
  · obtain ⟨q, hq, -⟩ := Grammar.accepts_seq.1 (Grammar.accepts_rule.1 h)
    exact ⟨q, hq⟩
  · obtain ⟨q, _, _, hq, -, -⟩ := signature_of_accepts h
    exact ⟨q, hq⟩

/-- The word of the declaration. -/
theorem word_of_ledBy (h : sourceGrammar.Accepts .spaced (ledBy d) s y) :
    ∃ k ∈ declarationWords, (k = "func" ↔ d = .functionDecl) ∧ ∃ t, s = k.toList ++ t := by
  simp only [ledRules, List.mem_cons, List.not_mem_nil, or_false] at hd
  rcases hd with rfl | rfl
  · obtain ⟨t, hspelled, -⟩ := Grammar.accepts_seq.1 (Grammar.accepts_rule.1 h)
    obtain ⟨k, hk, hs⟩ := mem_of_accepts_anyOf hspelled
    have hwords : ∀ k ∈ ["var", "let"], k ∈ declarationWords ∧ k ≠ "func" := by decide
    exact ⟨k, (hwords k hk).1, by simp [(hwords k hk).2], t, hs⟩
  · exact ⟨"func", by decide, by simp, y, Grammar.accepts_lit.1 h⟩

/-- No import starts with the word of a declaration or with what may lead it. -/
theorem fails_import_of_leading (hs : after .spaced s = s)
    (h : sourceGrammar.Accepts .spaced (leading ++ ledBy d) s y) :
    sourceGrammar.Fails .spaced (.rule .importDecl) s := by
  refine fails_of_not_accepts (fun x hx => ?_) rfl
  obtain ⟨v, hkeyword, -⟩ := Grammar.accepts_seq.1 (Grammar.accepts_rule.1 hx)
  obtain ⟨w, hw, rfl, hstop⟩ := (accepts_wholeWord (by decide : PrefixFree ["import"])).1
    (Grammar.accepts_rule.1 hkeyword)
  obtain rfl := List.mem_singleton.1 hw
  obtain ⟨z, hleading, hword⟩ := Grammar.accepts_seq.1 h
  -- Nothing leads a declaration here, so its word would stand in the place of `import`.
  obtain rfl := eq_of_leading_word rfl (by decide) hstop (by decide) hleading
  change sourceGrammar.Accepts .spaced (ledBy d) (after .spaced ("import".toList ++ v)) y at hword
  rw [hs] at hword
  obtain ⟨k, hk, -, t, hkt⟩ := word_of_ledBy hd hword
  have hapart : ∀ k ∈ declarationWords,
      ¬ "import".toList <+: k.toList ∧ ¬ k.toList <+: "import".toList := by decide
  exact (prefix_comparable hkt).elim (hapart k hk).1 (hapart k hk).2

theorem fails_import_of_led (hs : after .spaced s = s)
    (h : sourceGrammar.Accepts .spaced (.rule d) s y) :
    sourceGrammar.Fails .spaced (.rule .importDecl) s := by
  obtain ⟨q, hq⟩ := led_of_accepts hd h
  exact fails_import_of_leading hd hs hq

omit hd in
theorem fails_variable_of_leading (h : sourceGrammar.Accepts .spaced (leading ++ .lit "func") s y) :
    sourceGrammar.Fails .spaced (.rule .variableDecl) s := by
  refine fails_of_not_accepts (fun x hx => ?_) rfl
  obtain ⟨p, hp⟩ := led_of_accepts (by decide) hx
  obtain ⟨z, hleading, hword⟩ := Grammar.accepts_seq.1 h
  obtain ⟨z', hleading', hword'⟩ := Grammar.accepts_seq.1 hp
  obtain rfl := hleading.unique hleading'
  obtain ⟨k, hk, hfunc, t, ht⟩ := word_of_ledBy (by decide) hword'
  have hapart : ∀ k ∈ declarationWords, ("func".toList <+: k.toList → k = "func") ∧
      (k.toList <+: "func".toList → k = "func") := by decide
  have hsame : k = "func" := (prefix_comparable ((Grammar.accepts_lit.1 hword).symm.trans ht)).elim
    (hapart k hk).1 (hapart k hk).2
  cases hfunc.1 hsame

omit hd in
theorem fails_variable_of_function (h : sourceGrammar.Accepts .spaced (.rule .functionDecl) s y) :
    sourceGrammar.Fails .spaced (.rule .variableDecl) s := by
  obtain ⟨q, -, -, hq, -, -⟩ := signature_of_accepts h
  exact fails_variable_of_leading hq

/-- What is read behind a modifier is a declaration of its own, one without attributes. -/
theorem accepts_behind_modifier {m : String} (hm : m ∈ Rule.modifiers) (hs : Stops Rule.isNameChar s)
    (h : sourceGrammar.Accepts .spaced (.rule d) (m.toList ++ s) y) :
    sourceGrammar.Accepts .spaced (.rule d) (after .spaced s) y ∧
      sourceGrammar.Fails .spaced (.rule .attributeUse) (after .spaced s) := by
  have hx : ∀ t, sourceGrammar.Fails .spaced (ledBy d) ('@' :: t) := by
    intro t
    refine fails_of_not_accepts (fun x hx => ?_) (by unfold ledBy; split <;> rfl)
    obtain ⟨k, hk, -, u, hu⟩ := word_of_ledBy hd hx
    have hapart : ∀ k ∈ declarationWords, ¬ ['@'] <+: k.toList ∧ ¬ k.toList <+: ['@'] := by decide
    exact (prefix_comparable (w := ['@']) hu).elim (hapart k hk).1 (hapart k hk).2
  obtain ⟨q, hq⟩ := led_of_accepts hd h
  exact ⟨accepts_led_mono hd (fun _ h => (accepts_of_modifier hm hs hx h).1) h,
    (accepts_of_modifier hm hs hx hq).2⟩

omit hd in
/-- Where no attribute stands, only modifiers lead a declaration. -/
theorem modifiers_of_bare {z : List Char}
    (hbare : sourceGrammar.Fails .spaced (.rule .attributeUse) (after .spaced s))
    (h : sourceGrammar.Accepts .spaced leading (after .spaced s) z) :
    sourceGrammar.Accepts .spaced (.many (.rule .modifier)) (after .spaced s) z := by
  obtain ⟨p, hattributes, hmodifiers⟩ := Grammar.accepts_seq.1 h
  obtain rfl : p = after .spaced s := by
    rcases Grammar.accepts_many.1 hattributes with ⟨-, rfl⟩ | ⟨_, hone, -⟩
    · rfl
    · exact absurd hbare hone.not_fails
  change sourceGrammar.Accepts .spaced _ (after .spaced (after .spaced s)) z at hmodifiers
  rwa [after_after] at hmodifiers

/-- A modifier may lead a declaration without attributes. -/
theorem accepts_with_modifier {m : String} (hm : m ∈ Rule.modifiers) (hs : Stops Rule.isNameChar s)
    (hbare : sourceGrammar.Fails .spaced (.rule .attributeUse) (after .spaced s))
    (h : sourceGrammar.Accepts .spaced (.rule d) (after .spaced s) y) :
    sourceGrammar.Accepts .spaced (.rule d) (m.toList ++ s) y := by
  refine accepts_led_mono hd (fun q hq => ?_) h
  obtain ⟨z, hleading, hword⟩ := Grammar.accepts_seq.1 hq
  have hmodifiers := modifiers_of_bare hbare hleading
  obtain ⟨x, hmore, hx⟩ : ∃ x, sourceGrammar.Accepts .spaced (.more (.rule .modifier)) s x ∧
      after .spaced x = after .spaced z := by
    rcases Grammar.accepts_many.1 hmodifiers with ⟨hf, rfl⟩ | ⟨u, hone, hmore⟩
    · exact ⟨s, Grammar.accepts_more.2 (.inl ⟨hf, rfl⟩), (after_after s).symm⟩
    · exact ⟨z, Grammar.accepts_more.2 (.inr ⟨u, hone, hmore⟩), rfl⟩
  have hone : sourceGrammar.Accepts .spaced (.rule .modifier) (m.toList ++ s) s :=
    accepts_modifier.2 ⟨m, hm, rfl, hs⟩
  refine Grammar.accepts_seq.2 ⟨x, Grammar.accepts_seq.2 ⟨m.toList ++ s, ?_, ?_⟩, ?_⟩
  · exact Grammar.accepts_many.2 (.inl ⟨fails_attribute_modifier hm s, rfl⟩)
  · change sourceGrammar.Accepts .spaced _ (after .spaced (m.toList ++ s)) x
    rw [after_modifier hm]
    exact Grammar.accepts_many.2 (.inr ⟨s, hone, hmore⟩)
  · change sourceGrammar.Accepts .spaced _ (after .spaced x) q
    rw [hx]
    exact hword

end Led

/-! ## In front of a statement -/

section Statement

variable {r s y : List Char}

/-- A bracket, a dot or an unwrapping mark that starts a statement goes on with an operand as well. -/
theorem accepts_suffix_of_statement {c : Char} (hs : after .spaced (c :: s) = c :: s)
    (hc : opensSuffix c = true) (h : sourceGrammar.Accepts .spaced Rule.statement (c :: s) y) :
    ∃ z, sourceGrammar.Accepts .joined suffix (c :: s) z := by
  have hopens : declaration.opens c = false :=
    of_opensSuffix (p := fun c => declaration.opens c = false) (by decide) hc
  have hexpr := accepts_expr_of_statement hs rfl hopens h
  simp only [opensSuffix, Bool.or_eq_true, beq_iff_eq] at hc
  rcases hc with (rfl | rfl) | rfl
  · obtain ⟨z, htuple⟩ : ∃ z, sourceGrammar.Accepts .joined (.rule .tupleExpr) ('(' :: s) z :=
      accepts_rule_of_expr rfl (by decide) rfl hexpr
    have hlist : sourceGrammar.Accepts .spaced Rule.parenthesized ('(' :: s) z :=
      Grammar.accepts_rule.1 htuple
    have hclause : sourceGrammar.Accepts .joined (.rule .argumentClause) ('(' :: s) z :=
      Grammar.accepts_rule.2 hlist
    exact ⟨z, Grammar.accepts_alt.2 (.inl (Grammar.accepts_alt.2 (.inl hclause)))⟩
  · obtain ⟨z, himplicit⟩ : ∃ z, sourceGrammar.Accepts .joined (.rule .implicitMember) ('.' :: s) z :=
      accepts_rule_of_expr rfl (by decide) rfl hexpr
    have hname : sourceGrammar.Accepts .joined dotName ('.' :: s) z :=
      Grammar.accepts_rule.1 himplicit
    have hmember : sourceGrammar.Accepts .joined (.rule .memberSuffix) ('.' :: s) z :=
      Grammar.accepts_rule.2 hname
    exact ⟨z, Grammar.accepts_alt.2 (.inl (Grammar.accepts_alt.2
      (.inr ⟨fails_of_first s rfl rfl rfl rfl, hmember⟩)))⟩
  -- Not every `!` unwraps: this one is a sign with an operand behind it, so it is not that of `!=`.
  · obtain ⟨z, hoperand⟩ := operand_of_sign (.inr rfl) hexpr
    have hequals : sourceGrammar.Fails .hidden (.lit "=") s :=
      fails_lit_of_head (c := '=') rfl (stops_of_operand hoperand)
    have hmark : sourceGrammar.Accepts .joined (.rule .forceUnwrap) ('!' :: s) s :=
      Grammar.accepts_rule.2 (Grammar.accepts_seq.2 ⟨s, Grammar.accepts_lit.2 rfl,
        Grammar.accepts_not.2 ⟨hequals, rfl⟩⟩)
    exact ⟨s, Grammar.accepts_alt.2 (.inr ⟨fails_of_first s rfl rfl rfl rfl, hmark⟩)⟩

theorem endsOperand_of_statement (hs : after .spaced (s ++ r) = s ++ r)
    (h : sourceGrammar.Accepts .spaced Rule.statement (s ++ r) y) : EndsOperand r s := by
  cases s with
  | nil => exact endsOperand_of_stops (stops_nil _)
  | cons c s =>
    by_cases hc : opensSuffix c = true
    · obtain ⟨z, hsuffix⟩ := accepts_suffix_of_statement hs hc h
      exact endsOperand_of_suffix hsuffix
    · exact endsOperand_of_stops (stops_cons.2 (Bool.eq_false_iff.2 hc))

/-- An operand behind a minus sign goes on with a chain. -/
theorem accepts_tail_minus
    (h : sourceGrammar.Accepts .spaced (.rule .postfixExpr) (after .spaced s) y) :
    sourceGrammar.Accepts .spaced tail ('-' :: s) y := by
  have hoperator : sourceGrammar.Accepts .spaced (.rule .binaryOperator) ('-' :: s) s :=
    Grammar.accepts_rule.2 (accepts_anyOf.2 ⟨"-", rfl, rfl⟩)
  have hsign := fails_prefixOperator_of_operand (after_after s) h
  have hprefix : sourceGrammar.Accepts .spaced (.rule .prefixExpr) (after .spaced s) y := by
    refine Grammar.accepts_rule.2 (Grammar.accepts_seq.2
      ⟨after .spaced s, Grammar.accepts_opt.2 (.inr ⟨hsign, rfl⟩), ?_⟩)
    change sourceGrammar.Accepts .spaced _ (after .spaced (after .spaced s)) y
    rwa [after_after]
  exact Grammar.accepts_alt.2 (.inr ⟨fails_castTail_of_operator hoperator,
    Grammar.accepts_rule.2 (Grammar.accepts_seq.2 ⟨s, hoperator, hprefix⟩)⟩)

theorem fails_tail_unwrap (h : Stops (· == '=') s) : sourceGrammar.Fails .spaced tail ('!' :: s) := by
  refine Grammar.fails_alt.2 ⟨fails_of_first s rfl rfl rfl rfl, ?_⟩
  refine Grammar.fails_rule.2 (Grammar.fails_seq.2 (.inl (Grammar.fails_rule.2 (fails_anyOf.2 ?_))))
  have hcases : ∀ w ∈ Rule.operators, w = "!=" ∨ w.toList.head?.any (· != '!') = true := by decide
  rintro w hw ⟨u, hu⟩
  rcases hcases w hw with rfl | hhead
  · obtain rfl : '=' :: u = s := (List.cons.inj hu).2
    cases stops_cons.1 h
  · cases hv : w.toList with
    | nil => rw [hv] at hhead; cases hhead
    | cons d v =>
      rw [hv] at hhead hu
      rw [(List.cons.inj hu).1] at hhead
      cases hhead

/-- Where a chain stops in front of a statement, it stops there in the cut text too: only a minus sign
starts both, and then the chain goes on in both. -/
theorem fails_tail_of_statement {x : List Char} (hs : after .spaced s = s)
    (hsr : after .spaced (s ++ r) = s ++ r)
    (hfull : sourceGrammar.Accepts .spaced Rule.statement (s ++ r) x)
    (h : sourceGrammar.Accepts .spaced Rule.statement s y)
    (hf : sourceGrammar.Fails .spaced tail (s ++ r)) : sourceGrammar.Fails .spaced tail s := by
  rcases Grammar.accepts_alt.1 h with h | ⟨-, h⟩
  · exact fails_tail hs h (fun v hv => fails_declaration_as hv) (by decide) rfl rfl
  · rcases operand_of_accepts_expr h with ⟨t, z, rfl | rfl, hoperand⟩ | ⟨z, hoperand⟩
    · have hexpr := accepts_expr_of_statement hsr rfl rfl hfull
      obtain ⟨z, hoperand⟩ := operand_of_sign (.inl rfl) hexpr
      exact absurd hf (accepts_tail_minus hoperand).not_fails
    · exact fails_tail_unwrap (stops_of_operand hoperand)
    · rw [hs] at hoperand
      exact fails_tail hs hoperand (fun v hv => fails_postfix_as hv) (by decide) rfl rfl

end Statement

/-! ## In front of a brace -/

section Brace

variable {s t y x : List Char}

theorem fails_suffix_of_stops (h : Stops opensSuffix s) : sourceGrammar.Fails .joined suffix s := by
  refine Grammar.fails_alt.2 ⟨Grammar.fails_alt.2 ⟨?_, ?_⟩, ?_⟩
  · exact fails_rule_of_stops (c := '(') rfl rfl (h.mono (by simp [opensSuffix]))
  · exact fails_rule_of_stops (c := '.') rfl rfl (h.mono (by simp [opensSuffix]))
  · exact fails_rule_of_stops (c := '!') rfl rfl (h.mono (by simp [opensSuffix]))

theorem Before.stops_suffix {d : Char} (h : Before (· == d) s) (hd : opensSuffix d = false) :
    Stops opensSuffix s := by
  refine h.stops fun c hc => ⟨beq_eq_false_iff_ne.2 ?_, isSolid_of_opensSuffix hc⟩
  rintro rfl
  rw [hd] at hc
  cases hc

/-- The brackets of a signature are an empty list of arguments. -/
theorem unit_of_signature (h : sourceGrammar.Accepts .spaced signature s y) :
    ∃ t, sourceGrammar.Accepts .spaced Rule.parenthesized s t ∧ after .spaced t = '\x7b' :: y := by
  obtain ⟨t, hunit, hbrace⟩ := Grammar.accepts_seq.1 h
  obtain ⟨u, hopen, hclose⟩ := Grammar.accepts_seq.1 hunit
  have hclose : after .spaced u = ')' :: t := Grammar.accepts_lit.1 hclose
  refine ⟨t, Grammar.accepts_seq.2 ⟨after .spaced u, Grammar.accepts_seq.2 ⟨u, hopen, ?_⟩, ?_⟩,
    Grammar.accepts_lit.1 hbrace⟩
  · refine Grammar.accepts_opt.2 (.inr ⟨?_, rfl⟩)
    change sourceGrammar.Fails .spaced _ (after .spaced u)
    rw [hclose]
    exact fails_of_first t rfl rfl rfl rfl
  · change sourceGrammar.Accepts .spaced _ (after .spaced (after .spaced u)) t
    rw [after_after, hclose]
    exact Grammar.accepts_lit.2 rfl

theorem accepts_postfix_of_primary {rule : Rule} {layout : Layout} (hrule : rule ∈ primaryRules)
    (h : sourceGrammar.Accepts .joined (.rule rule) s t)
    (hmore : sourceGrammar.Accepts .joined (.many suffix) t y) :
    sourceGrammar.Accepts layout (.rule .postfixExpr) s y := by
  obtain ⟨parts, hparts⟩ := h
  exact Grammar.accepts_rule.2 (Grammar.accepts_seq.2 ⟨t, ⟨parts, matches_primary hrule hparts⟩, hmore⟩)

/-- A name, a literal or brackets with nothing behind them that goes on. -/
theorem accepts_expr_of_primary {rule : Rule} (hs : after .spaced s = s) (hrule : rule ∈ primaryRules)
    (h : sourceGrammar.Accepts .joined (.rule rule) s t) (hstops : Stops opensSuffix t)
    (htail : sourceGrammar.Fails .spaced tail (after .spaced t)) :
    sourceGrammar.Accepts .spaced (.rule .expr) s (after .spaced t) :=
  accepts_expr_of_operand hs (accepts_postfix_of_primary hrule h
    (Grammar.accepts_many.2 (.inl ⟨fails_suffix_of_stops hstops, rfl⟩))) htail

theorem before_of_accepts {e : Peg Rule} {p : Char → Bool}
    (h : sourceGrammar.Accepts .spaced e (after .spaced s) y)
    (hp : ∀ c, p c = false → e.opens c = false) (he : e.mayBeEmpty sourceRanks = false)
    (hb : e.isBounded sourceRanks sourceGrammar.depth = true) : Before p s := by
  intro c hc
  have hsettled := after_after s
  cases hs : after .spaced s with
  | nil => rw [hs] at hc; cases hc
  | cons d t =>
    rw [hs] at hc h hsettled
    obtain rfl := Option.some.inj hc
    cases hpd : p d with
    | false => exact absurd (fails_of_opens hsettled (hp d hpd) he hb) h.not_fails
    | true => simp [hpd]

end Brace

/-! ## Behind a statement -/

/-- Behind a statement stands nothing that would go on with it, or make a declaration of it, whatever is
cut off. -/
structure EndsStatement (r y : List Char) : Prop extends EndsBinding r y where
  comma : Before (· != ',') y
  signature : sourceGrammar.Fails .spaced signature (after .spaced y)
  led : ∀ d ∈ ledRules, sourceGrammar.Fails .spaced (.rule d) (after .spaced (y ++ r)) →
    sourceGrammar.Fails .spaced (.rule d) (after .spaced y)

section Ends

variable {r : List Char} {s y z : List Char} {parts : List (Tree Rule)}

theorem endsStatement_of_before (h : Before (fun c => c == ';' || c == '\x7d') y) :
    EndsStatement r y := by
  have hmono : ∀ {p : Char → Bool}, p ';' = true → p '\x7d' = true → Before p y := by
    intro p hsemicolon hbrace
    refine h.mono fun c hc => ?_
    simp only [Bool.or_eq_true, beq_iff_eq] at hc
    rcases hc with rfl | rfl
    · exact hsemicolon
    · exact hbrace
  have hcloser : Before isCloser y := hmono rfl rfl
  refine ⟨⟨endsExpr_of_before hcloser, hmono rfl rfl⟩, hmono rfl rfl, ?_, fun d hd _ => ?_⟩
  · exact hcloser.fails (opens_of_isCloser (by decide)) rfl rfl
  · simp only [ledRules, List.mem_cons, List.not_mem_nil, or_false] at hd
    rcases hd with rfl | rfl
    · exact hcloser.fails (opens_of_isCloser (by decide)) rfl rfl
    · exact hcloser.fails (opens_of_isCloser (by decide)) rfl rfl

theorem EndsStatement.of_leaves (h : EndsStatement r y) (hz : Leaves r .spaced z y) :
    EndsStatement r z := by
  refine ⟨⟨h.toEndsExpr.of_leaves hz, h.apart.of_leaves hz⟩, h.comma.of_leaves hz, ?_, ?_⟩
  · rw [hz.after_eq]
    exact h.signature
  · rcases hz with rfl | ⟨rfl, hafter⟩
    · exact h.led
    · have hled := h.led
      rwa [← hafter, after_after, after_after] at hled

theorem EndsBinding.brace (h : EndsBinding r y) {x : List Char} : after .spaced y ≠ '\x7b' :: x := by
  intro hy
  have hbrace := h.apart '\x7b' (by rw [hy]; rfl)
  cases hbrace

/-- The tree of a statement shows its rule. -/
theorem rule_of_statement (h : sourceGrammar.Matches .spaced Rule.statement s parts y) :
    ∃ d inner, parts = [.node d inner] ∧ sourceGrammar.Accepts .spaced (.rule d) s y := by
  have hnode : ∀ {d : Rule}, d.style = .plain → sourceGrammar.Matches .spaced (.rule d) s parts y →
      ∃ d inner, parts = [.node d inner] ∧ sourceGrammar.Accepts .spaced (.rule d) s y := by
    intro d hd hmatch
    obtain ⟨inner, -, hparts⟩ := Grammar.matches_rule.1 hmatch
    refine ⟨d, inner, hparts.trans (if_neg ?_), parts, hmatch⟩
    change ¬ d.style.outside .spaced = .hidden
    rw [hd]
    exact Layout.noConfusion
  rcases Grammar.matches_alt.1 h with h | ⟨-, h⟩
  · rcases Grammar.matches_alt.1 h with h | ⟨-, h⟩
    · rcases Grammar.matches_alt.1 h with h | ⟨-, h⟩
      · exact hnode rfl h
      · exact hnode rfl h
    · exact hnode rfl h
  · exact hnode rfl h

/-- A declaration that can be read is the statement. -/
theorem node_of_led {d : Rule} {x : List Char} (hd : d ∈ ledRules) (hs : after .spaced s = s)
    (hled : sourceGrammar.Accepts .spaced (.rule d) s x)
    (h : sourceGrammar.Matches .spaced Rule.statement s parts y) :
    ∃ inner, parts = [.node d inner] := by
  have himport := fails_import_of_led hd hs hled
  simp only [ledRules, List.mem_cons, List.not_mem_nil, or_false] at hd
  rcases Grammar.matches_alt.1 h with h | ⟨hf, -⟩
  · rcases Grammar.matches_alt.1 h with h | ⟨hf, h⟩
    · rcases Grammar.matches_alt.1 h with h | ⟨-, h⟩
      · exact absurd himport h.not_fails
      · rcases hd with rfl | rfl
        · obtain ⟨inner, -, hparts⟩ := Grammar.matches_rule.1 h
          exact ⟨inner, hparts⟩
        · exact absurd (fails_variable_of_function hled) h.not_fails
    · rcases hd with rfl | rfl
      · exact absurd (Grammar.fails_alt.1 hf).2 hled.not_fails
      · obtain ⟨inner, -, hparts⟩ := Grammar.matches_rule.1 h
        exact ⟨inner, hparts⟩
  · obtain ⟨hf, hfunction⟩ := Grammar.fails_alt.1 hf
    rcases hd with rfl | rfl
    · exact absurd (Grammar.fails_alt.1 hf).2 hled.not_fails
    · exact absurd hfunction hled.not_fails

/-- A statement that is cut off is the same declaration as before. -/
theorem led_of_statement {d : Rule} {x : List Char} {e : Peg Rule} (hd : d ∈ ledRules)
    (hs : after .spaced s = s) (hwithin : Within r .spaced (Rule.statement ++ e) s parts y)
    (h : sourceGrammar.Matches .spaced (Rule.statement ++ e) s parts y)
    (hled : sourceGrammar.Accepts .spaced (.rule d) s x) :
    ∃ x, sourceGrammar.Accepts .spaced (.rule d) (s ++ r) x := by
  obtain ⟨ps, z, qs, hstatement, -, hparts⟩ := Grammar.matches_seq.1 h
  obtain ⟨ps', z', qs', hstatement', -, -, hparts'⟩ := Within.seq hwithin
  -- Both texts give the same trees, and a tree shows its rule.
  obtain ⟨inner, rfl⟩ := node_of_led hd hs hled hstatement
  obtain ⟨d', inner', rfl, hd'⟩ := rule_of_statement hstatement'
  obtain ⟨hnode, -⟩ := List.cons.inj (hparts.symm.trans hparts')
  obtain ⟨rfl, -⟩ := Tree.node.inj hnode
  exact ⟨_, hd'⟩

/-- Where a signature stands, its brackets are a statement, which ends at the brace. -/
theorem statement_of_signature {x : List Char} (hs : after .spaced s = s)
    (h : sourceGrammar.Accepts .spaced signature s x) :
    ∃ z, sourceGrammar.Accepts .spaced Rule.statement s z ∧ after .spaced z = '\x7b' :: x := by
  obtain ⟨t, hunit, hbrace⟩ := unit_of_signature h
  have hbefore : Before (· == '\x7b') t := before_of_after hbrace rfl
  have htuple : sourceGrammar.Accepts .joined (.rule .tupleExpr) s t := Grammar.accepts_rule.2 hunit
  have hexpr := accepts_expr_of_primary hs (by decide) htuple (hbefore.stops_suffix rfl)
    (hbefore.fails_eq rfl rfl rfl)
  obtain ⟨u, rfl⟩ := eq_cons_of_sign (c := '(') rfl rfl htuple
  refine ⟨after .spaced t, Grammar.accepts_alt.2 (.inr ⟨?_, hexpr⟩), by rw [after_after, hbrace]⟩
  exact fails_of_first (e := declaration) u rfl rfl rfl rfl

/-- No statement is an empty list of arguments in front of a brace. -/
theorem fails_signature_of_statement (hs : after .spaced s = s)
    (h : sourceGrammar.Accepts .spaced (Rule.statement ++ .opt (.lit ";")) s y) (hy : EndsBinding r y) :
    sourceGrammar.Fails .spaced signature s := by
  refine fails_of_not_accepts (fun x hx => ?_) rfl
  obtain ⟨z, hstatement, hbrace⟩ := statement_of_signature hs hx
  -- The statement ends at the brace; but a binding does not end there.
  have hall : sourceGrammar.Accepts .spaced (Rule.statement ++ .opt (.lit ";")) s
      (after .spaced z) := by
    refine Grammar.accepts_seq.2 ⟨z, hstatement, Grammar.accepts_opt.2 (.inr ⟨?_, rfl⟩)⟩
    change sourceGrammar.Fails .spaced _ (after .spaced z)
    exact hbrace ▸ fails_lit_of_head (c := ';') rfl (stops_cons.2 rfl)
  refine hy.brace (x := x) ?_
  rw [h.unique hall, after_after, hbrace]

/-- What a statement asks of the place behind it holds in front of a statement. -/
theorem EndsStatement.before (hafter : after .spaced (s ++ r) = after .spaced s ++ r)
    (hwithin : Within r .spaced (Rule.statement ++ .opt (.lit ";")) (after .spaced s) parts y)
    (h : sourceGrammar.Matches .spaced (Rule.statement ++ .opt (.lit ";")) (after .spaced s) parts y)
    (hy : EndsStatement r y) : EndsStatement r s := by
  have hsettled : after .spaced (after .spaced s ++ r) = after .spaced s ++ r := by
    rw [← hafter, after_after]
  obtain ⟨z, hstatement, -⟩ := Grammar.accepts_seq.1 ⟨parts, h⟩
  obtain ⟨z', hfull, -⟩ := Grammar.accepts_seq.1 hwithin.accepts
  refine ⟨⟨⟨?_, fun hf => ?_⟩, ?_⟩, ?_, ?_, fun d hd hf => ?_⟩
  · exact (endsOperand_of_statement hsettled hfull).of_after
  · rw [hafter] at hf
    exact fails_tail_of_statement (after_after s) hsettled hfull hstatement hf
  · refine before_of_accepts hstatement (fun c hc => ?_) rfl rfl
    simp only [Bool.not_eq_false', Bool.or_eq_true, beq_iff_eq] at hc
    rcases hc with (rfl | rfl) | rfl <;> rfl
  · refine before_of_accepts hstatement (fun c hc => ?_) rfl rfl
    obtain rfl : c = ',' := by simpa using hc
    rfl
  · exact fails_signature_of_statement (after_after s) ⟨parts, h⟩ hy.toEndsBinding
  · refine fails_of_not_accepts (fun x hx => ?_) rfl
    obtain ⟨x, hled⟩ := led_of_statement hd (after_after s) hwithin h hx
    rw [hafter] at hf
    exact hled.not_fails hf

end Ends

/-! ## Words that could lead a declaration -/

section Words

variable {r : List Char} {s t y : List Char} {d : Rule}

/-- An expression starts with a word, or with a character that no declaration starts with. -/
theorem word_or_sign_of_accepts_expr (hs : after .spaced s = s)
    (h : sourceGrammar.Accepts .spaced (.rule .expr) s y) :
    (∃ c u, s = c :: u ∧ declaration.opens c = false) ∨
    ∃ w t, s = w ++ t ∧ w.head?.any Rule.isNameStart = true ∧ (∀ c ∈ w, Rule.isNameChar c = true) ∧
      Stops Rule.isNameChar t ∧ (∀ k ∈ ["import", "var", "let", "func"], w ≠ k.toList) ∧
      ∃ rule ∈ primaryRules, sourceGrammar.Accepts .joined (.rule rule) s t := by
  rcases operand_of_accepts_expr h with ⟨t, z, rfl | rfl, -⟩ | ⟨z, hoperand⟩
  · exact .inl ⟨_, t, rfl, rfl⟩
  · exact .inl ⟨_, t, rfl, rfl⟩
  rw [hs] at hoperand
  obtain ⟨rule, hrule, t, ht⟩ := primary_of_accepts_postfix hoperand
  have hrule' := hrule
  have hbody : sourceGrammar.Accepts (rule.style.inside .joined) rule.body s t :=
    Grammar.accepts_rule.1 ht
  simp only [primaryRules, List.mem_cons, List.not_mem_nil, or_false] at hrule'
  rcases hrule' with rfl | rfl | rfl | rfl | rfl | rfl | rfl | rfl | rfl
  · obtain ⟨u, rfl⟩ := eq_cons_of_sign (c := '"') rfl rfl ht
    exact .inl ⟨_, u, rfl, rfl⟩
  · obtain ⟨w, v, hw, -, rfl, -⟩ := accepts_float.1 hbody
    obtain ⟨c, u, hu, -, hopens⟩ := exists_cons_of_digits hw (('.' :: v) ++ t)
    exact .inl ⟨c, u, (List.append_assoc _ _ _).trans hu, hopens⟩
  · obtain ⟨w, hw, rfl, -, -⟩ := accepts_integer.1 hbody
    obtain ⟨c, u, hu, -, hopens⟩ := exists_cons_of_digits hw t
    exact .inl ⟨c, u, hu, hopens⟩
  · obtain ⟨w, hw, rfl, hstop⟩ := accepts_boolean.1 hbody
    have hwords : ∀ w ∈ ["true", "false"], w.toList.head?.any Rule.isNameStart = true ∧
        (∀ c ∈ w.toList, Rule.isNameChar c = true) ∧
        ∀ k ∈ ["import", "var", "let", "func"], w.toList ≠ k.toList := by decide
    obtain ⟨hstart, hchars, hkeyword⟩ := hwords w hw
    exact .inr ⟨w.toList, t, rfl, hstart, hchars, hstop, hkeyword, _, hrule, ht⟩
  · obtain ⟨w, hw, rfl, hstop⟩ := accepts_nil.1 hbody
    obtain rfl := List.mem_singleton.1 hw
    exact .inr ⟨_, t, rfl, rfl, by decide, hstop, by decide, _, hrule, ht⟩
  · obtain ⟨u, rfl⟩ := eq_cons_of_sign (c := '#') rfl rfl ht
    exact .inl ⟨_, u, rfl, rfl⟩
  · obtain ⟨u, rfl⟩ := eq_cons_of_sign (c := '.') rfl rfl ht
    exact .inl ⟨_, u, rfl, rfl⟩
  · obtain ⟨u, rfl⟩ := eq_cons_of_sign (c := '(') rfl rfl ht
    exact .inl ⟨_, u, rfl, rfl⟩
  · obtain ⟨w, hw, rfl, hstop⟩ := accepts_identifier.1 ht
    have hkeywords : ∀ k ∈ ["import", "var", "let", "func"], k ∈ Rule.keywords := by decide
    obtain ⟨c, v, hv, hc⟩ := hw.start
    refine .inr ⟨w, t, rfl, by rw [hv]; exact hc, hw.chars, hstop, fun k hk => ?_, _, hrule, ht⟩
    exact hw.notKeyword k (hkeywords k hk)

theorem word_of_accepts_expr (hs : after .spaced s = s)
    (h : sourceGrammar.Accepts .spaced (.rule .expr) s y) :
    sourceGrammar.Fails .spaced declaration s ∨
    ∃ w t, s = w ++ t ∧ w.head?.any Rule.isNameStart = true ∧ (∀ c ∈ w, Rule.isNameChar c = true) ∧
      Stops Rule.isNameChar t ∧ (∀ k ∈ ["import", "var", "let", "func"], w ≠ k.toList) ∧
      ∃ rule ∈ primaryRules, sourceGrammar.Accepts .joined (.rule rule) s t := by
  refine (word_or_sign_of_accepts_expr hs h).imp_left ?_
  rintro ⟨c, u, rfl, hopens⟩
  exact fails_of_opens hs hopens rfl rfl

/-- A declaration without attributes starts with a word. -/
theorem before_of_leading (hd : d ∈ ledRules)
    (hbare : sourceGrammar.Fails .spaced (.rule .attributeUse) (after .spaced s))
    (h : sourceGrammar.Accepts .spaced (leading ++ ledBy d) (after .spaced s) y) :
    Before Rule.isNameStart s := by
  obtain ⟨z, hleading, hword⟩ := Grammar.accepts_seq.1 h
  rcases Grammar.accepts_many.1 (modifiers_of_bare hbare hleading) with ⟨-, rfl⟩ | ⟨_, hone, -⟩
  · change sourceGrammar.Accepts .spaced _ (after .spaced (after .spaced s)) y at hword
    rw [after_after] at hword
    obtain ⟨k, hk, -, t, ht⟩ := word_of_ledBy hd hword
    exact before_isNameStart ht (isNameStart_of_mem_keywords k (keyword_of_declarationWord hk))
  · have hwords : ∀ m ∈ Rule.modifiers, m.toList.head?.any Rule.isNameStart = true := by decide
    obtain ⟨m, hm, hs, -⟩ := accepts_modifier.1 hone
    exact before_isNameStart hs (hwords m hm)

theorem fails_tail_of_leading (hd : d ∈ ledRules) (hs : after .spaced s = s)
    (h : sourceGrammar.Accepts .spaced (leading ++ ledBy d) s y) :
    sourceGrammar.Fails .spaced tail s := by
  have hbounded : ∀ d ∈ ledRules, (∀ c ∈ "?=!<>&|+-*/%".toList, (leading ++ ledBy d).opens c = false) ∧
      (leading ++ ledBy d).mayBeEmpty sourceRanks = false ∧
      (leading ++ ledBy d).isBounded sourceRanks sourceGrammar.depth = true := by decide
  obtain ⟨hopens, hempty, hdepth⟩ := hbounded d hd
  refine fails_tail hs h (fun v hv => ?_) hopens hempty hdepth
  refine fails_of_not_accepts (fun x hx => ?_) hdepth
  obtain ⟨z, hleading, hword⟩ := Grammar.accepts_seq.1 hx
  obtain rfl := eq_of_leading_word rfl (by decide) hv (by decide) hleading
  change sourceGrammar.Accepts .spaced (ledBy d) (after .spaced (['a', 's'] ++ v)) x at hword
  rw [after_word rfl (by decide)] at hword
  obtain ⟨k, hk, -, t, ht⟩ := word_of_ledBy hd hword
  have hapart : ∀ k ∈ declarationWords, ¬ ['a', 's'] <+: k.toList ∧ ¬ k.toList <+: ['a', 's'] := by decide
  exact (prefix_comparable ht).elim (hapart k hk).1 (hapart k hk).2

/-- In front of a declaration without attributes a word is an expression of its own, since neither a
suffix nor an operator follows. -/
theorem accepts_expr_of_leading {rule : Rule} (hd : d ∈ ledRules) (hs : after .spaced s = s)
    (hrule : rule ∈ primaryRules) (hword : sourceGrammar.Accepts .joined (.rule rule) s t)
    (hbare : sourceGrammar.Fails .spaced (.rule .attributeUse) (after .spaced t))
    (h : sourceGrammar.Accepts .spaced (leading ++ ledBy d) (after .spaced t) y) :
    sourceGrammar.Accepts .spaced (.rule .expr) s (after .spaced t) := by
  have hstops : Stops opensSuffix t := by
    refine (before_of_leading hd hbare h).stops fun c hc => ⟨?_, isSolid_of_opensSuffix hc⟩
    exact of_opensSuffix (p := fun c => Rule.isNameStart c = false) (by decide) hc
  exact accepts_expr_of_primary hs hrule hword hstops (fails_tail_of_leading hd (after_after t) h)

theorem exists_cons_of_leading (hd : d ∈ ledRules)
    (hbare : sourceGrammar.Fails .spaced (.rule .attributeUse) (after .spaced s))
    (h : sourceGrammar.Accepts .spaced (leading ++ ledBy d) (after .spaced s) y) :
    ∃ c u, after .spaced s = c :: u ∧ Rule.isNameStart c = true := by
  have hbefore := before_of_leading hd hbare h
  cases hs : after .spaced s with
  | nil =>
    have hbounded : ∀ d ∈ ledRules, (leading ++ ledBy d).mayBeEmpty sourceRanks = false ∧
        (leading ++ ledBy d).isBounded sourceRanks sourceGrammar.depth = true := by decide
    rw [hs] at h
    exact (h.not_fails (fails_nil (hbounded d hd).1 (hbounded d hd).2)).elim
  | cons c u => exact ⟨c, u, rfl, by simpa using hbefore c (by rw [hs]; rfl)⟩

/-- Where a modifier leads no declaration, none stands behind it. -/
theorem fails_behind_modifier {m : String} {c : Char} (hd : d ∈ ledRules) (hm : m ∈ Rule.modifiers)
    (hstop : Stops Rule.isNameChar s) (hs : after .spaced s = c :: t) (hc : Rule.isNameStart c = true)
    (hf : sourceGrammar.Fails .spaced (.rule d) (m.toList ++ s)) :
    sourceGrammar.Fails .spaced (.rule d) (after .spaced s) := by
  have hbare : sourceGrammar.Fails .spaced (.rule .attributeUse) (after .spaced s) := by
    rw [hs]
    refine fails_rule_of_stops (c := '@') rfl rfl (stops_cons.2 (beq_eq_false_iff_ne.2 ?_))
    rintro rfl
    cases hc
  refine fails_of_not_accepts (fun x hx => ?_) rfl
  exact (accepts_with_modifier hd hm hstop hbare hx).not_fails hf

/-- A name that could be a modifier: the declaration that it would lead is there in the full text too,
and there it would have led it. -/
theorem fails_led_of_modifier {m : String} {rule : Rule} (hd : d ∈ ledRules) (hm : m ∈ Rule.modifiers)
    (ht : Stops Rule.isNameChar t) (hrule : rule ∈ primaryRules)
    (hword : sourceGrammar.Accepts .joined (.rule rule) (m.toList ++ t) t)
    (h : sourceGrammar.Accepts .spaced (.rule .expr) (m.toList ++ t) y)
    (hf : sourceGrammar.Fails .spaced (.rule d) (m.toList ++ t ++ r)) (hy : EndsStatement r y) :
    sourceGrammar.Fails .spaced (.rule d) (m.toList ++ t) := by
  refine fails_of_not_accepts (fun x hx => ?_) rfl
  obtain ⟨hled, hbare⟩ := accepts_behind_modifier hd hm ht hx
  obtain ⟨q, hq⟩ := led_of_accepts hd hled
  obtain ⟨c, u, hu, hc⟩ := exists_cons_of_leading hd hbare hq
  have hafter : after .spaced (t ++ r) = after .spaced t ++ r := by
    rw [after_append r hu (isSolid_of_isNameChar (isNameChar_of_isNameStart hc)), hu]
  obtain rfl := h.unique (accepts_expr_of_leading hd (after_modifier hm t) hrule hword hbare hq)
  have hstop : Stops Rule.isNameChar (t ++ r) := by
    cases t with
    | nil => rw [after_nil] at hu; cases hu
    | cons e t => exact stops_cons.2 (stops_cons.1 ht)
  have hcons : after .spaced (t ++ r) = c :: (u ++ r) := by rw [hafter, hu, List.cons_append]
  have hnone := fails_behind_modifier hd hm hstop hcons hc (by rw [← List.append_assoc]; exact hf)
  have hkeeps := hy.led d hd
  rw [← hafter, after_after, after_after] at hkeeps
  exact hled.not_fails (hkeeps hnone)

/-- Behind a word with a signature an expression stops at the brace or in front of the signature. -/
theorem brace_or_signature_of_expr {w x : List Char} {rule : Rule} (hs : after .spaced (w ++ t) = w ++ t)
    (hrule : rule ∈ primaryRules) (hword : sourceGrammar.Accepts .joined (.rule rule) (w ++ t) t)
    (h : sourceGrammar.Accepts .spaced (.rule .expr) (w ++ t) y)
    (hx : sourceGrammar.Accepts .spaced signature (after .spaced t) x) :
    after .spaced y = '\x7b' :: x ∨ sourceGrammar.Accepts .spaced signature (after .spaced y) x := by
  obtain ⟨b, hunit, hbrace⟩ := unit_of_signature hx
  rcases after_eq_or_head .spaced t with ht | ⟨c, u, rfl, hc⟩
  · -- The brackets touch the word, so they are its arguments.
    rw [ht] at hunit
    have hbefore : Before (· == '\x7b') b := before_of_after hbrace rfl
    have hnone := fails_suffix_of_stops (hbefore.stops_suffix rfl)
    have hsuffix : sourceGrammar.Accepts .joined suffix t b :=
      Grammar.accepts_alt.2 (.inl (Grammar.accepts_alt.2 (.inl (Grammar.accepts_rule.2 hunit))))
    have hmore : sourceGrammar.Accepts .joined (.many suffix) t b :=
      Grammar.accepts_many.2 (.inr ⟨b, hsuffix, Grammar.accepts_more.2 (.inl ⟨hnone, rfl⟩)⟩)
    have hexpr := accepts_expr_of_operand hs (accepts_postfix_of_primary hrule hword hmore)
      (hbefore.fails_eq rfl rfl rfl)
    obtain rfl := h.unique hexpr
    exact .inl (by rw [after_after, hbrace])
  · have hstops : Stops opensSuffix (c :: u) := by
      refine stops_cons.2 (Bool.eq_false_iff.2 fun hopens => ?_)
      rw [isSolid_of_opensSuffix hopens] at hc
      cases hc
    have htail : sourceGrammar.Fails .spaced tail (after .spaced (c :: u)) := by
      obtain ⟨v, hv⟩ := prefix_of_sign (w := "(") rfl hx
      rw [← hv]
      exact fails_of_first v rfl rfl rfl rfl
    have hexpr := accepts_expr_of_primary hs hrule hword hstops htail
    obtain rfl := h.unique hexpr
    exact .inr (by rwa [after_after])

/-- A name that only starts like `func` would need the brackets and the brace of a function. -/
theorem fails_signature_of_word {w : List Char} {rule : Rule} (hs : after .spaced (w ++ t) = w ++ t)
    (hrule : rule ∈ primaryRules) (hword : sourceGrammar.Accepts .joined (.rule rule) (w ++ t) t)
    (h : sourceGrammar.Accepts .spaced (.rule .expr) (w ++ t) y) (hy : EndsStatement r y) :
    sourceGrammar.Fails .spaced signature (after .spaced t) := by
  refine fails_of_not_accepts (fun x hx => ?_) rfl
  rcases brace_or_signature_of_expr hs hrule hword h hx with hbrace | hsignature
  · exact hy.brace hbrace
  · exact hsignature.not_fails hy.signature

/-- Where an expression stands and no declaration, none stands there when the text is cut. -/
theorem fails_declaration_cut (hs : after .spaced s = s)
    (h : sourceGrammar.Accepts .spaced (.rule .expr) s y)
    (hf : sourceGrammar.Fails .spaced declaration (s ++ r)) (hy : EndsStatement r y) :
    sourceGrammar.Fails .spaced declaration s := by
  rcases word_of_accepts_expr hs h with hnone |
    ⟨w, t, rfl, hstart, hchars, hstop, hkeyword, rule, hrule, hword⟩
  · exact hnone
  by_cases hmodifier : ∃ m ∈ Rule.modifiers, w = m.toList
  · obtain ⟨m, hm, rfl⟩ := hmodifier
    obtain ⟨hfront, hfunction⟩ := Grammar.fails_alt.1 hf
    obtain ⟨-, hvariable⟩ := Grammar.fails_alt.1 hfront
    refine Grammar.fails_alt.2 ⟨Grammar.fails_alt.2 ⟨fails_import_modifier hm hstop, ?_⟩, ?_⟩
    · exact fails_led_of_modifier (by decide) hm hstop hrule hword h hvariable hy
    · exact fails_led_of_modifier (by decide) hm hstop hrule hword h hfunction hy
  · refine fails_declaration_word hstart hchars hstop (fun m hm hw => hmodifier ⟨m, hm, hw⟩) hkeyword ?_
    exact fun _ => fails_signature_of_word hs hrule hword h hy

end Words

/-! ## Statements -/

section Statements

variable {r : List Char} {s y : List Char} {parts : List (Tree Rule)}

section Step

variable {n : Nat} (ih : ∀ s parts y, s.length < n → after .spaced s = s →
  Within r .spaced Rule.statements s parts y → Before (· == '\x7d') y →
    sourceGrammar.Matches .spaced Rule.statements s parts y)

include ih

theorem cut_statement (h : Within r .spaced Rule.statement s parts y) (hs : s.length ≤ n)
    (hsettled : after .spaced s = s) (hy : EndsStatement r y) :
    sourceGrammar.Matches .spaced Rule.statement s parts y := by
  rcases h.alt with h | ⟨hf, h⟩
  · rcases h.alt with h | ⟨-, h⟩
    -- That the rules in front fail in the full text is of no use: they have to fail in the cut one.
    · rcases h.alt with h | ⟨-, h⟩
      · have himport := cut_importDecl h hy.dot
        exact Grammar.matches_alt.2
          (.inl (Grammar.matches_alt.2 (.inl (Grammar.matches_alt.2 (.inl himport)))))
      · have hvariable := cut_variableDecl ih h hs hsettled hy.toEndsBinding hy.comma
        have himport := fails_import_of_led (by decide) hsettled ⟨parts, hvariable⟩
        exact Grammar.matches_alt.2 (.inl (Grammar.matches_alt.2 (.inl
          (Grammar.matches_alt.2 (.inr ⟨himport, hvariable⟩)))))
    · have hfunction := cut_functionDecl ih h hs hsettled
      have himport := fails_import_of_led (by decide) hsettled ⟨parts, hfunction⟩
      have hvariable := fails_variable_of_function ⟨parts, hfunction⟩
      exact Grammar.matches_alt.2 (.inl (Grammar.matches_alt.2
        (.inr ⟨Grammar.fails_alt.2 ⟨himport, hvariable⟩, hfunction⟩)))
  · have hexpr := cut_expr h hy.toEndsExpr
    exact Grammar.matches_alt.2 (.inr ⟨fails_declaration_cut hsettled ⟨parts, hexpr⟩ hf hy, hexpr⟩)

theorem cutsTurns_statements :
    CutsTurns r .spaced (Rule.statement ++ .opt (.lit ";")) n (EndsStatement r) where
  turn s parts y hs hsettled h hy := by
    obtain ⟨ps, z, qs, hstatement, hsemicolon, hafter, rfl⟩ := Within.seq h
    obtain ⟨hz, hsemicolon⟩ : EndsStatement r z ∧
        sourceGrammar.Matches .spaced (.opt (.lit ";")) (after .spaced z) qs y := by
      rcases hsemicolon.opt with hsemicolon | ⟨hf, rfl, rfl⟩
      · have hz := before_of_after (p := fun c => c == ';' || c == '\x7d')
          (Grammar.matches_lit.1 hsemicolon.lit).1 rfl
        exact ⟨endsStatement_of_before hz, Grammar.matches_opt.2 (.inl hsemicolon.lit)⟩
      · exact ⟨hy.of_leaves (.inr ⟨rfl, hafter⟩),
          Grammar.matches_opt.2 (.inr ⟨fails_lit_cut hf, rfl, rfl⟩)⟩
    exact Grammar.matches_seq.2 ⟨ps, z, qs, cut_statement ih hstatement hs hsettled hz, hsemicolon, rfl⟩
  next _ _ _ _ hafter hwithin h hy := EndsStatement.before hafter hwithin h hy

end Step

/-- The statements of a block can be cut off at its brace. -/
theorem cut_statements (h : Within r .spaced Rule.statements s parts y) (hs : after .spaced s = s)
    (hy : Before (· == '\x7d') y) : sourceGrammar.Matches .spaced Rule.statements s parts y := by
  induction hn : s.length using Nat.strongRecOn generalizing s parts y with
  | ind n ih =>
    -- A block inside a statement is shorter than the block that the statement stands in.
    have hcuts := cutsTurns_statements (r := r) (n := n) fun s parts y hlt hs h hy =>
      ih s.length hlt h hs hy rfl
    have hend : sourceGrammar.Fails .spaced (Rule.statement ++ .opt (.lit ";")) (after .spaced y) :=
      hy.fails_eq rfl rfl rfl
    refine hcuts.many h (Nat.le_of_eq hn) hs (fun _ hys => ?_) fun _ => ⟨?_, hend⟩
    · rw [hys, hs] at hend
      exact hend
    · exact endsStatement_of_before (hy.of_eq rfl)

end Statements
end SwiftMacro
