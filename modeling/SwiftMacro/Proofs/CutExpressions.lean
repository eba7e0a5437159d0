import SwiftMacro.Proofs.CutTypes
import SwiftMacro.Proofs.Primaries
/-!
# Expressions that are cut off

Brackets and quotes close what they hold, so arguments, tuples and string literals can be cut off
behind them. An operand or a chain of operators has no end of its own: it stops where nothing that
follows would go on with it. `EndsOperand` and `EndsExpr` say of a place that this does not depend on
what is cut off there, and `cut_expr` is by induction on the length of the text, since what stands in
brackets is shorter.
-/

namespace SwiftMacro

open Peg

/-! ## What stands behind an operand -/

/-- A call, a member or an unwrapping mark that fails in front of `r` fails without it. -/
structure EndsOperand (r y : List Char) : Prop where
  clause : Keeps r .joined (.rule .argumentClause) y
  dot : Keeps r .hidden dotName y
  unwrap : Keeps r .joined (.rule .forceUnwrap) y

/-- The same for an operator or a cast behind blanks. -/
structure EndsExpr (r y : List Char) : Prop extends EndsOperand r y where
  tail : sourceGrammar.Fails .spaced tail (after .spaced (y ++ r)) →
    sourceGrammar.Fails .spaced tail (after .spaced y)

/-- The characters that a call, a member and an unwrapping mark start with. -/
def opensSuffix (c : Char) : Bool := c == '(' || c == '.' || c == '!'

/-- The characters that close a list or a block, or stand between two items. -/
def isCloser (c : Char) : Bool := [',', ';', ')', '\x7b', '\x7d'].contains c

section Ends

variable {r : List Char} {layout : Layout} {s y z : List Char}

theorem Before.fails {p : Char → Bool} {e : Peg Rule} (h : Before p s)
    (hopens : ∀ c, p c = true → e.opens c = false) (he : e.mayBeEmpty sourceRanks = false)
    (hb : e.isBounded sourceRanks sourceGrammar.depth = true) :
    sourceGrammar.Fails layout e (after .spaced s) := by
  cases hs : after .spaced s with
  | nil => exact fails_nil he hb
  | cons c t =>
    have hc : p c = true := by simpa using h c (by rw [hs]; rfl)
    exact fails_of_opens (by rw [← hs, after_after]) (hopens c hc) he hb

theorem Before.fails_eq {d : Char} {e : Peg Rule} (h : Before (· == d) s) (hopens : e.opens d = false)
    (he : e.mayBeEmpty sourceRanks = false)
    (hb : e.isBounded sourceRanks sourceGrammar.depth = true) :
    sourceGrammar.Fails layout e (after .spaced s) :=
  h.fails (fun c hc => by rw [beq_iff_eq.1 hc]; exact hopens) he hb

theorem opens_of_isCloser {e : Peg Rule}
    (he : ∀ c ∈ [',', ';', ')', '\x7b', '\x7d'], e.opens c = false) :
    ∀ c, isCloser c = true → e.opens c = false :=
  fun c hc => he c (List.contains_iff_mem.1 hc)

theorem fails_memberSuffix_iff :
    sourceGrammar.Fails layout (.rule .memberSuffix) s ↔ sourceGrammar.Fails .hidden dotName s := by
  rw [Grammar.fails_rule]
  change sourceGrammar.Fails .joined (.lit "." ++ .rule .identifier) s ↔ _
  simp only [dotName, Grammar.fails_seq, Grammar.fails_lit, Grammar.accepts_lit, Grammar.fails_rule]
  rfl

theorem endsOperand_of_stops (h : Stops opensSuffix y) : EndsOperand r y where
  clause _ := fails_rule_of_stops (c := '(') rfl rfl (h.mono (by simp [opensSuffix]))
  dot := keepsDot_of_stops (h.mono (by simp [opensSuffix]))
  unwrap _ := fails_rule_of_stops (c := '!') rfl rfl (h.mono (by simp [opensSuffix]))

theorem of_opensSuffix {p : Char → Prop} (hp : ∀ c ∈ ['(', '.', '!'], p c) {c : Char}
    (h : opensSuffix c = true) : p c :=
  hp c (by simpa [opensSuffix, or_assoc] using h)

theorem isSolid_of_opensSuffix {c : Char} (h : opensSuffix c = true) : isSolid c = true :=
  of_opensSuffix (p := fun c => isSolid c = true) (by decide) h

theorem EndsOperand.of_after (h : EndsOperand r (after .spaced y)) : EndsOperand r y := by
  rcases after_eq_or_head .spaced y with hy | ⟨c, t, rfl, hc⟩
  · rwa [hy] at h
  · refine endsOperand_of_stops (stops_cons.2 (Bool.eq_false_iff.2 fun hopens => ?_))
    rw [isSolid_of_opensSuffix hopens] at hc
    cases hc

theorem endsExpr_of_before (h : Before isCloser y) : EndsExpr r y where
  toEndsOperand := by
    refine endsOperand_of_stops (h.stops fun c hc => ⟨?_, isSolid_of_opensSuffix hc⟩)
    exact of_opensSuffix (p := fun c => isCloser c = false) (by decide) hc
  tail _ := h.fails (opens_of_isCloser (by decide)) rfl rfl

theorem EndsExpr.of_leaves (h : EndsExpr r y) (hz : Leaves r .spaced z y) : EndsExpr r z := by
  rcases hz with rfl | ⟨rfl, hafter⟩
  · exact h
  · refine ⟨h.toEndsOperand.of_after, fun hf => ?_⟩
    have htail := h.tail
    rw [← hafter, after_after, after_after] at htail
    exact htail hf

theorem fails_forceUnwrap (t : List Char) :
    sourceGrammar.Fails layout (.rule .forceUnwrap) ('!' :: '=' :: t) :=
  Grammar.fails_rule.2 (Grammar.fails_seq.2 (.inr ⟨'=' :: t, Grammar.accepts_lit.2 rfl,
    Grammar.fails_not.2 ⟨t, Grammar.accepts_lit.2 rfl⟩⟩))

/-- What goes on with an operand starts with a sign of its own, so nothing else could. -/
theorem endsOperand_of_suffix (h : sourceGrammar.Accepts .joined suffix (s ++ r) y) :
    EndsOperand r s := by
  have hother : ∀ {c d : Char}, c ≠ d → (∃ t, s ++ r = c :: t) → Stops (· == d) s := by
    rintro c d hne ⟨t, ht⟩
    exact Stops.cut (r := r) (ht ▸ stops_cons.2 (beq_eq_false_iff_ne.2 hne))
  rcases Grammar.accepts_alt.1 h with h | ⟨-, hunwrap⟩
  · rcases Grammar.accepts_alt.1 h with hclause | ⟨-, hmember⟩
    · have hsign := eq_cons_of_sign (c := '(') rfl rfl hclause
      exact ⟨fun hf => absurd hf hclause.not_fails, keepsDot_of_stops (hother (by decide) hsign),
        fun _ => fails_rule_of_stops (c := '!') rfl rfl (hother (by decide) hsign)⟩
    · have hsign := eq_cons_of_sign (c := '.') rfl rfl hmember
      exact ⟨fun _ => fails_rule_of_stops (c := '(') rfl rfl (hother (by decide) hsign),
        fun hf => absurd (fails_memberSuffix_iff.2 hf) hmember.not_fails,
        fun _ => fails_rule_of_stops (c := '!') rfl rfl (hother (by decide) hsign)⟩
  · have hsign := eq_cons_of_sign (c := '!') rfl rfl hunwrap
    exact ⟨fun _ => fails_rule_of_stops (c := '(') rfl rfl (hother (by decide) hsign),
      keepsDot_of_stops (hother (by decide) hsign), fun hf => absurd hf hunwrap.not_fails⟩

/-- No operator and no cast starts like a suffix, but for `!=`, which is no unwrapping mark. -/
theorem endsOperand_of_tail (h : sourceGrammar.Accepts .spaced tail (after .spaced s) y) :
    EndsOperand r s := by
  refine EndsOperand.of_after ?_
  generalize after .spaced s = s at h
  rcases Grammar.accepts_alt.1 h with h | ⟨-, h⟩
  · obtain ⟨v, rfl, -⟩ := eq_of_accepts_castTail h
    exact endsOperand_of_stops (stops_cons.2 rfl)
  · obtain ⟨t, hoperator, -⟩ := Grammar.accepts_seq.1 (Grammar.accepts_rule.1 h)
    obtain ⟨w, hw, rfl⟩ := mem_of_accepts_anyOf (Grammar.accepts_rule.1 hoperator)
    have hcases : ∀ w ∈ Rule.operators, w = "!=" ∨
        w.toList.head?.any (fun c => !opensSuffix c) = true := by
      decide
    rcases hcases w hw with rfl | hhead
    · exact ⟨fun _ => fails_rule_of_stops (c := '(') rfl rfl (stops_cons.2 rfl),
        keepsDot_of_stops (stops_cons.2 rfl), fun _ => fails_forceUnwrap t⟩
    · refine endsOperand_of_stops ?_
      cases hv : w.toList with
      | nil => rw [hv] at hhead; cases hhead
      | cons c v => rw [hv] at hhead; exact stops_cons.2 (by simpa using hhead)

/-- No operand starts with a sign, and neither do blanks. -/
theorem fails_prefixOperator_before
    (h : sourceGrammar.Accepts .spaced (.rule .postfixExpr) (after .spaced s) y) :
    sourceGrammar.Fails .spaced (.rule .prefixOperator) s := by
  rcases after_eq_or_head .spaced s with hs | ⟨c, t, rfl, hc⟩
  · rw [hs] at h
    exact fails_prefixOperator_of_operand hs h
  · refine Grammar.fails_rule.2 (Grammar.fails_seq.2 (.inl (fails_anyOf.2 ?_)))
    have hsolid : ∀ w ∈ ["-", "!"], w.toList.head?.any isSolid = true := by decide
    rintro w hw ⟨u, hu⟩
    have hw := hsolid w hw
    cases hv : w.toList with
    | nil => rw [hv] at hw; cases hw
    | cons d v =>
      rw [hv] at hw hu
      obtain ⟨rfl, -⟩ := List.cons.inj hu
      rw [show isSolid d = true from hw] at hc
      cases hc

theorem fails_castTail_of_operator (h : sourceGrammar.Accepts .spaced (.rule .binaryOperator) s y) :
    sourceGrammar.Fails .spaced (.rule .castTail) s := by
  obtain ⟨w, hw, rfl⟩ := mem_of_accepts_anyOf (Grammar.accepts_rule.1 h)
  obtain ⟨c, t, ht, hc⟩ := operator_eq_cons hw
  refine fails_of_not_accepts (fun x hx => ?_) rfl
  obtain ⟨v, hv, -⟩ := eq_of_accepts_castTail hx
  rw [ht] at hv
  obtain ⟨rfl, -⟩ := List.cons.inj hv
  cases hc

end Ends

/-! ## The text of a string literal -/

section Text

variable {r : List Char} {layout : Layout} {s y : List Char} {parts : List (Tree Rule)}

theorem cut_stringUnit (h : Within r .hidden stringUnit s parts y) :
    sourceGrammar.Matches .hidden stringUnit s parts y := by
  rcases h.alt with h | ⟨-, h⟩
  · exact Grammar.matches_alt.2 (.inl (cut_word rfl rfl h))
  · have hplain := cut_of_isLocal rfl h
    refine Grammar.matches_alt.2 (.inr ⟨?_, hplain⟩)
    obtain ⟨_, _, _, hnot, -, -⟩ := Grammar.matches_seq.1 hplain
    have hnone := fails_anyOf.1 (Grammar.matches_not.1 hnot).1
    exact Grammar.fails_rule.2 (fails_of_sign rfl (hnone "\\" (by decide)))

/-- The text of a literal can be cut off where it would not go on. -/
theorem cut_stringText (h : Within r layout (.rule .stringText) s parts y)
    (hy : Keeps r .hidden stringUnit y) :
    sourceGrammar.Matches layout (.rule .stringText) s parts y := by
  refine h.cut_rule fun inner hinner => ?_
  have hcuts : CutsTurns r .hidden stringUnit s.length fun _ => True :=
    ⟨fun _ _ _ _ _ h _ => cut_stringUnit h, fun _ _ _ _ _ _ _ _ => trivial⟩
  refine hcuts.chain hinner (Nat.le_refl _) (fun ps z hone _ => cut_stringUnit hone) ?_
  rintro z hz hf
  obtain rfl : y = z := hz.elim id And.left
  exact ⟨trivial, hy hf⟩

theorem accepts_stringUnit_of_stringText
    (h : sourceGrammar.Accepts layout (.rule .stringText) s y) :
    ∃ t, sourceGrammar.Accepts .hidden stringUnit s t := by
  obtain ⟨t, hunit, -⟩ := Grammar.accepts_seq.1 (Grammar.accepts_rule.1 h)
  exact ⟨t, hunit⟩

/-- An interpolation is told from text by its two signs. -/
theorem endsText_of_interpolation (h : sourceGrammar.Accepts layout (.rule .interpolation) s y) :
    EndsText s := by
  obtain ⟨t, rfl⟩ := prefix_of_sign (w := "\\(") rfl (Grammar.accepts_rule.1 h)
  exact .inr ⟨t, rfl⟩

end Text

/-! ## Labels -/

section Label

variable {r : List Char} {layout : Layout} {s y : List Char} {parts : List (Tree Rule)}

theorem cut_label (h : Within r layout label s parts y) :
    sourceGrammar.Matches layout label s parts y := by
  obtain ⟨ps, z, qs, hname, hcolon, -, rfl⟩ := Within.seq h
  have hname := hname.cut_rule fun inner hinner => cut_identifier hinner
  exact Grammar.matches_seq.2 ⟨ps, z, qs, hname, hcolon.lit, rfl⟩

/-- Where no label stands, none stands when the text is cut: a colon would be there in both. -/
theorem keeps_label : Keeps r .spaced label s := by
  intro hf
  refine fails_of_not_accepts (fun y hy => ?_) rfl
  obtain ⟨u, hname, hcolon⟩ := Grammar.accepts_seq.1 hy
  have hcolon : after .spaced u = ':' :: y := Grammar.accepts_lit.1 hcolon
  obtain ⟨w, hw, rfl, hstop⟩ := accepts_identifier.1 (Grammar.accepts_rule.1 hname)
  have hu : Stops Rule.isNameChar (u ++ r) := by
    cases u with
    | nil => rw [after_nil] at hcolon; cases hcolon
    | cons c u => exact stops_cons.2 (stops_cons.1 hstop)
  have hlabel : sourceGrammar.Accepts .spaced label (w ++ u ++ r) (y ++ r) := by
    refine Grammar.accepts_seq.2 ⟨u ++ r, ?_, ?_⟩
    · exact Grammar.accepts_rule.2 (accepts_identifier.2 ⟨w, hw, List.append_assoc w u r, hu⟩)
    · change sourceGrammar.Accepts .spaced _ (after .spaced (u ++ r)) (y ++ r)
      rw [after_append r hcolon rfl]
      exact Grammar.accepts_lit.2 rfl
  exact hlabel.not_fails hf

end Label

/-! ## The rules of operands -/

/-- The rules that an operand can start with, in the order in which they are tried. -/
def primaryRules : List Rule :=
  [.stringLiteral, .floatLiteral, .integerLiteral, .booleanLiteral, .nilLiteral, .macroUse,
    .implicitMember, .tupleExpr, .identifier]

/-- The expression or the first of the rules that matches. -/
def orElse (e : Peg Rule) (rules : List Rule) : Peg Rule := rules.foldl (fun e r => e / .rule r) e

theorem primary_eq_orElse : Rule.primary = orElse (.rule .stringLiteral) primaryRules.tail := rfl

section Primary

variable {layout : Layout} {e : Peg Rule} {s y : List Char} {parts : List (Tree Rule)}
  {rule : Rule} {rules : List Rule}

theorem exists_of_matches_orElse (h : sourceGrammar.Matches layout (orElse e rules) s parts y) :
    sourceGrammar.Matches layout e s parts y ∨
      ∃ r ∈ rules, sourceGrammar.Matches layout (.rule r) s parts y := by
  induction rules generalizing e with
  | nil => exact .inl h
  | cons r rules ih =>
    rcases ih h with h | ⟨q, hq, h⟩
    · rcases Grammar.matches_alt.1 h with h | ⟨-, h⟩
      · exact .inl h
      · exact .inr ⟨r, List.mem_cons_self, h⟩
    · exact .inr ⟨q, List.mem_cons_of_mem _ hq, h⟩

theorem matches_orElse_left (h : sourceGrammar.Matches layout e s parts y) :
    sourceGrammar.Matches layout (orElse e rules) s parts y := by
  induction rules generalizing e with
  | nil => exact h
  | cons r rules ih => exact ih (Grammar.matches_alt.2 (.inl h))

theorem matches_orElse_right {n : Nat} (hrule : rules[n]? = some rule)
    (he : sourceGrammar.Fails layout e s)
    (hfails : ∀ r ∈ rules.take n, sourceGrammar.Fails layout (.rule r) s)
    (h : sourceGrammar.Matches layout (.rule rule) s parts y) :
    sourceGrammar.Matches layout (orElse e rules) s parts y := by
  induction rules generalizing e n with
  | nil => cases hrule
  | cons r rules ih =>
    cases n with
    | zero =>
      obtain rfl := Option.some.inj hrule
      have hright : sourceGrammar.Matches layout (e / .rule r) s parts y :=
        Grammar.matches_alt.2 (.inr ⟨he, h⟩)
      change sourceGrammar.Matches layout (orElse (e / .rule r) rules) s parts y
      exact matches_orElse_left hright
    | succ n =>
      refine ih hrule (Grammar.fails_alt.2 ⟨he, hfails r List.mem_cons_self⟩) fun q hq => ?_
      exact hfails q (List.mem_cons_of_mem _ hq)

theorem fails_primary_of_first {c : Char} {t : List Char} (hc : isSolid c = true)
    (hrules : rules ⊆ primaryRules) (hfirst : ∀ r ∈ rules, r.firsts c = false) :
    ∀ r ∈ rules, sourceGrammar.Fails layout (.rule r) (c :: t) := by
  intro r hr
  have hempty : ∀ r ∈ primaryRules, sourceRanks.mayBeEmpty r = false := by decide
  exact fails_of_first t hc (hfirst r hr) (hempty r (hrules hr)) rfl

/-- A word that starts like a name is no operand of another kind. -/
theorem fails_signed_of_word {w t : List Char} (hw : w.head?.any Rule.isNameStart = true) :
    ∀ r ∈ signedRules, sourceGrammar.Fails layout (.rule r) (w ++ t) := by
  cases w with
  | nil => cases hw
  | cons c w =>
    have hsolid := isSolid_of_isNameChar (isNameChar_of_isNameStart hw)
    exact fails_primary_of_first hsolid (by decide) (firsts_of_isNameStart hw)

theorem fails_boolean {w t : List Char} (hw : ∀ c ∈ w, Rule.isNameChar c = true)
    (ht : Stops Rule.isNameChar t) (hne : ∀ v ∈ ["true", "false"], w ≠ v.toList) :
    sourceGrammar.Fails layout (.rule .booleanLiteral) (w ++ t) :=
  Grammar.fails_rule.2 (fails_wholeWord hw ht hne (by decide) (by decide) rfl)

theorem fails_nilLiteral {w t : List Char} (hw : ∀ c ∈ w, Rule.isNameChar c = true)
    (ht : Stops Rule.isNameChar t) (hne : ∀ v ∈ ["nil"], w ≠ v.toList) :
    sourceGrammar.Fails layout (.rule .nilLiteral) (w ++ t) :=
  Grammar.fails_rule.2 (fails_wholeWord hw ht hne (by decide) (by decide) rfl)

theorem matches_primary_of_fails {n : Nat} (hrule : primaryRules[n + 1]? = some rule)
    (hfails : ∀ r ∈ primaryRules.take (n + 1), sourceGrammar.Fails .joined (.rule r) s)
    (h : sourceGrammar.Matches .joined (.rule rule) s parts y) :
    sourceGrammar.Matches .joined Rule.primary s parts y := by
  rw [primary_eq_orElse]
  exact matches_orElse_right (n := n) hrule (hfails _ List.mem_cons_self)
    (fun r hr => hfails r (List.mem_cons_of_mem _ hr)) h

/-- An operand is matched by one of the rules. -/
theorem exists_of_matches_primary (h : sourceGrammar.Matches .joined Rule.primary s parts y) :
    ∃ rule ∈ primaryRules, sourceGrammar.Matches .joined (.rule rule) s parts y := by
  rw [primary_eq_orElse] at h
  rcases exists_of_matches_orElse h with h | ⟨rule, hrule, h⟩
  · exact ⟨_, List.mem_cons_self, h⟩
  · exact ⟨rule, List.mem_cons_of_mem _ hrule, h⟩

/-- The rules of operands exclude each other, so the order in which they are tried is no matter. -/
theorem matches_primary (hmem : rule ∈ primaryRules)
    (h : sourceGrammar.Matches .joined (.rule rule) s parts y) :
    sourceGrammar.Matches .joined Rule.primary s parts y := by
  have hbody : sourceGrammar.Accepts (rule.style.inside .joined) rule.body s y :=
    Grammar.accepts_rule.1 ⟨parts, h⟩
  -- The rules that are tried before fail on the first character, or on the word as a whole.
  simp only [primaryRules, List.mem_cons, List.not_mem_nil, or_false] at hmem
  rcases hmem with rfl | rfl | rfl | rfl | rfl | rfl | rfl | rfl | rfl
  · rw [primary_eq_orElse]
    exact matches_orElse_left h
  · obtain ⟨w, v, hw, -, rfl, -⟩ := accepts_float.1 hbody
    refine matches_primary_of_fails (n := 0) rfl ?_ h
    rw [List.append_assoc]
    simpa [primaryRules] using digit_starts hw
  · obtain ⟨w, hw, rfl, hstop, hfraction⟩ := accepts_integer.1 hbody
    refine matches_primary_of_fails (n := 1) rfl ?_ h
    simpa [primaryRules] using ⟨digit_starts hw, fails_float hw hstop hfraction⟩
  · obtain ⟨w, hw, rfl, -⟩ := accepts_boolean.1 hbody
    have hstart : ∀ w ∈ ["true", "false"], w.toList.head?.any Rule.isNameStart = true := by decide
    have hsigned : ∀ r ∈ primaryRules.take 3, r ∈ signedRules := by decide
    refine matches_primary_of_fails (n := 2) rfl (fun r hr => ?_) h
    exact fails_signed_of_word (hstart w hw) r (hsigned r hr)
  · obtain ⟨w, hw, rfl, hstop⟩ := accepts_nil.1 hbody
    obtain rfl := List.mem_singleton.1 hw
    have hcases : ∀ r ∈ primaryRules.take 4, r ∈ signedRules ∨ r = .booleanLiteral := by decide
    refine matches_primary_of_fails (n := 3) rfl (fun r hr => ?_) h
    rcases hcases r hr with hr | rfl
    · exact fails_signed_of_word rfl r hr
    · exact fails_boolean (by decide) hstop (by decide)
  · obtain ⟨t, rfl⟩ := eq_cons_of_sign (c := '#') rfl rfl ⟨parts, h⟩
    exact matches_primary_of_fails (n := 4) rfl (fails_primary_of_first rfl (by decide) (by decide)) h
  · obtain ⟨t, rfl⟩ := eq_cons_of_sign (c := '.') rfl rfl ⟨parts, h⟩
    exact matches_primary_of_fails (n := 5) rfl (fails_primary_of_first rfl (by decide) (by decide)) h
  · obtain ⟨t, rfl⟩ := eq_cons_of_sign (c := '(') rfl rfl ⟨parts, h⟩
    exact matches_primary_of_fails (n := 6) rfl (fails_primary_of_first rfl (by decide) (by decide)) h
  · obtain ⟨w, hw, rfl, hstop⟩ := accepts_identifier.1 ⟨parts, h⟩
    have hcases : ∀ r ∈ primaryRules.take 8,
        r ∈ signedRules ∨ r = .booleanLiteral ∨ r = .nilLiteral := by decide
    have hkeywords : ∀ ws : List String, ws ⊆ Rule.keywords → ∀ k ∈ ws, w ≠ k.toList :=
      fun ws hws k hk => hw.notKeyword k (hws hk)
    refine matches_primary_of_fails (n := 7) rfl (fun r hr => ?_) h
    rcases hcases r hr with hr | rfl | rfl
    · obtain ⟨c, v, rfl, hc⟩ := hw.start
      exact fails_signed_of_word (w := c :: v) hc r hr
    · exact fails_boolean hw.chars hstop (hkeywords _ (by decide))
    · exact fails_nilLiteral hw.chars hstop (hkeywords _ (by decide))

end Primary

/-! ## Brackets -/

/-- One more argument behind a comma. -/
def commaArgument : Peg Rule := .lit "," ++ .rule .argument

/-- What stands in the brackets of a list of arguments. -/
def someArguments : Peg Rule := .rule .argument ++ .many commaArgument ++ .opt (.lit ",")

section Step

variable {r : List Char} {layout : Layout} {s y : List Char} {parts : List (Tree Rule)} {n : Nat}
  (ih : ∀ s parts y, s.length < n → Within r .spaced (.rule .expr) s parts y → EndsExpr r y →
    sourceGrammar.Matches .spaced (.rule .expr) s parts y)

include ih

theorem cut_interpolation (h : Within r layout (.rule .interpolation) s parts y) (hs : s.length ≤ n) :
    sourceGrammar.Matches layout (.rule .interpolation) s parts y := by
  refine h.cut_rule fun inner hinner => ?_
  obtain ⟨_, z, qs, hfront, hclose, -, rfl⟩ := Within.seq hinner
  obtain ⟨ps, t, qs', hopen, hexpr, -, rfl⟩ := Within.seq hfront
  obtain ⟨rfl, -⟩ := Grammar.matches_lit.1 hopen.lit
  have hlength := length_after_le .spaced t
  have hend : EndsExpr r z :=
    endsExpr_of_before (before_of_after (Grammar.matches_lit.1 hclose.lit).1 rfl)
  have hexpr : sourceGrammar.Matches .spaced (.rule .expr) (after .spaced t) qs' z :=
    ih _ _ _ (by simp at hs; omega) hexpr hend
  exact Grammar.matches_seq.2 ⟨_, z, qs, Grammar.matches_seq.2 ⟨ps, t, qs', hopen.lit, hexpr, rfl⟩,
    hclose.lit, rfl⟩

/-- Text and interpolations follow each other; text stops where an interpolation starts. -/
theorem cutsTurns_segments :
    CutsTurns r .joined (.rule .interpolation / .rule .stringText) n (Keeps r .hidden stringUnit) where
  turn s parts y hs _ h hy := by
    rcases h.alt with h | ⟨-, h⟩
    · exact Grammar.matches_alt.2 (.inl (cut_interpolation ih h hs))
    · have htext := cut_stringText h hy
      -- No interpolation starts where text does, so it need not be known that none did in the full text.
      refine Grammar.matches_alt.2 (.inr ⟨fails_of_not_accepts (fun x hx => ?_) rfl, htext⟩)
      obtain ⟨t, hunit⟩ := accepts_stringUnit_of_stringText ⟨parts, htext⟩
      exact hunit.not_fails (fails_stringUnit (endsText_of_interpolation hx))
  next s parts y hs _ h _ _ := by
    rcases h.alt with h | ⟨-, h⟩
    · have hlength := length_after_le .joined s
      have hmatch := cut_interpolation ih h (by omega)
      exact fun _ => fails_stringUnit (endsText_of_interpolation ⟨parts, hmatch⟩)
    · intro hf
      obtain ⟨t, hunit⟩ := accepts_stringUnit_of_stringText h.accepts
      exact absurd hf hunit.not_fails

theorem cut_stringLiteral (h : Within r layout (.rule .stringLiteral) s parts y) (hs : s.length ≤ n) :
    sourceGrammar.Matches layout (.rule .stringLiteral) s parts y := by
  refine h.cut_rule fun inner hinner => ?_
  obtain ⟨_, z, qs, hfront, hclose, -, rfl⟩ := Within.seq hinner
  obtain ⟨ps, t, qs', hopen, hmany, -, rfl⟩ := Within.seq hfront
  have hle := hopen.length_le
  have hz : z = '"' :: y := (Grammar.matches_lit.1 hclose.lit).1
  have hends : EndsText z := .inl ⟨y, hz⟩
  have hquote : sourceGrammar.Fails .joined (.rule .interpolation / .rule .stringText) z := by
    refine Grammar.fails_alt.2 ⟨fails_rule_of_stops (c := '\\') rfl rfl ?_, ?_⟩
    · rw [hz]
      exact stops_cons.2 rfl
    · exact Grammar.fails_rule.2 (Grammar.fails_seq.2 (.inl (fails_stringUnit hends)))
  have hmany : sourceGrammar.Matches .joined
      (.many (.rule .interpolation / .rule .stringText)) t qs' z :=
    (cutsTurns_segments ih).many hmany (Nat.le_trans hle hs) rfl (fun _ ht => ht ▸ hquote)
      fun _ => ⟨fun _ => fails_stringUnit hends, hquote⟩
  exact Grammar.matches_seq.2 ⟨_, z, qs, Grammar.matches_seq.2 ⟨ps, t, qs', hopen.lit, hmany, rfl⟩,
    hclose.lit, rfl⟩

theorem cut_argument (h : Within r .spaced (.rule .argument) s parts y) (hs : s.length < n)
    (hy : EndsExpr r y) : sourceGrammar.Matches .spaced (.rule .argument) s parts y := by
  refine h.cut_rule fun inner hinner => ?_
  obtain ⟨ps, z, qs, hlabel, hexpr, -, rfl⟩ := Within.seq hinner
  have hle := hlabel.length_le
  have hlength := length_after_le .spaced z
  have hlabel : sourceGrammar.Matches .spaced (.opt label) s ps z := by
    rcases hlabel.opt with hlabel | ⟨hf, rfl, rfl⟩
    · exact Grammar.matches_opt.2 (.inl (cut_label hlabel))
    · exact Grammar.matches_opt.2 (.inr ⟨keeps_label hf, rfl, rfl⟩)
  have hexpr : sourceGrammar.Matches .spaced (.rule .expr) (after .spaced z) qs y :=
    ih _ _ _ (by omega) hexpr hy
  exact Grammar.matches_seq.2 ⟨ps, z, qs, hlabel, hexpr, rfl⟩

theorem cutsTurns_arguments : CutsTurns r .spaced commaArgument n (Before isCloser) where
  turn s parts y hs _ h hy := by
    obtain ⟨ps, z, qs, hcomma, hargument, -, rfl⟩ := Within.seq h
    obtain ⟨rfl, -⟩ := Grammar.matches_lit.1 hcomma.lit
    have hlength := length_after_le .spaced z
    have hargument := cut_argument ih hargument (by simp at hs; omega) (endsExpr_of_before hy)
    exact Grammar.matches_seq.2 ⟨ps, z, qs, hcomma.lit, hargument, rfl⟩
  next s parts y _ _ _ h _ := by
    obtain ⟨u, hlit, -⟩ := Grammar.accepts_seq.1 ⟨parts, h⟩
    exact before_of_after (Grammar.accepts_lit.1 hlit) rfl

/-- The arguments up to the bracket, where one more comma may stand. -/
theorem cut_someArguments (h : Within r .spaced someArguments s parts y) (hs : s.length < n)
    (hy : Before (· == ')') y) : sourceGrammar.Matches .spaced someArguments s parts y := by
  obtain ⟨ps, x, qs, hlist, hcomma, -, rfl⟩ := Within.seq h
  obtain ⟨hclosed, hlast, hcomma⟩ : Before isCloser x ∧
      sourceGrammar.Fails .spaced commaArgument (after .spaced x) ∧
      sourceGrammar.Matches .spaced (.opt (.lit ",")) (after .spaced x) qs y := by
    rcases hcomma.opt with hcomma | ⟨hf, rfl, rfl⟩
    -- The repetition stops in front of this comma, since a bracket follows it and no argument.
    · obtain ⟨hx, -⟩ := Grammar.matches_lit.1 hcomma.lit
      have hargument : sourceGrammar.Fails .spaced (.rule .argument) (after .spaced y) :=
        hy.fails_eq rfl rfl rfl
      refine ⟨before_of_after hx rfl, ?_, Grammar.matches_opt.2 (.inl hcomma.lit)⟩
      rw [hx]
      exact Grammar.fails_seq.2 (.inr ⟨y, Grammar.accepts_lit.2 rfl, hargument⟩)
    · have hx : Before (· == ')') x := before_after.1 hy
      exact ⟨hx.of_eq rfl, fails_comma (hx.stops_after_eq rfl),
        Grammar.matches_opt.2 (.inr ⟨fails_lit_cut hf, rfl, rfl⟩)⟩
  have hlist := (cutsTurns_arguments ih).chain hlist (Nat.le_of_lt hs)
    (fun ps z hargument hz => cut_argument ih hargument hs (endsExpr_of_before hz))
    (fun z hz _ => ⟨hclosed.of_leaves hz, by rw [hz.after_eq]; exact hlast⟩)
  exact Grammar.matches_seq.2 ⟨ps, x, qs, hlist, hcomma, rfl⟩

theorem cut_parenthesized (h : Within r .spaced Rule.parenthesized s parts y) (hs : s.length ≤ n) :
    sourceGrammar.Matches .spaced Rule.parenthesized s parts y := by
  obtain ⟨_, z, qs, hfront, hclose, -, rfl⟩ := Within.seq h
  obtain ⟨ps, t, qs', hopen, hinner, -, rfl⟩ := Within.seq hfront
  obtain ⟨rfl, -⟩ := Grammar.matches_lit.1 hopen.lit
  have hbracket : Before (· == ')') z := before_of_after (Grammar.matches_lit.1 hclose.lit).1 rfl
  have hlength := length_after_le .spaced t
  have hinner : sourceGrammar.Matches .spaced (.opt someArguments) (after .spaced t) qs' z := by
    rcases hinner.opt with hinner | ⟨-, rfl, rfl⟩
    · exact Grammar.matches_opt.2 (.inl (cut_someArguments ih hinner (by simp at hs; omega) hbracket))
    · refine Grammar.matches_opt.2 (.inr ⟨?_, rfl, rfl⟩)
      rw [← after_after]
      exact hbracket.fails_eq rfl rfl rfl
  exact Grammar.matches_seq.2 ⟨_, z, qs, Grammar.matches_seq.2 ⟨ps, t, qs', hopen.lit, hinner, rfl⟩,
    hclose.lit, rfl⟩

theorem cut_argumentClause (h : Within r layout (.rule .argumentClause) s parts y) (hs : s.length ≤ n) :
    sourceGrammar.Matches layout (.rule .argumentClause) s parts y :=
  h.cut_rule fun _ hinner => cut_parenthesized ih hinner hs

/-! ## Operands -/

theorem cut_use {sign : String} (h : Within r .joined (Rule.use sign) s parts y) (hs : s.length ≤ n)
    (hy : Keeps r .joined (.rule .argumentClause) y) :
    sourceGrammar.Matches .joined (Rule.use sign) s parts y := by
  obtain ⟨_, z, qs, hfront, hclause, -, rfl⟩ := Within.seq h
  obtain ⟨_, x, qs', hstart, htypes, -, rfl⟩ := Within.seq hfront
  obtain ⟨ps, t, qs'', hsign, hname, -, rfl⟩ := Within.seq hstart
  have hle := hfront.length_le
  have hclause : sourceGrammar.Matches .joined (.opt (.rule .argumentClause)) z qs y := by
    rcases hclause.opt with hclause | ⟨hf, rfl, rfl⟩
    · exact Grammar.matches_opt.2 (.inl (cut_argumentClause ih hclause (Nat.le_trans hle hs)))
    · exact Grammar.matches_opt.2 (.inr ⟨hy hf, rfl, rfl⟩)
  have htypes : sourceGrammar.Matches .joined (.opt (.rule .genericClause)) x qs' z := by
    rcases htypes.opt with htypes | ⟨hf, rfl, rfl⟩
    · exact Grammar.matches_opt.2 (.inl (cut_genericClause htypes))
    · exact Grammar.matches_opt.2 (.inr ⟨fails_genericClause_cut hf, rfl, rfl⟩)
  have hstart : sourceGrammar.Matches .joined (.lit sign ++ .rule .identifier) s _ x :=
    Grammar.matches_seq.2 ⟨ps, t, qs'', hsign.lit, cut_identifier hname, rfl⟩
  exact Grammar.matches_seq.2 ⟨_, z, qs, Grammar.matches_seq.2 ⟨_, x, qs', hstart, htypes, rfl⟩,
    hclause, rfl⟩

theorem cut_primary (h : Within r .joined Rule.primary s parts y) (hs : s.length ≤ n)
    (hy : Keeps r .joined (.rule .argumentClause) y) :
    sourceGrammar.Matches .joined Rule.primary s parts y := by
  obtain ⟨rule, hrule, h⟩ : ∃ rule ∈ primaryRules, Within r .joined (.rule rule) s parts y :=
    exists_of_matches_primary h
  refine matches_primary hrule ?_
  simp only [primaryRules, List.mem_cons, List.not_mem_nil, or_false] at hrule
  rcases hrule with rfl | rfl | rfl | rfl | rfl | rfl | rfl | rfl | rfl
  · exact cut_stringLiteral ih h hs
  · exact cut_word rfl rfl h
  · exact cut_word rfl rfl h
  · exact cut_word rfl rfl h
  · exact cut_word rfl rfl h
  · exact h.cut_rule fun _ hinner => cut_use ih hinner hs hy
  · exact h.cut_rule fun _ hinner => cut_dotName hinner
  · exact h.cut_rule fun _ hinner => cut_parenthesized ih hinner hs
  · exact cut_identifier h

theorem cut_suffix (h : Within r .joined suffix s parts y) (hs : s.length ≤ n) :
    sourceGrammar.Matches .joined suffix s parts y := by
  rcases h.alt with h | ⟨-, h⟩
  · rcases h.alt with h | ⟨-, h⟩
    · have hclause := cut_argumentClause ih h hs
      exact Grammar.matches_alt.2 (.inl (Grammar.matches_alt.2 (.inl hclause)))
    · have hmember := h.cut_rule fun _ hinner => cut_dotName hinner
      obtain ⟨t, rfl⟩ := eq_cons_of_sign (c := '.') rfl rfl ⟨parts, hmember⟩
      have hnone : sourceGrammar.Fails .joined (.rule .argumentClause) ('.' :: t) :=
        fails_rule_of_stops (c := '(') rfl rfl (stops_cons.2 rfl)
      exact Grammar.matches_alt.2 (.inl (Grammar.matches_alt.2 (.inr ⟨hnone, hmember⟩)))
  · have hmark := cut_word rfl rfl h
    obtain ⟨t, rfl⟩ := eq_cons_of_sign (c := '!') rfl rfl ⟨parts, hmark⟩
    refine Grammar.matches_alt.2 (.inr ⟨Grammar.fails_alt.2 ⟨?_, ?_⟩, hmark⟩)
    · exact fails_rule_of_stops (c := '(') rfl rfl (stops_cons.2 rfl)
    · exact fails_rule_of_stops (c := '.') rfl rfl (stops_cons.2 rfl)

theorem cutsTurns_suffixes :
    CutsTurns r .joined suffix n (Keeps r .joined (.rule .argumentClause)) where
  turn _ _ _ hs _ h _ := cut_suffix ih h hs
  next _ _ _ _ _ h _ _ := (endsOperand_of_suffix h.accepts).clause

theorem cut_postfixExpr (h : Within r layout (.rule .postfixExpr) s parts y) (hs : s.length ≤ n)
    (hy : EndsOperand r y) : sourceGrammar.Matches layout (.rule .postfixExpr) s parts y := by
  refine h.cut_rule fun inner hinner => ?_
  refine (cutsTurns_suffixes ih).chain hinner hs
    (fun ps z hprimary hz => cut_primary ih hprimary hs hz) ?_
  intro z hz hf
  -- What could go on with the operand fails in the full text, and so in the cut one.
  obtain rfl : y = z := hz.elim id And.left
  obtain ⟨hf, hunwrap⟩ := Grammar.fails_alt.1 hf
  obtain ⟨hclause, hmember⟩ := Grammar.fails_alt.1 hf
  refine ⟨hy.clause, Grammar.fails_alt.2
    ⟨Grammar.fails_alt.2 ⟨hy.clause hclause, ?_⟩, hy.unwrap hunwrap⟩⟩
  exact fails_memberSuffix_iff.2 (hy.dot (fails_memberSuffix_iff.1 hmember))

/-! ## Chains of operators -/

theorem cut_prefixExpr (h : Within r .spaced (.rule .prefixExpr) s parts y) (hs : s.length ≤ n)
    (hy : EndsOperand r y) : sourceGrammar.Matches .spaced (.rule .prefixExpr) s parts y := by
  refine h.cut_rule fun inner hinner => ?_
  obtain ⟨ps, z, qs, hsign, hoperand, -, rfl⟩ := Within.seq hinner
  have hle := hsign.length_le
  have hlength := length_after_le .spaced z
  have hoperand : sourceGrammar.Matches .spaced (.rule .postfixExpr) (after .spaced z) qs y :=
    cut_postfixExpr ih hoperand (by omega) hy
  refine Grammar.matches_seq.2 ⟨ps, z, qs, ?_, hoperand, rfl⟩
  rcases hsign.opt with hsign | ⟨-, rfl, rfl⟩
  · exact Grammar.matches_opt.2 (.inl (cut_word rfl rfl hsign))
  · refine Grammar.matches_opt.2 (.inr ⟨?_, rfl, rfl⟩)
    exact fails_prefixOperator_before ⟨qs, hoperand⟩

theorem cut_binaryTail (h : Within r .spaced (.rule .binaryTail) s parts y) (hs : s.length ≤ n)
    (hy : EndsOperand r y) : sourceGrammar.Matches .spaced (.rule .binaryTail) s parts y := by
  refine h.cut_rule fun inner hinner => ?_
  obtain ⟨ps, z, qs, hoperator, hoperand, -, rfl⟩ := Within.seq hinner
  have hle := Nat.le_trans (length_after_le .spaced z) hoperator.length_le
  have hoperand := cut_prefixExpr ih hoperand (Nat.le_trans hle hs) hy
  exact Grammar.matches_seq.2 ⟨ps, z, qs, cut_word rfl rfl hoperator, hoperand, rfl⟩

theorem cutsTurns_tails : CutsTurns r .spaced tail n (EndsOperand r) where
  turn s parts y hs _ h hy := by
    rcases h.alt with h | ⟨-, h⟩
    · refine Grammar.matches_alt.2 (.inl (h.cut_rule fun inner hinner => ?_))
      obtain ⟨ps, z, qs, hoperator, htype, -, rfl⟩ := Within.seq hinner
      exact Grammar.matches_seq.2
        ⟨ps, z, qs, cut_word rfl rfl hoperator, cut_typeExpr htype hy.dot, rfl⟩
    · have hbinary := cut_binaryTail ih h hs hy
      obtain ⟨_, hoperator, -⟩ := Grammar.accepts_seq.1 (Grammar.accepts_rule.1 ⟨parts, hbinary⟩)
      exact Grammar.matches_alt.2 (.inr ⟨fails_castTail_of_operator hoperator, hbinary⟩)
  next s parts y _ _ _ h _ := endsOperand_of_tail ⟨parts, h⟩

theorem cut_expr_step (h : Within r .spaced (.rule .expr) s parts y) (hs : s.length ≤ n)
    (hy : EndsExpr r y) : sourceGrammar.Matches .spaced (.rule .expr) s parts y := by
  refine h.cut_rule fun inner hinner => ?_
  refine (cutsTurns_tails ih).chain hinner hs (fun ps z hfirst hz => cut_prefixExpr ih hfirst hs hz) ?_
  intro z hz hf
  have hz := hy.of_leaves hz
  exact ⟨hz.toEndsOperand, hz.tail hf⟩

end Step

/-- An expression can be cut off where nothing goes on with it. -/
theorem cut_expr {r s y : List Char} {parts : List (Tree Rule)}
    (h : Within r .spaced (.rule .expr) s parts y) (hy : EndsExpr r y) :
    sourceGrammar.Matches .spaced (.rule .expr) s parts y := by
  induction hn : s.length using Nat.strongRecOn generalizing s parts y with
  | ind n ih =>
    exact cut_expr_step (fun s parts y hs h hy => ih s.length hs h hy rfl) h (Nat.le_of_eq hn) hy

theorem cut_attributeUse {r s y : List Char} {parts : List (Tree Rule)} {layout : Layout}
    (h : Within r layout (.rule .attributeUse) s parts y)
    (hy : Keeps r .joined (.rule .argumentClause) y) :
    sourceGrammar.Matches layout (.rule .attributeUse) s parts y :=
  h.cut_rule fun _ hinner => cut_use (fun _ _ _ _ => cut_expr) hinner (Nat.le_refl _) hy

end SwiftMacro
