import SwiftMacro.Proofs.Alone
import SwiftMacro.Proofs.Braces
import SwiftMacro.Proofs.Placement
/-!
# The entries agree

What the entry for expressions, types or accessors reads from a text is read from a source as well, where
the text stands alone, is declared as a type or stands between braces (`readSource_agrees`). In a source a
statement is first tried as a declaration, so an expression must not be one (`fails_declaration_at_end`),
and an accessor must end where it ended in its own text (`readsAt_closing`).
-/

namespace SwiftMacro

open Peg

/-! ## Statements at the end of a text -/

section Statement

variable {s t y : List Char} {o : Nat} {items : List Item}

/-- An expression that is followed by nothing is no declaration. -/
theorem fails_declaration_at_end (hs : after .spaced s = s)
    (h : sourceGrammar.Accepts .spaced (.rule .expr) s y) (hy : after .spaced y = []) :
    sourceGrammar.Fails .spaced declaration s := by
  rcases word_of_accepts_expr hs h with hnone |
    ⟨w, t, rfl, hstart, hchars, hstop, hkeyword, rule, hrule, hword⟩
  · exact hnone
  by_cases hmodifier : ∃ m ∈ Rule.modifiers, w = m.toList
  · obtain ⟨m, hm, rfl⟩ := hmodifier
    -- A declaration behind the word would be left over.
    have hled : ∀ d ∈ ledRules, sourceGrammar.Fails .spaced (.rule d) (m.toList ++ t) := by
      intro d hd
      refine fails_of_not_accepts (fun x hx => ?_) rfl
      obtain ⟨hbehind, hbare⟩ := accepts_behind_modifier hd hm hstop hx
      obtain ⟨q, hq⟩ := led_of_accepts hd hbehind
      obtain ⟨c, u, hu, -⟩ := exists_cons_of_leading hd hbare hq
      obtain rfl := h.unique (accepts_expr_of_leading hd hs hrule hword hbare hq)
      rw [after_after, hu] at hy
      cases hy
    exact Grammar.fails_alt.2 ⟨Grammar.fails_alt.2
      ⟨fails_import_modifier hm hstop, hled _ (by decide)⟩, hled _ (by decide)⟩
  · -- Only `func` may start a declaration here, and its block would be left over.
    refine fails_declaration_word hstart hchars hstop (fun m hm hw => hmodifier ⟨m, hm, hw⟩) hkeyword
      fun _ => fails_of_not_accepts (fun x hx => ?_) rfl
    rcases brace_or_signature_of_expr hs hrule hword h hx with hbrace | hsignature
    · rw [hy] at hbrace
      cases hbrace
    · rw [hy] at hsignature
      exact hsignature.not_fails (fails_nil rfl rfl)

/-- A text with one statement. -/
theorem readChars_of_statement
    (h : ReadsAt .spaced (blankLength s) Rule.statement (after .spaced s) items y)
    (hy : after .spaced y = []) : readChars .source s = .ok (nodesOf statementRules items) :=
  readChars_eq_ok.2 ⟨items, [], h.statements hy, after_nil, rfl⟩

theorem readChars_source_of_expression {n : Node} (h : readChars .expression s = .ok [n]) :
    readChars .source s = .ok [n] := by
  obtain ⟨items, y, hexpr, hy, hn⟩ := readChars_eq_ok.1 h
  obtain ⟨place, part, rfl⟩ := ReadsAt.single (by decide) hexpr
  have hstatement : ReadsAt .spaced (blankLength s) Rule.statement (after .spaced s)
      [⟨.expr, place, part⟩] y :=
    hexpr.alt_right (fails_declaration_at_end (after_after s) hexpr.accepts hy)
  rw [readChars_of_statement hstatement hy, hn]
  cases part <;> rfl

end Statement

/-! ## A declaration with one binding -/

section Binding

variable {s r : List Char} {b : Node}

/-- `x` as a pattern. -/
def namedX (o : Nat) : Item := ⟨.namePattern, ⟨o, o + 1⟩, .node ⟨.namePattern "x", ⟨o, o + 1⟩⟩⟩

theorem readsAt_x (o : Nat) (hr : Stops Rule.isNameChar r) :
    ReadsAt .spaced o Rule.pattern ('x' :: r) [namedX o] r := by
  have hword : sourceGrammar.Accepts .spaced (.rule .identifier) ('x' :: r) r :=
    accepts_identifier.2 ⟨['x'], isName_iff.2 (by decide), rfl, hr⟩
  have hname : sourceGrammar.Accepts .hidden (Rule.body .identifier) ('x' :: r) r :=
    Grammar.accepts_rule.1 hword
  have hidentifier : ReadsAt .spaced o (.rule .identifier) ('x' :: r)
      [⟨.identifier, ⟨o, o + byteLength ['x']⟩, .word "x"⟩] r :=
    readsAt_word (w := ['x']) rfl (by decide) hname rfl
  have hpattern : ReadsAt .spaced o (.rule .namePattern) ('x' :: r) [namedX o] r :=
    ReadsAt.rule (w := ['x']) (by decide) rfl hidentifier rfl
  refine hpattern.alt_right (Grammar.fails_alt.2 ⟨fails_of_first r rfl rfl rfl rfl, ?_⟩)
  have hwildcard : ∀ layout, sourceGrammar.Fails layout (.lit "_") ('x' :: r) := fun _ =>
    fails_lit_of_head (c := '_') rfl (stops_cons.2 rfl)
  exact Grammar.fails_rule.2 (Grammar.fails_seq.2 (.inl (hwildcard _)))

theorem bindingKeyword_spelled : ∀ k ∈ ["var", "let"], k.toList.head?.any Rule.isNameStart = true ∧
    (∀ c ∈ k.toList, Rule.isNameChar c = true) ∧ (∀ m ∈ Rule.modifiers, k.toList ≠ m.toList) ∧
    k.toList.head? ≠ some '@' ∧ byteLength k.toList = 3 := by decide

theorem readsAt_keyword {k : String} (hk : k ∈ ["var", "let"]) (r : List Char) :
    ReadsAt .spaced 0 (leading ++ .rule .bindingKeyword) (k.toList ++ ' ' :: r)
      [⟨.bindingKeyword, ⟨0, 3⟩, .word k⟩] (' ' :: r) := by
  obtain ⟨hstart, hchars, hnone, hat, hlength⟩ := bindingKeyword_spelled k hk
  have hstop : Stops Rule.isNameChar (' ' :: r) := stops_cons.2 rfl
  have hsettled := after_word hstart hchars (' ' :: r)
  have hattribute : sourceGrammar.Fails .spaced (.rule .attributeUse) (k.toList ++ ' ' :: r) := by
    refine fails_of_not_accepts (fun x hx => ?_) rfl
    obtain ⟨u, hu⟩ := eq_cons_of_accepts_attribute hx
    cases hlist : k.toList with
    | nil => rw [hlist] at hstart; cases hstart
    | cons c v =>
      rw [hlist] at hu hat
      exact hat (congrArg some (List.cons.inj hu).1)
  have hmodifier : sourceGrammar.Fails .spaced (.rule .modifier) (k.toList ++ ' ' :: r) :=
    Grammar.fails_rule.2 (fails_wholeWord hchars hstop hnone (by decide) (by decide) rfl)
  have hleading : ReadsAt .spaced 0 leading (k.toList ++ ' ' :: r) [] (k.toList ++ ' ' :: r) :=
    (readsAt_many_nil hattribute).seq hsettled rfl (readsAt_many_nil hmodifier)
  have hkeyword : ReadsAt .spaced 0 (.rule .bindingKeyword) (k.toList ++ ' ' :: r)
      [⟨.bindingKeyword, ⟨0, 0 + byteLength k.toList⟩, .word k⟩] (' ' :: r) := by
    have hword : sourceGrammar.Accepts .hidden (Rule.body .bindingKeyword) (k.toList ++ ' ' :: r)
        (' ' :: r) := (accepts_wholeWord (by decide)).2 ⟨k, hk, rfl, hstop⟩
    exact readsAt_word rfl (by decide) hword (by rw [String.ofList_toList]; rfl)
  rw [hlength] at hkeyword
  exact hleading.seq hsettled rfl hkeyword

/-- A text with one binding of `x`, which ends with the text. -/
theorem readChars_of_binding {k : String} (hk : k ∈ ["var", "let"]) {place : Span}
    (h : ReadsAt .spaced 4 (.rule .patternBinding) ('x' :: r) [⟨.patternBinding, place, .node b⟩] []) :
    readChars .source (k.toList ++ ' ' :: 'x' :: r) =
      .ok [⟨.variableDecl [] [] (if k = "let" then .constant else .mutable) [b],
        ⟨0, 5 + byteLength r⟩⟩] := by
  obtain ⟨hstart, hchars, -, -, hthree⟩ := bindingKeyword_spelled k hk
  have hsettled := after_word hstart hchars (' ' :: 'x' :: r)
  have hblank : after .spaced (' ' :: 'x' :: r) = 'x' :: r := by rw [after_space, after_solid rfl]
  have hx : byteLength ('x' :: r) = 1 + byteLength r := rfl
  have hlength : 0 + byteLength (k.toList ++ ' ' :: 'x' :: r) = 5 + byteLength r := by
    have hspace : byteLength (' ' :: 'x' :: r) = 1 + byteLength ('x' :: r) := rfl
    rw [byteLength_append, hthree, hspace, hx]
    omega
  have hlist : ReadsAt .spaced 4 (Rule.commaSeparated (.rule .patternBinding)) ('x' :: r)
      ([⟨.patternBinding, place, .node b⟩] ++ []) [] :=
    h.seq after_nil rfl (readsAt_many_nil (fails_nil rfl rfl))
  have hbody : ReadsAt .spaced 0 (Rule.body .variableDecl) (k.toList ++ ' ' :: 'x' :: r)
      ([⟨.bindingKeyword, ⟨0, 3⟩, .word k⟩] ++ ([⟨.patternBinding, place, .node b⟩] ++ [])) [] := by
    refine (readsAt_keyword hk ('x' :: r)).seq hblank ?_ hlist
    rw [hlength, hx]
    omega
  have hdecl : ReadsAt .spaced 0 (.rule .variableDecl) (k.toList ++ ' ' :: 'x' :: r) _ [] :=
    ReadsAt.rule (by decide) (List.append_nil _).symm hbody rfl
  rw [hlength] at hdecl
  have hstatement : ReadsAt .spaced 0 Rule.statement (k.toList ++ ' ' :: 'x' :: r) _ [] :=
    hdecl.statement (by decide) hsettled
  have hzero : blankLength (k.toList ++ ' ' :: 'x' :: r) = 0 := by
    have hall := blankLength_add (k.toList ++ ' ' :: 'x' :: r)
    rw [hsettled] at hall
    omega
  have hread := readChars_of_statement (by rw [hsettled, hzero]; exact hstatement) after_nil
  exact hread

/-! ## Types and accessors -/

/-- What an entry reads with one rule, further to the right. -/
theorem exists_readsAt_of_readChars {entry : Entry} {e : Rule} {n : Node}
    (hcontent : entry.content = .rule e) (hlisted : entry.listed = [e])
    (he : e.style.outside .spaced ≠ .hidden) (h : readChars entry s = .ok [n]) (k : Nat) :
    ∃ place z, ReadsAt .spaced (blankLength s + k) (.rule e) (after .spaced s)
      [⟨e, place, .node (n.shift k)⟩] z ∧ after .spaced z = [] := by
  obtain ⟨items, z, hread, hz, hn⟩ := readChars_eq_ok.1 h
  rw [hcontent] at hread
  rw [hlisted] at hn
  obtain ⟨place, part, rfl⟩ := hread.single he
  cases part with
  | node m =>
    obtain rfl : n = m := by simpa [nodesOf, Item.nodeOf?] using hn
    exact ⟨_, z, readsAt_shift.2 ⟨_, hread, rfl⟩, hz⟩
  | _ => simp [nodesOf, Item.nodeOf?] at hn

theorem readChars_of_type {y : Node} (h : readChars .type s = .ok [y]) :
    readChars .source ("let".toList ++ ' ' :: 'x' :: ':' :: ' ' :: s) =
      .ok [⟨.variableDecl [] [] .constant
        [⟨.patternBinding ⟨.namePattern "x", ⟨4, 5⟩⟩ (some (y.shift 7)) none [],
          ⟨4, 7 + byteLength s⟩⟩], ⟨0, 7 + byteLength s⟩⟩] := by
  obtain ⟨place, z, htype, hz⟩ := exists_readsAt_of_readChars rfl rfl (by decide) h 7
  have hblank : after .spaced (' ' :: s) = after .spaced s := after_space s
  obtain ⟨w, hw⟩ : z <:+ ' ' :: s :=
    (suffix_of_accepts htype.accepts).trans (hblank ▸ after_suffix .spaced (' ' :: s))
  have hlength : byteLength (':' :: ' ' :: s) = 2 + byteLength s := by
    change 1 + (1 + byteLength s) = _
    omega
  have hcolon : ReadsAt .spaced 5 (Rule.body .declaredType) (':' :: ' ' :: s)
      ([] ++ [⟨.typeExpr, place, .node (y.shift 7)⟩]) z := by
    have hall := blankLength_add s
    exact (readsAt_lit ":").seq hblank (by change 5 + byteLength (':' :: ' ' :: s) = _; omega) htype
  have hdeclared : ReadsAt .spaced 5 (.rule .declaredType) (':' :: ' ' :: s) _ z :=
    ReadsAt.rule (w := ':' :: w) (by decide) (congrArg (':' :: ·) hw.symm) hcolon rfl
  have hpattern := (readsAt_x 4 (r := ':' :: ' ' :: s) (stops_cons.2 rfl)).seq (after_solid rfl _)
    (Nat.add_assoc 4 1 _).symm hdeclared.opt
  have hbody := (hpattern.seq hz rfl (readsAt_opt_none (a := .rule .initialValue) (fails_nil rfl rfl))).seq
    after_nil rfl (readsAt_opt_none (a := accessorBlock) (fails_nil rfl rfl))
  have hbinding : ReadsAt .spaced 4 (.rule .patternBinding) ('x' :: ':' :: ' ' :: s) _ [] :=
    ReadsAt.rule (by decide) (List.append_nil _).symm hbody rfl
  have hread := readChars_of_binding (k := "let") (by decide) hbinding
  have hx : byteLength ('x' :: ':' :: ' ' :: s) = 3 + byteLength s := by
    change 1 + byteLength (':' :: ' ' :: s) = _
    omega
  rw [hlength, hx, ← Nat.add_assoc, ← Nat.add_assoc] at hread
  exact hread

/-- An accessor ends where it ended, and is the same one, when the text goes on. -/
theorem readsAt_closing {o : Nat} {items : List Item} {y : List Char}
    (h : ReadsAt .spaced o (.rule .accessor) s items y) :
    ReadsAt .spaced o (.rule .accessor) (s ++ closing) items (y ++ closing) := by
  obtain ⟨parts, hmatch, hitems⟩ := h
  obtain ⟨y', hy', hext⟩ := reaches_accessor (.text s) ⟨parts, hmatch⟩
  have hbody : sourceGrammar.Accepts .spaced (Rule.body .accessor) (s ++ closing) y' :=
    Grammar.accepts_rule.1 hy'
  obtain rfl := eq_append_of_extended hext rfl (by decide) hbody
  -- The longer match has trees of its own; cut at the closing brace they are those of the text.
  obtain ⟨parts', hwithin⟩ := hy'
  have hcut := cut_accessor (fun _ _ _ _ hs h hy => cut_statements h hs hy) hwithin (Nat.le_refl s.length)
  obtain ⟨rfl, -⟩ := hmatch.unique hcut
  exact ⟨parts, hwithin, hitems⟩

theorem readChars_of_accessor {a : Node} (h : readChars .accessor s = .ok [a]) :
    readChars .source ("var".toList ++ ' ' :: 'x' :: ' ' :: '\x7b' :: (s ++ closing)) =
      .ok [⟨.variableDecl [] [] .mutable
        [⟨.patternBinding ⟨.namePattern "x", ⟨4, 5⟩⟩ none none [a.shift 7],
          ⟨4, 9 + byteLength s⟩⟩], ⟨0, 9 + byteLength s⟩⟩] := by
  obtain ⟨place, z, haccessor, hz⟩ := exists_readsAt_of_readChars rfl rfl (by decide) h 7
  have hafter : after .spaced (s ++ closing) = after .spaced s ++ closing := by
    have hext := extended_after_closing s
    cases hs : after .spaced s with
    | nil =>
      rw [hs] at haccessor
      exact absurd (fails_nil rfl rfl) haccessor.accepts.not_fails
    | cons c t =>
      rw [hs] at hext
      exact hext.cons
  have hbrace := after_append_closing hz
  have hclosed : byteLength (s ++ closing) = byteLength s + 2 := byteLength_append s closing
  have haccessors : ReadsAt .spaced (blankLength s + 7) (.many (.rule .accessor))
      (after .spaced s ++ closing) [⟨.accessor, place, .node (a.shift 7)⟩] (z ++ closing) :=
    (readsAt_closing haccessor).once (by rw [hbrace]; exact fails_of_first [] rfl rfl rfl rfl)
  have hfront : ReadsAt .spaced 6 (.lit "\x7b" ++ .many (.rule .accessor)) ('\x7b' :: (s ++ closing))
      ([] ++ [⟨.accessor, place, .node (a.shift 7)⟩]) (z ++ closing) := by
    refine (readsAt_lit "\x7b").seq hafter ?_ haccessors
    have hall := blankLength_add s
    have hrest : byteLength (after .spaced s ++ closing) = byteLength (after .spaced s) + 2 :=
      byteLength_append _ closing
    rw [hrest]
    change 6 + (1 + byteLength (s ++ closing)) = _
    omega
  have hblock : ReadsAt .spaced 6 accessorBlock ('\x7b' :: (s ++ closing))
      ([] ++ [⟨.accessor, place, .node (a.shift 7)⟩] ++ []) [] := by
    have hbracket : ReadsAt .spaced (8 + byteLength s) (.lit "\x7d") ['\x7d'] [] [] := readsAt_lit "\x7d"
    refine hfront.seq hbrace ?_ hbracket
    change 6 + (1 + byteLength (s ++ closing)) = 8 + byteLength s + 1
    omega
  have hopen : after .spaced ('\x7b' :: (s ++ closing)) = '\x7b' :: (s ++ closing) := after_solid rfl _
  have hnone : ∀ e : Peg Rule, e.opens '\x7b' = false → e.mayBeEmpty sourceRanks = false →
      e.isBounded sourceRanks sourceGrammar.depth = true →
      ReadsAt .spaced 6 (.opt e) ('\x7b' :: (s ++ closing)) [] ('\x7b' :: (s ++ closing)) :=
    fun e hopens he hb => readsAt_opt_none (fails_of_opens hopen hopens he hb)
  have hpattern := (readsAt_x 4 (r := ' ' :: '\x7b' :: (s ++ closing)) (stops_cons.2 rfl)).seq
    ((after_space _).trans hopen) (by change 4 + (1 + (1 + _)) = 6 + _; omega)
    (hnone (.rule .declaredType) rfl rfl rfl)
  have hbody := (hpattern.seq hopen (by change 4 + (1 + (1 + _)) = 6 + _; omega)
    (hnone (.rule .initialValue) rfl rfl rfl)).seq hopen
    (by change 4 + (1 + (1 + _)) = 6 + _; omega) hblock.opt
  have hbinding : ReadsAt .spaced 4 (.rule .patternBinding) ('x' :: ' ' :: '\x7b' :: (s ++ closing)) _ [] :=
    ReadsAt.rule (by decide) (List.append_nil _).symm hbody rfl
  have hread := readChars_of_binding (k := "var") (by decide) hbinding
  have hx : byteLength (' ' :: '\x7b' :: (s ++ closing)) = 4 + byteLength s := by
    change 1 + (1 + byteLength (s ++ closing)) = _
    omega
  have hx' : byteLength ('x' :: ' ' :: '\x7b' :: (s ++ closing)) = 5 + byteLength s := by
    change 1 + byteLength (' ' :: '\x7b' :: (s ++ closing)) = _
    omega
  rw [hx, hx', ← Nat.add_assoc, ← Nat.add_assoc] at hread
  exact hread

end Binding

/-- A text that is an expression is a source with this one item, spans included. A text that is a type
may be declared as the type of a name, and one that is an accessor may stand in the braces of a binding;
then it is read there, moved by what stands in front of it. -/
theorem readSource_agrees (t : String) :
    (∀ n, readExpression t = .ok n → readSource t = .ok [n]) ∧
    (∀ y, readType t = .ok y → readSource ("let x: " ++ t) =
      .ok [⟨.variableDecl [] [] .constant
        [⟨.patternBinding ⟨.namePattern "x", ⟨4, 5⟩⟩ (some (y.shift 7)) none [],
          ⟨4, 7 + t.utf8ByteSize⟩⟩], ⟨0, 7 + t.utf8ByteSize⟩⟩]) ∧
    ∀ a, readAccessor t = .ok a → readSource ("var x \x7b" ++ t ++ "\n\x7d") =
      .ok [⟨.variableDecl [] [] .mutable
        [⟨.patternBinding ⟨.namePattern "x", ⟨4, 5⟩⟩ none none [a.shift 7],
          ⟨4, 9 + t.utf8ByteSize⟩⟩], ⟨0, 9 + t.utf8ByteSize⟩⟩] := by
  refine ⟨fun n h => ?_, fun y h => ?_, fun a h => ?_⟩
  · exact readChars_source_of_expression (readOne_eq_ok.1 h)
  · have hread := readChars_of_type (readOne_eq_ok.1 h)
    rw [byteLength_toList] at hread
    rw [readSource, read, String.toList_append]
    exact hread
  · have hread := readChars_of_accessor (readOne_eq_ok.1 h)
    rw [byteLength_toList] at hread
    rw [readSource, read, String.toList_append, String.toList_append]
    exact hread

theorem readSource_agrees_words : ∃ n y a,
    readExpression " public /* func f() */ " = .ok n ∧
    readSource " public /* func f() */ " = .ok [n] ∧
    readType " T<U>? // é" = .ok y ∧
    readSource ("let x: " ++ " T<U>? // é") =
      .ok [⟨.variableDecl [] [] .constant
        [⟨.patternBinding ⟨.namePattern "x", ⟨4, 5⟩⟩ (some (y.shift 7)) none [], ⟨4, 19⟩⟩], ⟨0, 19⟩⟩] ∧
    readAccessor "get \x7b functions(); \"\x7d\" \x7d // \x7d" = .ok a ∧
    readSource ("var x \x7b" ++ "get \x7b functions(); \"\x7d\" \x7d // \x7d" ++ "\n\x7d") =
      .ok [⟨.variableDecl [] [] .mutable
        [⟨.patternBinding ⟨.namePattern "x", ⟨4, 5⟩⟩ none none [a.shift 7], ⟨4, 38⟩⟩], ⟨0, 38⟩⟩] := by
  obtain ⟨n, hn, -⟩ := exists_of_okAnd (by decide +kernel :
    okAnd (readExpression " public /* func f() */ ") (fun _ => true) = true)
  obtain ⟨y, hy, -⟩ := exists_of_okAnd (by decide +kernel :
    okAnd (readType " T<U>? // é") (fun _ => true) = true)
  obtain ⟨a, ha, -⟩ := exists_of_okAnd (by decide +kernel :
    okAnd (readAccessor "get \x7b functions(); \"\x7d\" \x7d // \x7d") (fun _ => true) = true)
  exact ⟨n, y, a, hn, (readSource_agrees _).1 n hn, hy, (readSource_agrees _).2.1 y hy, ha,
    (readSource_agrees _).2.2 a ha⟩

end SwiftMacro
