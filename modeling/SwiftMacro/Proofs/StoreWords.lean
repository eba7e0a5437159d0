import SwiftMacro.Config
import SwiftMacro.Proofs.Accessors
/-!
# The words of a store

A configuration takes every word of letters, digits and underscores for a part of the store. The
grammar does not: keywords are no identifiers. So accessors are read back from their texts if the path
of the store starts with a name or a literal and every other word is a name, and only then
(`accessors_readable_iff`).

Where another word stands, the reader stops in front of it: it has read an operand, and neither that nor
a new statement goes on (`Jams`). The block is not closed there, so nothing is read at all.
-/

namespace SwiftMacro

open Peg

/-! ## What a configuration accepts -/

theorem isIdentifier_keyword : ∀ k ∈ Rule.keywords, Config.isIdentifier k.toList = true := by decide

/-- The words that a configuration accepts are the names and the keywords. -/
theorem isIdentifier_iff {w : String} :
    Config.isIdentifier w.toList = true ↔ IsName w.toList ∨ w ∈ Rule.keywords := by
  constructor
  · intro h
    by_cases hk : w ∈ Rule.keywords
    · exact .inr hk
    refine .inl (isName_iff.2 ?_)
    have hne : ∀ k ∈ Rule.keywords, w.toList ≠ k.toList := fun k hk' heq =>
      hk (String.toList_inj.1 heq ▸ hk')
    cases hw : w.toList with
    | nil => rw [hw] at h; cases h
    | cons c cs =>
      rw [hw] at h hne
      obtain ⟨hstart, hall⟩ := Bool.and_eq_true_iff.1 h
      refine ⟨hstart, fun d hd => ?_, hne⟩
      rcases List.mem_cons.1 hd with rfl | hd
      · exact isNameChar_of_isNameStart hstart
      · exact List.all_eq_true.1 hall d hd
  · rintro (h | h)
    · obtain ⟨c, cs, hw, hstart⟩ := h.start
      have hchars := h.chars
      rw [hw] at hchars ⊢
      exact Bool.and_eq_true_iff.2 ⟨hstart, List.all_eq_true.2 fun d hd =>
        hchars d (List.mem_cons_of_mem c hd)⟩
    · exact isIdentifier_keyword w h

namespace StoreSettings

/-- The words of a store that a configuration describes are those that are checked. -/
theorem words_of_toStore {settings : StoreSettings} {store : Store} (h : settings.toStore = .ok store) :
    store.words = settings.identifiers.flatMap fun (_, _, ids) => ids := by
  unfold toStore at h
  split at h
  · cases h
  · split at h
    · next found hfound =>
      obtain rfl := Except.ok.inj h
      unfold Store.ofPath? at hfound
      split at hfound
      · cases hfound
      · next root members hpath =>
        obtain rfl := Option.some.inj hfound
        simp [Store.words, identifiers, hpath]
    · cases h

/-- Each of them is taken for an identifier. -/
theorem isIdentifier_of_toStore {settings : StoreSettings} {store : Store}
    (h : settings.toStore = .ok store) : ∀ w ∈ store.words, Config.isIdentifier w.toList = true := by
  intro w hw
  rw [words_of_toStore h] at hw
  obtain ⟨⟨field, whole, ids⟩, hmem, hw⟩ := List.mem_flatMap.1 hw
  unfold toStore at h
  split at h
  · cases h
  · next hnone =>
    have hchecked := List.find?_eq_none.1 hnone _ hmem
    simp only [Bool.not_eq_true', Bool.not_eq_false, List.all_eq_true] at hchecked
    exact hchecked w hw

end StoreSettings

/-! ## Where an operand ends -/

/-- An operand in front of it ends there, and no chain goes on. -/
structure OperandEnds (s : List Char) : Prop where
  solid : after .spaced s = s
  clear : Clear s
  suffix : sourceGrammar.Fails .joined suffix s
  tail : sourceGrammar.Fails .spaced tail s

theorem operandEnds_comma (s : List Char) : OperandEnds (',' :: s) where
  solid := after_solid rfl s
  clear := clear_cons s rfl (by decide) (by decide)
  suffix := fails_of_first s rfl rfl rfl rfl
  tail := fails_of_first s rfl rfl rfl rfl

theorem operandEnds_colon (s : List Char) : OperandEnds (':' :: s) where
  solid := after_solid rfl s
  clear := clear_cons s rfl (by decide) (by decide)
  suffix := fails_of_first s rfl rfl rfl rfl
  tail := fails_of_first s rfl rfl rfl rfl

section Operand

variable {n : Node} (h : Readable .operand n) {s : List Char} (hs : OperandEnds s)

include h hs

theorem accepts_expr_of_readable (d : Nat) :
    sourceGrammar.Accepts .spaced (.rule .expr) (n.charsAt d ++ s) s := by
  have hoperand : sourceGrammar.Accepts .spaced (.rule .postfixExpr) (n.charsAt d ++ s) s :=
    (roundTrips h d s [] s hs.clear (reads_more.2 (.inl ⟨hs.suffix, rfl, rfl⟩))).accepts
  have hexpr := accepts_expr_of_operand (after_charsAt h d s) hoperand (by rw [hs.solid]; exact hs.tail)
  rwa [hs.solid] at hexpr

theorem accepts_argument_of_readable (hlabel : sourceGrammar.Fails .spaced label (n.charsAt 0 ++ s)) :
    sourceGrammar.Accepts .spaced (.rule .argument) (n.charsAt 0 ++ s) s := by
  refine Grammar.accepts_rule.2 (Grammar.accepts_seq.2 ⟨_, Grammar.accepts_opt.2 (.inr ⟨hlabel, rfl⟩), ?_⟩)
  change sourceGrammar.Accepts .spaced _ (after .spaced (n.charsAt 0 ++ s)) s
  rw [after_charsAt h]
  exact accepts_expr_of_readable h hs 0

end Operand

/-- No expression starts where no operand does. -/
theorem fails_expr_of_primary {s : List Char} (hs : after .spaced s = s)
    (hsign : sourceGrammar.Fails .spaced (.rule .prefixOperator) s)
    (h : sourceGrammar.Fails .joined Rule.primary s) : sourceGrammar.Fails .spaced (.rule .expr) s := by
  refine Grammar.fails_rule.2 (Grammar.fails_seq.2 (.inl (Grammar.fails_rule.2 ?_)))
  refine Grammar.fails_seq.2 (.inr ⟨s, Grammar.accepts_opt.2 (.inr ⟨hsign, rfl⟩), ?_⟩)
  change sourceGrammar.Fails .spaced _ (after .spaced s)
  rw [hs]
  exact Grammar.fails_rule.2 (Grammar.fails_seq.2 (.inl h))

/-! ## Keywords -/

section Keyword

variable {k : String} (hk : k ∈ Rule.keywords) {s : List Char}

include hk

theorem stops_keyword {d : Char} (hd : Rule.isNameStart d = false) : Stops (· == d) (k.toList ++ s) := by
  obtain ⟨c, t, ht, hc⟩ := keyword_eq_cons hk
  rw [ht]
  refine stops_cons.2 (beq_eq_false_iff_ne.2 ?_)
  rintro rfl
  rw [hd] at hc
  cases hc

theorem fails_expr_keyword (hliteral : k ∉ literalWords) (hs : Stops Rule.isNameChar s) :
    sourceGrammar.Fails .spaced (.rule .expr) (k.toList ++ s) := by
  refine fails_expr_of_primary (after_keyword hk) ?_ (fails_primary_keyword hk hliteral hs)
  obtain ⟨c, t, ht, hc⟩ := keyword_eq_cons hk
  rw [ht]
  exact fails_prefixOperator (isOperandStart_of_isNameStart hc) _

/-- In front of a dot, a keyword that is one of some words is read up to the dot. -/
theorem after_word_of_keyword (ws : List String) (hfree : PrefixFree ws)
    (hwords : ∀ w ∈ ws, ∀ c ∈ w.toList, Rule.isNameChar c = true) {t q : List Char}
    (h : sourceGrammar.Accepts .hidden (Rule.anyOf ws ++ Rule.wordEnd) (k.toList ++ '.' :: t) q) :
    after .spaced q = '.' :: t := by
  obtain ⟨w, hw, hword, hstop⟩ := (accepts_wholeWord hfree).1 h
  have hq := run_unique (isNameChar_of_mem_keywords k hk) (hwords w hw) (stops_cons.2 rfl) hstop hword
  rw [← hq.2, after_solid rfl]

/-- Neither attributes nor modifiers start with a keyword. -/
theorem after_leading_keyword {t p : List Char}
    (h : sourceGrammar.Accepts .spaced leading (k.toList ++ '.' :: t) p) :
    after .spaced p = k.toList ++ '.' :: t := by
  have hattribute : sourceGrammar.Fails .spaced (.rule .attributeUse) (k.toList ++ '.' :: t) := by
    refine Grammar.fails_rule.2 (Grammar.fails_seq.2 (.inl ?_))
    refine Grammar.fails_seq.2 (.inl (Grammar.fails_seq.2 (.inl ?_)))
    exact fails_lit_of_head (c := '@') rfl (stops_keyword hk rfl)
  have hmodifier : sourceGrammar.Fails .spaced (.rule .modifier) (k.toList ++ '.' :: t) := by
    have hne : ∀ k ∈ Rule.keywords, ∀ m ∈ Rule.modifiers, k.toList ≠ m.toList := by decide
    exact Grammar.fails_rule.2 (fails_wholeWord (isNameChar_of_mem_keywords k hk) (stops_cons.2 rfl)
      (hne k hk) (by decide) (by decide) rfl)
  rw [eq_of_accepts_leading (after_keyword hk) hattribute hmodifier h, after_keyword hk]

theorem fails_importDecl_keyword (t : List Char) :
    sourceGrammar.Fails .spaced (.rule .importDecl) (k.toList ++ '.' :: t) := by
  refine fails_of_not_accepts (fun r hr => ?_) rfl
  have hbody : sourceGrammar.Accepts .spaced (Rule.body .importDecl) _ r := Grammar.accepts_rule.1 hr
  obtain ⟨q, hword, hname⟩ := Grammar.accepts_seq.1 hbody
  change sourceGrammar.Accepts .spaced _ (after .spaced q) r at hname
  rw [after_word_of_keyword hk ["import"] (by decide) (by decide)
    (Grammar.accepts_rule.1 hword)] at hname
  exact hname.not_fails (fails_of_first t rfl rfl rfl rfl)

theorem fails_variableDecl_keyword (t : List Char) :
    sourceGrammar.Fails .spaced (.rule .variableDecl) (k.toList ++ '.' :: t) := by
  refine fails_of_not_accepts (fun r hr => ?_) rfl
  have hbody : sourceGrammar.Accepts .spaced (Rule.body .variableDecl) _ r := Grammar.accepts_rule.1 hr
  obtain ⟨q, hfront, hbindings⟩ := Grammar.accepts_seq.1 hbody
  obtain ⟨p, hleading, hword⟩ := Grammar.accepts_seq.1 hfront
  change sourceGrammar.Accepts .spaced _ (after .spaced p) q at hword
  change sourceGrammar.Accepts .spaced _ (after .spaced q) r at hbindings
  rw [after_leading_keyword hk hleading] at hword
  rw [after_word_of_keyword hk ["var", "let"] (by decide) (by decide)
    (Grammar.accepts_rule.1 hword)] at hbindings
  exact hbindings.not_fails (fails_of_first t rfl rfl rfl rfl)

theorem fails_functionDecl_keyword (t : List Char) :
    sourceGrammar.Fails .spaced (.rule .functionDecl) (k.toList ++ '.' :: t) := by
  refine fails_of_not_accepts (fun r hr => ?_) rfl
  obtain ⟨q, _, _, hfront, hname, -⟩ := signature_of_accepts hr
  obtain ⟨p, hleading, hword⟩ := Grammar.accepts_seq.1 hfront
  change sourceGrammar.Accepts .spaced _ (after .spaced p) q at hword
  rw [after_leading_keyword hk hleading] at hword
  have happend : k.toList ++ '.' :: t = "func".toList ++ q := Grammar.accepts_lit.1 hword
  have hkeyword : k.toList = "func".toList := by
    have hfront : ∀ k ∈ Rule.keywords, "func".toList <+: k.toList → k.toList = "func".toList := by
      decide
    by_contra hne
    obtain ⟨d, x, hx, -⟩ := exists_of_append_eq (by decide) (stops_cons.2 rfl) hne happend
    exact hne (hfront k hk ⟨d :: x, hx.symm⟩)
  rw [hkeyword] at happend
  rw [← List.append_cancel_left happend, after_solid rfl] at hname
  exact hname.not_fails (fails_of_first t rfl rfl rfl rfl)

/-- No declaration goes on with a dot behind its keyword. -/
theorem fails_declaration_keyword (t : List Char) :
    sourceGrammar.Fails .spaced declaration (k.toList ++ '.' :: t) :=
  Grammar.fails_alt.2 ⟨Grammar.fails_alt.2 ⟨fails_importDecl_keyword hk t,
    fails_variableDecl_keyword hk t⟩, fails_functionDecl_keyword hk t⟩

end Keyword

/-! ## Where the statements of a block end -/

/-- A sign that belongs to an operand stands there, but nothing that starts with it can be read. -/
structure Jam (s : List Char) : Prop where
  head : (∃ u, s = '.' :: u) ∨ ∃ u, s = '(' :: u
  clear : Clear s
  suffix : sourceGrammar.Fails .joined suffix s
  primary : sourceGrammar.Fails .joined Rule.primary s
  signature : sourceGrammar.Fails .spaced signature s

/-- The statements that start there end in front of something else than a closing brace. -/
def Unclosed (s : List Char) : Prop :=
  after .spaced s = s ∧
    ∃ r, sourceGrammar.Accepts .spaced Rule.statements s r ∧ Stops (· == '\x7d') (after .spaced r)

theorem unclosed_of_fails {s : List Char} (hs : after .spaced s = s) (hbrace : Stops (· == '\x7d') s)
    (h : sourceGrammar.Fails .spaced Rule.statement s) : Unclosed s := by
  refine ⟨hs, s, Grammar.accepts_many.2 (.inl ⟨Grammar.fails_seq.2 (.inl h), rfl⟩), ?_⟩
  rw [hs]
  exact hbrace

namespace Jam

variable {s : List Char} (hs : Jam s)

include hs

theorem stops {p : Char → Bool} (hp : p '.' = false ∧ p '(' = false) : Stops p s := by
  obtain ⟨u, rfl⟩ | ⟨u, rfl⟩ := hs.head
  · exact stops_cons.2 hp.1
  · exact stops_cons.2 hp.2

theorem solid : after .spaced s = s := by
  obtain ⟨u, rfl⟩ | ⟨u, rfl⟩ := hs.head
  · exact after_solid rfl u
  · exact after_solid rfl u

theorem fails {e : Peg Rule} {layout : Layout} (hopens : e.opens '.' = false ∧ e.opens '(' = false)
    (he : e.mayBeEmpty sourceRanks = false) (hb : e.isBounded sourceRanks sourceGrammar.depth = true) :
    sourceGrammar.Fails layout e s := by
  obtain ⟨u, rfl⟩ | ⟨u, rfl⟩ := hs.head
  · exact fails_of_first u rfl hopens.1 he hb
  · exact fails_of_first u rfl hopens.2 he hb

theorem operandEnds : OperandEnds s where
  solid := hs.solid
  clear := hs.clear
  suffix := hs.suffix
  tail := hs.fails ⟨rfl, rfl⟩ rfl rfl

theorem fails_statement : sourceGrammar.Fails .spaced Rule.statement s := by
  refine Grammar.fails_alt.2 ⟨hs.fails ⟨rfl, rfl⟩ rfl rfl, ?_⟩
  exact fails_expr_of_primary hs.solid (hs.fails ⟨rfl, rfl⟩ rfl rfl) hs.primary

theorem unclosed : Unclosed s := unclosed_of_fails hs.solid (hs.stops ⟨rfl, rfl⟩) hs.fails_statement

/-- Behind an operand, the statements end there. -/
theorem unclosed_behind {n : Node} (h : Readable .operand n) (d : Nat) : Unclosed (n.charsAt d ++ s) := by
  have hfollows : FollowsStatement s := by
    refine ⟨hs.clear.word, ?_, ?_⟩
    · rw [hs.solid]
      exact hs.stops ⟨rfl, rfl⟩
    · rw [hs.solid]
      exact hs.signature
  have hnext : NoBareDeclaration (after .spaced s) := by
    rw [hs.solid]
    exact .inl (hs.fails ⟨rfl, rfl⟩ rfl rfl)
  have hdeclaration := fails_declaration (.ofUnary (.ofOperand h)) d hfollows fun _ _ _ => hnext
  have hstatement : sourceGrammar.Accepts .spaced Rule.statement (n.charsAt d ++ s) s :=
    Grammar.accepts_alt.2 (.inr ⟨hdeclaration, accepts_expr_of_readable h hs.operandEnds d⟩)
  have hsemicolon : sourceGrammar.Accepts .spaced (.opt (.lit ";")) (after .spaced s) s := by
    rw [hs.solid]
    exact Grammar.accepts_opt.2 (.inr ⟨hs.fails ⟨rfl, rfl⟩ rfl rfl, rfl⟩)
  have hmore : sourceGrammar.Accepts .spaced (.more (Rule.statement ++ .opt (.lit ";"))) s s := by
    refine Grammar.accepts_more.2 (.inl ⟨?_, rfl⟩)
    change sourceGrammar.Fails .spaced _ (after .spaced s)
    rw [hs.solid]
    exact Grammar.fails_seq.2 (.inl hs.fails_statement)
  refine ⟨after_charsAt h d s, s, ?_, ?_⟩
  · exact Grammar.accepts_many.2 (.inr ⟨s, Grammar.accepts_seq.2 ⟨s, hstatement, hsemicolon⟩, hmore⟩)
  · rw [hs.solid]
    exact hs.stops ⟨rfl, rfl⟩

end Jam

/-- A keyword is no member. -/
theorem jam_member {k : String} (hk : k ∈ Rule.keywords) {s : List Char}
    (hs : Stops Rule.isNameChar s) : Jam ('.' :: (k.toList ++ s)) := by
  have hmember : sourceGrammar.Fails .joined (.lit "." ++ .rule .identifier)
      ('.' :: (k.toList ++ s)) :=
    Grammar.fails_seq.2 (.inr ⟨k.toList ++ s, Grammar.accepts_lit.2 rfl, fails_identifier_keyword hk hs⟩)
  refine ⟨.inl ⟨_, rfl⟩, clear_dot (isNameStart_of_mem_keywords k hk) s, ?_, ?_, ?_⟩
  · exact Grammar.fails_alt.2 ⟨Grammar.fails_alt.2 ⟨fails_of_first _ rfl rfl rfl rfl,
      Grammar.fails_rule.2 hmember⟩, fails_of_first _ rfl rfl rfl rfl⟩
  · refine Grammar.fails_alt.2 ⟨Grammar.fails_alt.2 ⟨Grammar.fails_alt.2 ⟨?_, ?_⟩, ?_⟩, ?_⟩
    · exact fails_of_first _ rfl rfl rfl rfl
    · exact Grammar.fails_rule.2 hmember
    · exact fails_of_first _ rfl rfl rfl rfl
    · exact fails_of_first _ rfl rfl rfl rfl
  · exact fails_signature_of_stops (stops_cons.2 rfl)

/-- Nor are parentheses anything that the reader cannot read as a list of arguments. -/
theorem jam_parenthesized {s : List Char} (h : sourceGrammar.Fails .spaced Rule.parenthesized ('(' :: s))
    (hclose : Stops (· == ')') (after .spaced s)) : Jam ('(' :: s) := by
  refine ⟨.inr ⟨s, rfl⟩, clear_cons s rfl (by decide) (by decide), ?_, ?_, ?_⟩
  · exact Grammar.fails_alt.2 ⟨Grammar.fails_alt.2 ⟨Grammar.fails_rule.2 h,
      fails_of_first _ rfl rfl rfl rfl⟩, fails_of_first _ rfl rfl rfl rfl⟩
  · refine Grammar.fails_alt.2 ⟨Grammar.fails_alt.2 ⟨?_, Grammar.fails_rule.2 h⟩, ?_⟩
    · exact fails_of_first _ rfl rfl rfl rfl
    · exact fails_of_first _ rfl rfl rfl rfl
  · refine Grammar.fails_seq.2 (.inl (Grammar.fails_seq.2 (.inr ⟨s, Grammar.accepts_lit.2 rfl, ?_⟩)))
    exact fails_lit_of_head (c := ')') rfl hclose

/-- No statement starts with a path that starts with a keyword, unless that is a literal. -/
theorem unclosed_keyword {k : String} (hk : k ∈ Rule.keywords) (hliteral : k ∉ literalWords)
    {ws : List String} (hws : ws ≠ []) (t : List Char) :
    Unclosed (k.toList ++ (ws.flatMap (fun w => '.' :: w.toList) ++ t)) := by
  obtain ⟨w, ws, rfl⟩ := List.exists_cons_of_ne_nil hws
  rw [List.flatMap_cons, List.append_assoc, List.cons_append]
  exact unclosed_of_fails (after_keyword hk) (stops_keyword hk rfl) (Grammar.fails_alt.2
    ⟨fails_declaration_keyword hk _, fails_expr_keyword hk hliteral (stops_cons.2 rfl)⟩)

/-- In a path with a keyword, the statements end in front of the first one. -/
theorem unclosed_path {base : Node} (hbase : base.Legible .operand) {ws : List String}
    (hwords : ∀ w ∈ ws, IsName w.toList ∨ w ∈ Rule.keywords) (hkeyword : ¬ ∀ w ∈ ws, IsName w.toList)
    (d : Nat) {t : List Char} (ht : Stops Rule.isNameChar t) :
    Unclosed (base.charsAt d ++ (ws.flatMap (fun w => '.' :: w.toList) ++ t)) := by
  induction ws generalizing base with
  | nil => exact absurd (fun w hw => nomatch hw) hkeyword
  | cons w ws ih =>
    have hnext : Stops Rule.isNameChar (ws.flatMap (fun w => '.' :: w.toList) ++ t) := by
      cases ws with
      | nil => exact ht
      | cons v vs => exact stops_cons.2 rfl
    rcases hwords w List.mem_cons_self with hw | hw
    · have hrest : ¬ ∀ v ∈ ws, IsName v.toList := fun hall =>
        hkeyword fun v hv => (List.mem_cons.1 hv).elim (fun h => h ▸ hw) (hall v)
      have hlonger : (Node.member default base w).Legible .operand := hbase.member hw
      have hmember := ih hlonger (fun v hv => hwords v (List.mem_cons_of_mem w hv)) hrest
      rw [Node.member, charsAt_member] at hmember
      simpa using hmember
    · obtain ⟨m, hm, htext⟩ := hbase
      rw [← htext d]
      simpa using (jam_member hw hnext).unclosed_behind hm d

/-! ## Lists of arguments with a keyword -/

/-- The arguments in parentheses. -/
def argumentSequence : Peg Rule :=
  .rule .argument ++ .many (.lit "," ++ .rule .argument) ++ .opt (.lit ",")

/-- A list of arguments must end in front of the closing parenthesis. -/
theorem fails_parenthesized {s r : List Char}
    (h : sourceGrammar.Accepts .spaced argumentSequence (after .spaced s) r)
    (hr : Stops (· == ')') (after .spaced r)) :
    sourceGrammar.Fails .spaced Rule.parenthesized ('(' :: s) := by
  have hopen : sourceGrammar.Accepts .spaced (.lit "(" ++ .opt argumentSequence) ('(' :: s) r :=
    Grammar.accepts_seq.2 ⟨s, Grammar.accepts_lit.2 rfl, Grammar.accepts_opt.2 (.inl h)⟩
  exact Grammar.fails_seq.2 (.inr ⟨r, hopen, fails_lit_of_head (c := ')') rfl hr⟩)

/-- One argument is all where no comma follows. -/
theorem accepts_argumentSequence_one {s r : List Char}
    (h : sourceGrammar.Accepts .spaced (.rule .argument) s r) (hr : after .spaced r = r)
    (hcomma : Stops (· == ',') r) : sourceGrammar.Accepts .spaced argumentSequence s r := by
  have hmany : sourceGrammar.Accepts .spaced (.many (.lit "," ++ .rule .argument)) (after .spaced r) r := by
    rw [hr]
    exact Grammar.accepts_many.2 (.inl ⟨fails_comma hcomma, rfl⟩)
  have hlast : sourceGrammar.Accepts .spaced (.opt (.lit ",")) (after .spaced r) r := by
    rw [hr]
    exact Grammar.accepts_opt.2 (.inr ⟨fails_lit_of_head (c := ',') rfl hcomma, rfl⟩)
  exact Grammar.accepts_seq.2 ⟨r, Grammar.accepts_seq.2 ⟨r, h, hmany⟩, hlast⟩

section Label

variable {k : String} (hk : k ∈ Rule.keywords) {s t : List Char}
  (h : sourceGrammar.Accepts .spaced (.rule .argument) s (',' :: ' ' :: (k.toList ++ ':' :: t)))

include hk h

/-- A literal in the place of a label is taken for an argument, but then the colon is in the way. -/
theorem accepts_argumentSequence_literal (hliteral : k ∈ literalWords) :
    sourceGrammar.Accepts .spaced argumentSequence s (':' :: t) := by
  obtain ⟨n, hn, htext⟩ := legible_identifier (.inr hliteral) default
  have hvalue : sourceGrammar.Accepts .spaced (.rule .argument) (k.toList ++ ':' :: t) (':' :: t) := by
    have hchars : n.charsAt 0 = k.toList := (htext 0).trans (charsAt_identifier ..)
    rw [← hchars]
    refine accepts_argument_of_readable hn (operandEnds_colon t) ?_
    rw [hchars]
    exact fails_label_keyword hk (stops_cons.2 rfl)
  have hcolon : after .spaced (':' :: t) = ':' :: t := after_solid rfl t
  have hpair : sourceGrammar.Accepts .spaced (.lit "," ++ .rule .argument)
      (',' :: ' ' :: (k.toList ++ ':' :: t)) (':' :: t) := by
    refine Grammar.accepts_seq.2 ⟨' ' :: (k.toList ++ ':' :: t), Grammar.accepts_lit.2 rfl, ?_⟩
    change sourceGrammar.Accepts .spaced _ (after .spaced (' ' :: (k.toList ++ ':' :: t))) _
    rw [after_space, after_keyword hk]
    exact hvalue
  have hmore : sourceGrammar.Accepts .spaced (.more (.lit "," ++ .rule .argument)) (':' :: t)
      (':' :: t) := by
    refine Grammar.accepts_more.2 (.inl ⟨?_, rfl⟩)
    change sourceGrammar.Fails .spaced _ (after .spaced (':' :: t))
    rw [hcolon]
    exact fails_comma (stops_cons.2 rfl)
  have hlast : sourceGrammar.Accepts .spaced (.opt (.lit ",")) (after .spaced (':' :: t)) (':' :: t) := by
    rw [hcolon]
    exact Grammar.accepts_opt.2 (.inr ⟨fails_of_first t rfl rfl rfl rfl, rfl⟩)
  refine Grammar.accepts_seq.2 ⟨_, Grammar.accepts_seq.2 ⟨_, h, ?_⟩, hlast⟩
  change sourceGrammar.Accepts .spaced _ (after .spaced (',' :: _)) _
  rw [after_solid rfl]
  exact Grammar.accepts_many.2 (.inr ⟨_, hpair, hmore⟩)

/-- Before any other keyword, only the comma is taken. -/
theorem accepts_argumentSequence_keyword (hliteral : k ∉ literalWords) :
    sourceGrammar.Accepts .spaced argumentSequence s (' ' :: (k.toList ++ ':' :: t)) := by
  have hstop : Stops Rule.isNameChar (':' :: t) := stops_cons.2 rfl
  have hargument : sourceGrammar.Fails .spaced (.rule .argument) (k.toList ++ ':' :: t) := by
    refine Grammar.fails_rule.2 (Grammar.fails_seq.2 (.inr ⟨_, Grammar.accepts_opt.2
      (.inr ⟨fails_label_keyword hk hstop, rfl⟩), ?_⟩))
    change sourceGrammar.Fails .spaced _ (after .spaced (k.toList ++ ':' :: t))
    rw [after_keyword hk]
    exact fails_expr_keyword hk hliteral hstop
  have hcomma : ∀ u, after .spaced (',' :: u) = ',' :: u := fun u => after_solid rfl u
  have hpair : sourceGrammar.Fails .spaced (.lit "," ++ .rule .argument)
      (',' :: ' ' :: (k.toList ++ ':' :: t)) := by
    refine Grammar.fails_seq.2 (.inr ⟨' ' :: (k.toList ++ ':' :: t), Grammar.accepts_lit.2 rfl, ?_⟩)
    change sourceGrammar.Fails .spaced _ (after .spaced (' ' :: (k.toList ++ ':' :: t)))
    rw [after_space, after_keyword hk]
    exact hargument
  refine Grammar.accepts_seq.2 ⟨',' :: ' ' :: (k.toList ++ ':' :: t),
    Grammar.accepts_seq.2 ⟨_, h, ?_⟩, ?_⟩
  · change sourceGrammar.Accepts .spaced _ (after .spaced (',' :: _)) _
    rw [hcomma]
    exact Grammar.accepts_many.2 (.inl ⟨hpair, rfl⟩)
  · change sourceGrammar.Accepts .spaced _ (after .spaced (',' :: _)) _
    rw [hcomma]
    exact Grammar.accepts_opt.2 (.inl (Grammar.accepts_lit.2 rfl))

/-- No list of arguments has a keyword for a label. -/
theorem fails_parenthesized_keyword (hs : after .spaced s = s) :
    sourceGrammar.Fails .spaced Rule.parenthesized ('(' :: s) := by
  by_cases hliteral : k ∈ literalWords
  · refine fails_parenthesized (r := ':' :: t) ?_ ?_
    · rw [hs]
      exact accepts_argumentSequence_literal hk h hliteral
    · rw [after_solid rfl]
      exact stops_cons.2 rfl
  · refine fails_parenthesized (r := ' ' :: (k.toList ++ ':' :: t)) ?_ ?_
    · rw [hs]
      exact accepts_argumentSequence_keyword hk h hliteral
    · rw [after_space, after_keyword hk]
      exact stops_keyword hk rfl

end Label

/-- The arguments of a call that writes, with a keyword for the label of the key. -/
theorem jam_arguments {k : String} (hk : k ∈ Rule.keywords) (t : List Char) :
    Jam ('(' :: ("newValue".toList ++ ',' :: ' ' :: (k.toList ++ ':' :: t))) := by
  have hname : IsName "newValue".toList := by decide
  have hvalue : Readable .operand ⟨.identifier "newValue", default⟩ := .ofPrimary (.identifier hname)
  have hsolid : after .spaced ("newValue".toList ++ ',' :: ' ' :: (k.toList ++ ':' :: t)) =
      "newValue".toList ++ ',' :: ' ' :: (k.toList ++ ':' :: t) := after_solid rfl _
  have hlabel := fails_label (.ofUnary (.ofOperand hvalue)) 0
    (s := ',' :: ' ' :: (k.toList ++ ':' :: t)) (stops_cons.2 rfl)
    (by rw [after_solid rfl]; exact stops_cons.2 rfl)
  have hargument := accepts_argument_of_readable hvalue (operandEnds_comma _) hlabel
  rw [charsAt_identifier] at hargument
  refine jam_parenthesized (fails_parenthesized_keyword hk hargument hsolid) ?_
  rw [hsolid]
  exact stops_cons.2 rfl

/-- A call of a keyword in parentheses. -/
theorem jam_call {n : Node} (h : Readable .operand n) {k : String} (hk : k ∈ Rule.keywords)
    {t : List Char} (ht : Stops Rule.isNameChar t) :
    Jam ('(' :: (n.charsAt 0 ++ '.' :: (k.toList ++ t))) := by
  have hends := (jam_member hk ht).operandEnds
  have hsolid := after_charsAt h 0 ('.' :: (k.toList ++ t))
  have hlabel := fails_label (.ofUnary (.ofOperand h)) 0 (s := '.' :: (k.toList ++ t))
    (stops_cons.2 rfl) (by rw [after_solid rfl]; exact stops_cons.2 rfl)
  have hargument := accepts_argument_of_readable h hends hlabel
  have hlist := accepts_argumentSequence_one hargument hends.solid (stops_cons.2 rfl)
  rw [← hsolid] at hlist
  refine jam_parenthesized (fails_parenthesized hlist ?_) ?_
  · rw [hends.solid]
    exact stops_cons.2 rfl
  · obtain ⟨c, u, hu, hc⟩ := charsAt_eq_cons h 0
    rw [hsolid, hu]
    refine stops_cons.2 (beq_eq_false_iff_ne.2 ?_)
    rintro rfl
    cases hc

/-! ## Accessors that cannot be read -/

/-- What is read as an accessor matches the rule. -/
theorem accepts_of_readAccessor {text : String} {m : Node} (h : readAccessor text = .ok m) :
    ∃ q, sourceGrammar.Accepts .spaced (.rule .accessor) (after .spaced text.toList) q := by
  unfold readAccessor readOne read at h
  split at h
  · cases h
  · next nodes hnodes =>
    obtain ⟨items, rest, hread, -⟩ := reads_of_readChars hnodes
    have hbody : sourceGrammar.Accepts .spaced (Rule.body .accessorEntry) text.toList rest :=
      Grammar.accepts_rule.1 hread.accepts
    obtain ⟨r, hfront, -⟩ := Grammar.accepts_seq.1 hbody
    obtain ⟨s, hempty, haccessor⟩ := Grammar.accepts_seq.1 hfront
    rw [Grammar.accepts_empty.1 hempty] at haccessor
    exact ⟨r, haccessor⟩
  · cases h

theorem after_accessorWord (kind : AccessorKind) (s : List Char) :
    after .spaced ((Render.accessorWord kind).toList ++ s) = (Render.accessorWord kind).toList ++ s := by
  cases kind <;> exact after_solid rfl _

/-- An accessor is not read if its block is not closed behind its statements. -/
theorem not_readAccessor_of_unclosed {body : Node} (h : Unclosed (body.charsAt 1 ++ ['\n', '\x7d']))
    (kind : AccessorKind) (span : Span) (m : Node) :
    readAccessor (Node.accessor span kind [body]).render ≠ .ok m := by
  intro hm
  obtain ⟨hsolid, r, hstatements, hclose⟩ := h
  have hkind : Render.accessorWord kind ∈ ["get", "set"] := by cases kind <;> decide
  have htext : (Node.accessor span kind [body]).render.toList = (Render.accessorWord kind).toList ++
      ' ' :: '\x7b' :: '\n' :: ("    ".toList ++ (body.charsAt 1 ++ ['\n', '\x7d'])) := by
    change Node.charsAt 0 _ = _
    rw [Node.accessor, charsAt_accessor]
    simp [blockChars, linesChars, indentChars, Render.indent]
  obtain ⟨q, haccessor⟩ := accepts_of_readAccessor hm
  rw [htext, after_accessorWord] at haccessor
  have hbody : sourceGrammar.Accepts .spaced (Rule.body .accessor) _ q := Grammar.accepts_rule.1 haccessor
  obtain ⟨q₃, hbody, hbrace⟩ := Grammar.accepts_seq.1 hbody
  obtain ⟨q₂, hbody, hblock⟩ := Grammar.accepts_seq.1 hbody
  obtain ⟨q₁, hword, hopen⟩ := Grammar.accepts_seq.1 hbody
  change sourceGrammar.Accepts .spaced _ (after .spaced q₁) _ at hopen
  change sourceGrammar.Accepts .spaced _ (after .spaced q₂) _ at hblock
  change sourceGrammar.Accepts .spaced _ (after .spaced q₃) _ at hbrace
  have hfree : PrefixFree ["get", "set"] := by decide
  have hchars : ∀ w ∈ ["get", "set"], ∀ c ∈ w.toList, Rule.isNameChar c = true := by decide
  obtain ⟨w, hw, hs, hstop⟩ := (accepts_wholeWord hfree).1 (Grammar.accepts_rule.1 hword)
  rw [← (run_unique (hchars _ hkind) (hchars w hw) (stops_cons.2 rfl) hstop hs).2, after_space,
    after_solid rfl] at hopen
  have hinside : q₂ = '\n' :: ("    ".toList ++ (body.charsAt 1 ++ ['\n', '\x7d'])) :=
    (List.cons.inj (Grammar.accepts_lit.1 hopen)).2.symm
  rw [hinside, after_newline] at hblock
  have hindent : after .spaced ("    ".toList ++ (body.charsAt 1 ++ ['\n', '\x7d'])) =
      body.charsAt 1 ++ ['\n', '\x7d'] := by
    change after .spaced (' ' :: ' ' :: ' ' :: ' ' :: (body.charsAt 1 ++ ['\n', '\x7d'])) = _
    simp only [after_space, hsolid]
  rw [hindent] at hblock
  rw [hblock.unique hstatements] at hbrace
  exact hbrace.not_fails (fails_lit_of_head (c := '\x7d') rfl hclose)

namespace Store

theorem charsAt_memberChain (d : Nat) (span : Span) (base : Node) (members : List String) :
    (members.foldl (Node.member span) base).charsAt d =
      base.charsAt d ++ members.flatMap fun w => '.' :: w.toList := by
  induction members generalizing base with
  | nil => simp
  | cons w ws ih => simp [ih, Node.member, charsAt_member]

theorem charsAt_receiver (store : Store) (d : Nat) (span : Span) :
    (store.receiver span).charsAt d =
      store.root.toList ++ store.members.flatMap fun w => '.' :: w.toList := by
  rw [receiver, Node.memberChain, charsAt_memberChain, Node.identifier, charsAt_identifier]

/-- The one statement of a getter starts with the call that reads. -/
theorem exists_getter_body (store : Store) (span : Span) (type : ValueType) (binding : Binding) :
    ∃ body t, store.getter span type binding = .accessor span .get [body] ∧
      body.charsAt 1 = '(' :: ((store.receiver span).charsAt 0 ++
        '.' :: (store.readMethod.toList ++ '(' :: t)) := by
  have hread : ∃ t, (store.typedRead span type binding).charsAt 1 =
      '(' :: ((store.receiver span).charsAt 0 ++ '.' :: (store.readMethod.toList ++ '(' :: t)) := by
    simp only [typedRead, Node.parenthesized, Node.tuple, charsAt_tuple, argumentsChars, commaChars,
      Argument.chars, Argument.plain, Node.cast, charsAt_cast, Node.call, charsAt_call, Node.member,
      charsAt_member, List.append_assoc, List.cons_append]
    exact ⟨_, rfl⟩
  obtain ⟨t, ht⟩ := hread
  obtain hgetter | ⟨value, -, hgetter⟩ := getter_cases store span type binding
  · exact ⟨_, t, hgetter, ht⟩
  · refine ⟨_, t ++ ' ' :: ("??".toList ++ ' ' :: value.charsAt 1), hgetter, ?_⟩
    rw [Node.binary, charsAt_binary, ht]
    simp only [List.append_assoc, List.cons_append]

theorem charsAt_write (store : Store) (d : Nat) (span : Span) (binding : Binding) :
    (store.write span binding).charsAt d = store.root.toList ++
      ((store.members ++ [store.writeMethod]).flatMap (fun w => '.' :: w.toList) ++
        '(' :: ("newValue".toList ++ ',' :: ' ' :: (store.keyLabel.toList ++ ':' :: ' ' ::
          ((Node.string span binding.name).charsAt 0 ++ [')'])))) := by
  simp [write, Node.call, charsAt_call, Node.member, charsAt_member, charsAt_receiver, argumentsChars,
    commaChars, Argument.chars, Argument.plain, key, Argument.labeled, Node.identifier, charsAt_identifier]

section Words

variable {store : Store} (hwords : ∀ w ∈ store.words, IsName w.toList ∨ w ∈ Rule.keywords)
  {span : Span} {binding : Binding}

include hwords

/-- If the setter is read, no keyword is in the way. -/
theorem names_of_readAccessor_setter {m : Node}
    (h : readAccessor (store.setter span binding).render = .ok m) :
    IsOperandWord store.root ∧ (∀ w ∈ store.members ++ [store.writeMethod], IsName w.toList) ∧
      IsName store.keyLabel.toList := by
  have hclosed : ¬ Unclosed ((store.write span binding).charsAt 1 ++ ['\n', '\x7d']) := fun hopen =>
    not_readAccessor_of_unclosed hopen .set span m h
  have hchars : (Node.identifier span store.root).charsAt 1 = store.root.toList := charsAt_identifier ..
  rw [charsAt_write, ← hchars] at hclosed
  simp only [List.append_assoc, List.cons_append] at hclosed
  have hroot : IsOperandWord store.root := by
    rcases hwords store.root List.mem_cons_self with hname | hk
    · exact .inl hname
    · by_contra hnone
      rw [hchars] at hclosed
      exact hclosed (unclosed_keyword hk (fun hliteral => hnone (.inr hliteral)) (by simp) _)
  have hbase := legible_identifier hroot span
  have hpath : ∀ w ∈ store.members ++ [store.writeMethod], IsName w.toList := by
    by_contra hkeyword
    refine hclosed (unclosed_path hbase (fun w hw => hwords w ?_) hkeyword 1 (stops_cons.2 rfl))
    simp only [words, List.mem_append, List.mem_cons] at hw ⊢
    tauto
  refine ⟨hroot, hpath, ?_⟩
  rcases hwords store.keyLabel (by simp [words]) with hname | hk
  · exact hname
  · obtain ⟨n, hn, htext⟩ := legible_memberChain hpath span hbase
    rw [← List.append_assoc, ← charsAt_memberChain 1 span, ← htext] at hclosed
    exact absurd ((jam_arguments hk _).unclosed_behind hn 1) hclosed

omit hwords in
/-- If the getter is read, the method that reads is no keyword either. -/
theorem name_of_readAccessor_getter {type : ValueType} {m : Node}
    (hwords : IsName store.readMethod.toList ∨ store.readMethod ∈ Rule.keywords)
    (hreceiver : (store.receiver span).Legible .operand)
    (h : readAccessor (store.getter span type binding).render = .ok m) :
    IsName store.readMethod.toList := by
  rcases hwords with hname | hk
  · exact hname
  obtain ⟨body, t, hgetter, hchars⟩ := exists_getter_body store span type binding
  obtain ⟨n, hn, htext⟩ := hreceiver
  rw [hgetter] at h
  refine absurd h (not_readAccessor_of_unclosed ?_ .get span m)
  rw [hchars, ← htext]
  simp only [List.append_assoc, List.cons_append]
  exact (jam_call hn hk (stops_cons.2 rfl)).unclosed

/-- If both are read, the store is usable. -/
theorem usable_of_readAccessor {type : ValueType} {m m' : Node}
    (hgetter : readAccessor (store.getter span type binding).render = .ok m)
    (hsetter : readAccessor (store.setter span binding).render = .ok m') : store.Usable := by
  obtain ⟨hroot, hpath, hlabel⟩ := names_of_readAccessor_setter hwords hsetter
  have hmembers : ∀ w ∈ store.members, IsName w.toList := fun w hw =>
    hpath w (List.mem_append_left _ hw)
  refine ⟨hroot, hmembers, ?_, hpath _ (List.mem_append_right _ List.mem_cons_self), hlabel⟩
  exact name_of_readAccessor_getter (hwords _ (by simp [words])) (legible_receiver hroot hmembers span)
    hgetter

end Words

end Store

/-! ## Configured stores -/

/-- Of the words of a store that a configuration describes, all but the keywords are identifiers of the
grammar. The accessors of a variable are read back if the path of the store starts with a name or a
literal and all other words are names, and only then. -/
theorem accessors_readable_iff {text : String} {source : Source} {items : List Node} {site : Site}
    {settings : StoreSettings} {services : Services} {before after : List Diagnostic}
    {accessors : List Node} (hread : readSource text = .ok items)
    (hsite : site ∈ Registry.standard.sites source items)
    (hstore : settings.toStore = .ok services.store)
    (hexpand : site.expand Registry.standard services before = (.ok (.accessors accessors), after)) :
    (∀ w ∈ services.store.words, Rule.identifier.TakesWhole w ↔ w ∉ Rule.keywords) ∧
      ((∀ a ∈ accessors, ∃ m, readAccessor a.render = .ok m) ↔
        accessors = [] ∨ services.store.Usable) := by
  have hwords : ∀ w ∈ services.store.words, IsName w.toList ∨ w ∈ Rule.keywords := fun w hw =>
    isIdentifier_iff.1 (StoreSettings.isIdentifier_of_toStore hstore w hw)
  have haccessors := keyValueAccessors_of_expand hexpand
  refine ⟨fun w hw => ?_, fun hall => ?_, ?_⟩
  · rw [takesWhole_identifier_iff]
    exact ⟨fun hname hk => hname.notKeyword w hk rfl, fun hk => (hwords w hw).resolve_right hk⟩
  · obtain rfl | ⟨type, declaration, binding, -, -, -, rfl⟩ := keyValueAccessors_cases haccessors
    · exact .inl rfl
    obtain ⟨m, hgetter⟩ := hall _ List.mem_cons_self
    obtain ⟨m', hsetter⟩ := hall _ (List.mem_cons_of_mem _ List.mem_cons_self)
    exact .inr (Store.usable_of_readAccessor hwords hgetter hsetter)
  · rintro (rfl | husable) a ha
    · cases ha
    obtain rfl | ⟨getter, setter, rfl, ⟨-, m, -, hgetter, -⟩, -, m', -, hsetter, -⟩ :=
      rereads_of_usable hread hsite haccessors husable
    · cases ha
    simp only [List.mem_cons, List.not_mem_nil, or_false] at ha
    rcases ha with rfl | rfl
    · exact ⟨m, hgetter⟩
    · exact ⟨m', hsetter⟩

/-- A path may start with a literal. -/
theorem accessors_readable_iff_nil :
    ∃ items site store getter setter,
      readSource "@iCloudKeyValue<Int> var x = 1" = .ok items ∧
      site ∈ Registry.standard.sites default items ∧
      StoreSettings.toStore { (default : StoreSettings) with receiver := "nil.store" } = .ok store ∧
      site.expand Registry.standard { (default : Services) with store } [] =
        (.ok (.accessors [getter, setter]), []) ∧
      ∀ a ∈ [getter, setter], ∃ m, readAccessor a.render = .ok m := by
  have h : oneAnd (readSource "@iCloudKeyValue<Int> var x = 1") (fun declaration =>
      declaration.storedAnd fun _ _ _ _ => true) = true := by decide +kernel
  obtain ⟨declaration, hread, h⟩ := exists_of_oneAnd h
  obtain ⟨mark, type, binding, initial, hmark, hname, htype, -, hbinding, -⟩ := exists_of_storedAnd h
  have hsite := mem_sites_of_attribute default hmark hname
  have hstore : StoreSettings.toStore { (default : StoreSettings) with receiver := "nil.store" } =
      .ok ⟨"nil", ["store"], "object", "set", "forKey"⟩ := by decide +kernel
  have husable : Store.Usable ⟨"nil", ["store"], "object", "set", "forKey"⟩ := by
    refine ⟨.inr (by decide), ?_, ?_, ?_, ?_⟩ <;> decide
  have hexpand := expand_attribute
    { (default : Services) with store := ⟨"nil", ["store"], "object", "set", "forKey"⟩ } htype hbinding []
  exact ⟨_, _, _, _, _, hread, hsite, hstore, hexpand,
    (accessors_readable_iff hread hsite hstore hexpand).2.2 (.inr husable)⟩

/-- With a keyword in the path, a configuration passes its check, but the accessors cannot be read. -/
theorem accessors_unreadable_keyword :
    ¬ ∀ (settings : StoreSettings) (text : String) (source : Source) (items : List Node) (site : Site)
      (services : Services) (before after : List Diagnostic) (accessors : List Node),
      settings.toStore = .ok services.store → readSource text = .ok items →
      site ∈ Registry.standard.sites source items →
      site.expand Registry.standard services before = (.ok (.accessors accessors), after) →
      (∀ a ∈ accessors, ∃ m, readAccessor a.render = .ok m) ∧
        ∀ w ∈ services.store.words, Rule.identifier.TakesWhole w := by
  intro hclaim
  have h : oneAnd (readSource "@iCloudKeyValue<Int> var x = 1") (fun declaration =>
      declaration.storedAnd fun mark type binding _ => !(readAccessor
        (Store.getter ⟨"let", ["store"], "object", "set", "forKey"⟩ mark.span type binding).render).isOk) =
      true := by decide +kernel
  obtain ⟨declaration, hread, h⟩ := exists_of_oneAnd h
  obtain ⟨mark, type, binding, initial, hmark, hname, htype, -, hbinding, -, hstuck⟩ :=
    exists_of_storedAnd h
  have hstore : StoreSettings.toStore { (default : StoreSettings) with receiver := "let.store" } =
      .ok ⟨"let", ["store"], "object", "set", "forKey"⟩ := by decide +kernel
  have hexpand := expand_attribute
    { (default : Services) with store := ⟨"let", ["store"], "object", "set", "forKey"⟩ } htype hbinding []
  obtain ⟨m, hm⟩ := (hclaim _ _ _ _ _ _ _ _ _ hstore hread (mem_sites_of_attribute default hmark hname)
    hexpand).1 _ List.mem_cons_self
  rw [hm] at hstuck
  cases hstuck

end SwiftMacro
