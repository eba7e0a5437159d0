import SwiftMacro.Proofs.Slices
/-!
# Whole words

A keyword is read only as a whole word: behind it stands no further character of a name, or the word would
be a name (`words_whole_unless_func`). Each rule that takes a keyword looks at what follows, except the one
of functions. So `func` may touch the name of the function: where no blanks are between the two, `functor()`
in front of a block is not a call, but a function `tor`.
-/

namespace SwiftMacro

open Peg

/-! ## What stands behind a rule -/

/-- The rule stands among the trees or below them, with these parts and in front of `behind`; `rest` is
the text behind all of the trees. -/
inductive Stands : List (Tree Rule) → List Char → Rule → List (Tree Rule) → List Char → Prop
  | here (r : Rule) (parts ts : List (Tree Rule)) (rest : List Char) :
      Stands (.node r parts :: ts) rest r parts (Tree.charsOf ts ++ rest)
  | inside {q r : Rule} {inner ts parts : List (Tree Rule)} {rest behind : List Char}
      (h : Stands inner (Tree.charsOf ts ++ rest) r parts behind) :
      Stands (.node q inner :: ts) rest r parts behind
  | later {t : Tree Rule} {ts parts : List (Tree Rule)} {r : Rule} {rest behind : List Char}
      (h : Stands ts rest r parts behind) : Stands (t :: ts) rest r parts behind

section Stands

variable {r : Rule} {ts us parts : List (Tree Rule)} {rest behind : List Char}

theorem Stands.of_append (h : Stands (ts ++ us) rest r parts behind) :
    Stands ts (Tree.charsOf us ++ rest) r parts behind ∨ Stands us rest r parts behind := by
  induction ts with
  | nil => exact .inr h
  | cons t ts ih =>
    have htext : Tree.charsOf (ts ++ us) ++ rest = Tree.charsOf ts ++ (Tree.charsOf us ++ rest) := by
      rw [Tree.charsOf_append, List.append_assoc]
    rw [List.cons_append] at h
    generalize hall : t :: (ts ++ us) = all at h
    cases h with
    | here q qs ts' =>
      obtain ⟨rfl, rfl⟩ := List.cons.inj hall
      rw [htext]
      exact .inl (.here ..)
    | inside h =>
      obtain ⟨rfl, rfl⟩ := List.cons.inj hall
      rw [htext] at h
      exact .inl (.inside h)
    | later h =>
      obtain ⟨rfl, rfl⟩ := List.cons.inj hall
      exact (ih h).imp_left .later

/-- The parts of a rule are what the text has in front of what stands behind it. -/
theorem Stands.text (h : Stands ts rest r parts behind) :
    ∃ before, Tree.charsOf ts ++ rest = before ++ Tree.charsOf parts ++ behind := by
  induction h with
  | here r parts ts rest => exact ⟨[], by simp [Tree.charsOf, Tree.chars]⟩
  | inside _ ih =>
    obtain ⟨before, hbefore⟩ := ih
    exact ⟨before, by rw [← hbefore]; simp [Tree.charsOf, Tree.chars]⟩
  | @later t _ _ _ _ _ _ ih =>
    obtain ⟨before, hbefore⟩ := ih
    refine ⟨t.chars ++ before, ?_⟩
    rw [Tree.charsOf, List.append_assoc, hbefore]
    simp only [List.append_assoc]

theorem not_stands_text {cs : List Char} : ¬ Stands [.text cs] rest r parts behind := by
  rintro (_ | _ | h)
  cases h

theorem not_stands_gap {layout : Layout} {s : List Char} :
    ¬ Stands (sourceGrammar.gap layout s).1 rest r parts behind := by
  cases layout with
  | spaced => exact not_stands_text
  | joined | hidden => exact nofun

/-- In front of trees of a match, what stands behind is the text that was matched. -/
theorem Stands.of_matches {layout : Layout} {e : Peg Rule} {s : List Char}
    (hmatch : sourceGrammar.Matches layout e s us rest) (h : Stands (ts ++ us) rest r parts behind) :
    Stands ts s r parts behind ∨ Stands us rest r parts behind := by
  rw [← hmatch.text sourceGrammar_blanksSplit]
  exact h.of_append

/-- A closed rule is itself the tree, or it left its parts in its place. -/
theorem Stands.of_close {q : Rule} {layout : Layout}
    (h : Stands (sourceGrammar.close q layout ts) rest r parts behind) :
    Stands ts rest r parts behind ∨ r = q ∧ parts = ts ∧ behind = rest := by
  unfold Grammar.close at h
  split at h
  · exact .inl h
  · cases h with
    | here => exact .inr ⟨rfl, rfl, rfl⟩
    | inside h => exact .inl h
    | later h => cases h

end Stands

/-- Each rule that stands below a match was tried and matched where it stands, and may use what was handed
down to it. -/
theorem exists_of_stands {C : Layout → Peg Rule → List Char → Prop} (hC : HandsDown C) {layout : Layout}
    {e : Peg Rule} {s rest : List Char} {trees : List (Tree Rule)} (hc : C layout e s)
    (h : sourceGrammar.Matches layout e s trees rest) {r : Rule} {parts : List (Tree Rule)}
    {behind : List Char} (hr : Stands trees rest r parts behind) :
    ∃ layout, C layout (.rule r) (Tree.charsOf parts ++ behind) ∧
      sourceGrammar.Matches (r.style.inside layout) r.body (Tree.charsOf parts ++ behind) parts behind := by
  induction h using Grammar.Matches.induct with
  | empty | optNone | manyStop | moreStop | not => cases hr
  | one | lit => exact absurd hr not_stands_text
  | @seq _ _ _ _ _ u _ _ _ hb iha ihb =>
    rcases hr.of_matches hb with hr | hr
    · have hfront := hr.of_append.resolve_right not_stands_gap
      rw [Grammar.gap_text sourceGrammar_blanksSplit] at hfront
      exact iha (hC.seq hc).1 hfront
    · exact ihb ((hC.seq hc).2 u) hr
  | altFirst _ ih => exact ih (hC.alt hc).1 hr
  | altSecond _ _ ih => exact ih (hC.alt hc).2 hr
  | optSome _ ih => exact ih (hC.opt hc) hr
  | @manyTurn _ _ _ _ u _ _ _ hmore iha ihmore =>
    rcases hr.of_matches hmore with hr | hr
    · exact iha (hC.many hc).1 hr
    · exact ihmore ((hC.many hc).2 u) hr
  | @moreTurn _ _ _ _ u _ _ _ hmore iha ihmore =>
    rcases hr.of_matches hmore with hr | hr
    · exact iha (hC.more hc).1 (hr.of_append.resolve_left not_stands_gap)
    · exact ihmore ((hC.more hc).2 u) hr
  | @rule layout q s inner rest hi ih =>
    rcases hr.of_close with hr | ⟨rfl, rfl, rfl⟩
    · exact ih (hC.rule hc) hr
    · rw [hi.text sourceGrammar_blanksSplit]
      exact ⟨layout, hc, hi⟩

/-! ## The words of the rules -/

/-- The words of which a rule takes one and looks at what follows. -/
def Rule.words : Rule → List String
  | booleanLiteral => ["true", "false"]
  | nilLiteral => ["nil"]
  | modifier => modifiers
  | bindingKeyword => ["var", "let"]
  | accessorKind => ["get", "set"]
  | importKeyword => ["import"]
  | castOperator => ["as"]
  | _ => []

section Words

variable {layout : Layout} {s rest : List Char} {parts : List (Tree Rule)}

theorem text_of_matches_anyOf {ws : List String}
    (h : sourceGrammar.Matches layout (Rule.anyOf ws) s parts rest) :
    ∃ w ∈ ws, parts = [.text w.toList] := by
  induction ws with
  | nil => exact absurd (Grammar.matches_not.1 h).1 (Grammar.accepts_empty.2 rfl).not_fails
  | cons w ws ih =>
    cases ws with
    | nil => exact ⟨w, List.mem_cons_self, (Grammar.matches_lit.1 h).2⟩
    | cons v ws =>
      rcases Grammar.matches_alt.1 h with h | ⟨-, h⟩
      · exact ⟨w, List.mem_cons_self, (Grammar.matches_lit.1 h).2⟩
      · obtain ⟨u, hu, hparts⟩ := ih h
        exact ⟨u, List.mem_cons_of_mem _ hu, hparts⟩

/-- A word of a list with nothing but the check behind it. -/
theorem word_of_matches_anyOf {ws : List String}
    (h : sourceGrammar.Matches .hidden (Rule.anyOf ws ++ Rule.wordEnd) s parts rest) :
    ∃ w ∈ ws, ∃ back, parts = .text w.toList :: back ∧ Stops Rule.isNameChar (Tree.charsOf back ++ rest) := by
  obtain ⟨ps, r, qs, hword, hend, rfl⟩ := Grammar.matches_seq.1 h
  obtain ⟨w, hw, rfl⟩ := text_of_matches_anyOf hword
  obtain ⟨hstop, rfl, rfl⟩ := Grammar.matches_not.1 hend
  exact ⟨w, hw, [], rfl, Grammar.fails_one.1 hstop⟩

/-- Behind `as` stands its mark or no character of a name. -/
theorem word_of_matches_cast (h : sourceGrammar.Matches .hidden (Rule.body .castOperator) s parts rest) :
    ∃ back, parts = .text "as".toList :: back ∧ Stops Rule.isNameChar (Tree.charsOf back ++ rest) := by
  obtain ⟨_, r, qs, hfront, hend, rfl⟩ := Grammar.matches_seq.1 h
  obtain ⟨_, u, ms, hword, hmark, rfl⟩ := Grammar.matches_seq.1 hfront
  obtain ⟨-, rfl⟩ := Grammar.matches_lit.1 hword
  obtain ⟨hstop, rfl, rfl⟩ := Grammar.matches_not.1 hend
  refine ⟨ms, by simp [Grammar.gap], ?_⟩
  rcases Grammar.matches_opt.1 hmark with hmark | ⟨-, rfl, -⟩
  · obtain ⟨w, hw, rfl⟩ := text_of_matches_anyOf hmark
    simp only [List.mem_cons, List.not_mem_nil, or_false] at hw
    rcases hw with rfl | rfl <;> exact stops_cons.2 rfl
  · exact Grammar.fails_one.1 hstop

/-- A rule of words takes one of them, and no further character of a name follows. -/
theorem word_of_matches {r : Rule} (hr : r.words ≠ [])
    (h : sourceGrammar.Matches (r.style.inside layout) r.body s parts rest) :
    ∃ w ∈ r.words, ∃ back, parts = .text w.toList :: back ∧
      Stops Rule.isNameChar (Tree.charsOf back ++ rest) := by
  cases r with
  | booleanLiteral | nilLiteral | modifier | bindingKeyword | accessorKind | importKeyword =>
    exact word_of_matches_anyOf h
  | castOperator => exact ⟨"as", List.mem_cons_self, word_of_matches_cast h⟩
  | _ => exact absurd rfl hr

/-- Blanks stand in front of a text unless it starts with a name. -/
theorem stops_iff_gap {w t : List Char} (hw : IsName w) (hs : after .spaced s = w ++ t) :
    Stops Rule.isNameChar s ↔ (Trivia.split s).1 ≠ [] := by
  have htext : (Trivia.split s).1 ++ (w ++ t) = s := hs ▸ Trivia.split_append s
  constructor
  · intro hstop hnil
    obtain ⟨c, cs, rfl, hc⟩ := hw.start
    rw [← htext, hnil, List.nil_append, List.cons_append, stops_cons, isNameChar_of_isNameStart hc] at hstop
    cases hstop
  · intro hne c hc
    by_contra hchar
    -- A text that starts with a character of a name has no blanks in front.
    obtain ⟨u, rfl⟩ := List.head?_eq_some_iff.1 hc
    have hsolid := first_eq_none_of_isSolid (isSolid_of_isNameChar (Bool.eq_true_of_not_eq_false hchar)) u
    rw [Trivia.split_of_first_eq_none hsolid] at hne
    exact hne rfl

/-- Behind `func` stand blanks or the name of the function itself. -/
theorem func_of_matches (h : sourceGrammar.Matches .spaced (Rule.body .functionDecl) s parts rest) :
    ∃ front gap name back,
      parts = front ++ .text "func".toList :: .text gap :: .node .identifier name :: back ∧
      (Stops Rule.isNameChar (gap ++ Tree.charsOf (.node .identifier name :: back) ++ rest) ↔ gap ≠ []) := by
  obtain ⟨_, _, b₁, h, rfl, rfl⟩ := h.front sourceGrammar_blanksSplit
  obtain ⟨_, _, b₂, h, rfl, rfl⟩ := h.front sourceGrammar_blanksSplit
  obtain ⟨_, _, b₃, h, rfl, rfl⟩ := h.front sourceGrammar_blanksSplit
  obtain ⟨_, _, b₄, h, rfl, rfl⟩ := h.front sourceGrammar_blanksSplit
  obtain ⟨_, _, b₅, h, rfl, rfl⟩ := h.front sourceGrammar_blanksSplit
  obtain ⟨_, v, _, hfunc, hname, rfl⟩ := Grammar.matches_seq.1 h
  obtain ⟨lead, u, _, -, hword, rfl⟩ := Grammar.matches_seq.1 hfunc
  obtain ⟨-, rfl⟩ := Grammar.matches_lit.1 hword
  obtain ⟨name, rfl⟩ := eq_node_of_matches (by decide) hname
  obtain ⟨w, hw, hv, -⟩ := accepts_identifier.1 ⟨_, hname⟩
  refine ⟨lead ++ (sourceGrammar.gap .spaced u).1, (Trivia.split v).1, name,
    b₅ ++ b₄ ++ b₃ ++ b₂ ++ b₁, ?_, ?_⟩
  · simp [Grammar.gap, sourceGrammar]
  · have htext := hname.text sourceGrammar_blanksSplit
    have hgap : (Trivia.split v).1 ++ after .spaced v = v := Trivia.split_append v
    have hall : (Trivia.split v).1 ++
        Tree.charsOf (.node .identifier name :: (b₅ ++ b₄ ++ b₃ ++ b₂ ++ b₁)) ++ rest = v := by
      calc
        _ = (Trivia.split v).1 ++ (Tree.charsOf [.node .identifier name] ++
            (Tree.charsOf b₅ ++ (Tree.charsOf b₄ ++ (Tree.charsOf b₃ ++ (Tree.charsOf b₂ ++
              (Tree.charsOf b₁ ++ rest)))))) := by simp [Tree.charsOf]
        _ = (Trivia.split v).1 ++ after .spaced v := by rw [htext]; rfl
        _ = v := hgap
    rw [hall]
    exact stops_iff_gap hw hv

end Words

/-! ## Functions whose name touches `func` -/

section Func

variable {x : List Char}

/-- An empty list of parameters and an empty block. -/
def emptyFunction : List Char := "() \x7b\x7d".toList

theorem after_emptyBlock : after .spaced "\x7b\x7d".toList = "\x7b\x7d".toList := after_solid rfl _

theorem modifiers_ne_touching : ∀ m ∈ Rule.modifiers, "func".toList ++ x ≠ m.toList := by
  simp [Rule.modifiers]

section Reads

variable (hx : ∀ c ∈ x, Rule.isNameChar c = true)

include hx

theorem isNameChar_of_mem_touching : ∀ c ∈ "func".toList ++ x, Rule.isNameChar c = true := by
  intro c hc
  rcases List.mem_append.1 hc with hc | hc
  · exact (by decide : ∀ c ∈ "func".toList, Rule.isNameChar c = true) c hc
  · exact hx c hc

/-- Only a name makes a function of it. -/
theorem isName_of_function (hne : x ≠ []) {y : List Char}
    (h : sourceGrammar.Accepts .spaced (.rule .functionDecl) ("func".toList ++ x ++ emptyFunction) y) :
    IsName x := by
  have hstop : Stops Rule.isNameChar emptyFunction := stops_cons.2 rfl
  obtain ⟨q, p, -, hfunc, hname, -⟩ := signature_of_accepts h
  obtain ⟨q', hleading, hword⟩ := Grammar.accepts_seq.1 hfunc
  change sourceGrammar.Accepts .spaced _ (after .spaced q') _ at hword
  rw [eq_of_leading_word rfl (isNameChar_of_mem_touching hx) hstop modifiers_ne_touching hleading,
    after_word rfl (isNameChar_of_mem_touching hx)] at hword
  have hq : "func".toList ++ (x ++ emptyFunction) = "func".toList ++ q := by
    rw [← List.append_assoc]
    exact Grammar.accepts_lit.1 hword
  obtain rfl := List.append_cancel_left hq
  obtain ⟨c, u, rfl⟩ := List.exists_cons_of_ne_nil hne
  have hafter : after .spaced (c :: u ++ emptyFunction) = c :: u ++ emptyFunction :=
    after_solid (isSolid_of_isNameChar (hx c List.mem_cons_self)) _
  rw [hafter] at hname
  obtain ⟨w, hw, hv, hp⟩ := accepts_identifier.1 hname
  rwa [(run_unique hx hw.chars hstop hp hv).1]

/-- As an expression it is a call without arguments, which ends in front of the block. -/
theorem accepts_expr_touching (hne : x ≠ []) :
    sourceGrammar.Accepts .spaced (.rule .expr) ("func".toList ++ x ++ emptyFunction) "\x7b\x7d".toList := by
  have hkeyword : ∀ k ∈ Rule.keywords, "func".toList ++ x ≠ k.toList := by
    obtain ⟨c, u, rfl⟩ := List.exists_cons_of_ne_nil hne
    simp [Rule.keywords]
  have hname : IsName ("func".toList ++ x) := ⟨⟨_, _, rfl, rfl⟩, isNameChar_of_mem_touching hx, hkeyword⟩
  have hword : sourceGrammar.Accepts .joined (.rule .identifier) ("func".toList ++ x ++ emptyFunction)
      emptyFunction := accepts_identifier.2 ⟨_, hname, rfl, stops_cons.2 rfl⟩
  have hbrace : after .spaced " \x7b\x7d".toList = "\x7b\x7d".toList :=
    (after_space _).trans after_emptyBlock
  have hbefore : Before (· == '\x7b') " \x7b\x7d".toList := before_of_after hbrace rfl
  have hnone : ∀ a ∈ ([] : List (Argument Node)), a.IsReadable := nofun
  have hcall : sourceGrammar.Accepts .joined (.rule .argumentClause) emptyFunction " \x7b\x7d".toList :=
    (reads_argumentClause hnone (by simp) " \x7b\x7d".toList).accepts
  have hmore : sourceGrammar.Accepts .joined (.many suffix) emptyFunction " \x7b\x7d".toList :=
    Grammar.accepts_many.2 (.inr ⟨_, Grammar.accepts_alt.2 (.inl (Grammar.accepts_alt.2 (.inl hcall))),
      Grammar.accepts_more.2 (.inl ⟨fails_suffix_of_stops (hbefore.stops_suffix rfl), rfl⟩)⟩)
  have hexpr := accepts_expr_of_operand (after_word rfl (isNameChar_of_mem_touching hx) _)
    (accepts_postfix_of_primary (by decide) hword hmore) (hbefore.fails_eq rfl rfl rfl)
  rwa [hbrace] at hexpr

/-- They are nothing else that can be read: no statement is left in front of the block. -/
theorem isName_of_reads_touching (hne : x ≠ []) {nodes : List Node}
    (h : readChars .source ("func".toList ++ x ++ emptyFunction) = .ok nodes) : IsName x := by
  have hstop : Stops Rule.isNameChar emptyFunction := stops_cons.2 rfl
  have hchars := isNameChar_of_mem_touching hx
  obtain ⟨items, y, hread, hy, -⟩ := readChars_eq_ok.1 h
  rw [after_word rfl hchars] at hread
  rcases Grammar.accepts_many.1 hread.accepts with ⟨-, rfl⟩ | ⟨z, hone, hmore⟩
  · rw [after_word rfl hchars] at hy
    cases hy
  obtain ⟨t, hstatement, hsemicolon⟩ := Grammar.accepts_seq.1 hone
  have himport := fails_import_word hchars hstop (by simp)
  have hvariable := fails_variable_word rfl hchars hstop modifiers_ne_touching (by simp)
  rcases Grammar.accepts_alt.1 hstatement with hstatement | ⟨-, hexpr⟩
  · rcases Grammar.accepts_alt.1 hstatement with hstatement | ⟨-, hfunction⟩
    · rcases Grammar.accepts_alt.1 hstatement with hstatement | ⟨-, hstatement⟩
      · exact absurd himport hstatement.not_fails
      · exact absurd hvariable hstatement.not_fails
    · exact isName_of_function hx hne hfunction
  -- The expression ends at the brace, where neither a semicolon nor a statement starts.
  obtain rfl := hexpr.unique (accepts_expr_touching hx hne)
  have hz : z = "\x7b\x7d".toList := by
    rcases Grammar.accepts_opt.1 hsemicolon with hsemicolon | ⟨-, rfl⟩
    · change sourceGrammar.Accepts .spaced _ (after .spaced "\x7b\x7d".toList) z at hsemicolon
      rw [after_emptyBlock] at hsemicolon
      exact absurd (fails_of_first _ rfl rfl rfl rfl) hsemicolon.not_fails
    · exact after_emptyBlock
  subst hz
  rcases Grammar.accepts_more.1 hmore with ⟨-, rfl⟩ | ⟨_, hnext, -⟩
  · rw [after_emptyBlock] at hy
    cases hy
  · change sourceGrammar.Accepts .spaced terminated (after .spaced "\x7b\x7d".toList) _ at hnext
    rw [after_emptyBlock] at hnext
    exact absurd (fails_of_first _ rfl rfl rfl rfl) hnext.not_fails

end Reads

/-- A name behind `func` needs no blank in front of it. -/
theorem reads_function_touching (h : IsName x) :
    ReadsPast .spaced (.rule .functionDecl) ("func".toList ++ x ++ emptyFunction)
      [⟨.functionDecl, default, .node ⟨.functionDecl [] [] (String.ofList x) [], default⟩⟩] [] := by
  have hchars := isNameChar_of_mem_touching h.chars
  have hstop : Stops Rule.isNameChar emptyFunction := stops_cons.2 rfl
  have hsettled : after .spaced ("func".toList ++ x ++ emptyFunction) = "func".toList ++ x ++ emptyFunction :=
    after_word rfl hchars emptyFunction
  have hname : after .spaced (x ++ emptyFunction) = x ++ emptyFunction := by
    obtain ⟨c, u, rfl, hc⟩ := h.start
    exact after_solid (isSolid_of_isNameChar (isNameChar_of_isNameStart hc)) _
  have hmodifier : sourceGrammar.Fails .spaced (.rule .modifier) ("func".toList ++ x ++ emptyFunction) :=
    Grammar.fails_rule.2 (fails_wholeWord hchars hstop modifiers_ne_touching (by decide) (by decide) rfl)
  have hleading := (readsPast_many_nil (fails_of_first (e := .rule .attributeUse)
    (['u', 'n', 'c'] ++ x ++ emptyFunction) rfl rfl rfl rfl)).next hsettled (readsPast_many_nil hmodifier)
  have hword : Reads .spaced (.rule .identifier) (x ++ emptyFunction) _ emptyFunction :=
    (reads_identifier (by decide)).2 ⟨x, h, rfl, hstop, rfl⟩
  have hhead := (hleading.next hsettled (readsPast_lit "func")).next hname hword.past
  have hlist := (hhead.next (after_solid rfl _) (readsPast_lit "(")).next
    (after_solid rfl _) (readsPast_lit ")")
  have hblock := (hlist.next ((after_space _).trans after_emptyBlock) (readsPast_lit "\x7b")).next
    (after_solid rfl _) (readsPast_many_nil (a := terminated) (fails_of_first _ rfl rfl rfl rfl))
  have hclose : ReadsPast .spaced (.lit "\x7d") ("\x7d".toList ++ []) [] [] := readsPast_lit "\x7d"
  have hbody := hblock.next (after_solid rfl _) hclose
  exact hbody.plain rfl (by decide) fun _ => by
    simp [Rule.build, wordItem, wordsOf, nodesOf, Item.wordOf?, Item.nodeOf?]

/-- What is read if the letters of `func` and a name stand in front of an empty list and a block. -/
theorem reads_touching (h : IsName x) : ∃ n,
    readChars .source ("func".toList ++ x ++ emptyFunction) = .ok [n] ∧
      n.eraseSpans = ⟨.functionDecl [] [] (String.ofList x) [], default⟩ := by
  have hchars := isNameChar_of_mem_touching h.chars
  have hstop : Stops Rule.isNameChar emptyFunction := stops_cons.2 rfl
  have hsettled : after .spaced ("func".toList ++ x ++ emptyFunction) = "func".toList ++ x ++ emptyFunction :=
    after_word rfl hchars emptyFunction
  have himport := fails_import_word hchars hstop (by simp)
  have hvariable := fails_variable_word rfl hchars hstop modifiers_ne_touching (by simp)
  have hstatement : ReadsPast .spaced Rule.statement _ _ _ := (ReadsPast.alt_right
    (Grammar.fails_alt.2 ⟨himport, hvariable⟩) (reads_function_touching h)).alt_left
  have hone : ReadsPast .spaced terminated _ _ _ :=
    hstatement.next after_nil (readsPast_opt_none (fails_nil rfl rfl))
  rw [← hsettled] at hone
  have hnone : sourceGrammar.Fails .spaced terminated (after .spaced []) := by
    rw [after_nil]
    exact fails_nil rfl rfl
  have hmany := (hone.more_cons (readsPast_more_nil hnone)).many_of_more
  rw [hsettled] at hmany
  obtain ⟨nodes, hnodes, herase⟩ :=
    readChars_of_readsPast .source rfl rfl (fun _ _ => rfl) hsettled hmany
  obtain ⟨n, rfl, hn⟩ := List.map_eq_singleton_iff.1 herase
  exact ⟨n, hnodes, hn⟩

end Func

/-! ## Sources -/

/-- Every keyword of a source is a whole word, but for `func` where it touches the name of the function. -/
structure WordsWhole (text : List Char) (trees : List (Tree Rule)) : Prop where
  words : ∀ r parts behind, Stands trees [] r parts behind → r.words ≠ [] →
    ∃ w ∈ r.words, ∃ before back, parts = .text w.toList :: back ∧
      text = before ++ w.toList ++ (Tree.charsOf back ++ behind) ∧
      Stops Rule.isNameChar (Tree.charsOf back ++ behind)
  functions : ∀ parts behind, Stands trees [] .functionDecl parts behind →
    ∃ before front gap name back,
      parts = front ++ .text "func".toList :: .text gap :: .node .identifier name :: back ∧
      text = before ++ Tree.charsOf front ++ "func".toList ++
        (gap ++ Tree.charsOf (.node .identifier name :: back) ++ behind) ∧
      (Stops Rule.isNameChar (gap ++ Tree.charsOf (.node .identifier name :: back) ++ behind) ↔ gap ≠ [])

theorem wordsWhole_of_read {text : String} {items : List Node} (h : readSource text = .ok items) :
    ∃ trees, sourceGrammar.parse .sourceFile text.toList = some (trees, []) ∧
      WordsWhole text.toList trees := by
  obtain ⟨trees, rest, items, hmatch, -, -⟩ := readChars_eq_ok_iff_matches.1 h
  obtain ⟨rfl, -⟩ := Entry.matches_rule_iff.1 hmatch
  have htext := hmatch.text sourceGrammar_blanksSplit
  have htried : Tried .spaced (.rule .sourceFile) text.toList := ⟨nofun, .inl rfl⟩
  refine ⟨trees, parse_eq_some.2 hmatch, fun r parts behind hr hwords => ?_, fun parts behind hr => ?_⟩
  · obtain ⟨before, hbefore⟩ := hr.text
    obtain ⟨layout, -, hbody⟩ := exists_of_stands handsDown_tried htried hmatch hr
    obtain ⟨w, hw, back, rfl, hstop⟩ := word_of_matches hwords hbody
    refine ⟨w, hw, before, back, rfl, ?_, hstop⟩
    rw [← htext, hbefore]
    simp [Tree.charsOf, Tree.chars]
  · obtain ⟨before, hbefore⟩ := hr.text
    obtain ⟨layout, hfunction, hbody⟩ := exists_of_stands handsDown_tried htried hmatch hr
    obtain rfl := hfunction.spaced_of_plain rfl
    obtain ⟨front, gap, name, back, rfl, hstop⟩ := func_of_matches hbody
    refine ⟨before, front, gap, name, back, rfl, ?_, hstop⟩
    rw [← htext, hbefore]
    simp [Tree.charsOf, Tree.chars]

/-- In every source that is read, no further character of a name stands behind a keyword, except behind
`func` where the name of the function touches it. The name may be any: `func` and then a name, an empty
list and an empty block are a function, with no blanks between them as well. -/
theorem words_whole_unless_func (text x : String) :
    (∀ items, readSource text = .ok items →
      ∃ trees, sourceGrammar.parse .sourceFile text.toList = some (trees, []) ∧
        WordsWhole text.toList trees) ∧
    (x ≠ "" → (∀ c ∈ x.toList, Rule.isNameChar c = true) →
      (IsName x.toList → ∃ n, readSource ("func" ++ x ++ "() \x7b\x7d") = .ok [n] ∧
        n.eraseSpans = ⟨.functionDecl [] [] x [], default⟩) ∧
      (¬ IsName x.toList → ∃ error, readSource ("func" ++ x ++ "() \x7b\x7d") = .error error)) := by
  refine ⟨fun items h => wordsWhole_of_read h, fun hne hx => ?_⟩
  have hread : readSource ("func" ++ x ++ "() \x7b\x7d") =
      readChars .source ("func".toList ++ x.toList ++ emptyFunction) := by
    rw [readSource, read, String.toList_append, String.toList_append, emptyFunction]
  have hnonempty : x.toList ≠ [] := fun hnil => hne (String.toList_eq_nil_iff.1 hnil)
  rw [hread]
  refine ⟨fun hname => ?_, fun hname => ?_⟩
  · obtain ⟨n, hn, herase⟩ := reads_touching hname
    rw [String.ofList_toList] at herase
    exact ⟨n, hn, herase⟩
  · cases hresult : readChars .source ("func".toList ++ x.toList ++ emptyFunction) with
    | error e => exact ⟨e, rfl⟩
    | ok nodes => exact absurd (isName_of_reads_touching hx hnonempty hresult) hname

theorem words_whole_unless_func_foo :
    (∃ items, readSource "@a public lazy var x = nil as? T\nfuncfoo() \x7b\x7d" = .ok items ∧
      ∃ trees, sourceGrammar.parse .sourceFile
          "@a public lazy var x = nil as? T\nfuncfoo() \x7b\x7d".toList = some (trees, []) ∧
        WordsWhole "@a public lazy var x = nil as? T\nfuncfoo() \x7b\x7d".toList trees) ∧
    (∃ n, readSource ("func" ++ "foo" ++ "() \x7b\x7d") = .ok [n] ∧
      n.eraseSpans = ⟨.functionDecl [] [] "foo" [], default⟩) ∧
    ∃ error, readSource ("func" ++ "1" ++ "() \x7b\x7d") = .error error := by
  refine ⟨?_, ?_, ?_⟩
  · obtain ⟨items, hitems⟩ := exists_of_isOk
      (by decide +kernel : (readSource "@a public lazy var x = nil as? T\nfuncfoo() \x7b\x7d").isOk = true)
    exact ⟨items, hitems, (words_whole_unless_func _ "foo").1 items hitems⟩
  · exact ((words_whole_unless_func "" "foo").2 (by decide) (by decide)).1 (by decide)
  · exact ((words_whole_unless_func "" "1").2 (by decide) (by decide)).2 (by decide)

/-- So `func` is not always a whole word. -/
theorem func_touches_name : ¬ ∀ x : String, x ≠ "" → (∀ c ∈ x.toList, Rule.isNameChar c = true) →
    ∃ error, readSource ("func" ++ x ++ "() \x7b\x7d") = .error error := by
  intro h
  obtain ⟨error, herror⟩ := h "foo" (by decide) (by decide)
  obtain ⟨nodes, hnodes⟩ := exists_of_isOk
    (by decide +kernel : (readSource ("func" ++ "foo" ++ "() \x7b\x7d")).isOk = true)
  rw [herror] at hnodes
  cases hnodes

end SwiftMacro
