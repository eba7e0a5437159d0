import SwiftMacro.Proofs.Follows
/-!
# Arguments and type arguments are read back

The grammar has no left recursion: an operand is read with all that touches it, and a chain of
operators with all its operands. So `RoundTrips` says more than that the text of a node is read as
the node: whatever suffixes, marks or tails can be read behind the text are applied to the node.

Lists in brackets are read back when their elements are. An argument without a label needs that no
expression can be taken for a label (`fails_label`).
-/

namespace SwiftMacro

open Peg

/-! ## What is shown of each place -/

/-- The item reads as the operand, with all that touches it behind it. -/
def Heads (i : Item) (n : Node) : Prop :=
  ∀ text suffixes, Rule.build .postfixExpr default text (i :: suffixes) =
    .ok (.node (suffixes.foldl applySuffix n))

/-- One more mark behind a type. -/
def applyMark (type : Node) (mark : Item) : Node := ⟨.optionalType type, type.span.cover mark.span⟩

/-- A pattern as an item of its rule. -/
def patternItem (n : Node) : Item :=
  match n.shape with
  | .namePattern _ => ⟨.namePattern, default, .node n⟩
  | .wildcardPattern => ⟨.wildcardPattern, default, .node n⟩
  | _ => ⟨.tuplePattern, default, .node n⟩

/-- The text of a node in its place is read as the node, with what follows it there. -/
def RoundTrips : Category → Node → Prop
  | .primary, n => ∀ d s, Clear s →
      ∃ i, Reads .joined Rule.primary (n.charsAt d ++ s) [i] s ∧ Heads i n
  | .operand, n => ∀ d s more rest, Clear s → Reads .joined (.more suffix) s more rest →
      Reads .spaced (.rule .postfixExpr) (n.charsAt d ++ s)
        [⟨.postfixExpr, default, .node (more.foldl applySuffix n)⟩] rest
  | .unary, n => ∀ d s, Ends s →
      Reads .spaced (.rule .prefixExpr) (n.charsAt d ++ s) [⟨.prefixExpr, default, .node n⟩] s
  | .expression, n => ∀ d s more rest, Ends s → ReadsPast .spaced (.more tail) s more rest →
      ReadsPast .spaced (.rule .expr) (n.charsAt d ++ s)
        [⟨.expr, default, .node (more.foldl applyTail n)⟩] rest
  | .type, n => ∀ d s more rest, TypeClear s → Reads .joined (.more (.rule .optionalMark)) s more rest →
      Reads .spaced (.rule .typeExpr) (n.charsAt d ++ s)
        [⟨.typeExpr, default, .node (more.foldl applyMark n)⟩] rest
  | .attr, n => ∀ d s, Reads .spaced (.rule .attributeUse) (n.charsAt d ++ ' ' :: s)
      [⟨.attributeUse, default, .node n⟩] (' ' :: s)
  | .pattern, n => ∀ d s, Stops Rule.isNameChar s →
      ReadsPast .spaced Rule.pattern (n.charsAt d ++ s) [patternItem n] s
  | _, _ => True

/-! ## No label in front of an expression -/

theorem isNameStart_of_isDigit {c : Char} (h : c.isDigit = true) : Rule.isNameStart c = false := by
  have h9 : c.toNat ≤ 57 := by
    simp only [Char.isDigit, Bool.and_eq_true, decide_eq_true_eq] at h
    exact h.2
  refine Bool.eq_false_iff.2 fun hs => ?_
  rcases Bool.or_eq_true_iff.1 hs with halpha | hunderscore
  · rcases Bool.or_eq_true_iff.1 halpha with hupper | hlower
    · have hA : 65 ≤ c.toNat := (of_decide_eq_true hupper : _ ∧ _).1
      omega
    · have ha : 97 ≤ c.toNat := of_decide_eq_true (Bool.and_eq_true_iff.1 hlower).1
      omega
  · obtain rfl := beq_iff_eq.1 hunderscore
    simp at h9

theorem isDigit_of_isNameStart {c : Char} (h : Rule.isNameStart c = true) : c.isDigit = false := by
  refine Bool.eq_false_iff.2 fun hd => ?_
  rw [isNameStart_of_isDigit hd] at h
  cases h

/-- An argument label with its colon. -/
def label : Peg Rule := .rule .argumentLabel ++ .lit ":"

theorem fails_label_of_first {layout : Layout} {c : Char} (s : List Char) (hc : isSolid c = true)
    (h : Rule.isNameStart c = false) : sourceGrammar.Fails layout label (c :: s) :=
  Grammar.fails_seq.2 (.inl (fails_of_first s hc h rfl rfl))

theorem first_operator {op : String} (h : op ∈ Rule.operators) (s : List Char) :
    Trivia.first (op.toList ++ ' ' :: s) = none := by
  simp only [Rule.operators, List.mem_cons, List.not_mem_nil, or_false] at h
  rcases h with rfl | rfl | rfl | rfl | rfl | rfl | rfl | rfl | rfl | rfl | rfl | rfl | rfl | rfl <;> rfl

theorem after_operator {op : String} (h : op ∈ Rule.operators) (s : List Char) :
    after .spaced (op.toList ++ ' ' :: s) = op.toList ++ ' ' :: s :=
  after_of_first_eq_none (first_operator h s)

theorem operator_eq_cons {op : String} (h : op ∈ Rule.operators) :
    ∃ c t, op.toList = c :: t ∧ isOperatorStart c = true := by
  have hall : ∀ op ∈ Rule.operators, op.toList.head?.any isOperatorStart = true := by decide
  have hop := hall op h
  cases hl : op.toList with
  | nil => rw [hl] at hop; cases hop
  | cons c t => rw [hl] at hop; exact ⟨c, t, rfl, hop⟩

theorem castWord_eq_cons (kind : CastKind) :
    ∃ t, (Render.castWord kind).toList = 'a' :: 's' :: t := by
  cases kind
  · exact ⟨[], rfl⟩
  · exact ⟨['?'], rfl⟩
  · exact ⟨['!'], rfl⟩

theorem after_castWord (kind : CastKind) (s : List Char) :
    after .spaced ((Render.castWord kind).toList ++ s) = (Render.castWord kind).toList ++ s := by
  obtain ⟨t, ht⟩ := castWord_eq_cons kind
  rw [ht]
  exact after_solid rfl _

/-- The places of expressions, operands that are not made of others left out. -/
def Category.isExpression : Category → Bool
  | operand | unary | expression => true
  | _ => false

/-! ## How the text of an expression goes on -/

/-- What can stand behind the first operand of a longer expression that `s` follows. -/
inductive Behind (s : List Char) : List Char → Prop
  | call {as : List (Argument Node)} (has : ∀ a ∈ as, a.IsReadable) :
      Behind s (argumentsChars as ++ s)
  | calls {as : List (Argument Node)} {u : List Char} (has : ∀ a ∈ as, a.IsReadable)
      (h : Behind s u) : Behind s (argumentsChars as ++ u)
  | member (u : List Char) : Behind s ('.' :: u)
  | unwrap (u : List Char) : Behind s ('!' :: u)
  | operator {operator : String} (known : operator ∈ Rule.operators) (u : List Char) :
      Behind s (' ' :: (operator.toList ++ ' ' :: u))
  | cast (kind : CastKind) (u : List Char) :
      Behind s (' ' :: ((Render.castWord kind).toList ++ ' ' :: u))

namespace Behind

variable {s u v : List Char}

theorem trans (h : Behind s u) (h' : Behind u v) : Behind s v := by
  induction h' with
  | call has => exact .calls has h
  | calls has _ ih => exact .calls has ih
  | member v => exact .member v
  | unwrap v => exact .unwrap v
  | operator known v => exact .operator known v
  | cast kind v => exact .cast kind v

theorem word (h : Behind s u) : Stops Rule.isNameChar u := by
  cases h with
  | call | calls | member | unwrap | operator | cast => exact stops_cons.2 rfl

/-- The characters that what stands behind an operand can start with, blanks aside. -/
theorem after_stops (h : Behind s u) {p : Char → Bool}
    (hsigns : ∀ c ∈ ['(', '.', '!', 'a'], p c = false)
    (hoperators : ∀ op ∈ Rule.operators, op.toList.head?.any p = false) :
    Stops p (after .spaced u) := by
  cases h with
  | call | calls =>
    rw [argumentsChars, List.append_assoc, List.cons_append, after_solid rfl]
    exact stops_cons.2 (hsigns '(' (by decide))
  | member u =>
    rw [after_solid rfl]
    exact stops_cons.2 (hsigns '.' (by decide))
  | unwrap u =>
    rw [after_solid rfl]
    exact stops_cons.2 (hsigns '!' (by decide))
  | @operator op known u =>
    have hop := hoperators op known
    obtain ⟨c, t, ht, -⟩ := operator_eq_cons known
    rw [after_space, after_operator known]
    rw [ht] at hop ⊢
    exact stops_cons.2 hop
  | cast kind u =>
    obtain ⟨t, ht⟩ := castWord_eq_cons kind
    rw [after_space, after_castWord, ht]
    exact stops_cons.2 (hsigns 'a' (by decide))

end Behind

/-- The text of the node in front of `s` starts with an operand that is not made of others, or with a
sign. -/
def StartsPrimary (d : Nat) (n : Node) (s : List Char) : Prop :=
  (∃ p u, Readable .primary p ∧ n.charsAt d ++ s = p.charsAt d ++ u ∧
    ((p = n ∧ u = s) ∨ Behind s u)) ∨
  (∃ c t, c ∈ ['-', '!'] ∧ n.charsAt d ++ s = c :: t)

/-- A node starts as its first part does. -/
theorem StartsPrimary.of_behind {d : Nat} {n m : Node} {s v : List Char} (hv : Behind s v)
    (htext : n.charsAt d ++ s = m.charsAt d ++ v) (h : StartsPrimary d m v) : StartsPrimary d n s := by
  rcases h with ⟨p, u, hp, hu, ⟨-, rfl⟩ | hbehind⟩ | ⟨c, t, hc, ht⟩
  · exact .inl ⟨p, u, hp, htext.trans hu, .inr hv⟩
  · exact .inl ⟨p, u, hp, htext.trans hu, .inr (hv.trans hbehind)⟩
  · exact .inr ⟨c, t, hc, htext.trans ht⟩

theorem startsPrimary {category : Category} {n : Node} (h : Readable category n)
    (hcategory : category.isExpression = true) (d : Nat) (s : List Char) : StartsPrimary d n s := by
  induction h generalizing s with
  | @ofPrimary n h => exact .inl ⟨n, s, h, rfl, .inl ⟨rfl, rfl⟩⟩
  | ofOperand _ ih | ofUnary _ ih => exact ih rfl s
  | call _ labels inner ih =>
    refine (ih rfl _).of_behind (.call fun a ha => ⟨labels a ha, inner a ha⟩) ?_
    rw [charsAt_call, List.append_assoc]
  | @member _ member _ _ ih =>
    refine (ih rfl ('.' :: (member.toList ++ s))).of_behind (.member _) ?_
    rw [charsAt_member, List.append_assoc, List.cons_append]
  | unwrap _ ih =>
    refine (ih rfl ('!' :: s)).of_behind (.unwrap s) ?_
    rw [charsAt_unwrap, List.append_assoc, List.singleton_append]
  | prefixed sign =>
    simp only [List.mem_cons, List.not_mem_nil, or_false] at sign
    rcases sign with rfl | rfl
    · exact .inr ⟨'-', _, by decide, by rw [charsAt_prefixed]; rfl⟩
    · exact .inr ⟨'!', _, by decide, by rw [charsAt_prefixed]; rfl⟩
  | @binary _ rhs operator _ known _ ih =>
    refine (ih rfl _).of_behind (.operator known (rhs.charsAt d ++ s)) ?_
    rw [charsAt_binary]
    simp only [List.append_assoc, List.cons_append]
  | @cast _ target kind _ _ ih =>
    refine (ih rfl _).of_behind (.cast kind (target.charsAt d ++ s)) ?_
    rw [charsAt_cast]
    simp only [List.append_assoc, List.cons_append]
  | _ => cases hcategory

theorem fails_label_digits {w s : List Char} (hw : IsDigits w) :
    sourceGrammar.Fails .spaced label (w ++ s) := by
  obtain ⟨c, t, rfl, hc⟩ := eq_cons_of_isDigits hw
  exact fails_label_of_first _ (isSolid_of_isDigit hc) (isNameStart_of_isDigit hc)

theorem fails_label_keyword {k : String} (hk : k ∈ Rule.keywords) {s : List Char}
    (hs : Stops Rule.isNameChar s) : sourceGrammar.Fails .spaced label (k.toList ++ s) := by
  refine Grammar.fails_seq.2 (.inl (Grammar.fails_rule.2 ?_))
  exact fails_identifier_keyword hk hs

/-- No colon follows the name that an expression may start with. -/
theorem fails_label {n : Node} (h : Readable .expression n) (d : Nat) {s : List Char}
    (hs : Stops Rule.isNameChar s) (hcolon : Stops (· == ':') (after .spaced s)) :
    sourceGrammar.Fails .spaced label (n.charsAt d ++ s) := by
  obtain ⟨p, u, hp, htext, hu⟩ | ⟨c, t, hc, htext⟩ := startsPrimary h rfl d s
  · have hword : Stops Rule.isNameChar u := by
      rcases hu with ⟨-, rfl⟩ | hu
      · exact hs
      · exact hu.word
    have hcolon' : Stops (· == ':') (after .spaced u) := by
      rcases hu with ⟨-, rfl⟩ | hu
      · exact hcolon
      · exact hu.after_stops (by decide) (by decide)
    rw [htext]
    cases hp with
    | emptyString | string =>
      rw [charsAt_string]
      exact fails_label_of_first _ rfl rfl
    | integer digits =>
      rw [charsAt_integer, String.toList_ofList]
      exact fails_label_digits digits
    | float whole part =>
      rw [charsAt_float, String.toList_ofList, List.append_assoc]
      exact fails_label_digits whole
    | boolean value =>
      rw [charsAt_boolean]
      cases value
      · exact fails_label_keyword (by decide) hword
      · exact fails_label_keyword (by decide) hword
    | nil =>
      rw [charsAt_nil]
      exact fails_label_keyword (by decide) hword
    | macroUse =>
      rw [charsAt_macroUse]
      exact fails_label_of_first _ rfl rfl
    | implicitMember =>
      rw [charsAt_implicitMember]
      exact fails_label_of_first _ rfl rfl
    | tuple =>
      rw [charsAt_tuple]
      exact fails_label_of_first _ rfl rfl
    | identifier isName =>
      rw [charsAt_identifier]
      refine Grammar.fails_seq.2 (.inr ⟨u, Grammar.accepts_rule.2 ?_, ?_⟩)
      · exact accepts_identifier.2 ⟨_, isName, rfl, hword⟩
      · exact fails_lit_of_head (c := ':') rfl hcolon'
  · rw [htext]
    simp only [List.mem_cons, List.not_mem_nil, or_false] at hc
    rcases hc with rfl | rfl
    · exact fails_label_of_first _ rfl rfl
    · exact fails_label_of_first _ rfl rfl

/-! ## Lists of arguments and types -/

/-- An argument as an item of its rule. -/
def argumentItem (a : Argument Node) : Item := ⟨.argument, default, .argument a⟩

section Lists

variable {as : List (Argument Node)} {ts : List Node}

theorem after_argument {a : Argument Node} (ha : a.IsReadable) (s : List Char) :
    after .spaced (a.chars ++ s) = a.chars ++ s := by
  obtain ⟨hlabel, hread⟩ := ha
  obtain ⟨l, e⟩ := a
  cases l with
  | none => exact after_charsAt hread 0 s
  | some l =>
    obtain ⟨c, t, ht, hc⟩ := (hlabel l rfl).start
    have hstarts : Category.type.starts c = true := hc
    simp only [Argument.chars, ht]
    exact after_solid (isSolid_of_starts hstarts) _

theorem readsPast_argument {a : Argument Node} (ha : a.IsReadable)
    (ih : RoundTrips .expression a.expression) {s : List Char} (hs : Closed s) :
    ReadsPast .spaced (.rule .argument) (a.chars ++ s) [argumentItem a] s := by
  obtain ⟨hlabel, hread⟩ := ha
  obtain ⟨l, e⟩ := a
  have he : ReadsPast .spaced (.rule .expr) (e.charsAt 0 ++ s) [⟨.expr, default, .node e⟩] s :=
    ih 0 s [] s hs.ends hs.no_tail
  rw [← after_charsAt hread] at he
  cases l with
  | none =>
    have hcolon : Stops (· == ':') (after .spaced s) := by
      rw [hs.after_eq]
      exact (hs.ends.stops rfl)
    have hnone := readsPast_opt_none (fails_label hread 0 hs.ends.clear.word hcolon)
    exact (hnone.seq he).plain rfl (by decide) fun _ => rfl
  | some l =>
    have hname : Reads .spaced (.rule .argumentLabel) (l.toList ++ ':' :: ' ' :: e.charsAt 0 ++ s)
        [wordItem .argumentLabel l.toList] (':' :: ' ' :: e.charsAt 0 ++ s) := by
      refine (reads_spelled rfl (fun _ => rfl) (by decide)).2 ⟨_, List.append_assoc .., ?_, rfl⟩
      exact accepts_identifier.2 ⟨_, hlabel l rfl, List.append_assoc .., stops_cons.2 rfl⟩
    have hcolon : ReadsPast .spaced (.lit ":") (after .spaced (':' :: ' ' :: e.charsAt 0 ++ s)) []
        (' ' :: e.charsAt 0 ++ s) := by
      rw [List.cons_append, after_solid rfl]
      exact readsPast_lit ":"
    rw [← after_space] at he
    have hall := (hname.past.seq hcolon).opt.seq he
    refine hall.plain rfl (by decide) fun _ => ?_
    simp [Rule.build, nodesOf, wordsOf, Item.nodeOf?, Item.wordOf?, wordItem]

/-- Arguments in parentheses are read back. -/
theorem reads_parenthesized (has : ∀ a ∈ as, a.IsReadable)
    (ih : ∀ a ∈ as, RoundTrips .expression a.expression) (s : List Char) :
    Reads .spaced Rule.parenthesized (argumentsChars as ++ s) (as.map argumentItem) s := by
  have hclose : after .spaced (')' :: s) = ')' :: s := after_solid rfl s
  have hopen : ∀ t, ReadsPast .spaced (.lit "(") ('(' :: t) [] t := fun t => readsPast_lit "("
  cases as with
  | nil =>
    have hnone : ReadsPast .spaced
        (.opt (Rule.commaSeparated (.rule .argument) ++ .opt (.lit ","))) (')' :: s) [] (')' :: s) :=
      readsPast_opt_none (fails_of_first s rfl rfl rfl rfl)
    exact ((hopen _).next hclose hnone).seq_lit hclose
  | cons a as =>
    have hlist : ReadsPast .spaced (Rule.commaSeparated (.rule .argument))
        (commaChars Argument.chars (a :: as) ++ ')' :: s) ((a :: as).map argumentItem) (')' :: s) :=
      readsPast_commaSeparated Closed a as
        (fun b hb t ht => readsPast_argument (has b hb) (ih b hb) ht)
        (fun b hb t => after_argument (has b hb) t) Closed.comma (Closed.bracket s)
        (by rw [hclose]; exact stops_cons.2 rfl)
    have hcomma : ReadsPast .spaced (.opt (.lit ",")) (')' :: s) [] (')' :: s) :=
      readsPast_opt_none (fails_of_first s rfl rfl rfl rfl)
    have hfirst : after .spaced (commaChars Argument.chars (a :: as) ++ ')' :: s) =
        commaChars Argument.chars (a :: as) ++ ')' :: s := by
      rw [commaChars, List.append_assoc]
      exact after_argument (has a List.mem_cons_self) _
    have hall := ReadsPast.seq_lit (w := ")")
      ((hopen _).next hfirst (hlist.next hclose hcomma).opt) hclose
    rw [List.nil_append, List.append_nil] at hall
    rw [argumentsChars, List.append_assoc, List.cons_append, List.singleton_append]
    exact hall

theorem argumentList_map (as : List (Argument Node)) :
    argumentList (as.map argumentItem) = as :=
  filterMap_map_eq_self (fun _ => by rfl) as

theorem reads_argumentClause {layout : Layout} (has : ∀ a ∈ as, a.IsReadable)
    (ih : ∀ a ∈ as, RoundTrips .expression a.expression) (s : List Char) :
    Reads layout (.rule .argumentClause) (argumentsChars as ++ s)
      [⟨.argumentClause, default, .arguments as⟩] s := by
  refine Reads.rule (by exact Layout.noConfusion) (reads_parenthesized has ih s) fun _ => ?_
  simp only [Rule.build, argumentList_map]

theorem reads_tupleExpr {layout : Layout} (has : ∀ a ∈ as, a.IsReadable)
    (ih : ∀ a ∈ as, RoundTrips .expression a.expression) (s : List Char) :
    Reads layout (.rule .tupleExpr) (argumentsChars as ++ s)
      [⟨.tupleExpr, default, .node ⟨.tuple as, default⟩⟩] s := by
  refine Reads.rule (by exact Layout.noConfusion) (reads_parenthesized has ih s) fun _ => ?_
  simp only [Rule.build, argumentList_map]

/-- A type as an item of its rule. -/
def typeItem (t : Node) : Item := ⟨.typeExpr, default, .node t⟩

/-- Where no mark follows, a type is read back by itself. -/
theorem reads_type {t : Node} (ih : RoundTrips .type t) (d : Nat) {s : List Char}
    (hs : TypeClear s) (hmark : Stops (· == '?') s) :
    Reads .spaced (.rule .typeExpr) (t.charsAt d ++ s) [typeItem t] s := by
  refine ih d s [] s hs (reads_more.2 (.inl ⟨?_, rfl, rfl⟩))
  exact Grammar.fails_rule.2 (fails_lit_of_head (c := '?') rfl hmark)

theorem nodesOf_map_typeItem (ts : List Node) : nodesOf [.typeExpr] (ts.map typeItem) = ts :=
  filterMap_map_eq_self (fun _ => by rfl) ts

/-- The item of type arguments, or none where there are none. -/
def genericsItems : List Node → List Item
  | [] => []
  | ts => [⟨.genericClause, default, .nodes ts⟩]

/-- Type arguments are read back. -/
theorem reads_generics (hts : ∀ t ∈ ts, Readable .type t) (ih : ∀ t ∈ ts, RoundTrips .type t)
    {s : List Char} (hs : Stops (· == '<') s) :
    Reads .joined (.opt (.rule .genericClause)) (genericsChars ts ++ s) (genericsItems ts) s := by
  cases ts with
  | nil =>
    refine reads_opt.2 (.inr ⟨Grammar.fails_rule.2 (Grammar.fails_seq.2 (.inl ?_)), rfl, rfl⟩)
    exact Grammar.fails_seq.2 (.inl (fails_lit_of_head (c := '<') rfl hs))
  | cons t ts =>
    have hclose : after .spaced ('>' :: s) = '>' :: s := after_solid rfl s
    have hopen : ∀ t, ReadsPast .spaced (.lit "<") ('<' :: t) [] t := fun t => readsPast_lit "<"
    have hlist : ReadsPast .spaced (Rule.commaSeparated (.rule .typeExpr))
        (commaChars (Node.charsAt 0) (t :: ts) ++ '>' :: s) ((t :: ts).map typeItem) ('>' :: s) := by
      refine readsPast_commaSeparated (fun s => TypeClear s ∧ Stops (· == '?') s) t ts
        (fun u hu s hs => (reads_type (ih u hu) 0 hs.1 hs.2).past)
        (fun u hu s => after_charsAt (hts u hu) 0 s) ?_ ?_ ?_
      · exact fun s => ⟨typeClear_cons s rfl (by decide) (by decide), stops_cons.2 rfl⟩
      · exact ⟨typeClear_cons s rfl (by decide) (by decide), stops_cons.2 rfl⟩
      · rw [hclose]
        exact stops_cons.2 rfl
    have hfirst : after .spaced (commaChars (Node.charsAt 0) (t :: ts) ++ '>' :: s) =
        commaChars (Node.charsAt 0) (t :: ts) ++ '>' :: s := by
      rw [commaChars, List.append_assoc]
      exact after_charsAt (hts t List.mem_cons_self) 0 _
    have hall := ReadsPast.seq_lit (w := ">") ((hopen _).next hfirst hlist) hclose
    have hchars : genericsChars (t :: ts) = '<' :: commaChars (Node.charsAt 0) (t :: ts) ++ ['>'] :=
      rfl
    rw [hchars, List.append_assoc, List.cons_append, List.singleton_append]
    refine reads_opt.2 (.inl (Reads.rule (by exact Layout.noConfusion) hall fun _ => ?_))
    simp only [Rule.build, List.nil_append, nodesOf_map_typeItem]

end Lists

end SwiftMacro
