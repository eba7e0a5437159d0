import SwiftMacro.Proofs.Built
import SwiftMacro.Proofs.Primaries
/-!
# Expressions and types are read back

Operands, signs, chains and casts, types and patterns, one lemma for each shape; `roundTrips` puts
them together, by induction over readable nodes. From it, reading the text of what was read as an
expression or a type gives the same node, up to spans.
-/

namespace SwiftMacro

open Peg

/-! ## Operands -/

theorem roundTrips_ofPrimary {n : Node} (ih : RoundTrips .primary n) : RoundTrips .operand n := by
  intro d s more rest hs hmore
  obtain ⟨i, hi, hheads⟩ := ih d s hs
  have hmany := (reads_many_iff_more (by decide)).2 hmore
  exact Reads.rule (by exact Layout.noConfusion) (reads_seq.2 ⟨[i], s, more, hi, hmany, rfl⟩)
    fun text => hheads text more

theorem roundTrips_call {callee : Node} {as : List (Argument Node)} (hspan : callee.span = default)
    (ih : RoundTrips .operand callee) (has : ∀ a ∈ as, a.IsReadable)
    (ihas : ∀ a ∈ as, RoundTrips .expression a.expression) :
    RoundTrips .operand ⟨.call callee as, default⟩ := by
  intro d s more rest hs hmore
  have hclause : Reads .joined (.rule .argumentClause) _ _ s := reads_argumentClause has ihas s
  have hmore' := reads_more.2 (.inr ⟨_, s, more, reads_alt_left (reads_alt_left hclause), hmore, rfl⟩)
  have hclear : Clear (argumentsChars as ++ s) := clear_cons _ rfl (by decide) (by decide)
  have hall := ih d _ _ rest hclear hmore'
  rw [List.singleton_append, List.foldl_cons, applySuffix, hspan] at hall
  rw [charsAt_call, List.append_assoc]
  exact hall

theorem reads_memberSuffix {member : String} (hname : IsName member.toList) {s : List Char}
    (hs : Stops Rule.isNameChar s) :
    Reads .joined (.rule .memberSuffix) ('.' :: (member.toList ++ s))
      [⟨.memberSuffix, default, .word member⟩] s := by
  have hid : Reads .joined (.rule .identifier) (member.toList ++ s)
      [wordItem .identifier member.toList] s :=
    (reads_identifier (by decide)).2 ⟨_, hname, rfl, hs, rfl⟩
  have hbody := (readsPast_lit ".").next rfl hid.past
  refine Reads.rule (by exact Layout.noConfusion) (readsPast_joined.1 hbody) fun _ => ?_
  simp [Rule.build, wordsOf, wordItem, Item.wordOf?]

/-- A member can touch an operand: what follows the dot is no digit. -/
theorem clear_dot {w : List Char} (hw : w.head?.any Rule.isNameStart = true) (s : List Char) :
    Clear ('.' :: (w ++ s)) := by
  cases w with
  | nil => cases hw
  | cons c w =>
    refine ⟨stops_cons.2 rfl, stops_cons.2 rfl, ?_⟩
    refine Grammar.fails_seq.2 (.inr ⟨c :: (w ++ s), Grammar.accepts_lit.2 rfl, ?_⟩)
    exact Grammar.fails_one.2 (stops_cons.2 (isDigit_of_isNameStart hw))

theorem roundTrips_member {base : Node} {member : String} (hspan : base.span = default)
    (ih : RoundTrips .operand base) (hname : IsName member.toList) :
    RoundTrips .operand ⟨.memberAccess (some base) member, default⟩ := by
  intro d s more rest hs hmore
  have hsuffix := reads_memberSuffix hname hs.word
  have hfails : sourceGrammar.Fails .joined (.rule .argumentClause) ('.' :: (member.toList ++ s)) :=
    fails_of_first _ rfl rfl rfl rfl
  have hmore' := reads_more.2 (.inr ⟨_, s, more, reads_alt_left (reads_alt_right hfails hsuffix),
    hmore, rfl⟩)
  have hclear : Clear ('.' :: (member.toList ++ s)) := clear_dot (isName_iff.1 hname).1 s
  have hall := ih d _ _ rest hclear hmore'
  rw [List.singleton_append, List.foldl_cons, applySuffix, hspan] at hall
  rw [charsAt_member, List.append_assoc]
  exact hall

theorem roundTrips_unwrap {operand : Node} (hspan : operand.span = default)
    (ih : RoundTrips .operand operand) : RoundTrips .operand ⟨.forceUnwrap operand, default⟩ := by
  intro d s more rest hs hmore
  have hsuffix : Reads .joined (.rule .forceUnwrap) _ _ s :=
    reads_forceUnwrap (by decide) hs.equals
  have hfails : sourceGrammar.Fails .joined (.rule .argumentClause / .rule .memberSuffix) ('!' :: s) :=
    fails_of_first _ rfl rfl rfl rfl
  have hmore' := reads_more.2 (.inr ⟨_, s, more, reads_alt_right hfails hsuffix, hmore, rfl⟩)
  have hclear : Clear ('!' :: s) := clear_cons _ rfl (by decide) (by decide)
  have hall := ih d _ _ rest hclear hmore'
  rw [List.singleton_append, List.foldl_cons, applySuffix, hspan] at hall
  rw [charsAt_unwrap, List.append_assoc]
  exact hall

/-! ## Signs, chains and casts -/

/-- An operand with nothing that touches it. -/
theorem reads_operand {n : Node} (ih : RoundTrips .operand n) (d : Nat) {s : List Char}
    (hs : Ends s) :
    Reads .spaced (.rule .postfixExpr) (n.charsAt d ++ s) [⟨.postfixExpr, default, .node n⟩] s :=
  ih d s [] s hs.clear (reads_more.2 (.inl ⟨fails_suffix hs, rfl, rfl⟩))

theorem roundTrips_ofOperand {n : Node} (h : Readable .operand n) (ih : RoundTrips .operand n) :
    RoundTrips .unary n := by
  intro d s hs
  have hoperand := reads_operand ih d hs
  rw [← after_charsAt h] at hoperand
  have hnone : Reads .spaced (.opt (.rule .prefixOperator)) (n.charsAt d ++ s) [] (n.charsAt d ++ s) := by
    obtain ⟨c, t, ht, hc⟩ := charsAt_eq_cons h d
    rw [ht]
    exact reads_opt.2 (.inr ⟨fails_prefixOperator hc _, rfl, rfl⟩)
  exact Reads.rule (by decide) (reads_seq.2 ⟨_, _, _, hnone, hoperand, rfl⟩) fun _ => rfl

theorem roundTrips_prefixed {operator : String} {operand : Node} (sign : operator ∈ ["-", "!"])
    (h : Readable .operand operand) (ih : RoundTrips .operand operand) :
    RoundTrips .unary ⟨.prefixed operator operand, default⟩ := by
  intro d s hs
  have hoperand := reads_operand ih d hs
  rw [← after_charsAt h] at hoperand
  have hblank : Stops Trivia.isBlank (operand.charsAt d ++ s) := by
    obtain ⟨c, t, ht, hc⟩ := charsAt_eq_cons h d
    have hsolid := isSolid_of_starts hc
    rw [ht]
    refine stops_cons.2 ?_
    simp only [isSolid, Bool.not_eq_true', Bool.or_eq_false_iff] at hsolid
    exact hsolid.1
  have hsign : Reads .spaced (.opt (.rule .prefixOperator)) (operator.toList ++ (operand.charsAt d ++ s))
      [wordItem .prefixOperator operator.toList] (operand.charsAt d ++ s) :=
    reads_opt.2 (.inl (reads_prefixOperator (by decide) sign hblank))
  rw [charsAt_prefixed, List.append_assoc]
  refine Reads.rule (by decide) (reads_seq.2 ⟨_, _, _, hsign, hoperand, rfl⟩) fun _ => ?_
  simp [Rule.build, wordsOf, nodesOf, wordItem, Item.wordOf?, Item.nodeOf?]

theorem roundTrips_ofUnary {n : Node} (ih : RoundTrips .unary n) : RoundTrips .expression n := by
  intro d s more rest hs hmore
  exact ((ih d s hs).past.seq hmore.many_of_more).plain rfl (by decide) fun _ => rfl

theorem space_ends (s : List Char) : Ends (' ' :: s) := stops_cons.2 rfl

/-- An operator and its right operand. -/
theorem readsPast_binaryTail {operator : String} {rhs : Node} (known : operator ∈ Rule.operators)
    (h : Readable .unary rhs) (ih : RoundTrips .unary rhs) (d : Nat) {s : List Char} (hs : Ends s) :
    ReadsPast .spaced tail (operator.toList ++ ' ' :: (rhs.charsAt d ++ s))
      [⟨.binaryTail, default, .operation operator rhs⟩] s := by
  have hoperator : Reads .spaced (.rule .binaryOperator) _ _ _ :=
    reads_binaryOperator (by decide) known (rhs.charsAt d ++ s)
  have hafter : after .spaced (' ' :: (rhs.charsAt d ++ s)) = rhs.charsAt d ++ s := by
    rw [after_space, after_charsAt h]
  have hbody := hoperator.past.next hafter (ih d s hs).past
  refine ReadsPast.alt_right ?_ (hbody.plain rfl (by decide) fun _ => ?_)
  · refine Grammar.fails_rule.2 (Grammar.fails_seq.2 (.inl (Grammar.fails_rule.2 ?_)))
    refine Grammar.fails_seq.2 (.inl (Grammar.fails_seq.2 (.inl ?_)))
    obtain ⟨c, t, ht, hc⟩ := operator_eq_cons known
    rw [ht]
    refine fails_lit_of_head (c := 'a') rfl (stops_cons.2 (beq_eq_false_iff_ne.2 ?_))
    rintro rfl
    cases hc
  · simp [Rule.build, wordsOf, nodesOf, wordItem, Item.wordOf?, Item.nodeOf?]

theorem roundTrips_binary {lhs rhs : Node} {operator : String} (hspan : lhs.span = default)
    (ihl : RoundTrips .expression lhs) (known : operator ∈ Rule.operators)
    (h : Readable .unary rhs) (ihr : RoundTrips .unary rhs) :
    RoundTrips .expression ⟨.binary lhs operator rhs, default⟩ := by
  intro d s more rest hs hmore
  have htail := readsPast_binaryTail known h ihr d hs
  rw [← after_operator known, ← after_space] at htail
  have hall := ihl d _ _ rest (space_ends _) (htail.more_cons hmore)
  rw [List.singleton_append, List.foldl_cons, applyTail, hspan] at hall
  rw [charsAt_binary, List.append_assoc, List.append_assoc]
  exact hall

/-- A cast behind an operand. -/
theorem readsPast_castTail (kind : CastKind) {target : Node} (h : Readable .type target)
    (ih : RoundTrips .type target) (d : Nat) {s : List Char} (hs : Ends s) :
    ReadsPast .spaced tail ((Render.castWord kind).toList ++ ' ' :: (target.charsAt d ++ s))
      [⟨.castTail, default, .castTo kind target⟩] s := by
  have hword : Reads .spaced (.rule .castOperator) _ _ _ :=
    reads_castOperator (by decide) kind (target.charsAt d ++ s)
  have hafter : after .spaced (' ' :: (target.charsAt d ++ s)) = target.charsAt d ++ s := by
    rw [after_space, after_charsAt h]
  have hbody := hword.past.next hafter (reads_type ih d hs.typeClear (hs.stops rfl)).past
  refine ReadsPast.alt_left (hbody.plain rfl (by decide) fun _ => ?_)
  simp [Rule.build, wordsOf, nodesOf, wordItem, typeItem, Item.wordOf?, Item.nodeOf?, ofSpelling_castWord]

theorem roundTrips_cast {value target : Node} {kind : CastKind} (hspan : value.span = default)
    (ihl : RoundTrips .expression value) (h : Readable .type target) (ihr : RoundTrips .type target) :
    RoundTrips .expression ⟨.cast value kind target, default⟩ := by
  intro d s more rest hs hmore
  have htail := readsPast_castTail kind h ihr d hs
  rw [← after_castWord, ← after_space] at htail
  have hall := ihl d _ _ rest (space_ends _) (htail.more_cons hmore)
  rw [List.singleton_append, List.foldl_cons, applyTail, hspan] at hall
  rw [charsAt_cast, List.append_assoc, List.append_assoc]
  exact hall

/-! ## Types -/

theorem reads_qualifiedName {w s : List Char} (hw : IsQualified w) (hstop : Stops Rule.isNameChar s)
    (hdot : Stops (· == '.') s) :
    Reads .joined (.rule .qualifiedName) (w ++ s) [wordItem .qualifiedName w] s :=
  (reads_spelled rfl (fun _ => rfl) (by decide)).2
    ⟨w, rfl, accepts_qualifiedName hw hstop hdot, rfl⟩

theorem reads_typeReference {name : String} {ts : List Node} (hname : IsQualified name.toList)
    (hts : ∀ t ∈ ts, Readable .type t) (ihts : ∀ t ∈ ts, RoundTrips .type t) {s : List Char}
    (hs : TypeClear s) :
    Reads .joined (.rule .typeReference) (name.toList ++ (genericsChars ts ++ s))
      [⟨.typeReference, default, .node ⟨.typeName name ts, default⟩⟩] s := by
  have hclear : Stops Rule.isNameChar (genericsChars ts ++ s) ∧
      Stops (· == '.') (genericsChars ts ++ s) := by
    cases ts with
    | nil => exact ⟨hs.word, hs.dot⟩
    | cons t ts => exact ⟨stops_cons.2 rfl, stops_cons.2 rfl⟩
  have hword := reads_qualifiedName hname hclear.1 hclear.2
  have hgenerics := reads_generics hts ihts hs.generic
  refine Reads.rule (by exact Layout.noConfusion)
    (reads_seq.2 ⟨_, _, _, hword, hgenerics, rfl⟩) fun _ => ?_
  have hwords : wordsOf .qualifiedName ([wordItem .qualifiedName name.toList] ++ genericsItems ts) =
      [name] := by
    cases ts <;> simp [wordsOf, wordItem, genericsItems, Item.wordOf?]
  have hnodes : genericsOf ([wordItem .qualifiedName name.toList] ++ genericsItems ts) = ts := by
    cases ts <;> simp [genericsOf, wordItem, genericsItems]
  simp only [Rule.build, hwords, hnodes]

theorem roundTrips_typeName {name : String} {ts : List Node} (hname : IsQualified name.toList)
    (hts : ∀ t ∈ ts, Readable .type t) (ihts : ∀ t ∈ ts, RoundTrips .type t) :
    RoundTrips .type ⟨.typeName name ts, default⟩ := by
  intro d s more rest hs hmore
  have href := reads_typeReference hname hts ihts hs
  have hmany := (reads_many_iff_more (by decide)).2 hmore
  -- The marks make no references.
  have hmarks : nodesOf [.typeReference] more = [] := by
    refine List.filterMap_eq_nil_iff.2 fun i hi => ?_
    have hrule := List.mem_singleton.1 (hmore.rule_mem (by decide) i hi)
    unfold Item.nodeOf?
    split
    · simp [hrule]
    · rfl
  rw [charsAt_typeName, List.append_assoc]
  refine Reads.rule (by exact Layout.noConfusion)
    (reads_seq.2 ⟨_, _, _, href, hmany, rfl⟩) fun _ => ?_
  have hnodes : ∀ n, nodesOf [.typeReference] ([⟨.typeReference, default, .node n⟩] ++ more) = [n] := by
    intro n
    rw [nodesOf] at hmarks ⊢
    rw [List.filterMap_append, hmarks]
    rfl
  simp only [Rule.build, hnodes]
  rfl

theorem roundTrips_optional {wrapped : Node} (hspan : wrapped.span = default)
    (ih : RoundTrips .type wrapped) : RoundTrips .type ⟨.optionalType wrapped, default⟩ := by
  intro d s more rest hs hmore
  have hmark : Reads .joined (.rule .optionalMark) ('?' :: s) [wordItem .optionalMark ['?']] s :=
    (reads_spelled rfl (fun _ => rfl) (by decide)).2
      ⟨['?'], rfl, Grammar.accepts_lit.2 rfl, rfl⟩
  have hmore' := reads_more.2 (.inr ⟨_, s, more, hmark, hmore, rfl⟩)
  have hall := ih d _ _ rest (typeClear_cons s rfl (by decide) (by decide)) hmore'
  rw [List.singleton_append, List.foldl_cons, applyMark, hspan] at hall
  rw [charsAt_optional, List.append_assoc]
  exact hall

/-! ## Patterns -/

theorem roundTrips_named {name : String} (hname : IsName name.toList) (hwild : name ≠ "_") :
    RoundTrips .pattern ⟨.namePattern name, default⟩ := by
  intro d s hs
  have hid : Reads .spaced (.rule .identifier) (name.toList ++ s) [wordItem .identifier name.toList] s :=
    (reads_identifier (by decide)).2 ⟨_, hname, rfl, hs, rfl⟩
  have hread : Reads .spaced (.rule .namePattern) (name.toList ++ s)
      [⟨.namePattern, default, .node ⟨.namePattern name, default⟩⟩] s := by
    refine (reads_rule (by decide)).2 ⟨name.toList, _, _, rfl, hid, ?_, rfl⟩
    simp [Rule.build]
  have hwildcard : sourceGrammar.Fails .spaced (.rule .wildcardPattern) (name.toList ++ s) := by
    refine Grammar.fails_rule.2 (fails_of_not_accepts (fun r hr => ?_) rfl)
    obtain ⟨q, hq, hend⟩ := Grammar.accepts_seq.1 hr
    have hq' : name.toList ++ s = ['_'] ++ q := Grammar.accepts_lit.1 hq
    obtain ⟨hf, -⟩ := Grammar.accepts_not.1 hend
    have heq := (run_unique hname.chars (by decide) hs (Grammar.fails_one.1 hf) hq').1
    exact hwild (String.toList_inj.1 heq)
  have htuple : sourceGrammar.Fails .spaced (.rule .tuplePattern) (name.toList ++ s) := by
    obtain ⟨c, t, ht, hc⟩ := hname.start
    have hstarts : Category.type.starts c = true := hc
    rw [ht]
    refine fails_of_first _ (isSolid_of_starts hstarts) (beq_eq_false_iff_ne.2 ?_) rfl rfl
    rintro rfl
    cases hc
  rw [charsAt_namePattern]
  exact (reads_alt_right (Grammar.fails_alt.2 ⟨htuple, hwildcard⟩) hread).past

theorem roundTrips_wildcard : RoundTrips .pattern ⟨.wildcardPattern, default⟩ := by
  intro d s hs
  have hread : Reads .spaced (.rule .wildcardPattern) ("_".toList ++ s)
      [⟨.wildcardPattern, default, .node ⟨.wildcardPattern, default⟩⟩] s := by
    refine (reads_word rfl (by decide)).2 ⟨_, _, rfl, ?_, rfl, rfl⟩
    exact Grammar.accepts_seq.2 ⟨s, Grammar.accepts_lit.2 rfl,
      Grammar.accepts_not.2 ⟨Grammar.fails_one.2 hs, rfl⟩⟩
  rw [charsAt_wildcard]
  exact (reads_alt_left (reads_alt_right (fails_of_first _ rfl rfl rfl rfl) hread)).past

theorem nodesOf_map_patternItem (ns : List Node) :
    nodesOf patternRules (ns.map patternItem) = ns := by
  refine filterMap_map_eq_self (fun n => ?_) ns
  unfold patternItem
  split <;> rfl

theorem roundTrips_tuplePattern {elements : List Node} (h : ∀ p ∈ elements, Readable .pattern p)
    (ih : ∀ p ∈ elements, RoundTrips .pattern p) :
    RoundTrips .pattern ⟨.tuplePattern elements, default⟩ := by
  intro d s hs
  have hclose : after .spaced (')' :: s) = ')' :: s := after_solid rfl s
  have hopen : ∀ t, ReadsPast .spaced (.lit "(") ('(' :: t) [] t := fun t => readsPast_lit "("
  have hbody : Reads .spaced (Rule.body .tuplePattern)
      ('(' :: (commaChars (Node.charsAt d) elements ++ ')' :: s)) (elements.map patternItem) s := by
    cases elements with
    | nil =>
      have hnone : ReadsPast .spaced (.opt (Rule.commaSeparated Rule.pattern)) (')' :: s) []
          (')' :: s) := readsPast_opt_none (fails_of_first s rfl rfl rfl rfl)
      exact ReadsPast.seq_lit (w := ")") ((hopen _).next hclose hnone) hclose
    | cons p ps =>
      have hlist : ReadsPast .spaced (Rule.commaSeparated Rule.pattern)
          (commaChars (Node.charsAt d) (p :: ps) ++ ')' :: s) ((p :: ps).map patternItem) (')' :: s) :=
        readsPast_commaSeparated (Stops Rule.isNameChar) p ps
          (fun q hq t ht => ih q hq d t ht) (fun q hq t => after_charsAt (h q hq) d t)
          (fun t => stops_cons.2 rfl) (stops_cons.2 rfl) (by rw [hclose]; exact stops_cons.2 rfl)
      have hfirst : after .spaced (commaChars (Node.charsAt d) (p :: ps) ++ ')' :: s) =
          commaChars (Node.charsAt d) (p :: ps) ++ ')' :: s := by
        rw [commaChars, List.append_assoc]
        exact after_charsAt (h p List.mem_cons_self) d _
      exact ReadsPast.seq_lit (w := ")") ((hopen _).next hfirst hlist.opt) hclose
  have hread : Reads .spaced (.rule .tuplePattern) _
      [⟨.tuplePattern, default, .node ⟨.tuplePattern elements, default⟩⟩] s :=
    Reads.rule (by decide) hbody fun _ => by simp only [Rule.build, nodesOf_map_patternItem]
  rw [charsAt_tuplePattern, List.append_assoc]
  exact (reads_alt_left (reads_alt_left hread)).past

/-! ## All of them -/

/-- A readable expression, type, attribute or pattern is read back from its text. -/
theorem roundTrips {category : Category} {n : Node} (h : Readable category n) :
    RoundTrips category n := by
  induction h with
  | emptyString => exact roundTrips_emptyString
  | string nonempty apart inner ih => exact roundTrips_string nonempty apart inner ih
  | integer digits => exact roundTrips_integer digits
  | float whole part => exact roundTrips_float whole part
  | boolean value => exact roundTrips_boolean value
  | nil => exact roundTrips_nil
  | macroUse isName types labels inner ihTypes ihInner =>
    exact roundTrips_macroUse isName types ihTypes (fun a ha => ⟨labels a ha, inner a ha⟩) ihInner
  | implicitMember isName => exact roundTrips_implicitMember isName
  | tuple labels inner ih => exact roundTrips_tuple (fun a ha => ⟨labels a ha, inner a ha⟩) ih
  | identifier isName => exact roundTrips_identifier isName
  | ofPrimary _ ih => exact roundTrips_ofPrimary ih
  | call h labels inner ih ihInner =>
    exact roundTrips_call h.span_eq ih (fun a ha => ⟨labels a ha, inner a ha⟩) ihInner
  | member h isName ih => exact roundTrips_member h.span_eq ih isName
  | unwrap h ih => exact roundTrips_unwrap h.span_eq ih
  | ofOperand h ih => exact roundTrips_ofOperand h ih
  | prefixed sign h ih => exact roundTrips_prefixed sign h ih
  | ofUnary _ ih => exact roundTrips_ofUnary ih
  | binary left known right ihl ihr => exact roundTrips_binary left.span_eq ihl known right ihr
  | cast left right ihl ihr => exact roundTrips_cast left.span_eq ihl right ihr
  | typeName qualified types ih => exact roundTrips_typeName qualified types ih
  | optional h ih => exact roundTrips_optional h.span_eq ih
  | attr isName types labels inner ihTypes ihInner =>
    exact roundTrips_attr isName types ihTypes (fun a ha => ⟨labels a ha, inner a ha⟩) ihInner
  | named isName notWildcard => exact roundTrips_named isName notWildcard
  | wildcard => exact roundTrips_wildcard
  | tuplePattern inner ih => exact roundTrips_tuplePattern inner ih
  | name | binding | accessor | variableDecl | functionDecl | ofExpression => exact trivial

/-! ## Whole texts -/

theorem readsPast_endOfInput :
    ReadsPast .spaced (.rule .endOfInput) [] [⟨.endOfInput, default, .nothing⟩] [] := by
  have hfinish : ReadsPast .spaced (Rule.body .endOfInput) [] [] [] :=
    Reads.past (reads_not.2 ⟨Grammar.fails_one.2 (stops_nil _), rfl, rfl⟩)
  exact hfinish.plain rfl (by decide) fun _ => rfl

/-- An entry reads a whole text. -/
theorem readChars_of_readsPast (entry : Entry) {e : Peg Rule} {rules : List Rule} {s : List Char}
    {items : List Item} (hstyle : entry.rule.style = .plain)
    (hbody : entry.rule.body = .empty ++ e ++ .rule .endOfInput)
    (hbuild : ∀ text items, entry.rule.build default text items = .ok (.nodes (nodesOf rules items)))
    (hsolid : after .spaced s = s) (hread : ReadsPast .spaced e s items []) :
    ∃ nodes, readChars entry s = .ok nodes ∧ nodes.map Node.eraseSpans = nodesOf rules items := by
  have hempty : ReadsPast .spaced .empty s [] s := Reads.past (reads_empty.2 ⟨rfl, rfl⟩)
  have hall := (hempty.next hsolid hread).next after_nil readsPast_endOfInput
  rw [← hbody] at hall
  obtain ⟨rest, hrule, -⟩ := hall.plain hstyle (by decide) fun text => hbuild text _
  obtain ⟨nodes, hnodes, herase⟩ := readChars_of_reads hrule
  refine ⟨nodes, hnodes, ?_⟩
  rw [herase]
  simp [genericsOf, nodesOf, Item.nodeOf?]

/-- An entry for one node: the node, and nothing behind it. -/
theorem readOne_of_readsPast (entry : Entry) {r : Rule} {s : List Char} {n : Node}
    (hstyle : entry.rule.style = .plain)
    (hbody : entry.rule.body = .empty ++ .rule r ++ .rule .endOfInput)
    (hbuild : ∀ text items, entry.rule.build default text items = .ok (.nodes (nodesOf [r] items)))
    (hsolid : after .spaced s = s)
    (hread : ReadsPast .spaced (.rule r) s [⟨r, default, .node n⟩] []) :
    ∃ m, readOne entry (String.ofList s) = .ok m ∧ m.eraseSpans = n := by
  obtain ⟨nodes, hnodes, herase⟩ := readChars_of_readsPast entry hstyle hbody hbuild hsolid hread
  have hone : nodes.map Node.eraseSpans = [n] := by
    rw [herase]
    simp [nodesOf, Item.nodeOf?]
  obtain ⟨m, rfl, hm⟩ := List.map_eq_singleton_iff.1 hone
  refine ⟨m, ?_, hm⟩
  rw [readOne, read, String.toList_ofList, hnodes]

theorem readable_of_readOne {entry : Entry} {text : String} {n : Node}
    (h : readOne entry text = .ok n) : Readable entry.category n.eraseSpans := by
  unfold readOne at h
  split at h
  · cases h
  · next m hm =>
    obtain rfl := Except.ok.inj h
    exact readable_of_readChars hm m List.mem_cons_self
  · cases h

/-- The text of a readable expression is read back as an expression. -/
theorem readExpression_render {n : Node} (h : Readable .expression n) :
    ∃ m, readExpression n.render = .ok m ∧ m.eraseSpans = n := by
  have hread := roundTrips h 0 [] [] [] Closed.nil.ends Closed.nil.no_tail
  rw [List.append_nil] at hread
  have hsolid := after_charsAt h 0 []
  rw [List.append_nil] at hsolid
  have hone := readOne_of_readsPast .expression rfl rfl (fun _ _ => rfl) hsolid hread
  rw [Node.charsAt, String.ofList_toList] at hone
  exact hone

/-- The text of a readable type is read back as a type. -/
theorem readType_render {n : Node} (h : Readable .type n) :
    ∃ m, readType n.render = .ok m ∧ m.eraseSpans = n := by
  have hread := reads_type (roundTrips h) 0 Closed.nil.ends.typeClear (Closed.nil.ends.stops rfl)
  rw [List.append_nil] at hread
  have hsolid := after_charsAt h 0 []
  rw [List.append_nil] at hsolid
  have hone := readOne_of_readsPast .type rfl rfl (fun _ _ => rfl) hsolid hread.past
  rw [Node.charsAt, String.ofList_toList] at hone
  exact hone

/-- Reading the canonical text of an expression or a type that was read gives it back, up to
spans. -/
theorem render_reads_back :
    (∀ text n, readExpression text = .ok n →
      ∃ m, readExpression n.render = .ok m ∧ m.eraseSpans = n.eraseSpans ∧ m.render = n.render) ∧
    (∀ text n, readType text = .ok n →
      ∃ m, readType n.render = .ok m ∧ m.eraseSpans = n.eraseSpans ∧ m.render = n.render) := by
  have htext : ∀ {m n : Node}, m.eraseSpans = n.eraseSpans → m.render = n.render := by
    intro m n h
    rw [← Node.render_eraseSpans m, h, Node.render_eraseSpans]
  constructor
  · intro text n h
    obtain ⟨m, hm, heq⟩ := readExpression_render (readable_of_readOne h)
    rw [Node.render_eraseSpans] at hm
    exact ⟨m, hm, heq, htext heq⟩
  · intro text n h
    obtain ⟨m, hm, heq⟩ := readType_render (readable_of_readOne h)
    rw [Node.render_eraseSpans] at hm
    exact ⟨m, hm, heq, htext heq⟩

theorem exists_of_isOk {α β : Type} {e : Except α β} (h : e.isOk = true) : ∃ b, e = .ok b := by
  cases e with
  | error _ => cases h
  | ok b => exact ⟨b, rfl⟩

/-- The result is there and passes a test. -/
def okAnd {α β : Type} (e : Except α β) (p : β → Bool) : Bool :=
  match e with
  | .ok b => p b
  | .error _ => false

theorem exists_of_okAnd {α β : Type} {e : Except α β} {p : β → Bool} (h : okAnd e p = true) :
    ∃ b, e = .ok b ∧ p b = true := by
  cases e with
  | error _ => cases h
  | ok b => exact ⟨b, rfl, h⟩

/-- Exactly one node was read, and it passes a test. -/
def oneAnd (e : Except ReadError (List Node)) (p : Node → Bool) : Bool :=
  okAnd e fun nodes => nodes.length == 1 && nodes.all p

theorem exists_of_oneAnd {e : Except ReadError (List Node)} {p : Node → Bool}
    (h : oneAnd e p = true) : ∃ n, e = .ok [n] ∧ p n = true := by
  obtain ⟨nodes, rfl, hnodes⟩ := exists_of_okAnd h
  obtain ⟨hlength, hall⟩ := Bool.and_eq_true_iff.1 hnodes
  obtain ⟨n, rfl⟩ := List.length_eq_one_iff.1 (beq_iff_eq.1 hlength)
  exact ⟨n, rfl, List.all_eq_true.1 hall n List.mem_cons_self⟩

theorem render_reads_back_chain :
    (∃ n m, readExpression "f( x :1 ,\"\\u\x7b41\x7d\",)!  as?  T ??-y" = .ok n ∧
      readExpression n.render = .ok m ∧ m.eraseSpans = n.eraseSpans) ∧
    (∃ n m, readType "Map<A.B ,C?>?" = .ok n ∧
      readType n.render = .ok m ∧ m.eraseSpans = n.eraseSpans) := by
  constructor
  · obtain ⟨n, hn⟩ := exists_of_isOk
      (by decide +kernel : (readExpression "f( x :1 ,\"\\u\x7b41\x7d\",)!  as?  T ??-y").isOk = true)
    obtain ⟨m, hm, heq, -⟩ := render_reads_back.1 _ n hn
    exact ⟨n, m, hn, hm, heq⟩
  · obtain ⟨n, hn⟩ := exists_of_isOk (by decide +kernel : (readType "Map<A.B ,C?>?").isOk = true)
    obtain ⟨m, hm, heq, -⟩ := render_reads_back.2 _ n hn
    exact ⟨n, m, hn, hm, heq⟩

end SwiftMacro
