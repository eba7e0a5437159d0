import SwiftMacro.Proofs.Arguments
/-!
# Literals, names and uses are read back

Each operand before anything that follows it, one lemma for each shape. The alternatives of the
grammar are tried in order, so each lemma also says why the earlier ones fail.
-/

namespace SwiftMacro

open Peg

/-! ## String literals -/

/-- A segment as an item of its rule. -/
def segmentItem : Segment Node → Item
  | .text content => wordItem .stringText content.toList
  | .interpolation e => ⟨.interpolation, default, .node e⟩

theorem segment?_segmentItem (segment : Segment Node) :
    (segmentItem segment).segment? = some segment := by
  cases segment with
  | text content => simp [segmentItem, wordItem, Item.segment?]
  | interpolation e => rfl

theorem filterMap_segmentItem (segments : List (Segment Node)) :
    (segments.map segmentItem).filterMap Item.segment? = segments :=
  filterMap_map_eq_self segment?_segmentItem segments

theorem reads_interpolation {e : Node} (hread : Readable .expression e)
    (ih : RoundTrips .expression e) (s : List Char) :
    Reads .joined (.rule .interpolation) ((Segment.interpolation e).chars ++ s)
      [segmentItem (.interpolation e)] s := by
  have he : ReadsPast .spaced (.rule .expr) (e.charsAt 0 ++ ')' :: s)
      [⟨.expr, default, .node e⟩] (')' :: s) :=
    ih 0 _ [] _ (Closed.bracket s).ends (Closed.bracket s).no_tail
  have hopen : ReadsPast .spaced (.lit "\\(") ('\\' :: '(' :: (e.charsAt 0 ++ ')' :: s)) []
      (e.charsAt 0 ++ ')' :: s) := readsPast_lit "\\("
  have hall := ReadsPast.seq_lit (w := ")") (hopen.next (after_charsAt hread 0 _) he)
    (after_solid rfl s)
  rw [Segment.chars, List.append_assoc, List.cons_append, List.cons_append, List.singleton_append]
  exact Reads.rule (by exact Layout.noConfusion) hall fun _ => rfl

/-- Segments that are apart are read back, up to the closing quote. -/
theorem reads_segments {segments : List (Segment Node)} (happart : Apart segments)
    (hread : ∀ e ∈ segments.filterMap Segment.expression?, Readable .expression e)
    (ih : ∀ e ∈ segments.filterMap Segment.expression?, RoundTrips .expression e) (s : List Char) :
    Reads .joined (.more (.rule .interpolation / .rule .stringText))
      (segments.flatMap Segment.chars ++ '"' :: s) (segments.map segmentItem) ('"' :: s) := by
  induction segments with
  | nil =>
    refine reads_more.2 (.inl ⟨Grammar.fails_alt.2 ⟨fails_of_first s rfl rfl rfl rfl, ?_⟩, rfl, rfl⟩)
    exact Grammar.fails_rule.2 (Grammar.fails_seq.2 (.inl (fails_stringUnit (.inl ⟨s, rfl⟩))))
  | cons segment segments ihs =>
    rw [List.flatMap_cons, List.append_assoc, List.map_cons]
    cases segment with
    | interpolation e =>
      have hrest := ihs happart (fun x hx => hread x (List.mem_cons_of_mem _ hx))
        fun x hx => ih x (List.mem_cons_of_mem _ hx)
      have hfirst := reads_interpolation (hread e List.mem_cons_self) (ih e List.mem_cons_self)
        (segments.flatMap Segment.chars ++ '"' :: s)
      exact reads_more.2 (.inr ⟨_, _, _, reads_alt.2 (.inl hfirst), hrest, rfl⟩)
    | text content =>
      obtain ⟨hne, hapart', hends⟩ : content ≠ "" ∧ Apart segments ∧
          EndsText (segments.flatMap Segment.chars ++ '"' :: s) := by
        cases segments with
        | nil => exact ⟨happart, trivial, .inl ⟨s, rfl⟩⟩
        | cons next segments =>
          cases next with
          | text _ => exact absurd happart id
          | interpolation e =>
            refine ⟨happart.1, happart.2, .inr ⟨e.charsAt 0 ++ [')'] ++
              (segments.flatMap Segment.chars ++ '"' :: s), ?_⟩⟩
            simp [Segment.chars]
      have hne' : content.toList ≠ [] := by
        intro hnil
        exact hne (String.toList_inj.1 hnil)
      have hrest := ihs hapart' hread ih
      have hfirst := reads_stringText hne' hends
      exact reads_more.2 (.inr ⟨_, _, _,
        reads_alt.2 (.inr ⟨fails_interpolation hne' _, hfirst⟩), hrest, rfl⟩)

theorem reads_stringLiteral {segments : List (Segment Node)} (happart : Apart segments)
    (hread : ∀ e ∈ segments.filterMap Segment.expression?, Readable .expression e)
    (ih : ∀ e ∈ segments.filterMap Segment.expression?, RoundTrips .expression e) (s : List Char) :
    Reads .joined (.rule .stringLiteral) ('"' :: segments.flatMap Segment.chars ++ '"' :: s)
      [⟨.stringLiteral, default,
        .node ⟨.stringLiteral (if segments.isEmpty then [.text ""] else segments), default⟩⟩] s := by
  have hmany := (reads_many_iff_more (by decide)).2 (reads_segments happart hread ih s)
  have hopen : ReadsPast .joined (.lit "\"") ('"' :: (segments.flatMap Segment.chars ++ '"' :: s)) []
      (segments.flatMap Segment.chars ++ '"' :: s) := readsPast_lit "\""
  have hall := ReadsPast.seq_lit (w := "\"") (hopen.next rfl hmany.past) rfl
  refine Reads.rule (by exact Layout.noConfusion) hall fun _ => ?_
  simp only [Rule.build, List.nil_append, filterMap_segmentItem]
  cases segments <;> rfl

/-! ## Primary operands -/

theorem reads_alt_left {layout : Layout} {a b : Peg Rule} {s rest : List Char} {items : List Item}
    (h : Reads layout a s items rest) : Reads layout (a / b) s items rest :=
  reads_alt.2 (.inl h)

theorem reads_alt_right {layout : Layout} {a b : Peg Rule} {s rest : List Char} {items : List Item}
    (ha : sourceGrammar.Fails layout a s) (h : Reads layout b s items rest) :
    Reads layout (a / b) s items rest :=
  reads_alt.2 (.inr ⟨ha, h⟩)

theorem heads_node (r : Rule) (n : Node) : Heads ⟨r, default, .node n⟩ n := fun _ _ => rfl

theorem digit_starts {w s : List Char} (hw : IsDigits w) :
    sourceGrammar.Fails .joined (.rule .stringLiteral) (w ++ s) := by
  obtain ⟨c, t, rfl, hc⟩ := eq_cons_of_isDigits hw
  refine fails_of_first _ (isSolid_of_isDigit hc) (beq_eq_false_iff_ne.2 ?_) rfl rfl
  rintro rfl
  cases hc

theorem roundTrips_integer {w : List Char} (hw : IsDigits w) :
    RoundTrips .primary ⟨.integerLiteral (String.ofList w), default⟩ := by
  intro d s hs
  have hstop : Stops Char.isDigit s := hs.word.mono fun c hc => by
    simp [Rule.isNameChar, Char.isAlphanum, hc]
  have hint : Reads .joined (.rule .integerLiteral) (w ++ s)
      [⟨.integerLiteral, default, .node ⟨.integerLiteral (String.ofList w), default⟩⟩] s :=
    (reads_word rfl (by decide)).2
      ⟨w, _, rfl, accepts_integer.2 ⟨w, hw, rfl, hstop, hs.fraction⟩, rfl, rfl⟩
  have hfails := Grammar.fails_alt.2 ⟨digit_starts hw, fails_float hw hstop hs.fraction⟩
  refine ⟨_, ?_, heads_node .integerLiteral _⟩
  rw [charsAt_integer, String.toList_ofList]
  exact reads_alt_left (reads_alt_left (reads_alt_left (reads_alt_left (reads_alt_left
    (reads_alt_left (reads_alt_right hfails hint))))))

theorem roundTrips_float {w v : List Char} (hw : IsDigits w) (hv : IsDigits v) :
    RoundTrips .primary ⟨.floatLiteral (String.ofList (w ++ '.' :: v)), default⟩ := by
  intro d s hs
  have hstop : Stops Char.isDigit s := hs.word.mono fun c hc => by
    simp [Rule.isNameChar, Char.isAlphanum, hc]
  have hfloat : Reads .joined (.rule .floatLiteral) (w ++ '.' :: v ++ s)
      [⟨.floatLiteral, default, .node ⟨.floatLiteral (String.ofList (w ++ '.' :: v)), default⟩⟩] s :=
    (reads_word rfl (by decide)).2
      ⟨w ++ '.' :: v, _, rfl, accepts_float.2 ⟨w, v, hw, hv, rfl, hstop⟩, rfl, rfl⟩
  have hfails : sourceGrammar.Fails .joined (.rule .stringLiteral) (w ++ '.' :: v ++ s) := by
    rw [List.append_assoc]
    exact digit_starts hw
  refine ⟨_, ?_, heads_node .floatLiteral _⟩
  rw [charsAt_float, String.toList_ofList]
  exact reads_alt_left (reads_alt_left (reads_alt_left (reads_alt_left (reads_alt_left
    (reads_alt_left (reads_alt_left (reads_alt_right hfails hfloat)))))))

theorem roundTrips_boolean (value : Bool) :
    RoundTrips .primary ⟨.booleanLiteral value, default⟩ := by
  intro d s hs
  have hword : ∀ w ∈ ["true", "false"], Reads .joined (.rule .booleanLiteral) (w.toList ++ s)
      [⟨.booleanLiteral, default, .node ⟨.booleanLiteral (w == "true"), default⟩⟩] s := by
    intro w hw
    refine (reads_word rfl (by decide)).2
      ⟨w.toList, _, rfl, accepts_boolean.2 ⟨w, hw, rfl, hs.word⟩, ?_, rfl⟩
    simp [Rule.build]
  have hread : Reads .joined (.rule .booleanLiteral) ((if value then "true" else "false").toList ++ s)
      [⟨.booleanLiteral, default, .node ⟨.booleanLiteral value, default⟩⟩] s := by
    cases value
    · exact hword "false" (by decide)
    · exact hword "true" (by decide)
  have hfails : sourceGrammar.Fails .joined
      (.rule .stringLiteral / .rule .floatLiteral / .rule .integerLiteral)
      ((if value then "true" else "false").toList ++ s) := by
    cases value
    · exact fails_of_first _ rfl rfl rfl rfl
    · exact fails_of_first _ rfl rfl rfl rfl
  refine ⟨_, ?_, heads_node .booleanLiteral _⟩
  rw [charsAt_boolean]
  exact reads_alt_left (reads_alt_left (reads_alt_left (reads_alt_left (reads_alt_left
    (reads_alt_right hfails hread)))))

theorem roundTrips_nil : RoundTrips .primary ⟨.nilLiteral, default⟩ := by
  intro d s hs
  have hread : Reads .joined (.rule .nilLiteral) ("nil".toList ++ s)
      [⟨.nilLiteral, default, .node ⟨.nilLiteral, default⟩⟩] s :=
    (reads_word rfl (by decide)).2
      ⟨_, _, rfl, accepts_nil.2 ⟨"nil", by decide, rfl, hs.word⟩, rfl, rfl⟩
  have hboolean : sourceGrammar.Fails .joined (.rule .booleanLiteral) ("nil".toList ++ s) := by
    refine Grammar.fails_rule.2 (Grammar.fails_seq.2 (.inl (fails_anyOf.2 ?_)))
    simp only [List.mem_cons, List.not_mem_nil, or_false]
    rintro w (rfl | rfl) ⟨t, ht⟩ <;> cases (List.cons.inj ht).1
  have hnumber : sourceGrammar.Fails .joined
      (.rule .stringLiteral / .rule .floatLiteral / .rule .integerLiteral) ("nil".toList ++ s) :=
    fails_of_first _ rfl rfl rfl rfl
  refine ⟨_, ?_, heads_node .nilLiteral _⟩
  rw [charsAt_nil]
  exact reads_alt_left (reads_alt_left (reads_alt_left (reads_alt_left
    (reads_alt_right (Grammar.fails_alt.2 ⟨hnumber, hboolean⟩) hread))))

theorem roundTrips_string {segments : List (Segment Node)} (hne : segments ≠ [])
    (happart : Apart segments)
    (hread : ∀ e ∈ segments.filterMap Segment.expression?, Readable .expression e)
    (ih : ∀ e ∈ segments.filterMap Segment.expression?, RoundTrips .expression e) :
    RoundTrips .primary ⟨.stringLiteral segments, default⟩ := by
  intro d s _
  have hstring := reads_stringLiteral happart hread ih s
  rw [if_neg (by simpa using hne)] at hstring
  refine ⟨_, ?_, heads_node .stringLiteral _⟩
  rw [charsAt_string, List.append_assoc, List.singleton_append]
  exact reads_alt_left (reads_alt_left (reads_alt_left (reads_alt_left (reads_alt_left
    (reads_alt_left (reads_alt_left (reads_alt_left hstring)))))))

theorem roundTrips_emptyString : RoundTrips .primary ⟨.stringLiteral [.text ""], default⟩ := by
  intro d s _
  have happart : Apart [] := trivial
  have hstring := reads_stringLiteral happart (by simp) (by simp) s
  refine ⟨_, ?_, heads_node .stringLiteral _⟩
  rw [charsAt_string]
  exact reads_alt_left (reads_alt_left (reads_alt_left (reads_alt_left (reads_alt_left
    (reads_alt_left (reads_alt_left (reads_alt_left hstring)))))))

/-- A name with type arguments and arguments behind a sign. -/
theorem reads_use (sign : String) {name : String} {ts : List Node}
    {clause : List Char} {items : List Item} {s : List Char} (hname : IsName name.toList)
    (hts : ∀ t ∈ ts, Readable .type t) (ihts : ∀ t ∈ ts, RoundTrips .type t)
    (hclause : Reads .joined (.opt (.rule .argumentClause)) (clause ++ s) items s)
    (hstop : Stops Rule.isNameChar (clause ++ s)) (hgeneric : Stops (· == '<') (clause ++ s)) :
    Reads .joined (Rule.use sign) (sign.toList ++ (name.toList ++ (genericsChars ts ++ (clause ++ s))))
      ([wordItem .identifier name.toList] ++ genericsItems ts ++ items) s := by
  have hstop' : Stops Rule.isNameChar (genericsChars ts ++ (clause ++ s)) := by
    cases ts with
    | nil => exact hstop
    | cons t ts => exact stops_cons.2 rfl
  have hid : Reads .joined (.rule .identifier)
      (name.toList ++ (genericsChars ts ++ (clause ++ s))) [wordItem .identifier name.toList]
      (genericsChars ts ++ (clause ++ s)) :=
    (reads_identifier (by decide)).2 ⟨_, hname, rfl, hstop', rfl⟩
  have hgenerics := reads_generics hts ihts hgeneric
  have hall := (((readsPast_lit sign).next rfl hid.past).next rfl hgenerics.past).next rfl
    hclause.past
  exact readsPast_joined.1 hall

theorem wordsOf_use (name : List Char) (ts : List Node) (items : List Item)
    (hitems : wordsOf .identifier items = []) :
    wordsOf .identifier ([wordItem .identifier name] ++ genericsItems ts ++ items) =
      [String.ofList name] := by
  cases ts <;> simp_all [wordsOf, wordItem, genericsItems, Item.wordOf?]

theorem genericsOf_use (name : List Char) (ts : List Node) (items : List Item)
    (hitems : genericsOf items = []) :
    genericsOf ([wordItem .identifier name] ++ genericsItems ts ++ items) = ts := by
  cases ts <;> simp_all [genericsOf, wordItem, genericsItems]

theorem argumentsOf_use (name : List Char) (ts : List Node) (items : List Item) :
    argumentsOf ([wordItem .identifier name] ++ genericsItems ts ++ items) = argumentsOf items := by
  cases ts <;> simp_all [argumentsOf, wordItem, genericsItems]

theorem wordsOf_clause (as : List (Argument Node)) :
    wordsOf .identifier [⟨.argumentClause, default, .arguments as⟩] = [] := rfl

theorem genericsOf_clause (as : List (Argument Node)) :
    genericsOf [⟨.argumentClause, default, .arguments as⟩] = [] := rfl

theorem argumentsOf_clause (as : List (Argument Node)) :
    argumentsOf [⟨.argumentClause, default, .arguments as⟩] = as := by
  simp [argumentsOf]

/-- A clause of arguments, or none. -/
theorem reads_clause {as : List (Argument Node)} (has : ∀ a ∈ as, a.IsReadable)
    (ih : ∀ a ∈ as, RoundTrips .expression a.expression) (s : List Char) :
    Reads .joined (.opt (.rule .argumentClause)) (argumentsChars as ++ s)
      [⟨.argumentClause, default, .arguments as⟩] s :=
  reads_opt.2 (.inl (reads_argumentClause has ih s))

theorem roundTrips_macroUse {name : String} {ts : List Node} {as : List (Argument Node)}
    (hname : IsName name.toList) (hts : ∀ t ∈ ts, Readable .type t)
    (ihts : ∀ t ∈ ts, RoundTrips .type t) (has : ∀ a ∈ as, a.IsReadable)
    (ih : ∀ a ∈ as, RoundTrips .expression a.expression) :
    RoundTrips .primary ⟨.macroUse name ts as, default⟩ := by
  intro d s _
  have huse := reads_use "#" hname hts ihts (reads_clause has ih s) (stops_cons.2 rfl)
    (stops_cons.2 rfl)
  have hmacro : Reads .joined (.rule .macroUse)
      ('#' :: (name.toList ++ (genericsChars ts ++ (argumentsChars as ++ s))))
      [⟨.macroUse, default, .node ⟨.macroUse name ts as, default⟩⟩] s := by
    refine Reads.rule (by exact Layout.noConfusion) huse fun _ => ?_
    simp only [Rule.build, wordsOf_use _ _ _ (wordsOf_clause as), genericsOf_use _ _ _ (genericsOf_clause as),
      argumentsOf_use, argumentsOf_clause, String.ofList_toList]
  have hfails : sourceGrammar.Fails .joined
      (.rule .stringLiteral / .rule .floatLiteral / .rule .integerLiteral / .rule .booleanLiteral /
        .rule .nilLiteral) ('#' :: (name.toList ++ (genericsChars ts ++ (argumentsChars as ++ s)))) :=
    fails_of_first _ rfl rfl rfl rfl
  refine ⟨_, ?_, heads_node .macroUse _⟩
  rw [charsAt_macroUse, List.append_assoc, List.append_assoc, List.cons_append]
  exact reads_alt_left (reads_alt_left (reads_alt_left (reads_alt_right hfails hmacro)))

theorem roundTrips_attr {name : String} {ts : List Node} {as : List (Argument Node)}
    (hname : IsName name.toList) (hts : ∀ t ∈ ts, Readable .type t)
    (ihts : ∀ t ∈ ts, RoundTrips .type t) (has : ∀ a ∈ as, a.IsReadable)
    (ih : ∀ a ∈ as, RoundTrips .expression a.expression) :
    RoundTrips .attr ⟨.attr name ts as, default⟩ := by
  intro d s
  rw [charsAt_attr, List.append_assoc, List.append_assoc, List.cons_append]
  cases as with
  | nil =>
    have hnone : Reads .joined (.opt (.rule .argumentClause)) ([] ++ ' ' :: s) [] (' ' :: s) := by
      refine reads_opt.2 (.inr ⟨Grammar.fails_rule.2 (Grammar.fails_seq.2 (.inl ?_)), rfl, rfl⟩)
      exact Grammar.fails_seq.2 (.inl (fails_lit_of_head (c := '(') rfl (stops_cons.2 rfl)))
    have huse := reads_use "@" hname hts ihts hnone (stops_cons.2 rfl) (stops_cons.2 rfl)
    refine Reads.rule (by exact Layout.noConfusion) huse fun _ => ?_
    have hwords : wordsOf .identifier [] = [] := rfl
    have hnodes : genericsOf [] = [] := rfl
    have harguments : argumentsOf [] = [] := rfl
    simp only [Rule.build, wordsOf_use _ _ _ hwords, genericsOf_use _ _ _ hnodes,
      argumentsOf_use, harguments, String.ofList_toList]
  | cons a as =>
    have huse := reads_use "@" hname hts ihts (reads_clause has ih (' ' :: s)) (stops_cons.2 rfl)
      (stops_cons.2 rfl)
    refine Reads.rule (by exact Layout.noConfusion) huse fun _ => ?_
    simp only [Rule.build, wordsOf_use _ _ _ (wordsOf_clause _), genericsOf_use _ _ _ (genericsOf_clause _),
      argumentsOf_use, argumentsOf_clause, String.ofList_toList]

theorem roundTrips_implicitMember {member : String} (hname : IsName member.toList) :
    RoundTrips .primary ⟨.memberAccess none member, default⟩ := by
  intro d s hs
  have hid : Reads .joined (.rule .identifier) (member.toList ++ s)
      [wordItem .identifier member.toList] s :=
    (reads_identifier (by decide)).2 ⟨_, hname, rfl, hs.word, rfl⟩
  have hbody := (readsPast_lit ".").next rfl hid.past
  have hmember : Reads .joined (.rule .implicitMember) ('.' :: (member.toList ++ s))
      [⟨.implicitMember, default, .node ⟨.memberAccess none member, default⟩⟩] s := by
    refine Reads.rule (by exact Layout.noConfusion) (readsPast_joined.1 hbody) fun _ => ?_
    simp [Rule.build, wordsOf, wordItem, Item.wordOf?]
  have hfails : sourceGrammar.Fails .joined
      (.rule .stringLiteral / .rule .floatLiteral / .rule .integerLiteral / .rule .booleanLiteral /
        .rule .nilLiteral / .rule .macroUse) ('.' :: (member.toList ++ s)) :=
    fails_of_first _ rfl rfl rfl rfl
  refine ⟨_, ?_, heads_node .implicitMember _⟩
  rw [charsAt_implicitMember, List.cons_append]
  exact reads_alt_left (reads_alt_left (reads_alt_right hfails hmember))

theorem roundTrips_tuple {as : List (Argument Node)} (has : ∀ a ∈ as, a.IsReadable)
    (ih : ∀ a ∈ as, RoundTrips .expression a.expression) :
    RoundTrips .primary ⟨.tuple as, default⟩ := by
  intro d s _
  have hfails : sourceGrammar.Fails .joined
      (.rule .stringLiteral / .rule .floatLiteral / .rule .integerLiteral / .rule .booleanLiteral /
        .rule .nilLiteral / .rule .macroUse / .rule .implicitMember) (argumentsChars as ++ s) :=
    fails_of_first _ rfl rfl rfl rfl
  refine ⟨_, ?_, heads_node .tupleExpr _⟩
  rw [charsAt_tuple]
  exact reads_alt_left (reads_alt_right hfails (reads_tupleExpr has ih s))

/-- The rules of operands that start with a sign or a digit. -/
def signedRules : List Rule :=
  [.stringLiteral, .floatLiteral, .integerLiteral, .macroUse, .implicitMember, .tupleExpr]

theorem firsts_of_isNameStart {c : Char} (hc : Rule.isNameStart c = true) :
    ∀ r ∈ signedRules, r.firsts c = false := by
  have hdigit := isDigit_of_isNameStart hc
  have hsign : ∀ d, Rule.isNameStart d = false → (c == d) = false := by
    intro d hd
    refine beq_eq_false_iff_ne.2 ?_
    rintro rfl
    rw [hd] at hc
    cases hc
  simp only [signedRules, List.mem_cons, List.not_mem_nil, or_false]
  rintro r (rfl | rfl | rfl | rfl | rfl | rfl)
  · exact hsign '"' rfl
  · exact hdigit
  · exact hdigit
  · exact hsign '#' rfl
  · exact hsign '.' rfl
  · exact hsign '(' rfl

/-- The literals that are words. -/
def literalWords : List String := ["nil", "true", "false"]

/-- The operands that are no names. -/
def unnamed : Peg Rule :=
  .rule .stringLiteral / .rule .floatLiteral / .rule .integerLiteral / .rule .booleanLiteral /
    .rule .nilLiteral / .rule .macroUse / .rule .implicitMember / .rule .tupleExpr

/-- A word that is no literal can only be a name. -/
theorem fails_unnamed {w s : List Char} (hstart : w.head?.any Rule.isNameStart = true)
    (hchars : ∀ c ∈ w, Rule.isNameChar c = true) (hs : Stops Rule.isNameChar s)
    (hliteral : ∀ k ∈ literalWords, w ≠ k.toList) :
    sourceGrammar.Fails .joined unnamed (w ++ s) := by
  have hwords : ∀ ws : List String, ws ⊆ literalWords → ∀ k ∈ ws, w ≠ k.toList :=
    fun ws hws k hk => hliteral k (hws hk)
  have hboolean : sourceGrammar.Fails .joined (.rule .booleanLiteral) (w ++ s) :=
    Grammar.fails_rule.2 (fails_wholeWord hchars hs (hwords ["true", "false"] (by decide)) (by decide)
      (by decide) rfl)
  have hnil : sourceGrammar.Fails .joined (.rule .nilLiteral) (w ++ s) :=
    Grammar.fails_rule.2 (fails_wholeWord hchars hs (hwords ["nil"] (by decide)) (by decide)
      (by decide) rfl)
  have hsigned : ∀ r ∈ signedRules, sourceGrammar.Fails .joined (.rule r) (w ++ s) := by
    intro r hr
    have hbounds : ∀ r ∈ signedRules, (Peg.rule r).mayBeEmpty sourceRanks = false := by decide
    cases w with
    | nil => cases hstart
    | cons c t =>
      have hstarts : Category.type.starts c = true := hstart
      exact fails_of_first _ (isSolid_of_starts hstarts) (firsts_of_isNameStart hstart r hr)
        (hbounds r hr) rfl
  refine Grammar.fails_alt.2 ⟨?_, hsigned _ (by decide)⟩
  refine Grammar.fails_alt.2 ⟨Grammar.fails_alt.2 ⟨?_, hsigned _ (by decide)⟩, hsigned _ (by decide)⟩
  refine Grammar.fails_alt.2 ⟨Grammar.fails_alt.2 ⟨?_, hboolean⟩, hnil⟩
  exact Grammar.fails_alt.2 ⟨Grammar.fails_alt.2 ⟨hsigned _ (by decide), hsigned _ (by decide)⟩,
    hsigned _ (by decide)⟩

theorem literalWords_subset : literalWords ⊆ Rule.keywords := by decide

theorem roundTrips_identifier {name : String} (hname : IsName name.toList) :
    RoundTrips .primary ⟨.identifier name, default⟩ := by
  intro d s hs
  have hid : Reads .joined (.rule .identifier) (name.toList ++ s)
      [wordItem .identifier name.toList] s :=
    (reads_identifier (by decide)).2 ⟨_, hname, rfl, hs.word, rfl⟩
  refine ⟨wordItem .identifier name.toList, ?_, ?_⟩
  · rw [charsAt_identifier]
    exact reads_alt_right (fails_unnamed (isName_iff.1 hname).1 hname.chars hs.word fun k hk =>
      hname.notKeyword k (literalWords_subset hk)) hid
  · intro text suffixes
    simp [wordItem, Rule.build]

end SwiftMacro
