import SwiftMacro.Proofs.Readable
/-!
# Everything that is read is readable

Each rule makes readable nodes of readable parts (`readable_of_build`), and this is all there is to
show, by `Reads.all`. Most rules only pass on what their parts are; for string literals, bindings and
patterns it also matters what stands beside a part.
-/

namespace SwiftMacro

open Peg

/-! ## What each rule makes of readable parts -/

theorem Readable.span_eq {c : Category} {n : Node} (h : Readable c n) : n.span = default := by
  induction h with
  | ofPrimary _ ih | ofOperand _ ih | ofUnary _ ih | ofExpression _ ih => exact ih
  | _ => rfl

/-- What passes along one suffix or tail passes along all of them. -/
theorem foldl_invariant {α : Type} {P : Node → Prop} {f : Node → α → Node} {xs : List α} {n : Node}
    (hn : P n) (step : ∀ m, P m → ∀ x ∈ xs, P (f m x)) : P (xs.foldl f n) := by
  induction xs generalizing n with
  | nil => exact hn
  | cons x xs ih =>
    exact ih (step n hn x List.mem_cons_self) fun m hm y hy => step m hm y (List.mem_cons_of_mem _ hy)

theorem readable_applySuffix {n : Node} (hn : Readable .operand n) {i : Item}
    (hspan : i.span = default) (hi : i.IsReadable) : Readable .operand (applySuffix n i) := by
  have hcover : n.span.cover i.span = default := by rw [hn.span_eq, hspan]; rfl
  unfold applySuffix
  rw [hcover]
  split
  · next as hpart =>
    rw [Item.IsReadable, hpart] at hi
    exact .call hn (fun a ha => (hi a ha).1) fun a ha => (hi a ha).2
  · next w hpart =>
    rw [Item.IsReadable, hpart] at hi
    split
    · next hr =>
      rw [hr] at hi
      exact .member hn hi
    · exact .unwrap hn
  · exact hn

theorem readable_applyTail {n : Node} (hn : Readable .expression n) {i : Item}
    (hspan : i.span = default) (hi : i.IsReadable) : Readable .expression (applyTail n i) := by
  have hcover : n.span.cover i.span = default := by rw [hn.span_eq, hspan]; rfl
  unfold applyTail
  rw [hcover]
  split
  · next kind target hpart =>
    rw [Item.IsReadable, hpart] at hi
    exact .cast hn hi
  · next operator rhs hpart =>
    rw [Item.IsReadable, hpart] at hi
    exact .binary hn hi.1 hi.2
  · exact hn

theorem readable_optionalMark {n : Node} (hn : Readable .type n) {i : Item}
    (hspan : i.span = default) : Readable .type ⟨.optionalType n, n.span.cover i.span⟩ := by
  have hcover : n.span.cover i.span = default := by rw [hn.span_eq, hspan]; rfl
  rw [hcover]
  exact .optional hn

/-! ### Rules whose parts depend on what stands beside them -/

theorem mem_more_of_reads {layout : Layout} {a : Peg Rule} {s rest : List Char} {items : List Item}
    (h : Reads layout (.more a) s items rest) :
    ∀ i ∈ items, ∃ s' front r, Reads layout a s' front r ∧ i ∈ front := by
  refine h.more_induct (motive := fun _ items _ =>
    ∀ i ∈ items, ∃ s' front r, Reads layout a s' front r ∧ i ∈ front) ?_ ?_
  · intro s _ i hi
    cases hi
  · intro s front r back rest hfront _ ih i hi
    rcases List.mem_append.1 hi with hi | hi
    · exact ⟨_, front, r, hfront, hi⟩
    · exact ih i hi

theorem mem_many_of_reads {layout : Layout} {a : Peg Rule} {s rest : List Char} {items : List Item}
    (h : Reads layout (.many a) s items rest) :
    ∀ i ∈ items, ∃ s' front r, Reads layout a s' front r ∧ i ∈ front := by
  rcases reads_many.1 h with ⟨-, rfl, -⟩ | ⟨front, r, back, hfront, hback, rfl⟩
  · intro i hi
    cases hi
  · intro i hi
    rcases List.mem_append.1 hi with hi | hi
    · exact ⟨s, front, r, hfront, hi⟩
    · exact mem_more_of_reads hback i hi

theorem segment?_wordItem (r : Rule) (w : List Char) :
    (wordItem r w).segment? = some (.text (String.ofList w)) := rfl

/-- The segments of a string literal are apart: text goes as far as it can. -/
theorem apart_of_reads {s rest : List Char} {items : List Item}
    (h : Reads .joined (.more (.rule .interpolation / .rule .stringText)) s items rest) :
    Apart (items.filterMap Item.segment?) := by
  refine (h.more_induct (motive := fun s items _ => Apart (items.filterMap Item.segment?) ∧
    (sourceGrammar.Fails .joined (.rule .stringText) s →
      ∀ c segments, items.filterMap Item.segment? ≠ .text c :: segments)) ?_ ?_).1
  · intro s _
    exact ⟨trivial, fun _ c segments => by simp⟩
  · rintro s front r back rest hfront - ⟨hapart, hhead⟩
    rcases reads_alt.1 hfront with hinter | ⟨-, htext⟩
    · obtain ⟨text, inner, part, -, -, hpart, rfl⟩ := (reads_rule (by decide)).1 hinter
      obtain ⟨n, rfl⟩ : ∃ n, part = .node n := by
        simp only [Rule.build] at hpart
        split at hpart
        · exact ⟨_, (Except.ok.inj hpart).symm⟩
        · cases hpart
      exact ⟨hapart, fun _ c segments => by simp [Item.segment?]⟩
    · obtain ⟨⟨content, hne, rfl⟩, hfails⟩ := stringText_of_reads htext
      refine ⟨?_, fun hf => absurd hf htext.accepts.not_fails⟩
      have hne' : String.ofList content ≠ "" := by
        intro hc
        exact hne (String.ofList_inj.1 (hc.trans String.ofList_nil.symm))
      have hnext := hhead hfails
      rw [List.singleton_append, List.filterMap_cons_some (segment?_wordItem _ _)]
      cases hback : back.filterMap Item.segment? with
      | nil => exact hne'
      | cons segment segments =>
        cases segment with
        | text c => exact absurd hback (hnext c segments)
        | interpolation e =>
          rw [hback] at hapart
          exact ⟨hne', hapart⟩

theorem readable_of_reads_pattern {layout : Layout} (hl : layout ≠ .hidden) {s rest : List Char}
    {items : List Item} (h : Reads layout Rule.pattern s items rest) {i : Item} (hi : i ∈ items)
    (hread : i.IsReadable) {n : Node} (hn : i.part = .node n) : Readable .pattern n := by
  rcases reads_alt.1 h with h | ⟨hfails, h⟩
  · have hrule : i.rule.category = some .pattern := by
      rcases reads_alt.1 h with h | ⟨-, h⟩
      all_goals
        obtain ⟨text, inner, part, -, -, -, rfl⟩ := (reads_rule (by exact hl)).1 h
        rw [List.mem_singleton.1 hi]
        rfl
    rw [Item.IsReadable, hn] at hread
    obtain ⟨c, hc, hn'⟩ := hread
    obtain rfl := Option.some.inj (hrule.symm.trans hc)
    exact hn'
  · obtain ⟨text, inner, part, rfl, hinner, hpart, rfl⟩ := (reads_rule (by exact hl)).1 h
    obtain ⟨w, hw, hs, hstop, -⟩ := (reads_identifier hl).1 hinner
    obtain rfl := List.append_cancel_right hs
    obtain rfl := Except.ok.inj hpart
    rw [List.mem_singleton.1 hi] at hn
    obtain rfl := Part.node.inj hn
    refine .named (by rw [String.toList_ofList]; exact hw) ?_
    -- A lone underscore would have been a wildcard.
    intro hwild
    have htext : text = ['_'] := String.ofList_inj.1 hwild
    have hwildcard : sourceGrammar.Accepts layout (.rule .wildcardPattern) (text ++ rest) rest := by
      rw [htext]
      refine Grammar.accepts_rule.2 (Grammar.accepts_seq.2 ⟨rest, Grammar.accepts_lit.2 rfl, ?_⟩)
      exact Grammar.accepts_not.2 ⟨Grammar.fails_one.2 hstop, rfl⟩
    exact hwildcard.not_fails (Grammar.fails_alt.1 hfails).2

section Build

variable {layout : Layout} {text rest : List Char} {inner : List Item} {part : Part}

theorem spells_of_wordsOf_eq_cons (hinner : ∀ i ∈ inner, i.IsReadable) {r : Rule} {w : String}
    {ws : List String} (hw : wordsOf r inner = w :: ws) : r.Spells w :=
  spells_of_mem_wordsOf hinner w (by rw [hw]; exact List.mem_cons_self)

theorem readable_of_nodesOf_eq_cons (hinner : ∀ i ∈ inner, i.IsReadable) {r : Rule} {c : Category}
    (hc : r.category = some c) {n : Node} {ns : List Node} (hn : nodesOf [r] inner = n :: ns) :
    Readable c n :=
  readable_of_mem_nodesOf hinner hc n (by rw [hn]; exact List.mem_cons_self)

/-- A rule that needs a name, and what it makes with one. -/
theorem named_of_build {make : String → Shape Node} {construct : String}
    (h : (match wordsOf .identifier inner with
      | name :: _ => Except.ok (Part.node ⟨make name, default⟩)
      | [] => .error (ReadError.malformed construct default)) = Except.ok part)
    (hinner : ∀ i ∈ inner, i.IsReadable) :
    ∃ name, IsName name.toList ∧ part = .node ⟨make name, default⟩ := by
  split at h
  · next name names hw =>
    have hspell : Rule.Spells .identifier name := spells_of_wordsOf_eq_cons hinner hw
    exact ⟨name, hspell, (Except.ok.inj h).symm⟩
  · cases h

/-- A rule that passes on the one node of another rule. -/
theorem single_of_build {r : Rule} {c : Category} {e : ReadError}
    (h : (match nodesOf [r] inner with
      | [n] => Except.ok (Part.node n)
      | _ => .error e) = Except.ok part)
    (hinner : ∀ i ∈ inner, i.IsReadable) (hc : r.category = some c) :
    ∃ n, Readable c n ∧ part = .node n := by
  split at h
  · next n hn => exact ⟨n, readable_of_nodesOf_eq_cons hinner hc hn, (Except.ok.inj h).symm⟩
  · cases h

theorem ofList_mem {ws : List String} (h : ∃ w ∈ ws, text ++ rest = w.toList ++ rest) :
    String.ofList text ∈ ws := by
  obtain ⟨w, hw, hs⟩ := h
  rw [List.append_cancel_right hs, String.ofList_toList]
  exact hw

theorem modifiers_apart : PrefixFree Rule.modifiers := by decide

/-- The words that stand for themselves are spelled as their rules allow. -/
theorem spells_of_accepts {r : Rule} (hr : r.style = .word)
    (h : sourceGrammar.Accepts .hidden r.body (text ++ rest) rest) :
    r.Spells (String.ofList text) := by
  have hname : sourceGrammar.Accepts .hidden (.rule .identifier) (text ++ rest) rest →
      IsName (String.ofList text).toList := by
    intro hid
    obtain ⟨w, hw, hs, -⟩ := accepts_identifier.1 hid
    obtain rfl := List.append_cancel_right hs
    rwa [String.toList_ofList]
  cases r with
  | identifier => exact hname (Grammar.accepts_rule.2 h)
  | argumentLabel => exact hname h
  | qualifiedName =>
    obtain ⟨w, hs, hw⟩ := isQualified_of_accepts h
    obtain rfl := List.append_cancel_right hs
    change IsQualified (String.ofList text).toList
    rwa [String.toList_ofList]
  | modifier =>
    obtain ⟨w, hw, hs, -⟩ := (accepts_wholeWord modifiers_apart).1 h
    exact ofList_mem ⟨w, hw, hs⟩
  | binaryOperator => exact ofList_mem (mem_of_accepts_anyOf h)
  | prefixOperator =>
    obtain ⟨r, hr, hnot⟩ := Grammar.accepts_seq.1 h
    obtain ⟨-, rfl⟩ := Grammar.accepts_not.1 hnot
    exact ofList_mem (mem_of_accepts_anyOf hr)
  | memberSuffix => cases hr
  | _ => exact trivial

theorem readable_number {r : Rule} (hr : r = .integerLiteral ∨ r = .floatLiteral)
    (h : sourceGrammar.Accepts .hidden r.body (text ++ rest) rest)
    (hpart : r.build default (String.ofList text) inner = .ok part) :
    ∃ n, part = .node n ∧ Readable .primary n := by
  rcases hr with rfl | rfl
  · obtain ⟨w, hw, hs, -⟩ := accepts_integer.1 h
    obtain rfl := List.append_cancel_right hs
    exact ⟨_, (Except.ok.inj hpart).symm, .integer hw⟩
  · obtain ⟨w, v, hw, hv, hs, -⟩ := accepts_float.1 h
    obtain rfl := List.append_cancel_right hs
    exact ⟨_, (Except.ok.inj hpart).symm, .float hw hv⟩

/-- Words have no parts, so all depends on their text. -/
theorem readable_word {r : Rule} (hr : r.style = .word)
    (h : sourceGrammar.Accepts .hidden r.body (text ++ rest) rest)
    (hpart : r.build default (String.ofList text) inner = .ok part) :
    Item.IsReadable ⟨r, default, part⟩ := by
  cases r with
  | keyword | escape | importKeyword | bindingKeyword | accessorKind | optionalMark | castOperator
  | forceUnwrap =>
    obtain rfl := Except.ok.inj hpart
    exact trivial
  | identifier | argumentLabel | modifier | qualifiedName | binaryOperator | prefixOperator =>
    obtain rfl := Except.ok.inj hpart
    exact spells_of_accepts rfl h
  | integerLiteral =>
    obtain ⟨n, rfl, hn⟩ := readable_number (.inl rfl) h hpart
    exact ⟨_, rfl, hn⟩
  | floatLiteral =>
    obtain ⟨n, rfl, hn⟩ := readable_number (.inr rfl) h hpart
    exact ⟨_, rfl, hn⟩
  | booleanLiteral =>
    obtain rfl := Except.ok.inj hpart
    exact ⟨_, rfl, .boolean _⟩
  | nilLiteral =>
    obtain rfl := Except.ok.inj hpart
    exact ⟨_, rfl, .nil⟩
  | wildcardPattern =>
    obtain rfl := Except.ok.inj hpart
    exact ⟨_, rfl, .wildcard⟩
  | stringText =>
    simp only [Rule.build] at hpart
    split at hpart
    · obtain rfl := Except.ok.inj hpart
      exact trivial
    · cases hpart
  | _ => cases hr

/-- The places of the nodes that the rules of the expression make. -/
def Peg.places (e : Peg Rule) : List Category := e.rules.filterMap Rule.category

/-- A node among the items stands in one of the places of the expression. -/
theorem readable_of_mem_places {e : Peg Rule} {i : Item} {n : Node} (hi : i.IsReadable)
    (hrule : i.rule ∈ e.rules) (hn : i.part = .node n) : ∃ c ∈ e.places, Readable c n := by
  rw [Item.IsReadable, hn] at hi
  obtain ⟨c, hc, hread⟩ := hi
  exact ⟨c, List.mem_filterMap.2 ⟨_, hrule, hc⟩, hread⟩

theorem use_places {sign : String} (h : ∀ i ∈ inner, i.rule ∈ (Rule.use sign).rules) :
    ∀ i ∈ inner, ∀ c, i.rule.category = some c → c = .type := by
  intro i hi c hc
  have hmem : c ∈ (Rule.use sign).places := List.mem_filterMap.2 ⟨_, h i hi, hc⟩
  exact List.mem_singleton.1 hmem

theorem reference_places (h : ∀ i ∈ inner, i.rule ∈ (Rule.body .typeReference).rules) :
    ∀ i ∈ inner, ∀ c, i.rule.category = some c → c = .type := by
  intro i hi c hc
  have hmem : c ∈ (Rule.body .typeReference).places := List.mem_filterMap.2 ⟨_, h i hi, hc⟩
  exact List.mem_singleton.1 hmem

/-- The segments of a string literal. -/
theorem readable_string
    (h : Reads .joined (Rule.body .stringLiteral) (text ++ rest) inner rest)
    (hinner : ∀ i ∈ inner, i.IsReadable)
    (hrules : ∀ i ∈ inner, i.rule ∈ (Rule.body .stringLiteral).rules)
    (hpart : Rule.build .stringLiteral default (String.ofList text) inner = .ok part) :
    ∃ n, part = .node n ∧ Readable .primary n := by
  have hexpressions : ∀ e ∈ (inner.filterMap Item.segment?).filterMap Segment.expression?,
      Readable .expression e := by
    intro e he
    obtain ⟨segment, hs, hse⟩ := List.mem_filterMap.1 he
    obtain ⟨i, hi, his⟩ := List.mem_filterMap.1 hs
    unfold Item.segment? at his
    split at his
    · obtain rfl := Option.some.inj his
      cases hse
    · next n hn =>
      obtain rfl := Option.some.inj his
      obtain rfl := Option.some.inj hse
      obtain ⟨c, hc, hread⟩ := readable_of_mem_places (hinner i hi) (hrules i hi) hn
      rw [List.mem_singleton.1 hc] at hread
      exact hread
    · cases his
  have hapart : Apart (inner.filterMap Item.segment?) := by
    obtain ⟨front, r, back, hfront, hquote, rfl⟩ := reads_seq.1 h
    obtain ⟨front', r', many, hopen, hmany, rfl⟩ := reads_seq.1 hfront
    obtain ⟨rfl, -⟩ := reads_lit.1 hquote
    obtain ⟨rfl, -⟩ := reads_lit.1 hopen
    rw [List.nil_append, List.append_nil]
    exact apart_of_reads ((reads_many_iff_more (by decide)).1 hmany)
  simp only [Rule.build] at hpart
  split at hpart
  · exact ⟨_, (Except.ok.inj hpart).symm, .emptyString⟩
  · next hne => exact ⟨_, (Except.ok.inj hpart).symm, .string hne hapart hexpressions⟩

/-- The patterns of a tuple. -/
theorem readable_patterns (hl : layout ≠ .hidden) {s : List Char}
    (h : Reads layout (.opt (Rule.commaSeparated Rule.pattern)) s inner rest)
    (hinner : ∀ i ∈ inner, i.IsReadable) :
    ∀ n ∈ nodesOf patternRules inner, Readable .pattern n := by
  intro n hn
  obtain ⟨i, hi, hpart, hrule⟩ := mem_nodesOf hn
  have hsource : ∃ s' items r, Reads layout Rule.pattern s' items r ∧ i ∈ items := by
    rcases reads_opt.1 h with h | ⟨-, rfl, -⟩
    · obtain ⟨front, r, back, hfront, hback, rfl⟩ := reads_seq.1 h
      rcases List.mem_append.1 hi with hi | hi
      · exact ⟨s, front, r, hfront, hi⟩
      · obtain ⟨s', items, r', hitems, hi'⟩ := mem_many_of_reads hback i hi
        obtain ⟨comma, r'', pattern, hcomma, hpattern, rfl⟩ := reads_seq.1 hitems
        obtain ⟨rfl, -⟩ := reads_lit.1 hcomma
        exact ⟨_, pattern, r', hpattern, hi'⟩
    · cases hi
  obtain ⟨s', items, r, hreads, hi'⟩ := hsource
  exact readable_of_reads_pattern hl hreads hi' (hinner i hi) hpart

theorem readable_foldl_applySuffix {n : Node} {items : List Item} (hn : Readable .operand n)
    (hspan : ∀ i ∈ items, i.span = default) (hitems : ∀ i ∈ items, i.IsReadable) :
    Readable .operand (items.foldl applySuffix n) :=
  foldl_invariant hn fun _ hm i hi => readable_applySuffix hm (hspan i hi) (hitems i hi)

theorem readable_foldl_applyTail {n : Node} {items : List Item} (hn : Readable .expression n)
    (hspan : ∀ i ∈ items, i.span = default) (hitems : ∀ i ∈ items, i.IsReadable) :
    Readable .expression (items.foldl applyTail n) :=
  foldl_invariant hn fun _ hm i hi => readable_applyTail hm (hspan i hi) (hitems i hi)

theorem readable_foldl_optionalMark {n : Node} {items : List Item} (hn : Readable .type n)
    (hspan : ∀ i ∈ items, i.span = default) :
    Readable .type (items.foldl
      (fun type mark => ⟨.optionalType type, type.span.cover mark.span⟩) n) :=
  foldl_invariant hn fun _ hm i hi => readable_optionalMark hm (hspan i hi)

/-- An operand and the suffixes behind it. -/
theorem readable_postfixExpr (hspan : ∀ i ∈ inner, i.span = default) (hinner : ∀ i ∈ inner, i.IsReadable)
    (hrules : ∀ i ∈ inner, i.rule ∈ (Rule.body .postfixExpr).rules)
    (hpart : Rule.build .postfixExpr default (String.ofList text) inner = .ok part) :
    Item.IsReadable ⟨.postfixExpr, default, part⟩ := by
  simp only [Rule.build] at hpart
  split at hpart
  · next r span first suffixes =>
    obtain rfl := Except.ok.inj hpart
    refine ⟨_, rfl, readable_foldl_applySuffix (.ofPrimary ?_)
      (fun i hi => hspan i (List.mem_cons_of_mem _ hi))
      fun i hi => hinner i (List.mem_cons_of_mem _ hi)⟩
    have hplaces : ∀ c ∈ (Rule.body .postfixExpr).places, c = .primary := by decide
    obtain ⟨c, hc, hread⟩ := readable_of_mem_places (hinner _ List.mem_cons_self)
      (hrules _ List.mem_cons_self) rfl
    rw [hplaces c hc] at hread
    exact hread
  · next span name suffixes =>
    obtain rfl := Except.ok.inj hpart
    have hname : IsName name.toList := hinner _ List.mem_cons_self
    obtain rfl : span = default := hspan _ List.mem_cons_self
    exact ⟨_, rfl, readable_foldl_applySuffix (.ofPrimary (.identifier hname))
      (fun i hi => hspan i (List.mem_cons_of_mem _ hi))
      fun i hi => hinner i (List.mem_cons_of_mem _ hi)⟩
  · cases hpart

/-- An operand with its sign, and the tails behind it. -/
theorem readable_expr (hspan : ∀ i ∈ inner, i.span = default) (hinner : ∀ i ∈ inner, i.IsReadable)
    (hpart : Rule.build .expr default (String.ofList text) inner = .ok part) :
    Item.IsReadable ⟨.expr, default, part⟩ := by
  simp only [Rule.build] at hpart
  split at hpart
  · next span first tails =>
    obtain rfl := Except.ok.inj hpart
    obtain ⟨c, hc, hread⟩ := hinner _ List.mem_cons_self
    obtain rfl := Option.some.inj hc
    exact ⟨_, rfl, readable_foldl_applyTail (.ofUnary hread)
      (fun i hi => hspan i (List.mem_cons_of_mem _ hi))
      fun i hi => hinner i (List.mem_cons_of_mem _ hi)⟩
  · cases hpart

theorem readable_statements (hinner : ∀ i ∈ inner, i.IsReadable) :
    ∀ n ∈ nodesOf statementRules inner, Readable .statement n := by
  intro n hn
  obtain ⟨i, hi, hpart, hr⟩ := mem_nodesOf hn
  have hi' := hinner i hi
  rw [Item.IsReadable, hpart] at hi'
  obtain ⟨c, hc, hread⟩ := hi'
  simp only [statementRules, List.mem_cons, List.not_mem_nil, or_false] at hr
  rcases hr with hr | hr | hr <;> (rw [hr] at hc; obtain rfl := Option.some.inj hc)
  · exact hread
  · exact hread
  · exact .ofExpression hread

/-- The bindings of a declaration; there is at least one. -/
theorem bindings_ne_nil (hl : layout ≠ .hidden)
    (hread : Reads layout (Rule.body .variableDecl) (text ++ rest) inner rest) :
    nodesOf [.patternBinding] inner ≠ [] := by
  obtain ⟨front, r, back, -, hbindings, rfl⟩ := reads_seq.1 hread
  obtain ⟨first, r', more, hfirst, -, rfl⟩ := reads_seq.1 hbindings
  obtain ⟨text', inner', part', -, -, hpart', rfl⟩ := (reads_rule (by exact hl)).1 hfirst
  obtain ⟨n, rfl⟩ : ∃ n, part' = .node n := by
    simp only [Rule.build] at hpart'
    split at hpart'
    · exact ⟨_, (Except.ok.inj hpart').symm⟩
    · cases hpart'
  simp [nodesOf, Item.nodeOf?]

/-- The pattern of a binding. -/
theorem readable_boundPattern (hl : layout ≠ .hidden)
    (hread : Reads layout (Rule.body .patternBinding) (text ++ rest) inner rest)
    (hinner : ∀ i ∈ inner, i.IsReadable) {n : Node} {ns : List Node}
    (hn : nodesOf patternRules inner = n :: ns) : Readable .pattern n := by
  have hmem : n ∈ nodesOf patternRules inner := by
    rw [hn]
    exact List.mem_cons_self
  obtain ⟨i, hi, hpart, hrule⟩ := mem_nodesOf hmem
  obtain ⟨front, r, accessors, hfront, haccessors, rfl⟩ := reads_seq.1 hread
  obtain ⟨front', r', value, hfront', hvalue, rfl⟩ := reads_seq.1 hfront
  obtain ⟨pattern, r'', type, hpattern, htype, rfl⟩ := reads_seq.1 hfront'
  -- The other parts of a binding make no patterns.
  have hi' : i ∈ pattern := by
    simp only [List.mem_append] at hi
    rcases hi with ((hi | hi) | hi) | hi
    · exact hi
    · rw [List.mem_singleton.1 (htype.rule_mem hl i hi)] at hrule
      simp [patternRules] at hrule
    · rw [List.mem_singleton.1 (hvalue.rule_mem hl i hi)] at hrule
      simp [patternRules] at hrule
    · rw [List.mem_singleton.1 (haccessors.rule_mem hl i hi)] at hrule
      simp [patternRules] at hrule
  exact readable_of_reads_pattern hl hpattern hi' (hinner i hi) hpart

/-- A binding with its type, its value and its accessors. -/
theorem readable_binding (hl : layout ≠ .hidden)
    (hread : Reads layout (Rule.body .patternBinding) (text ++ rest) inner rest)
    (hinner : ∀ i ∈ inner, i.IsReadable)
    (hpart : Rule.build .patternBinding default (String.ofList text) inner = .ok part) :
    Item.IsReadable ⟨.patternBinding, default, part⟩ := by
  simp only [Rule.build] at hpart
  split at hpart
  · next n ns hn =>
    obtain rfl := Except.ok.inj hpart
    refine ⟨_, rfl, .binding (readable_boundPattern hl hread hinner hn) ?_ ?_
      (readable_of_mem_nodesOf hinner rfl)⟩
    · exact fun t ht => readable_of_mem_nodesOf hinner rfl t (List.mem_of_head? ht)
    · exact fun e he => readable_of_mem_nodesOf hinner rfl e (List.mem_of_head? he)
  · cases hpart

/-- What each rule makes of readable parts is readable in the place of the rule. -/
theorem readable_of_build (r : Rule) (hvisible : r.style.outside layout ≠ .hidden)
    (hread : Reads (r.style.inside layout) r.body (text ++ rest) inner rest)
    (hspan : ∀ i ∈ inner, i.span = default) (hinner : ∀ i ∈ inner, i.IsReadable)
    (hrules : r.style.inside layout ≠ .hidden → ∀ i ∈ inner, i.rule ∈ r.body.rules)
    (hpart : r.build default (String.ofList text) inner = .ok part) :
    Item.IsReadable ⟨r, default, part⟩ := by
  by_cases hword : r.style = .word
  · rw [hword] at hread
    exact readable_word hword hread.accepts hpart
  have hrules := hrules (inside_ne_hidden hvisible hword)
  have hhead : ∀ {w : String} {ws : List String} {r : Rule}, wordsOf r inner = w :: ws → r.Spells w :=
    spells_of_wordsOf_eq_cons hinner
  have hfirst : ∀ {n : Node} {ns : List Node} {r : Rule} {c : Category},
      nodesOf [r] inner = n :: ns → r.category = some c → Readable c n := fun hn hc =>
    readable_of_nodesOf_eq_cons hinner hc hn
  cases r with
  | keyword | escape | importKeyword | bindingKeyword | accessorKind | optionalMark | castOperator
  | forceUnwrap | identifier | argumentLabel | modifier | qualifiedName | binaryOperator
  | prefixOperator | integerLiteral | floatLiteral | booleanLiteral | nilLiteral | wildcardPattern
  | stringText => exact absurd rfl hword
  | endOfInput | importDecl =>
    obtain rfl := Except.ok.inj hpart
    exact trivial
  | stringLiteral =>
    obtain ⟨n, rfl, hn⟩ := readable_string hread hinner hrules hpart
    exact ⟨_, rfl, hn⟩
  | namePattern =>
    obtain ⟨w, hw, hs, -⟩ := (reads_identifier hvisible).1 hread
    obtain rfl := List.append_cancel_right hs
    obtain rfl := Except.ok.inj hpart
    exact ⟨_, rfl, .name (by rw [String.toList_ofList]; exact hw)⟩
  | tuplePattern =>
    obtain ⟨front, r, back, hfront, hclose, rfl⟩ := reads_seq.1 hread
    obtain ⟨front', r', patterns, hopen, hpatterns, rfl⟩ := reads_seq.1 hfront
    obtain ⟨rfl, -⟩ := reads_lit.1 hclose
    obtain ⟨rfl, -⟩ := reads_lit.1 hopen
    obtain rfl := Except.ok.inj hpart
    rw [List.nil_append, List.append_nil] at hinner ⊢
    exact ⟨_, rfl, .tuplePattern (readable_patterns hvisible hpatterns hinner)⟩
  | interpolation | initialValue =>
    obtain ⟨n, hn, rfl⟩ := single_of_build hpart hinner rfl
    exact ⟨_, rfl, hn⟩
  | declaredType =>
    obtain ⟨n, hn, rfl⟩ := single_of_build hpart hinner rfl
    exact ⟨_, rfl, hn⟩
  | attributeUse =>
    obtain ⟨name, hname, rfl⟩ := named_of_build hpart hinner
    exact ⟨_, rfl, .attr hname (readable_of_mem_genericsOf hinner (use_places hrules))
      (fun a ha => (readable_of_mem_argumentsOf hinner a ha).1)
      fun a ha => (readable_of_mem_argumentsOf hinner a ha).2⟩
  | macroUse =>
    obtain ⟨name, hname, rfl⟩ := named_of_build hpart hinner
    exact ⟨_, rfl, .macroUse hname (readable_of_mem_genericsOf hinner (use_places hrules))
      (fun a ha => (readable_of_mem_argumentsOf hinner a ha).1)
      fun a ha => (readable_of_mem_argumentsOf hinner a ha).2⟩
  | implicitMember =>
    obtain ⟨name, hname, rfl⟩ := named_of_build hpart hinner
    exact ⟨_, rfl, .implicitMember hname⟩
  | memberSuffix =>
    simp only [Rule.build] at hpart
    split at hpart
    · next w ws hw =>
      obtain rfl := Except.ok.inj hpart
      have hspell : Rule.Spells .identifier w := hhead hw
      exact hspell
    · cases hpart
  | variableDecl =>
    simp only [Rule.build] at hpart
    split at hpart
    · obtain rfl := Except.ok.inj hpart
      exact ⟨_, rfl, .variableDecl (readable_of_mem_nodesOf hinner rfl)
        (spells_of_mem_wordsOf hinner) (bindings_ne_nil hvisible hread)
        (readable_of_mem_nodesOf hinner rfl)⟩
    · cases hpart
  | functionDecl =>
    obtain ⟨name, hname, rfl⟩ := named_of_build hpart hinner
    exact ⟨_, rfl, .functionDecl (readable_of_mem_nodesOf hinner rfl)
      (spells_of_mem_wordsOf hinner) hname (readable_statements hinner)⟩
  | patternBinding => exact readable_binding hvisible hread hinner hpart
  | accessor =>
    simp only [Rule.build] at hpart
    split at hpart
    · obtain rfl := Except.ok.inj hpart
      exact ⟨_, rfl, .accessor (readable_statements hinner)⟩
    · cases hpart
  | typeReference =>
    simp only [Rule.build] at hpart
    split at hpart
    · next name names hw =>
      obtain rfl := Except.ok.inj hpart
      have hspell : Rule.Spells .qualifiedName name := hhead hw
      exact ⟨_, rfl, .typeName hspell (readable_of_mem_genericsOf hinner (reference_places hrules))⟩
    · cases hpart
  | typeExpr =>
    simp only [Rule.build] at hpart
    split at hpart
    · next n hn =>
      obtain rfl := Except.ok.inj hpart
      exact ⟨_, rfl, readable_foldl_optionalMark (hfirst hn rfl)
        fun i hi => hspan i (List.mem_of_mem_drop hi)⟩
    · cases hpart
  | genericClause | typeEntry | expressionEntry | accessorEntry =>
    obtain rfl := Except.ok.inj hpart
    exact ⟨_, rfl, readable_of_mem_nodesOf hinner rfl⟩
  | sourceFile =>
    obtain rfl := Except.ok.inj hpart
    exact ⟨_, rfl, readable_statements hinner⟩
  | tupleExpr =>
    obtain rfl := Except.ok.inj hpart
    exact ⟨_, rfl, .tuple (fun a ha => (readable_of_mem_argumentList hinner a ha).1)
      fun a ha => (readable_of_mem_argumentList hinner a ha).2⟩
  | argumentClause =>
    obtain rfl := Except.ok.inj hpart
    exact readable_of_mem_argumentList hinner
  | argument =>
    simp only [Rule.build] at hpart
    split at hpart
    · next n hn =>
      obtain rfl := Except.ok.inj hpart
      refine ⟨fun l hl => ?_, hfirst hn rfl⟩
      exact spells_of_mem_wordsOf hinner l (List.mem_of_head? hl)
    · cases hpart
  | castTail =>
    simp only [Rule.build] at hpart
    split at hpart
    · next w n hw hn =>
      obtain rfl := Except.ok.inj hpart
      exact hfirst hn rfl
    · cases hpart
  | binaryTail =>
    simp only [Rule.build] at hpart
    split at hpart
    · next w n hw hn =>
      obtain rfl := Except.ok.inj hpart
      exact ⟨hhead hw, hfirst hn rfl⟩
    · cases hpart
  | prefixExpr =>
    simp only [Rule.build] at hpart
    split at hpart
    · next n _ hn =>
      obtain rfl := Except.ok.inj hpart
      exact ⟨_, rfl, .ofOperand (hfirst hn rfl)⟩
    · next w n hw hn =>
      obtain rfl := Except.ok.inj hpart
      exact ⟨_, rfl, .prefixed (hhead hw) (hfirst hn rfl)⟩
    · cases hpart
  | postfixExpr => exact readable_postfixExpr hspan hinner hrules hpart
  | expr => exact readable_expr hspan hinner hpart

end Build

/-- Everything that is read is readable. -/
theorem Reads.readable {layout : Layout} {e : Peg Rule} {s rest : List Char} {items : List Item}
    (h : Reads layout e s items rest) : ∀ i ∈ items, i.span = default ∧ i.IsReadable := by
  intro i hi
  refine (h.all (P := fun i => i.span = default ∧ i.IsReadable) ?_ i hi).1
  intro r layout text rest inner part hvisible hread hinner hpart
  exact ⟨rfl, readable_of_build r hvisible hread (fun i hi => (hinner i hi).1.1)
    (fun i hi => (hinner i hi).1.2) (fun hl i hi => (hinner i hi).2 hl) hpart⟩

/-- The place of the nodes that an entry gives. -/
def Entry.category : Entry → Category
  | source => .statement
  | expression => .expression
  | accessor => .accessor
  | type => .type

/-- The nodes that reading gives are readable once their spans are erased. -/
theorem readable_of_readChars {entry : Entry} {s : List Char} {nodes : List Node}
    (h : readChars entry s = .ok nodes) : ∀ n ∈ nodes, Readable entry.category n.eraseSpans := by
  obtain ⟨items, rest, hread, hnodes⟩ := reads_of_readChars h
  intro n hn
  have hmem : n.eraseSpans ∈ genericsOf items := by
    rw [hnodes]
    exact List.mem_map.2 ⟨n, hn, rfl⟩
  obtain ⟨i, hi, hni⟩ := List.mem_flatMap.1 hmem
  have hrule := hread.rule_mem (by decide) i hi
  obtain ⟨-, hi'⟩ := hread.readable i hi
  split at hni
  · next ns hpart =>
    rw [Item.IsReadable, hpart, List.mem_singleton.1 hrule] at hi'
    obtain ⟨c, hc, hall⟩ := hi'
    have hcategory : entry.rule.category = some entry.category := by cases entry <;> rfl
    obtain rfl := Option.some.inj (hcategory.symm.trans hc)
    exact hall _ hni
  · cases hni

end SwiftMacro
