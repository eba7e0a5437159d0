import Mathlib.Data.List.Basic
import SwiftMacro.Proofs.Blocks
/-!
# Variables are read back

A binding is read part by part: the pattern, the type, the initial value and the accessors, all but the
first of which may be missing. If the last binding of a variable ends with its initial value, the next
line may go on with it. With variables, all declarations are read back (`readsBack`).
-/

namespace SwiftMacro

open Peg

/-! ## The parts of a binding -/

def typeChars (d : Nat) (declaredType : Option Node) : List Char :=
  declaredType.elim [] fun t => ':' :: ' ' :: t.charsAt d

def initialChars (d : Nat) (initial : Option Node) : List Char :=
  initial.elim [] fun e => ' ' :: '=' :: ' ' :: e.charsAt d

section Parts

variable {pattern : Node} {declaredType initial : Option Node}
  (left : Readable .pattern pattern) (types : ∀ t ∈ declaredType, Readable .type t)
  (values : ∀ e ∈ initial, Readable .expression e) (d : Nat) {s rest : List Char} {more : List Item}

include types in
theorem readsPast_declaredType (hs : Ends s) (hcolon : Stops (· == ':') (after .spaced s)) :
    ReadsPast .spaced (.opt (.rule .declaredType)) (after .spaced (typeChars d declaredType ++ s))
      (declaredType.toList.map (nodeItem .declaredType)) s := by
  cases declaredType with
  | none =>
    have hnone : sourceGrammar.Fails .spaced (.rule .declaredType) (after .spaced s) :=
      Grammar.fails_rule.2 (Grammar.fails_seq.2 (.inl (fails_lit_of_head (c := ':') rfl hcolon)))
    exact (readsPast_opt_none hnone).of_after (after_after s)
  | some t =>
    have htype := types t rfl
    have hafter : after .spaced (' ' :: (t.charsAt d ++ s)) = t.charsAt d ++ s := by
      rw [after_space, after_charsAt htype]
    have hread := reads_type (roundTrips htype) d hs.typeClear (hs.stops rfl)
    have hall := (readsPast_lit ":").next hafter hread.past
    have hsolid : after .spaced (typeChars d (some t) ++ s) = ':' :: ' ' :: (t.charsAt d ++ s) :=
      after_solid rfl _
    rw [hsolid]
    exact (hall.plain (r := .declaredType) rfl (by decide) fun _ => rfl).opt

include values in
theorem readsPast_initialValue (hs : Ends s) (hequals : Stops (· == '=') (after .spaced s))
    (hsome : initial.isSome = true → ReadsPast .spaced (.more tail) s more rest)
    (hnone : initial = none → rest = s) :
    ReadsPast .spaced (.opt (.rule .initialValue)) (after .spaced (initialChars d initial ++ s))
      ((initial.map (more.foldl applyTail)).toList.map (nodeItem .initialValue)) rest := by
  cases initial with
  | none =>
    have hfails : sourceGrammar.Fails .spaced (.rule .initialValue) (after .spaced s) :=
      Grammar.fails_rule.2 (Grammar.fails_seq.2 (.inl (fails_lit_of_head (c := '=') rfl hequals)))
    rw [hnone rfl]
    exact (readsPast_opt_none hfails).of_after (after_after s)
  | some e =>
    have hvalue := values e rfl
    have hafter : after .spaced (' ' :: (e.charsAt d ++ s)) = e.charsAt d ++ s := by
      rw [after_space, after_charsAt hvalue]
    have hall := (readsPast_lit "=").next hafter (roundTrips hvalue d s more rest hs (hsome rfl))
    have hsolid : after .spaced (initialChars d (some e) ++ s) = '=' :: ' ' :: (e.charsAt d ++ s) :=
      (after_space _).trans (after_solid rfl _)
    rw [hsolid]
    exact (hall.plain (r := .initialValue) rfl (by decide) fun _ => rfl).opt

include left types values in
/-- A binding up to its accessors. -/
theorem readsPast_bound (hs : Ends s) (hcolon : Stops (· == ':') (after .spaced s))
    (hequals : Stops (· == '=') (after .spaced s))
    (hsome : initial.isSome = true → ReadsPast .spaced (.more tail) s more rest)
    (hnone : initial = none → rest = s) :
    ReadsPast .spaced (Rule.pattern ++ .opt (.rule .declaredType) ++ .opt (.rule .initialValue))
      (pattern.charsAt d ++ (typeChars d declaredType ++ (initialChars d initial ++ s)))
      ([patternItem pattern] ++ declaredType.toList.map (nodeItem .declaredType) ++
        (initial.map (more.foldl applyTail)).toList.map (nodeItem .initialValue)) rest := by
  have hends : Ends (initialChars d initial ++ s) := by
    cases initial with
    | none => exact hs
    | some e => exact space_ends _
  have hinitial : Stops (· == ':') (after .spaced (initialChars d initial ++ s)) := by
    cases initial with
    | none => exact hcolon
    | some e =>
      have hsolid : after .spaced (initialChars d (some e) ++ s) = '=' :: ' ' :: (e.charsAt d ++ s) :=
        (after_space _).trans (after_solid rfl _)
      rw [hsolid]
      exact stops_cons.2 rfl
  have hword : Stops Rule.isNameChar (typeChars d declaredType ++ (initialChars d initial ++ s)) := by
    cases declaredType with
    | none => exact (hends.stops rfl)
    | some t => exact stops_cons.2 rfl
  have hpattern := roundTrips left d _ hword
  have htype := readsPast_declaredType types d hends hinitial
  exact (hpattern.seq htype).seq (readsPast_initialValue values d hs hequals hsome hnone)

end Parts

/-! ## Bindings -/

theorem nodesOf_patternItem {rules : List Rule} (n : Node) (h : ∀ r ∈ patternRules, r ∉ rules) :
    nodesOf rules [patternItem n] = [] := by
  have hnone : (patternItem n).nodeOf? rules = none := by
    unfold patternItem
    split
    · exact if_neg (h .namePattern (by decide))
    · exact if_neg (h .wildcardPattern (by decide))
    · exact if_neg (h .tuplePattern (by decide))
  simp [nodesOf, hnone]

/-- What the items of a binding are made into. -/
theorem build_binding (pattern : Node) (declaredType initial : Option Node) (accessors : List Node)
    (text : String) :
    Rule.build .patternBinding default text ([patternItem pattern] ++
      declaredType.toList.map (nodeItem .declaredType) ++ initial.toList.map (nodeItem .initialValue) ++
      accessors.map (nodeItem .accessor)) =
      .ok (.node ⟨.patternBinding pattern declaredType initial accessors, default⟩) := by
  have hpattern : nodesOf patternRules [patternItem pattern] = [pattern] :=
    nodesOf_map_patternItem [pattern]
  have htype : nodesOf [.declaredType] [patternItem pattern] = [] :=
    nodesOf_patternItem pattern (by decide)
  have hinitial : nodesOf [.initialValue] [patternItem pattern] = [] :=
    nodesOf_patternItem pattern (by decide)
  have haccessor : nodesOf [.accessor] [patternItem pattern] = [] :=
    nodesOf_patternItem pattern (by decide)
  simp only [Rule.build, nodesOf_append, nodesOf_map_nodeItem, hpattern, htype, hinitial, haccessor]
  simp

theorem readsPast_accessors {accessors : List Node} (h : ∀ a ∈ accessors, Readable .accessor a)
    (ih : ∀ a ∈ accessors, ReadsBack .accessor a) (d : Nat) (s : List Char) :
    ReadsPast .spaced (.lit "\x7b" ++ .many (.rule .accessor) ++ .lit "\x7d") (blockChars d accessors ++ s)
      ((accessors.map Node.join).map (nodeItem .accessor)) s := by
  have hclose : after .spaced ('\x7d' :: s) = '\x7d' :: s := after_solid rfl s
  have hopen : ∀ t, ReadsPast .spaced (.lit "\x7b") ('\x7b' :: t) [] t := fun t => readsPast_lit "\x7b"
  cases accessors with
  | nil =>
    have hnone : ReadsPast .spaced (.many (.rule .accessor)) ('\x7d' :: s) [] ('\x7d' :: s) :=
      readsPast_many_nil (fails_of_first s rfl rfl rfl rfl)
    exact (ReadsPast.seq_lit (w := "\x7d") ((hopen _).next hclose hnone) hclose).past
  | cons a as =>
    have hlast : after .spaced (indentChars d ++ '\x7d' :: s) = '\x7d' :: s :=
      (after_indent d _).trans hclose
    have hmore : ReadsPast .spaced (.more (.rule .accessor))
        (linesChars (d + 1) (a :: as) ++ (indentChars d ++ '\x7d' :: s))
        ((a :: as).map (nodeItem .accessor ∘ Node.join)) (indentChars d ++ '\x7d' :: s) := by
      refine readsPast_more_flatMap (a :: as) (fun x hx t => ?_) ?_
      · rw [List.append_assoc, List.append_assoc, after_indent, after_charsAt (h x hx)]
        exact (ih x hx (d + 1) _).of_after (after_newline t)
      · rw [hlast]
        exact fails_of_first s rfl rfl rfl rfl
    have htext : blockChars d (a :: as) ++ s =
        '\x7b' :: '\n' :: (linesChars (d + 1) (a :: as) ++ (indentChars d ++ '\x7d' :: s)) := by
      simp [blockChars]
    have hall := (hopen _).next (after_newline _) hmore.many_of_more
    rw [htext, List.map_map]
    exact (hall.seq_lit (w := "\x7d") hlast).past

theorem readsBack_binding {pattern : Node} {declaredType initial : Option Node} {accessors : List Node}
    (left : Readable .pattern pattern) (types : ∀ t ∈ declaredType, Readable .type t)
    (values : ∀ e ∈ initial, Readable .expression e) (inner : ∀ a ∈ accessors, Readable .accessor a)
    (ih : ∀ a ∈ accessors, ReadsBack .accessor a) :
    ReadsBack .binding ⟨.patternBinding pattern declaredType initial accessors, default⟩ := by
  intro d s more rest hs hcolon hequals hbrace hopen hclosed
  rw [join_binding left types values, charsAt_binding, ← typeChars, ← initialChars, List.append_assoc,
    List.append_assoc, List.append_assoc]
  cases accessors with
  | nil =>
    have hbound : ReadsPast .spaced _ _ _ rest :=
      readsPast_bound left types values d hs hcolon hequals
        (fun h => hopen (by cases initial <;> first | rfl | cases h))
        fun h => hclosed (by rw [h]; rfl)
    have hnone : sourceGrammar.Fails .spaced
        (.lit "\x7b" ++ .many (.rule .accessor) ++ .lit "\x7d") (after .spaced rest) :=
      Grammar.fails_seq.2 (.inl (Grammar.fails_seq.2 (.inl (fails_lit_of_head (c := '\x7b') rfl hbrace))))
    have hall := hbound.seq (readsPast_opt_none hnone)
    refine (hall.of_after (after_after rest)).plain rfl (by decide) fun text => ?_
    refine (build_binding pattern declaredType _ [] text).trans ?_
    cases initial <;> rfl
  | cons a as =>
    rw [hclosed (by cases initial <;> rfl)]
    have hblock : after .spaced (' ' :: (blockChars d (a :: as) ++ s)) = blockChars d (a :: as) ++ s :=
      (after_space _).trans (after_solid rfl _)
    have hstop : ∀ c, c ≠ '\x7b' → Stops (· == c) (after .spaced (' ' :: (blockChars d (a :: as) ++ s))) := by
      intro c hc
      rw [hblock]
      exact stops_cons.2 (beq_eq_false_iff_ne.2 hc.symm)
    have htail : ReadsPast .spaced (.more tail) (' ' :: (blockChars d (a :: as) ++ s)) []
        (' ' :: (blockChars d (a :: as) ++ s)) := by
      refine readsPast_more_nil ?_
      rw [hblock]
      exact fails_of_first _ rfl rfl rfl rfl
    have hbound := readsPast_bound left types values d (space_ends _) (hstop ':' (by decide))
      (hstop '=' (by decide)) (fun _ => htail) fun _ => rfl
    have hall := hbound.next hblock (readsPast_accessors inner ih d s).opt
    refine hall.plain rfl (by decide) fun text => ?_
    refine (build_binding pattern declaredType _ _ text).trans ?_
    cases initial <;> rfl

/-! ## Variables -/

namespace Node

theorem isOpen_join (n : Node) : n.join.isOpen = n.isOpen := by
  obtain ⟨shape, span⟩ := n
  rw [join_mk]
  cases shape with
  | patternBinding pattern declaredType initial accessors => cases initial <;> cases accessors <;> rfl
  | _ => rfl

theorem mapInitial_foldl_nil (n : Node) : n.mapInitial (([] : List Item).foldl applyTail) = n := by
  obtain ⟨shape, span⟩ := n
  unfold mapInitial
  split
  · next pattern declaredType value hshape =>
    obtain rfl : shape = .patternBinding pattern declaredType (some value) [] := hshape
    rfl
  · rfl

end Node

theorem modifyLast_foldl_nil (bindings : List Node) :
    bindings.modifyLast (Node.mapInitial (([] : List Item).foldl applyTail)) = bindings := by
  obtain rfl | ⟨init, last, rfl⟩ := List.eq_nil_or_concat' bindings
  · rfl
  · rw [List.modifyLast_concat, Node.mapInitial_foldl_nil]

/-- Initial values have no spans, so what is made of them there is all that counts. -/
theorem modifyLast_congr {bindings : List Node} (h : ∀ b ∈ bindings, Readable .binding b)
    {f g : Node → Node} (hfg : ∀ v : Node, v.span = default → f v = g v) :
    (bindings.map Node.join).modifyLast (Node.mapInitial f) =
      (bindings.map Node.join).modifyLast (Node.mapInitial g) := by
  obtain rfl | ⟨init, last, rfl⟩ := List.eq_nil_or_concat' bindings
  · rfl
  rw [List.map_append, List.map_singleton, List.modifyLast_concat, List.modifyLast_concat]
  refine congrArg (fun b => init.map Node.join ++ [b]) ?_
  cases h last (List.mem_append_right init List.mem_cons_self) with
  | @binding pattern declaredType initial accessors left types values inner =>
    cases initial with
    | none => rfl
    | some e =>
      cases accessors with
      | cons a as => rfl
      | nil =>
        rw [Node.join_mk]
        simp only [Shape.map, Option.map_some, List.map_nil, Shape.joinBody, Node.mapInitial]
        rw [(values e rfl).join_eq rfl, hfg e (values e rfl).span_eq]

/-- Where no chain goes on, a binding is read as it is. -/
theorem ReadsBack.alone {n : Node} (h : ReadsBack .binding n) (d : Nat) (s : List Char) :
    ReadsPast .spaced (.rule .patternBinding) (n.charsAt d ++ ',' :: s) [nodeItem .patternBinding n.join]
      (',' :: s) := by
  have hafter : after .spaced (',' :: s) = ',' :: s := after_solid rfl s
  have hstop : ∀ c, c ≠ ',' → Stops (· == c) (after .spaced (',' :: s)) := by
    intro c hc
    rw [hafter]
    exact stops_cons.2 (beq_eq_false_iff_ne.2 hc.symm)
  have hread := h d (',' :: s) [] (',' :: s) (stops_cons.2 rfl) (hstop ':' (by decide))
    (hstop '=' (by decide)) (hstop '\x7b' (by decide)) (fun _ => (Closed.comma s).no_tail) fun _ => rfl
  rwa [Node.mapInitial_foldl_nil] at hread

/-- The bindings of a variable; what follows in the chain goes to the last one. -/
theorem readsPast_bindings {bindings : List Node} (nonempty : bindings ≠ [])
    (inner : ∀ b ∈ bindings, Readable .binding b) (ih : ∀ b ∈ bindings, ReadsBack .binding b) (d : Nat)
    {s rest : List Char} {more : List Item} (hs : Ends s) (hsettled : Settled (after .spaced s))
    (hrest : Settled (after .spaced rest))
    (hopen : bindings.getLast?.any Node.isOpen = true → ReadsPast .spaced (.more tail) s more rest)
    (hclosed : bindings.getLast?.any Node.isOpen = false → rest = s) :
    ReadsPast .spaced (Rule.commaSeparated (.rule .patternBinding))
      (commaChars (Node.charsAt d) bindings ++ s)
      (((bindings.map Node.join).modifyLast (Node.mapInitial (more.foldl applyTail))).map
        (nodeItem .patternBinding)) rest := by
  obtain rfl | ⟨init, last, rfl⟩ := List.eq_nil_or_concat' bindings
  · exact absurd rfl nonempty
  have hmem : last ∈ init ++ [last] := List.mem_append_right init List.mem_cons_self
  rw [List.getLast?_concat, Option.any_some] at hopen hclosed
  have hlast := ih last hmem d s more rest hs (hsettled.ne ':' rfl) (hsettled.ne '=' rfl)
    (hrest.ne '\x7b' rfl) hopen hclosed
  have hend : ReadsPast .spaced (.more (.lit "," ++ .rule .patternBinding)) rest [] rest :=
    readsPast_more_nil (fails_comma (hrest.ne ',' rfl))
  rw [List.map_append, List.map_singleton, List.modifyLast_concat]
  cases init with
  | nil =>
    have hall := hlast.seq hend.many_of_more
    rw [List.nil_append, commaChars, List.flatMap_nil, List.append_nil]
    exact hall
  | cons b bs =>
    have hmore := (hlast.comma (after_charsAt (inner last hmem) d s)).more_cons hend
    have hb : ∀ x ∈ b :: bs, x ∈ b :: bs ++ [last] := fun x hx => List.mem_append_left _ hx
    have hothers := readsPast_more_comma (fun t => ∃ u, t = ',' :: u) bs
      (by rintro x hx t ⟨u, rfl⟩; exact (ih x (hb x (List.mem_cons_of_mem b hx))).alone d u)
      (fun x hx t => after_charsAt (inner x (hb x (List.mem_cons_of_mem b hx))) d t)
      (fun u => ⟨u, rfl⟩) ⟨_, rfl⟩ hmore
    have htext : commaChars (Node.charsAt d) (b :: bs ++ [last]) ++ s = b.charsAt d ++
        (bs.flatMap (fun x => ',' :: ' ' :: x.charsAt d) ++ ',' :: ' ' :: (last.charsAt d ++ s)) := by
      simp [commaChars]
    obtain ⟨u, hu⟩ : ∃ u, bs.flatMap (fun x => ',' :: ' ' :: x.charsAt d) ++
        ',' :: ' ' :: (last.charsAt d ++ s) = ',' :: u := by
      cases bs <;> exact ⟨_, rfl⟩
    have hall := ((ih b (hb b List.mem_cons_self)).alone d u).seq (hu ▸ hothers).many_of_more
    rw [htext, hu, List.map_append, List.map_cons, List.map_cons, List.map_map]
    exact hall

section Variable

variable {attributes : List Node} {modifiers : List String} {keyword : BindingKeyword}
  {bindings : List Node} (front : ∀ a ∈ attributes, Readable .attr a)
  (known : ∀ m ∈ modifiers, m ∈ Rule.modifiers) (nonempty : bindings ≠ [])
  (inner : ∀ b ∈ bindings, Readable .binding b) (ih : ∀ b ∈ bindings, ReadsBack .binding b)

theorem keyword_mem (keyword : BindingKeyword) : Render.keyword keyword ∈ ["var", "let"] := by
  cases keyword <;> decide

theorem variable_eq (d : Nat) (s : List Char) :
    (⟨.variableDecl attributes modifiers keyword bindings, default⟩ : Node).charsAt d ++ s =
      leadingChars d attributes modifiers ++ ((Render.keyword keyword).toList ++ ' ' ::
        (commaChars (Node.charsAt d) bindings ++ s)) := by
  simp [charsAt_variable]

include front known nonempty inner ih

theorem readsPast_variable (d : Nat) {s rest : List Char} {more : List Item} (hs : Ends s)
    (hsettled : Settled (after .spaced s)) (hrest : Settled (after .spaced rest))
    (hopen : bindings.getLast?.any Node.isOpen = true → ReadsPast .spaced (.more tail) s more rest)
    (hclosed : bindings.getLast?.any Node.isOpen = false → rest = s) :
    ReadsPast .spaced (.rule .variableDecl)
      ((⟨.variableDecl attributes modifiers keyword bindings, default⟩ : Node).charsAt d ++ s)
      [⟨.variableDecl, default, .node ⟨.variableDecl attributes modifiers keyword
        ((bindings.map Node.join).modifyLast (Node.mapInitial (more.foldl applyTail))), default⟩⟩]
      rest := by
  have hk : Render.keyword keyword ∈ declarationWords := by cases keyword <;> decide
  have hwords : PrefixFree ["var", "let"] := by decide
  have hleading := readsPast_leading front known hk d (commaChars (Node.charsAt d) bindings ++ s)
  have hword : Reads .spaced (.rule .bindingKeyword)
      ((Render.keyword keyword).toList ++ ' ' :: (commaChars (Node.charsAt d) bindings ++ s))
      [wordItem .bindingKeyword (Render.keyword keyword).toList]
      (' ' :: (commaChars (Node.charsAt d) bindings ++ s)) :=
    (reads_spelled rfl (fun _ => rfl) (by decide)).2
      ⟨_, rfl, (accepts_wholeWord hwords).2 ⟨_, keyword_mem keyword, rfl, stops_cons.2 rfl⟩, rfl⟩
  have hfirst : after .spaced (' ' :: (commaChars (Node.charsAt d) bindings ++ s)) =
      commaChars (Node.charsAt d) bindings ++ s := by
    cases bindings with
    | nil => exact absurd rfl nonempty
    | cons b bs =>
      rw [after_space, commaChars, List.append_assoc]
      exact after_charsAt (inner b List.mem_cons_self) d _
  have hbindings := readsPast_bindings nonempty inner ih d hs hsettled hrest hopen hclosed
  have hall := (hleading.next (after_keyword (keyword_of_declarationWord hk)) hword.past).next hfirst hbindings
  rw [variable_eq]
  refine hall.plain rfl (by decide) fun _ => ?_
  cases keyword <;>
    simp [Rule.build, wordsOf_append, nodesOf_append, wordsOf_map_nodeItem, nodesOf_map_nodeItem,
      wordsOf_map_wordItem, nodesOf_map_wordItem, wordsOf_cons_wordItem, nodesOf_cons_wordItem,
      Render.keyword]

omit ih in
/-- A line with a variable. -/
theorem lines_variable (d : Nat) {s r rest : List Char} {bs ns : List Node}
    (hlines : Lines ns (after .spaced r) rest)
    (hread : ReadsPast .spaced (.rule .variableDecl)
      ((⟨.variableDecl attributes modifiers keyword bindings, default⟩ : Node).charsAt d ++ s)
      [⟨.variableDecl, default, .node ⟨.variableDecl attributes modifiers keyword bs, default⟩⟩] r) :
    Lines (⟨.variableDecl attributes modifiers keyword bs, default⟩ :: ns)
      ((⟨.variableDecl attributes modifiers keyword bindings, default⟩ : Node).charsAt d ++ s) rest := by
  obtain ⟨q, hread, hq⟩ := hread
  have hk : Render.keyword keyword ∈ declarationWords := by cases keyword <;> decide
  have hstart := startsLine_declaration (.variableDecl front known nonempty inner) d (.inl rfl)
    hread.accepts
  have himport := fails_import_leading front known hk d (commaChars (Node.charsAt d) bindings ++ s)
  rw [variable_eq] at hread hstart ⊢
  exact .cons hstart ⟨q, reads_alt_left (reads_alt_left (reads_alt_right himport hread)), hq⟩ hlines

theorem readsBack_variable :
    ReadsBack .statement ⟨.variableDecl attributes modifiers keyword bindings, default⟩ := by
  intro d s ns rest hs hlines
  have hruns : ∀ t, Node.runsInto
      ⟨.variableDecl attributes modifiers keyword (bindings.map Node.join), default⟩ t =
        (bindings.getLast?.any Node.isOpen && t.isNegated) := by
    intro t
    simp [Node.runsInto, List.getLast?_map, Option.any_map, Node.isOpen_join]
  have hsettled := hlines.start.settled
  have hown : (bindings.getLast?.any Node.isOpen = true → ReadsPast .spaced (.more tail) s [] s) →
      Lines (⟨.variableDecl attributes modifiers keyword (bindings.map Node.join), default⟩ :: ns)
        ((⟨.variableDecl attributes modifiers keyword bindings, default⟩ : Node).charsAt d ++ s)
        rest := by
    intro htail
    refine lines_variable front known nonempty inner d hlines ?_
    rw [← modifyLast_foldl_nil (bindings.map Node.join)]
    exact readsPast_variable front known nonempty inner ih d hs hsettled hsettled htail fun _ => rfl
  rw [join_variable front]
  cases hopen : bindings.getLast?.any Node.isOpen with
  | false =>
    rw [Node.joinFront_eq_cons fun t _ => by rw [hruns, hopen, Bool.false_and]]
    exact hown fun h => absurd (hopen.symm.trans h) (by decide)
  | true =>
    rcases hlines.tail_cases with ⟨t, ts, ops, r, rfl, hneg, -, hops, hfold, hmore⟩ | ⟨hnone, hneg⟩
    · rw [Node.joinFront, if_pos (by rw [hruns, hopen, hneg]; rfl)]
      refine lines_variable front known nonempty inner d hmore ?_
      rw [← modifyLast_congr inner hfold]
      exact readsPast_variable front known nonempty inner ih d hs hsettled hmore.start.settled
        (fun _ => hops) fun h => absurd (hopen.symm.trans h) (by decide)
    · rw [Node.joinFront_eq_cons fun t ht => by rw [hruns, hneg t ht, Bool.and_false]]
      exact hown fun _ => hnone

end Variable

/-! ## All of them -/

/-- The text of a readable declaration is read back with neighbours joined. -/
theorem readsBack {category : Category} {n : Node} (h : Readable category n) :
    ReadsBack category n := by
  induction h with
  | binding left types values inner _ _ _ ih => exact readsBack_binding left types values inner ih
  | accessor inner ih => exact readsBack_accessor inner ih _
  | variableDecl front known nonempty inner _ ih => exact readsBack_variable front known nonempty inner ih
  | functionDecl front known isName inner _ ih => exact readsBack_function front known isName inner ih
  | ofExpression h =>
    intro d s ns rest hs hlines
    rw [h.join_eq rfl]
    exact hlines.expression h d hs
  | _ => exact trivial

end SwiftMacro
