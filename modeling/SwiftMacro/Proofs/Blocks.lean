import SwiftMacro.Proofs.Statements
/-!
# Blocks are read back

The statements of a block stand one in each line, so they are read as `Node.join` says. A function and
an accessor are read as what their blocks are read as (`readsBack_function`, `readsBack_accessor`).
-/

namespace SwiftMacro

open Peg

/-! ## What is shown of each place -/

/-- The text of a node is read as the node with neighbours joined. A binding that ends with its initial
value takes what follows in the chain. -/
def ReadsBack : Category → Node → Prop
  | .binding, n => ∀ d s more rest, Ends s → Stops (· == ':') (after .spaced s) →
      Stops (· == '=') (after .spaced s) → Stops (· == '\x7b') (after .spaced rest) →
      (n.isOpen = true → ReadsPast .spaced (.more tail) s more rest) →
      (n.isOpen = false → rest = s) →
      ReadsPast .spaced (.rule .patternBinding) (n.charsAt d ++ s)
        [⟨.patternBinding, default, .node (n.join.mapInitial (more.foldl applyTail))⟩] rest
  | .accessor, n => ∀ d s, ReadsPast .spaced (.rule .accessor) (n.charsAt d ++ s)
      [⟨.accessor, default, .node n.join⟩] s
  | .statement, n => ∀ d s ns rest, Ends s → Lines ns (after .spaced s) rest →
      Lines (n.join.joinFront ns) (n.charsAt d ++ s) rest
  | _, _ => True

/-! ## Where nothing is joined -/

/-- Whether a node in this place can have blocks inside. -/
def Category.hasBlocks : Category → Bool
  | binding | accessor | statement => true
  | _ => false

theorem Node.join_eq_of_children {shape : Shape Node} {span : Span}
    (h : ∀ c ∈ shape.children, c.join = c) (hbody : shape.joinBody = shape) :
    join ⟨shape, span⟩ = ⟨shape, span⟩ := by
  rw [join_mk, Shape.map_eq_self_iff.2 h, hbody]

/-- Where no block is inside, there is nothing to join. -/
theorem Readable.join_eq {c : Category} {n : Node} (h : Readable c n) (hc : c.hasBlocks = false) :
    n.join = n := by
  induction h with
  | ofPrimary _ ih | ofOperand _ ih | ofUnary _ ih => exact ih rfl
  | binding | accessor | variableDecl | functionDecl | ofExpression => cases hc
  | emptyString | integer | float | boolean | nil | implicitMember | identifier | name | named
  | wildcard => exact Node.join_eq_of_children (fun c hc => nomatch hc) rfl
  | string _ _ _ ih => exact Node.join_eq_of_children (fun e he => ih e he rfl) rfl
  | macroUse _ _ _ _ ihTypes ihInner | attr _ _ _ _ ihTypes ihInner =>
    refine Node.join_eq_of_children (fun c hc => ?_) rfl
    rcases List.mem_append.1 hc with hc | hc
    · exact ihTypes c hc rfl
    · obtain ⟨a, ha, rfl⟩ := List.mem_map.1 hc
      exact ihInner a ha rfl
  | tuple _ _ ih =>
    refine Node.join_eq_of_children (fun c hc => ?_) rfl
    obtain ⟨a, ha, rfl⟩ := List.mem_map.1 hc
    exact ih a ha rfl
  | call _ _ _ ih ihInner =>
    refine Node.join_eq_of_children (fun c hc => ?_) rfl
    rcases List.mem_cons.1 hc with rfl | hc
    · exact ih rfl
    · obtain ⟨a, ha, rfl⟩ := List.mem_map.1 hc
      exact ihInner a ha rfl
  | member _ _ ih | unwrap _ ih | prefixed _ _ ih | optional _ ih =>
    refine Node.join_eq_of_children (fun c hc => ?_) rfl
    rw [List.mem_singleton.1 hc]
    exact ih rfl
  | binary _ _ _ ihl ihr | cast _ _ ihl ihr =>
    refine Node.join_eq_of_children (fun c hc => ?_) rfl
    simp only [Shape.children, List.mem_cons, List.not_mem_nil, or_false] at hc
    rcases hc with rfl | rfl
    · exact ihl rfl
    · exact ihr rfl
  | typeName _ _ ih | tuplePattern _ ih => exact Node.join_eq_of_children (fun t ht => ih t ht rfl) rfl

theorem map_join_eq {c : Category} {ns : List Node} (h : ∀ n ∈ ns, Readable c n)
    (hc : c.hasBlocks = false) : ns.map Node.join = ns :=
  (List.map_congr_left fun n hn => (h n hn).join_eq hc).trans (List.map_id ns)

theorem join_variable {attributes : List Node} (front : ∀ a ∈ attributes, Readable .attr a)
    (modifiers : List String) (keyword : BindingKeyword) (bindings : List Node) (span : Span) :
    (⟨.variableDecl attributes modifiers keyword bindings, span⟩ : Node).join =
      ⟨.variableDecl attributes modifiers keyword (bindings.map Node.join), span⟩ := by
  rw [Node.join_mk, Shape.map, map_join_eq front rfl]
  rfl

theorem join_function {attributes : List Node} (front : ∀ a ∈ attributes, Readable .attr a)
    (modifiers : List String) (name : String) (body : List Node) (span : Span) :
    (⟨.functionDecl attributes modifiers name body, span⟩ : Node).join =
      ⟨.functionDecl attributes modifiers name (Node.joinAll (body.map Node.join)), span⟩ := by
  rw [Node.join_mk, Shape.map, map_join_eq front rfl]
  rfl

theorem join_accessor (kind : AccessorKind) (body : List Node) (span : Span) :
    (⟨.accessor kind body, span⟩ : Node).join =
      ⟨.accessor kind (Node.joinAll (body.map Node.join)), span⟩ := by
  rw [Node.join_mk]
  rfl

theorem join_binding {pattern : Node} {declaredType initial : Option Node}
    (left : Readable .pattern pattern) (types : ∀ t ∈ declaredType, Readable .type t)
    (values : ∀ e ∈ initial, Readable .expression e) (accessors : List Node) (span : Span) :
    (⟨.patternBinding pattern declaredType initial accessors, span⟩ : Node).join =
      ⟨.patternBinding pattern declaredType initial (accessors.map Node.join), span⟩ := by
  have htype : declaredType.map Node.join = declaredType := by
    cases declaredType with
    | none => rfl
    | some t => exact congrArg some ((types t rfl).join_eq rfl)
  have hinitial : initial.map Node.join = initial := by
    cases initial with
    | none => rfl
    | some e => exact congrArg some ((values e rfl).join_eq rfl)
  rw [Node.join_mk, Shape.map, left.join_eq rfl, htype, hinitial]
  rfl

/-! ## Blocks -/

theorem after_indent (d : Nat) (s : List Char) :
    after .spaced (indentChars d ++ s) = after .spaced s := by
  induction d with
  | zero => rfl
  | succ d ih =>
    have hindent : indentChars (d + 1) = "    ".toList ++ indentChars d := String.toList_append ..
    rw [hindent, ← ih]
    exact (after_space _).trans <| (after_space _).trans <| (after_space _).trans (after_space _)

section Body

variable {body : List Node} (h : ∀ s ∈ body, Readable .statement s)
  (ih : ∀ s ∈ body, ReadsBack .statement s)

include h ih

/-- The lines of a block, up to its closing brace. -/
theorem lines_of_body (d k : Nat) (s : List Char) :
    Lines (Node.joinAll (body.map Node.join))
      (after .spaced (linesChars d body ++ (indentChars k ++ '\x7d' :: s))) ('\x7d' :: s) := by
  induction body with
  | nil =>
    have hclose : after .spaced (indentChars k ++ '\x7d' :: s) = '\x7d' :: s :=
      (after_indent k _).trans (after_solid rfl s)
    rw [linesChars, List.flatMap_nil, List.nil_append, hclose]
    exact .brace s
  | cons n ns ihBody =>
    have hrest := ihBody (fun m hm => h m (List.mem_cons_of_mem n hm))
      fun m hm => ih m (List.mem_cons_of_mem n hm)
    have htext : linesChars d (n :: ns) ++ (indentChars k ++ '\x7d' :: s) = indentChars d ++
        (n.charsAt d ++ '\n' :: (linesChars d ns ++ (indentChars k ++ '\x7d' :: s))) := by
      simp [linesChars]
    rw [htext, after_indent, after_charsAt (h n List.mem_cons_self)]
    rw [← after_newline] at hrest
    exact ih n List.mem_cons_self d _ _ _ (stops_cons.2 rfl) hrest

theorem lines_of_block (d : Nat) (s : List Char) : ∃ inner, blockChars d body ++ s = '\x7b' :: inner ∧
    Lines (Node.joinAll (body.map Node.join)) (after .spaced inner) ('\x7d' :: s) := by
  cases body with
  | nil =>
    refine ⟨'\x7d' :: s, rfl, ?_⟩
    rw [after_solid rfl]
    exact .brace s
  | cons n ns =>
    have hlines := lines_of_body h ih (d + 1) d s
    rw [← after_newline] at hlines
    exact ⟨_, by simp [blockChars], hlines⟩

/-- A block behind something else. -/
theorem readsPast_block {front : Peg Rule} {items : List Item} {t : List Char} (d : Nat) (s : List Char)
    (hfront : ReadsPast .spaced front t items (blockChars d body ++ s)) :
    Reads .spaced (front ++ .lit "\x7b" ++ Rule.statements ++ .lit "\x7d") t
      (items ++ (Node.joinAll (body.map Node.join)).map statementItem) s := by
  obtain ⟨inner, htext, hlines⟩ := lines_of_block h ih d s
  rw [htext] at hfront
  have hopen := hfront.seq_lit (w := "\x7b") (after_solid rfl inner)
  have hclose : after .spaced ('\x7d' :: s) = '\x7d' :: s := after_solid rfl s
  exact (hopen.past.seq hlines.readsPast).seq_lit (w := "\x7d") hclose

/-! ## Accessors -/

theorem readsBack_accessor (kind : AccessorKind) :
    ReadsBack .accessor ⟨.accessor kind body, default⟩ := by
  intro d s
  have hwords : PrefixFree ["get", "set"] := by decide
  have hkind : Render.accessorWord kind ∈ ["get", "set"] := by cases kind <;> decide
  have hword : Reads .spaced (.rule .accessorKind)
      ((Render.accessorWord kind).toList ++ ' ' :: (blockChars d body ++ s))
      [wordItem .accessorKind (Render.accessorWord kind).toList] (' ' :: (blockChars d body ++ s)) :=
    (reads_spelled rfl (fun _ => rfl) (by decide)).2
      ⟨_, rfl, (accepts_wholeWord hwords).2 ⟨_, hkind, rfl, stops_cons.2 rfl⟩, rfl⟩
  have hbody := readsPast_block h ih d s (hword.past.of_after (after_space _))
  rw [charsAt_accessor, List.append_assoc]
  refine hbody.past.plain rfl (by decide) fun _ => ?_
  rw [join_accessor]
  cases kind <;>
    simp [Rule.build, wordsOf_map_statementItem, Render.accessorWord, nodesOf_map_statementItem,
      wordsOf_cons_wordItem, nodesOf_cons_wordItem]

end Body

/-! ## What stands in front of a declaration -/

/-- The words behind the modifiers of a declaration. -/
def declarationWords : List String := ["var", "let", "func"]

theorem keyword_of_declarationWord {k : String} (hk : k ∈ declarationWords) : k ∈ Rule.keywords := by
  have hall : ∀ k ∈ declarationWords, k ∈ Rule.keywords := by decide
  exact hall k hk

section Word

variable {k : String} (hk : k ∈ declarationWords) (s : List Char)

include hk

theorem fails_attribute_declarationWord :
    sourceGrammar.Fails .spaced (.rule .attributeUse) (k.toList ++ s) := by
  obtain ⟨c, t, ht, hc⟩ := keyword_eq_cons (keyword_of_declarationWord hk)
  rw [ht]
  refine fails_of_first _ (isSolid_of_isNameChar (isNameChar_of_isNameStart hc)) ?_ rfl rfl
  refine beq_eq_false_iff_ne.2 ?_
  rintro rfl
  cases hc

theorem fails_modifier_declarationWord :
    sourceGrammar.Fails .spaced (.rule .modifier) (k.toList ++ ' ' :: s) := by
  have hne : ∀ k ∈ declarationWords, ∀ m ∈ Rule.modifiers, k.toList ≠ m.toList := by decide
  refine Grammar.fails_rule.2 ?_
  have hchars := isNameChar_of_mem_keywords k (keyword_of_declarationWord hk)
  exact fails_wholeWord hchars (stops_cons.2 rfl) (hne k hk) (by decide) (by decide) rfl

theorem fails_import_declarationWord :
    sourceGrammar.Fails .spaced (.rule .importDecl) (k.toList ++ ' ' :: s) := by
  have hne : ∀ k ∈ declarationWords, ∀ w ∈ ["import"], k.toList ≠ w.toList := by decide
  refine Grammar.fails_rule.2 (Grammar.fails_seq.2 (.inl (Grammar.fails_rule.2 ?_)))
  have hchars := isNameChar_of_mem_keywords k (keyword_of_declarationWord hk)
  exact fails_wholeWord hchars (stops_cons.2 rfl) (hne k hk) (by decide) (by decide) rfl

end Word

section Leading

variable {attributes : List Node} {modifiers : List String}
  (front : ∀ a ∈ attributes, Readable .attr a) (known : ∀ m ∈ modifiers, m ∈ Rule.modifiers)
  {k : String} (hk : k ∈ declarationWords) (d : Nat) (s : List Char)

include front known hk

/-- The attributes and modifiers are read back in front of a keyword. -/
theorem readsPast_leading :
    ReadsPast .spaced leading (leadingChars d attributes modifiers ++ (k.toList ++ ' ' :: s))
      (attributes.map (nodeItem .attributeUse) ++
        modifiers.map fun m => wordItem .modifier m.toList) (k.toList ++ ' ' :: s) := by
  have hsolid : ∀ t, after .spaced (k.toList ++ t) = k.toList ++ t := fun _ =>
    after_keyword (keyword_of_declarationWord hk)
  have hmodifiers : ReadsPast .spaced (.more (.rule .modifier))
      (modifiers.flatMap (fun m => m.toList ++ [' ']) ++ (k.toList ++ ' ' :: s))
      (modifiers.map fun m => wordItem .modifier m.toList) (k.toList ++ ' ' :: s) := by
    refine readsPast_more_flatMap modifiers (fun m hm t => ?_) ?_
    · have hword : Reads .spaced (.rule .modifier) (m.toList ++ ' ' :: t)
          [wordItem .modifier m.toList] (' ' :: t) :=
        (reads_spelled rfl (fun _ => rfl) (by decide)).2 ⟨_, rfl,
          (accepts_wholeWord modifiers_apart).2 ⟨m, known m hm, rfl, stops_cons.2 rfl⟩, rfl⟩
      rw [List.append_assoc, after_modifier (known m hm)]
      exact hword.past.of_after (after_space t)
    · rw [hsolid]
      exact fails_modifier_declarationWord hk s
  have hattributes : ReadsPast .spaced (.more (.rule .attributeUse))
      (attributes.flatMap (fun a => a.charsAt d ++ [' ']) ++
        (modifiers.flatMap (fun m => m.toList ++ [' ']) ++ (k.toList ++ ' ' :: s)))
      (attributes.map (nodeItem .attributeUse))
      (modifiers.flatMap (fun m => m.toList ++ [' ']) ++ (k.toList ++ ' ' :: s)) := by
    refine readsPast_more_flatMap attributes (fun a ha t => ?_) ?_
    · rw [List.append_assoc, after_charsAt (front a ha)]
      exact (roundTrips (front a ha) d t).past.of_after (after_space t)
    · cases modifiers with
      | nil =>
        rw [List.flatMap_nil, List.nil_append, hsolid]
        exact fails_attribute_declarationWord hk _
      | cons m ms =>
        rw [List.flatMap_cons, List.append_assoc, List.append_assoc,
          after_modifier (known m List.mem_cons_self)]
        exact fails_attribute_modifier (known m List.mem_cons_self) _
  have hstart : after .spaced (leadingChars d attributes modifiers ++ (k.toList ++ ' ' :: s)) =
      leadingChars d attributes modifiers ++ (k.toList ++ ' ' :: s) := by
    obtain ⟨c, t, ht, hc⟩ := keyword_eq_cons (keyword_of_declarationWord hk)
    have hstarts : Category.statement.starts c = true := by
      simp [Category.starts, isExpressionStart, isOperandStart, hc]
    obtain ⟨c', t', ht', hc'⟩ := leading_eq_cons (s := k.toList ++ ' ' :: s) front known d
      ⟨c, t ++ ' ' :: s, by rw [ht]; rfl, hstarts⟩
    rw [ht']
    exact after_solid (isSolid_of_starts hc') _
  have hall := hattributes.many_of_more.seq hmodifiers.many_of_more
  rw [← List.append_assoc, ← leadingChars, hstart] at hall
  exact hall

/-- A declaration is no import. -/
theorem fails_import_leading : sourceGrammar.Fails .spaced (.rule .importDecl)
    (leadingChars d attributes modifiers ++ (k.toList ++ ' ' :: s)) := by
  cases attributes with
  | cons a as =>
    obtain ⟨t, ht⟩ := attr_eq_cons (front a List.mem_cons_self) d
    rw [leadingChars, List.flatMap_cons, ht]
    exact fails_of_first _ rfl rfl rfl rfl
  | nil =>
    cases modifiers with
    | cons m ms =>
      rw [leadingChars, List.flatMap_nil, List.nil_append, List.flatMap_cons, List.append_assoc,
        List.append_assoc]
      exact fails_import_modifier (known m List.mem_cons_self) (stops_cons.2 rfl)
    | nil => exact fails_import_declarationWord hk s

end Leading

/-! ## Functions -/

/-- A declaration starts a line. -/
theorem startsLine_declaration {n : Node} (h : Readable .statement n) (d : Nat) {s r : List Char}
    {rule : Rule} (hrule : rule = .variableDecl ∨ rule = .functionDecl)
    (haccepts : sourceGrammar.Accepts .spaced (.rule rule) (n.charsAt d ++ s) r) :
    StartsLine (n.charsAt d ++ s) := by
  refine startsLine h d s (fails_signature_of_stops ?_)
  obtain ⟨c, t, ht, -⟩ := charsAt_eq_cons h d
  rw [ht] at haccepts ⊢
  refine stops_cons.2 (beq_eq_false_iff_ne.2 ?_)
  rintro rfl
  rcases hrule with rfl | rfl
  · exact haccepts.not_fails (fails_of_first _ rfl rfl rfl rfl)
  · exact haccepts.not_fails (fails_of_first _ rfl rfl rfl rfl)

section Function

variable {attributes : List Node} {modifiers : List String} {name : String} {body : List Node}
  (front : ∀ a ∈ attributes, Readable .attr a) (known : ∀ m ∈ modifiers, m ∈ Rule.modifiers)
  (isName : IsName name.toList) (inner : ∀ s ∈ body, Readable .statement s)
  (ih : ∀ s ∈ body, ReadsBack .statement s)

theorem function_eq (d : Nat) (s : List Char) :
    (⟨.functionDecl attributes modifiers name body, default⟩ : Node).charsAt d ++ s =
      leadingChars d attributes modifiers ++ ("func".toList ++ ' ' ::
        (name.toList ++ '(' :: ')' :: ' ' :: (blockChars d body ++ s))) := by
  simp [charsAt_function]

include front known isName inner ih

theorem readsPast_function (d : Nat) (s : List Char) :
    ReadsPast .spaced (.rule .functionDecl)
      ((⟨.functionDecl attributes modifiers name body, default⟩ : Node).charsAt d ++ s)
      [⟨.functionDecl, default, .node
        (⟨.functionDecl attributes modifiers name body, default⟩ : Node).join⟩] s := by
  have hk : "func" ∈ declarationWords := by decide
  have hleading := readsPast_leading front known hk d
    (name.toList ++ '(' :: ')' :: ' ' :: (blockChars d body ++ s))
  have hfunc := hleading.seq_lit (w := "func") (after_keyword (keyword_of_declarationWord hk))
  have hname : after .spaced (' ' :: (name.toList ++ '(' :: ')' :: ' ' :: (blockChars d body ++ s))) =
      name.toList ++ '(' :: ')' :: ' ' :: (blockChars d body ++ s) := by
    obtain ⟨c, t, ht, hc⟩ := isName.start
    rw [after_space, ht]
    exact after_solid (isSolid_of_isNameChar (isNameChar_of_isNameStart hc)) _
  have hidentifier : Reads .spaced (.rule .identifier)
      (name.toList ++ '(' :: ')' :: ' ' :: (blockChars d body ++ s))
      [wordItem .identifier name.toList] ('(' :: ')' :: ' ' :: (blockChars d body ++ s)) :=
    (reads_identifier (by decide)).2 ⟨_, isName, rfl, stops_cons.2 rfl, rfl⟩
  have hopen := (hfunc.past.next hname hidentifier.past).seq_lit (w := "(") (after_solid rfl _)
  have hclose := hopen.past.seq_lit (w := ")") (after_solid rfl _)
  have hbody := readsPast_block inner ih d s (hclose.past.of_after (after_space _))
  rw [function_eq]
  refine hbody.past.plain rfl (by decide) fun _ => ?_
  have hno : Rule.attributeUse ∉ statementRules := by decide
  rw [join_function front]
  simp [Rule.build, wordsOf_append, nodesOf_append, wordsOf_map_nodeItem, nodesOf_map_nodeItem,
    wordsOf_map_wordItem, nodesOf_map_wordItem, wordsOf_cons_wordItem, nodesOf_cons_wordItem,
    nodesOf_attribute_map_statementItem, nodesOf_map_statementItem, wordsOf_map_statementItem, hno]

theorem readsBack_function :
    ReadsBack .statement ⟨.functionDecl attributes modifiers name body, default⟩ := by
  intro d s ns rest hs hlines
  have hk : "func" ∈ declarationWords := by decide
  obtain ⟨r, hread, hrest⟩ := readsPast_function front known isName inner ih d s
  have hstart :=
    startsLine_declaration (.functionDecl front known isName inner) d (.inr rfl) hread.accepts
  -- Behind the modifiers stands no keyword of a variable.
  have hvariable : sourceGrammar.Fails .spaced (.rule .variableDecl)
      ((⟨.functionDecl attributes modifiers name body, default⟩ : Node).charsAt d ++ s) := by
    obtain ⟨q, hq, hafter⟩ := readsPast_leading front known hk d
      (name.toList ++ '(' :: ')' :: ' ' :: (blockChars d body ++ s))
    rw [function_eq]
    refine Grammar.fails_rule.2 (Grammar.fails_seq.2 (.inl (Grammar.fails_seq.2 (.inr ⟨q, hq.accepts, ?_⟩))))
    change sourceGrammar.Fails .spaced _ (after .spaced q)
    rw [hafter, after_keyword (keyword_of_declarationWord hk)]
    have hother : ∀ w ∈ ["var", "let"], "func".toList ≠ w.toList := by decide
    refine Grammar.fails_rule.2 (fails_wholeWord ?_ ?_ hother (by decide) (by decide) rfl)
    · decide
    · exact stops_cons.2 rfl
  have himport : sourceGrammar.Fails .spaced (.rule .importDecl)
      ((⟨.functionDecl attributes modifiers name body, default⟩ : Node).charsAt d ++ s) := by
    rw [function_eq]
    exact fails_import_leading front known hk d _
  rw [join_function front] at hread ⊢
  rw [Node.joinFront_eq_cons fun _ _ => rfl]
  refine .cons hstart ?_ hlines
  exact ⟨r, reads_alt_left (reads_alt_right (Grammar.fails_alt.2 ⟨himport, hvariable⟩) hread), hrest⟩

end Function

end SwiftMacro
