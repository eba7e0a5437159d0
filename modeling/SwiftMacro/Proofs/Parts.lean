import SwiftMacro.Node.Kind
import SwiftMacro.Proofs.Rows
import SwiftMacro.Proofs.Statements
/-!
# What becomes of the nodes below a rule

A rule hands the nodes below it on, puts them under one new node, or lets its first operand grow over
what follows it, one node for each step. `build_makes` says so for every rule, and that no node is
lost, made twice or put out of order on the way: the nodes below, from left to right, are the children
of what is made.
-/

namespace SwiftMacro

/-! ## The nodes of a part -/

/-- The nodes that a part carries, in source order. -/
def Part.nodesIn : Part → List Node
  | nothing | word _ => []
  | node n => [n]
  | nodes ns => ns
  | argument a => [a.expression]
  | arguments as => as.map (·.expression)
  | castTo _ target => [target]
  | operation _ rhs => [rhs]

/-- The nodes that items carry. -/
def carried (items : List Item) : List Node := items.flatMap (·.part.nodesIn)

@[simp] theorem carried_nil : carried [] = [] := rfl

@[simp] theorem carried_cons (i : Item) (items : List Item) :
    carried (i :: items) = i.part.nodesIn ++ carried items := rfl

@[simp] theorem carried_append (front back : List Item) :
    carried (front ++ back) = carried front ++ carried back := List.flatMap_append

/-- The entry that reads nodes of a kind on their own, if there is one. -/
def Kind.entry? : Kind → Option Entry
  | typeName | optionalType => some .type
  | accessor => some .accessor
  | variableDecl | functionDecl => some .source
  | attr | patternBinding | namePattern | tuplePattern | wildcardPattern => none
  | _ => some .expression

/-- The entry that reads the nodes a rule makes. -/
def Rule.entry? : Rule → Option Entry
  | stringLiteral | integerLiteral | floatLiteral | booleanLiteral | nilLiteral | macroUse
  | implicitMember | tupleExpr | prefixExpr | postfixExpr | expr => some .expression
  | typeReference | typeExpr => some .type
  | accessor => some .accessor
  | variableDecl | functionDecl => some .source
  | _ => none

/-- Whether nodes of this kind start with a sign and a name. -/
def Kind.isUse : Kind → Bool
  | macroUse | attr => true
  | _ => false

/-- The step makes a node over the operand so far and what the item carries. -/
def Grows (r : Rule) (step : Node → Item → Node) (i : Item) : Prop :=
  ∀ m, (step m i).span = m.span.cover i.span ∧ (step m i).children = m :: i.part.nodesIn ∧
    (step m i).kind.entry? = r.entry? ∧ (step m i).kind.isUse = false

/-- The operand that the first item starts with: its node, or the leaf that it names. -/
def Starts (r : Rule) (first : Item) (base : Node) : Prop :=
  first.part = .node base ∨ first.part.nodesIn = [] ∧ base.span = first.span ∧ base.children = [] ∧
    base.kind.entry? = r.entry?

/-- The rules of operands with what follows them. -/
def chainRules : List Rule := [.postfixExpr, .expr, .typeExpr]

/-- What a rule with this span makes of the items below it. -/
inductive Makes (r : Rule) (span : Span) (items : List Item) : Part → Prop
  /-- It hands their nodes on. -/
  | hands {part : Part} (hr : r.entry? = none ∨ r = .prefixExpr) (h : part.nodesIn = carried items) :
      Makes r span items part
  /-- It puts their nodes under a new one. The first item of a use is its name. -/
  | wraps {shape : Shape Node} (hkind : shape.kind.entry? = r.entry?)
      (huse : shape.kind.isUse = true → ∃ name rest, items = name :: rest ∧
        name.rule = .identifier ∧ name.part.nodesIn = [])
      (h : shape.children = carried items) : Makes r span items (.node ⟨shape, span⟩)
  /-- The operand that the first item starts with grows over the others, and over fewer of them where
  only these stand there. -/
  | grows {first : Item} {rest : List Item} {base : Node} {step : Node → Item → Node}
      (hr : r ∈ chainRules) (hitems : items = first :: rest) (hbase : Starts r first base)
      (hstep : ∀ i ∈ rest, Grows r step i)
      (hfront : ∀ front, front <+: rest → ∀ span text,
        r.build span text (first :: front) = .ok (.node (front.foldl step base))) :
      Makes r span items (.node (rest.foldl step base))

theorem Makes.wraps_plain {r : Rule} {span : Span} {items : List Item} {shape : Shape Node}
    (hkind : shape.kind.entry? = r.entry?) (huse : shape.kind.isUse = false)
    (h : shape.children = carried items) : Makes r span items (.node ⟨shape, span⟩) := by
  refine .wraps hkind (fun hname => ?_) h
  rw [huse] at hname
  cases hname

/-! ## Items of one kind -/

section Kinds

variable {items : List Item} {rs : List Rule}

theorem Item.Fits.nodesIn_eq_nil {i : Item} (h : i.Fits)
    (hr : i.rule.partKind = .word ∨ i.rule.partKind = .nothing) : i.part.nodesIn = [] := by
  have hkind : i.part.kind = .word ∨ i.part.kind = .nothing := by rwa [h]
  generalize i.part = part at hkind
  cases part <;> first | rfl | (rcases hkind with hkind | hkind <;> cases hkind)

/-- The rules of a row that make nodes are among the given ones. -/
def Picks (rules rs : List Rule) : Prop :=
  ∀ r ∈ rs, r ∈ rules ∧ r.partKind = .node ∨ r.partKind = .word ∨ r.partKind = .nothing

instance (rules rs : List Rule) : Decidable (Picks rules rs) :=
  inferInstanceAs (Decidable (∀ r ∈ rs, _))

/-- Where the rules that make nodes are all picked, so are all nodes. -/
theorem IsRow.nodesOf_eq_carried (h : IsRow rs items) {rules : List Rule} (hrs : Picks rules rs) :
    nodesOf rules items = carried items := by
  obtain ⟨rfl, hfits⟩ := h
  induction items with
  | nil => rfl
  | cons i items ih =>
    have ih := ih (fun j hj => hfits j (List.mem_cons_of_mem _ hj))
      fun r hr => hrs r (List.mem_cons_of_mem _ hr)
    have hfit := hfits i List.mem_cons_self
    rw [carried_cons, ← ih]
    rcases hrs i.rule List.mem_cons_self with ⟨hmem, hkind⟩ | hkind
    · obtain ⟨n, hn⟩ := hfit.node hkind
      have hsome : i.nodeOf? rules = some n := by simp [Item.nodeOf?, hn, hmem]
      rw [nodesOf, List.filterMap_cons_some hsome, hn]
      rfl
    · have hnil := hfit.nodesIn_eq_nil hkind
      have hnone : i.nodeOf? rules = none := by
        unfold Item.nodeOf?
        split
        · next n hn => rw [hn] at hnil; cases hnil
        · rfl
      rw [nodesOf, List.filterMap_cons_none hnone, hnil]
      rfl

theorem IsRow.nodesOf_eq_nil (h : IsRow rs items) {rules : List Rule} (hrs : ∀ r ∈ rs, r ∉ rules) :
    nodesOf rules items = [] :=
  nodesOf_eq_nil_of_forall (h.1 ▸ hrs)

/-- Where the front of a row makes the nodes of one list and the back those of another, all nodes are
picked. -/
theorem IsRow.nodesOf_append_nodesOf {front back kept kept' : List Rule} {its jts : List Item}
    (h : IsRow front its) (h' : IsRow back jts) (hfront : front ⊆ kept) (hback : back ⊆ kept')
    {rules rules' : List Rule} (hpicks : Picks rules kept) (hpicks' : Picks rules' kept')
    (hapart : ∀ r ∈ kept, r ∉ rules') (hapart' : ∀ r ∈ kept', r ∉ rules) :
    nodesOf rules (its ++ jts) ++ nodesOf rules' (its ++ jts) = carried (its ++ jts) := by
  rw [nodesOf_append, nodesOf_append, h'.nodesOf_eq_nil fun r hr => hapart' r (hback hr),
    h.nodesOf_eq_nil fun r hr => hapart r (hfront hr), List.append_nil, List.nil_append,
    carried_append, h.nodesOf_eq_carried fun r hr => hpicks r (hfront hr),
    h'.nodesOf_eq_carried fun r hr => hpicks' r (hback hr)]

/-- The items of a row in two parts. -/
theorem IsRow.split {front back : List Rule} (h : IsRow (front ++ back) items) :
    ∃ its jts, items = its ++ jts ∧ IsRow front its ∧ IsRow back jts := by
  obtain ⟨its, jts, rfl, hits, hjts⟩ := List.map_eq_append_iff.1 h.1
  exact ⟨its, jts, rfl, ⟨hits, fun i hi => h.2 i (List.mem_append_left _ hi)⟩,
    hjts, fun i hi => h.2 i (List.mem_append_right _ hi)⟩

/-- The item of a row of one rule. -/
theorem IsRow.single {r : Rule} (h : IsRow [r] items) :
    ∃ span part, items = [⟨r, span, part⟩] ∧ part.kind = r.partKind := by
  obtain ⟨⟨_, span, part⟩, rfl, rfl⟩ := List.map_eq_singleton_iff.1 h.1
  exact ⟨span, part, rfl, h.2 _ List.mem_cons_self⟩

end Kinds

/-! ## What each rule makes -/

section Built

variable {items : List Item} {rs : List Rule}

/-- The arguments of a list carry their expressions. -/
theorem argumentList_eq_carried (hfits : ∀ i ∈ items, i.Fits)
    (h : items.map Item.rule ⊆ [.argument]) :
    (argumentList items).map (·.expression) = carried items := by
  induction items with
  | nil => rfl
  | cons i items ih =>
    have ih := ih (fun j hj => hfits j (List.mem_cons_of_mem _ hj))
      fun r hr => h (List.mem_cons_of_mem _ hr)
    have hkind : i.part.kind = .argument := by
      rw [hfits i List.mem_cons_self, List.mem_singleton.1 (h List.mem_cons_self)]
      rfl
    obtain ⟨rule, span, part⟩ := i
    cases part <;> first | exact congrArg (_ :: ·) ih | cases hkind

/-- The interpolations of a string literal are the nodes below it. -/
theorem segments_eq_carried (hfits : ∀ i ∈ items, i.Fits)
    (h : items.map Item.rule ⊆ [.interpolation, .stringText]) :
    (items.filterMap Item.segment?).filterMap Segment.expression? = carried items := by
  induction items with
  | nil => rfl
  | cons i items ih =>
    have ih := ih (fun j hj => hfits j (List.mem_cons_of_mem _ hj))
      fun r hr => h (List.mem_cons_of_mem _ hr)
    have hkind : i.part.kind = .node ∨ i.part.kind = .word := by
      have hr : i.rule = .interpolation ∨ i.rule = .stringText := by simpa using h List.mem_cons_self
      rw [hfits i List.mem_cons_self]
      rcases hr with hr | hr <;> rw [hr]
      · exact .inl rfl
      · exact .inr rfl
    obtain ⟨rule, span, part⟩ := i
    cases part <;>
      first
        | exact ih
        | exact congrArg (_ :: ·) ih
        | (rcases hkind with hkind | hkind <;> cases hkind)

/-- An attribute or a macro use starts with its name. -/
theorem name_of_use (hfits : ∀ i ∈ items, i.Fits) (h : Rule.Expects .attributeUse (items.map Item.rule)) :
    ∃ name rest, items = name :: rest ∧ name.rule = .identifier ∧ name.part.nodesIn = [] := by
  obtain ⟨types, arguments, hrs, -, -⟩ := h
  obtain ⟨span, name, rest, rfl, -, -⟩ := items_word_cons hfits hrs rfl
  exact ⟨_, rest, rfl, rfl, rfl⟩

theorem items_generics (h : IsRow rs items) (hrs : rs = [] ∨ rs = [.genericClause]) :
    items = [] ∨ ∃ place ns, items = [⟨.genericClause, place, .nodes ns⟩] := by
  rcases hrs with rfl | rfl
  · exact .inl (List.map_eq_nil_iff.1 h.1)
  · obtain ⟨place, part, rfl, hkind⟩ := h.single
    cases part <;> first | exact .inr ⟨_, _, rfl⟩ | cases hkind

theorem items_arguments (h : IsRow rs items) (hrs : rs = [] ∨ rs = [.argumentClause]) :
    items = [] ∨ ∃ place as, items = [⟨.argumentClause, place, .arguments as⟩] := by
  rcases hrs with rfl | rfl
  · exact .inl (List.map_eq_nil_iff.1 h.1)
  · obtain ⟨place, part, rfl, hkind⟩ := h.single
    cases part <;> first | exact .inr ⟨_, _, rfl⟩ | cases hkind

/-- The types and the arguments of an attribute or a macro use. -/
theorem use_eq_carried (hfits : ∀ i ∈ items, i.Fits) (h : Rule.Expects .attributeUse (items.map Item.rule)) :
    genericsOf items ++ (argumentsOf items).map (·.expression) = carried items := by
  obtain ⟨types, arguments, hrs, htypes, harguments⟩ := h
  obtain ⟨span, name, rest, rfl, hrest, hfits⟩ := items_word_cons hfits hrs rfl
  obtain ⟨its, jts, rfl, hits, hjts⟩ := IsRow.split ⟨hrest, hfits⟩
  rcases items_generics hits htypes with rfl | ⟨place, ns, rfl⟩ <;>
    rcases items_arguments hjts harguments with rfl | ⟨place', as, rfl⟩ <;>
    simp [genericsOf, argumentsOf, carried, Part.nodesIn]

theorem grows_suffix {i : Item} (h : i.Fits)
    (hr : i.rule = .argumentClause ∨ i.rule = .memberSuffix ∨ i.rule = .forceUnwrap) :
    Grows .postfixExpr applySuffix i := by
  obtain ⟨rule, place, part⟩ := i
  have hkind : part.kind = .arguments ∨ part.kind = .word := by
    rw [(h : part.kind = rule.partKind)]
    rcases hr with rfl | rfl | rfl
    · exact .inl rfl
    · exact .inr rfl
    · exact .inr rfl
  intro m
  cases part with
  | arguments as => exact ⟨rfl, rfl, rfl, rfl⟩
  | word member =>
    by_cases hrule : rule = .memberSuffix
    · have hstep : applySuffix m ⟨rule, place, .word member⟩ =
          ⟨.memberAccess (some m) member, m.span.cover place⟩ := if_pos hrule
      rw [hstep]
      exact ⟨rfl, rfl, rfl, rfl⟩
    · have hstep : applySuffix m ⟨rule, place, .word member⟩ =
          ⟨.forceUnwrap m, m.span.cover place⟩ := if_neg hrule
      rw [hstep]
      exact ⟨rfl, rfl, rfl, rfl⟩
  | _ => rcases hkind with hkind | hkind <;> cases hkind

theorem grows_tail {i : Item} (h : i.Fits) (hr : i.rule = .castTail ∨ i.rule = .binaryTail) :
    Grows .expr applyTail i := by
  obtain ⟨rule, place, part⟩ := i
  have hkind : part.kind = .castTo ∨ part.kind = .operation := by
    rw [(h : part.kind = rule.partKind)]
    exact hr.imp (congrArg Rule.partKind) (congrArg Rule.partKind)
  intro m
  cases part with
  | castTo kind target => exact ⟨rfl, rfl, rfl, rfl⟩
  | operation operator rhs => exact ⟨rfl, rfl, rfl, rfl⟩
  | _ => rcases hkind with hkind | hkind <;> cases hkind

theorem grows_mark {i : Item} (h : i.Fits) (hr : i.rule = .optionalMark) :
    Grows .typeExpr applyMark i := by
  have hnil : i.part.nodesIn = [] := h.nodesIn_eq_nil (.inl (congrArg Rule.partKind hr))
  intro m
  rw [hnil]
  exact ⟨rfl, rfl, rfl, rfl⟩

/-- The pattern of a binding, its type, its initial value and its accessors. -/
theorem makes_binding (hfits : ∀ i ∈ items, i.Fits)
    (hexpects : Rule.Expects .patternBinding (items.map Item.rule)) {span : Span} {text : String}
    {part : Part} (h : Rule.build .patternBinding span text items = .ok part) :
    Makes .patternBinding span items part := by
  obtain ⟨pattern, types, values, accessors, hrs, hpattern, htypes, hvalues, haccessors⟩ := hexpects
  have hrow : IsRow ([pattern] ++ types ++ values ++ accessors) items := ⟨by simp [hrs], hfits⟩
  obtain ⟨_, ads, rfl, hits, hads⟩ := hrow.split
  obtain ⟨_, ves, rfl, hits, hves⟩ := hits.split
  obtain ⟨its, tes, rfl, hits, htes⟩ := hits.split
  have honly : ∀ {a : Rule} {rs : List Rule} {jts : List Item}, (rs = [] ∨ rs = [a]) →
      a.partKind = .node → IsRow rs jts → (nodesOf [a] jts).head?.toList = carried jts := by
    intro a rs jts hrs ha hjts
    rcases hrs with rfl | rfl
    · obtain rfl := List.map_eq_nil_iff.1 hjts.1
      rfl
    · obtain ⟨place, n, rfl⟩ := items_node hjts.2 hjts.1 ha
      simp [nodesOf, Item.nodeOf?, Part.nodesIn]
  obtain ⟨n, hn⟩ : ∃ n, nodesOf patternRules its = [n] ∧ carried its = [n] := by
    obtain ⟨place, n, rfl⟩ := items_node hits.2 hits.1 (kind_of_mem_patternRules pattern hpattern)
    exact ⟨n, by simp [nodesOf, Item.nodeOf?, hpattern], rfl⟩
  have hnil : ∀ {rs kept : List Rule} {jts : List Item} (rules : List Rule), IsRow rs jts →
      rs ⊆ kept → (∀ r ∈ kept, r ∉ rules) → nodesOf rules jts = [] :=
    fun _ hjts hkept hrules => hjts.nodesOf_eq_nil fun r hr => hrules r (hkept hr)
  have hpatterns : [pattern] ⊆ patternRules := by simpa using hpattern
  have htypes' : types ⊆ [.declaredType] := by rcases htypes with rfl | rfl <;> simp
  have hvalues' : values ⊆ [.initialValue] := by rcases hvalues with rfl | rfl <;> simp
  have hads' : nodesOf [.accessor] ads = carried ads :=
    hads.nodesOf_eq_carried fun r hr =>
      (by decide : Picks [.accessor] [.accessor]) r (haccessors hr)
  simp only [Rule.build, nodesOf_append, hn.1,
    hnil [.declaredType] hits hpatterns (by decide), hnil [.initialValue] hits hpatterns (by decide),
    hnil [.accessor] hits hpatterns (by decide), hnil patternRules htes htypes' (by decide),
    hnil [.initialValue] htes htypes' (by decide), hnil [.accessor] htes htypes' (by decide),
    hnil patternRules hves hvalues' (by decide), hnil [.declaredType] hves hvalues' (by decide),
    hnil [.accessor] hves hvalues' (by decide), hnil patternRules hads haccessors (by decide),
    hnil [.declaredType] hads haccessors (by decide), hnil [.initialValue] hads haccessors (by decide),
    List.nil_append, List.append_nil, hads'] at h
  obtain rfl := Except.ok.inj h
  refine Makes.wraps_plain rfl rfl ?_
  simp only [Shape.children, carried_append, hn.2, honly htypes rfl htes, honly hvalues rfl hves]
  simp

theorem makes_word {r : Rule} (hr : r.style = .word) {span : Span} {text : String} {part : Part}
    (h : r.build span text [] = .ok part) : Makes r span [] part := by
  cases r with
  | integerLiteral | floatLiteral | booleanLiteral | nilLiteral | wildcardPattern =>
    obtain rfl := Except.ok.inj h
    exact Makes.wraps_plain rfl rfl rfl
  | keyword | escape | importKeyword | identifier | modifier | bindingKeyword | accessorKind
  | qualifiedName | optionalMark | castOperator | binaryOperator | prefixOperator | forceUnwrap
  | argumentLabel =>
    obtain rfl := Except.ok.inj h
    exact .hands (.inl rfl) rfl
  | stringText =>
    simp only [Rule.build] at h
    split at h
    · obtain rfl := Except.ok.inj h
      exact .hands (.inl rfl) rfl
    · cases h
  | _ => cases hr

theorem makes_chain {r : Rule} (hr : r ∈ chainRules) (hfits : ∀ i ∈ items, i.Fits)
    (hexpects : r.Expects (items.map Item.rule)) {span : Span} {text : String} {part : Part}
    (h : r.build span text items = .ok part) : Makes r span items part := by
  have hmem := hr
  simp only [chainRules, List.mem_cons, List.not_mem_nil, or_false] at hmem
  rcases hmem with rfl | rfl | rfl
  · obtain ⟨first, suffixes, hrs, hfirst, hsuffixes⟩ := hexpects
    -- A name is not a node yet: the operand starts as a leaf that is made of it.
    rcases kind_of_mem_operandRules first hfirst with rfl | hfirst
    · obtain ⟨_, name, rest, rfl, hrest, hfits⟩ := items_word_cons hfits hrs rfl
      obtain rfl := Except.ok.inj h
      refine .grows hr rfl (.inr ⟨rfl, rfl, rfl, rfl⟩)
        (fun i hi => grows_suffix (hfits i hi) ?_) fun _ _ _ _ => rfl
      simpa using hsuffixes (hrest ▸ List.mem_map_of_mem hi)
    · obtain ⟨_, n, rest, rfl, hrest, hfits⟩ := items_node_cons hfits hrs hfirst
      obtain rfl := Except.ok.inj h
      refine .grows hr rfl (.inl rfl) (fun i hi => grows_suffix (hfits i hi) ?_) fun _ _ _ _ => rfl
      simpa using hsuffixes (hrest ▸ List.mem_map_of_mem hi)
  · obtain ⟨tails, hrs, htails⟩ := hexpects
    obtain ⟨_, n, rest, rfl, hrest, hfits⟩ := items_node_cons hfits hrs rfl
    obtain rfl := Except.ok.inj h
    refine .grows hr rfl (.inl rfl) (fun i hi => grows_tail (hfits i hi) ?_) fun _ _ _ _ => rfl
    simpa using htails (hrest ▸ List.mem_map_of_mem hi)
  · obtain ⟨marks, hrs, hmarks⟩ := hexpects
    obtain ⟨_, n, rest, rfl, hrest, hfits⟩ := items_node_cons hfits hrs rfl
    have hmark : ∀ r ∈ rest.map Item.rule, r = .optionalMark := fun r hr =>
      List.mem_singleton.1 (hmarks (hrest ▸ hr))
    rw [build_typeExpr hmark] at h
    obtain rfl := Except.ok.inj h
    refine .grows hr rfl (.inl rfl) (fun i hi => grows_mark (hfits i hi) ?_) fun front hfront _ _ => ?_
    · exact hmark _ (List.mem_map_of_mem hi)
    · exact build_typeExpr (fun r hr => hmark r ((hfront.map Item.rule).subset hr)) _ _

/-- The attributes of a declaration, and behind its words the bindings or the body. -/
theorem makes_declaration {r : Rule} (hr : r = .variableDecl ∨ r = .functionDecl)
    (hfits : ∀ i ∈ items, i.Fits) (hexpects : r.Expects (items.map Item.rule)) {span : Span}
    {text : String} {part : Part} (h : r.build span text items = .ok part) : Makes r span items part := by
  rcases hr with rfl | rfl
  · obtain ⟨front, bindings, hrs, hfront, hbindings⟩ := hexpects
    obtain ⟨its, jts, rfl, hits, hjts⟩ := IsRow.split ⟨hrs, hfits⟩
    have hback : .bindingKeyword :: bindings ⊆ [Rule.bindingKeyword, .patternBinding] :=
      List.cons_subset_cons _ hbindings
    simp only [Rule.build] at h
    split at h
    · obtain rfl := Except.ok.inj h
      exact Makes.wraps_plain rfl rfl (hits.nodesOf_append_nodesOf hjts hfront hback (by decide)
        (by decide) (by decide) (by decide))
    · cases h
  · obtain ⟨front, body, hrs, hfront, hbody⟩ := hexpects
    obtain ⟨its, jts, rfl, hits, hjts⟩ := IsRow.split ⟨hrs, hfits⟩
    have hback : .identifier :: body ⊆ Rule.identifier :: .importDecl :: statementRules :=
      List.cons_subset_cons _ hbody
    simp only [Rule.build] at h
    split at h
    · obtain rfl := Except.ok.inj h
      exact Makes.wraps_plain rfl rfl (hits.nodesOf_append_nodesOf hjts hfront hback (by decide)
        (by decide) (by decide) (by decide))
    · cases h

theorem typeArguments_eq_carried (hfits : ∀ i ∈ items, i.Fits)
    (hexpects : Rule.Expects .typeReference (items.map Item.rule)) :
    genericsOf items = carried items := by
  rcases hexpects with hrs | hrs
  · obtain ⟨_, name, rest, rfl, hrest, -⟩ := items_word_cons hfits hrs rfl
    obtain rfl := List.map_eq_nil_iff.1 hrest
    rfl
  · obtain ⟨_, name, rest, rfl, hrest, hfits⟩ := items_word_cons hfits hrs rfl
    obtain ⟨place, part, rfl, hkind⟩ := IsRow.single ⟨hrest, hfits⟩
    cases part <;> first | rfl | cases hkind

/-- What a rule makes of the nodes below it. -/
theorem build_makes {r : Rule} (hfits : ∀ i ∈ items, i.Fits)
    (hrow : r.style ≠ .word → r.body.Row (items.map Item.rule)) (hword : r.style = .word → items = [])
    {span : Span} {text : String} {part : Part} (h : r.build span text items = .ok part) :
    Makes r span items part := by
  by_cases hstyle : r.style = .word
  · obtain rfl := hword hstyle
    exact makes_word hstyle h
  have hexpects := expects_of_row hrow
  by_cases hchain : r ∈ chainRules
  · exact makes_chain hchain hfits hexpects h
  have hrow := hrow hstyle
  -- Picking the nodes of some rules leaves none out if no other rule of the row makes nodes.
  have hcarried : ∀ rules : List Rule, Picks rules r.body.rules →
      nodesOf rules items = carried items := by
    intro rules hrules
    have hrs : Picks rules (items.map Item.rule) := fun r hr => hrules r (hrow.mem_rules hr)
    exact IsRow.nodesOf_eq_carried ⟨rfl, hfits⟩ hrs
  cases r with
  | integerLiteral | floatLiteral | booleanLiteral | nilLiteral | wildcardPattern | keyword | escape
  | importKeyword | identifier | modifier | bindingKeyword | accessorKind | qualifiedName | optionalMark
  | castOperator | binaryOperator | prefixOperator | forceUnwrap | argumentLabel | stringText =>
    exact absurd rfl hstyle
  | postfixExpr | expr | typeExpr => exact absurd (by decide) hchain
  | endOfInput | importDecl =>
    have hnil := hcarried [] (by decide)
    obtain rfl := Except.ok.inj h
    rw [nodesOf_eq_nil_of_forall (by simp)] at hnil
    exact .hands (.inl rfl) hnil
  | namePattern =>
    have hnil := hcarried [] (by decide)
    obtain rfl := Except.ok.inj h
    rw [nodesOf_eq_nil_of_forall (by simp)] at hnil
    exact Makes.wraps_plain rfl rfl hnil
  | implicitMember =>
    have hnil := hcarried [] (by decide)
    simp only [Rule.build] at h
    split at h
    · obtain rfl := Except.ok.inj h
      rw [nodesOf_eq_nil_of_forall (by simp)] at hnil
      exact Makes.wraps_plain rfl rfl hnil
    · cases h
  | memberSuffix =>
    have hnil := hcarried [] (by decide)
    simp only [Rule.build] at h
    split at h
    · obtain rfl := Except.ok.inj h
      rw [nodesOf_eq_nil_of_forall (by simp)] at hnil
      exact .hands (.inl rfl) hnil
    · cases h
  | tuplePattern =>
    obtain rfl := Except.ok.inj h
    exact Makes.wraps_plain rfl rfl (hcarried _ (by decide))
  | genericClause | sourceFile | expressionEntry | accessorEntry | typeEntry =>
    obtain rfl := Except.ok.inj h
    exact .hands (.inl rfl) (hcarried _ (by decide))
  | accessor =>
    simp only [Rule.build] at h
    split at h
    · obtain rfl := Except.ok.inj h
      exact Makes.wraps_plain rfl rfl (hcarried _ (by decide))
    · cases h
  | interpolation | initialValue | declaredType =>
    obtain ⟨_, n, rfl⟩ := items_node hfits hexpects rfl
    obtain rfl := Except.ok.inj h
    exact .hands (.inl rfl) rfl
  | argument =>
    rcases hexpects with hrs | hrs
    · obtain ⟨_, n, rfl⟩ := items_node hfits hrs rfl
      obtain rfl := Except.ok.inj h
      exact .hands (.inl rfl) rfl
    · obtain ⟨_, label, _, n, rfl⟩ := items_word_node hfits hrs rfl rfl
      obtain rfl := Except.ok.inj h
      exact .hands (.inl rfl) rfl
  | castTail | binaryTail =>
    obtain ⟨_, word, _, n, rfl⟩ := items_word_node hfits hexpects rfl rfl
    obtain rfl := Except.ok.inj h
    exact .hands (.inl rfl) rfl
  | prefixExpr =>
    rcases hexpects with hrs | hrs
    · obtain ⟨_, n, rfl⟩ := items_node hfits hrs rfl
      obtain rfl := Except.ok.inj h
      exact .hands (.inr rfl) rfl
    · obtain ⟨_, operator, _, n, rfl⟩ := items_word_node hfits hrs rfl rfl
      obtain rfl := Except.ok.inj h
      exact Makes.wraps_plain rfl rfl rfl
  | tupleExpr =>
    obtain rfl := Except.ok.inj h
    exact Makes.wraps_plain rfl rfl (argumentList_eq_carried hfits hexpects)
  | argumentClause =>
    obtain rfl := Except.ok.inj h
    exact .hands (.inl rfl) (argumentList_eq_carried hfits hexpects)
  | stringLiteral =>
    have hsegments := segments_eq_carried hfits hexpects
    simp only [Rule.build] at h
    split at h
    · next hnil =>
      obtain rfl := Except.ok.inj h
      rw [hnil] at hsegments
      exact Makes.wraps_plain rfl rfl hsegments
    · obtain rfl := Except.ok.inj h
      exact Makes.wraps_plain rfl rfl hsegments
  | attributeUse | macroUse =>
    obtain ⟨name, rest, rfl, hname, hnodes⟩ := name_of_use hfits hexpects
    have huse := use_eq_carried hfits hexpects
    simp only [Rule.build] at h
    split at h
    · obtain rfl := Except.ok.inj h
      exact .wraps rfl (fun _ => ⟨name, rest, rfl, hname, hnodes⟩) huse
    · cases h
  | typeReference =>
    simp only [Rule.build] at h
    split at h
    · obtain rfl := Except.ok.inj h
      exact Makes.wraps_plain rfl rfl (typeArguments_eq_carried hfits hexpects)
    · cases h
  | variableDecl => exact makes_declaration (.inl rfl) hfits hexpects h
  | functionDecl => exact makes_declaration (.inr rfl) hfits hexpects h
  | patternBinding => exact makes_binding hfits hexpects h

end Built

/-- A word has no items below it. -/
theorem itemsOf_word {r : Rule} (hr : r.style = .word) {layout : Layout} {s rest : List Char}
    {ps : List (Tree Rule)} (h : sourceGrammar.Matches (r.style.inside layout) r.body s ps rest)
    {offset : Nat} {inner : List Item} (hinner : Tree.itemsOf offset ps = .ok inner) : inner = [] := by
  rw [hr] at h
  obtain ⟨its, hits, hnil⟩ := (builds_of_hidden h (isWordy_body hr)).itemsOf offset
  rw [hinner] at hits
  obtain rfl := Except.ok.inj hits
  exact List.map_eq_nil_iff.1 hnil.symm

/-- What a matched rule makes of the items below it. -/
theorem makes_of_match {r : Rule} {layout : Layout} {s rest : List Char} {ps : List (Tree Rule)}
    (hmatch : sourceGrammar.Matches (r.style.inside layout) r.body s ps rest)
    (hrow : r.style ≠ .word → r.body.Row (heads ps)) {offset : Nat} {inner : List Item}
    (hinner : Tree.itemsOf offset ps = .ok inner) {span : Span} {text : String} {part : Part}
    (hpart : r.build span text inner = .ok part) : Makes r span inner part := by
  obtain ⟨hrules, hfits⟩ := isRow_of_itemsOf hinner
  refine build_makes hfits (fun hstyle => ?_) (fun hstyle => itemsOf_word hstyle hmatch hinner) hpart
  rw [hrules]
  exact hrow hstyle

end SwiftMacro
