import SwiftMacro.Proofs.Extraction
/-!
# Stored variables

What the accessor macro makes of a site depends on its first type argument and on the one variable of the
declaration, asked for in that order (`accessors_decided`). Where both are there, the getter and the setter
name the store, the label and the key in the same way (`Store.Accesses`). The three spellings of an optional
type give the same texts.
-/

namespace SwiftMacro

/-! ## One variable -/

section Binding

variable {d b pattern : Node} {attributes bindings accessors : List Node} {modifiers : List String}
  {keyword : BindingKeyword} {type initial : Option Node}

theorem binding_eq_none_iff : d.binding = .ok none ↔ d.kind ≠ .variableDecl := by
  have hbound := bound_binding d
  generalize d.binding = found at hbound
  cases hbound with
  | none hkind => exact ⟨fun _ => hkind, fun _ => rfl⟩
  | several hshape | unbound hshape | unnamed hshape | named hshape =>
    refine ⟨nofun, fun hkind => absurd ?_ hkind⟩
    rw [Node.kind, hshape]
    rfl

theorem cannotGetBinding_iff (hshape : d.shape = .variableDecl attributes modifiers keyword bindings) :
    (∃ span, d.binding = .error ⟨.cannotGetBinding, span⟩) ↔
      ¬ ∃ b, bindings = [b] ∧ b.kind = .patternBinding := by
  have hbound := bound_binding d
  generalize d.binding = found at hbound
  cases hbound with
  | none hkind =>
    rw [Node.kind, hshape] at hkind
    exact absurd rfl hkind
  | several hshape' hbindings =>
    obtain ⟨-, -, -, rfl⟩ := Shape.variableDecl.inj (hshape.symm.trans hshape')
    exact ⟨fun _ ⟨b, hb, _⟩ => hbindings b hb, fun _ => ⟨_, rfl⟩⟩
  | unbound hshape' hkind =>
    obtain ⟨-, -, -, rfl⟩ := Shape.variableDecl.inj (hshape.symm.trans hshape')
    refine ⟨fun _ ⟨b, hb, hpattern⟩ => hkind ?_, fun _ => ⟨_, rfl⟩⟩
    rw [(List.cons.inj hb).1, hpattern]
  | unnamed hshape' hbinding | named hshape' hbinding =>
    obtain ⟨-, -, -, rfl⟩ := Shape.variableDecl.inj (hshape.symm.trans hshape')
    refine ⟨nofun, fun hnone => absurd ⟨_, rfl, ?_⟩ hnone⟩
    rw [Node.kind, hbinding]
    rfl

theorem binding_of_patternBinding (hshape : d.shape = .variableDecl attributes modifiers keyword [b])
    (hbinding : b.shape = .patternBinding pattern type initial accessors) :
    d.binding = match pattern.shape with
      | .namePattern name => .ok (some ⟨name, initial, b⟩)
      | _ => .error ⟨.cannotGetVariableName, pattern.span⟩ := by
  unfold Node.binding
  rw [hshape]
  dsimp only
  rw [hbinding]
  rfl

theorem cannotGetVariableName_iff (hshape : d.shape = .variableDecl attributes modifiers keyword [b])
    (hbinding : b.shape = .patternBinding pattern type initial accessors) :
    (∃ span, d.binding = .error ⟨.cannotGetVariableName, span⟩) ↔ pattern.kind ≠ .namePattern := by
  rw [binding_of_patternBinding hshape hbinding]
  obtain ⟨shape, span⟩ := pattern
  cases shape with
  | namePattern name => exact ⟨nofun, fun hkind => absurd rfl hkind⟩
  | _ => exact ⟨fun _ => nofun, fun _ => ⟨_, rfl⟩⟩

end Binding

/-! ## Answers of a site -/

/-- The site is rejected with the failure. -/
def Site.FailsWith (site : Site) (services : Services) (failure : Failure) : Prop :=
  ∃ span, keyValueAccessors site services = .error ⟨failure, span⟩

section Site

variable {site : Site} {services : Services} {type : ValueType} {d : Node} {failure : Failure}

theorem failsWith_iff_binding (htype : site.valueType = .ok type) (hdeclaration : site.declaration = some d) :
    site.FailsWith services failure ↔ ∃ span, d.binding = .error ⟨failure, span⟩ := by
  unfold Site.FailsWith
  rw [keyValueAccessors_declared htype hdeclaration]
  constructor
  · rintro ⟨span, h⟩
    exact ⟨span, map_eq_error.1 h⟩
  · rintro ⟨span, h⟩
    rw [h]
    exact ⟨span, rfl⟩

theorem failsWith_noTypeDefined_iff : site.FailsWith services .noTypeDefined ↔ site.generics = [] := by
  constructor
  · rintro ⟨span, h⟩
    have hanswers := answers_keyValueAccessors site services
    rw [h] at hanswers
    cases hanswers with
    | untyped hgenerics => exact hgenerics
    -- A declaration is never at fault for a missing type.
    | refused _ _ hbound => cases hbound
  · intro hgenerics
    exact ⟨_, keyValueAccessors_untyped (valueType_eq_error.2 ⟨hgenerics, rfl⟩)⟩

theorem answers_nothing_iff (htype : site.valueType = .ok type) :
    keyValueAccessors site services = .ok [] ↔
      site.declaration = none ∨ ∃ d, site.declaration = some d ∧ d.kind ≠ .variableDecl := by
  cases hdeclaration : site.declaration with
  | none =>
    exact ⟨fun _ => .inl rfl, fun _ => keyValueAccessors_undeclared htype hdeclaration⟩
  | some d =>
    simp only [reduceCtorEq, Option.some.injEq, exists_eq_left', false_or]
    rw [keyValueAccessors_declared htype hdeclaration, ← binding_eq_none_iff]
    rcases d.binding with rejection | _ | binding <;> simp [Except.map]

end Site

/-! ## The accessors -/

/-- The node is a path: a root, and one member after the other. -/
inductive IsPath (span : Span) (root : String) : List String → Node → Prop
  | root : IsPath span root [] ⟨.identifier root, span⟩
  | member {members : List String} {base : Node} {word : String} (h : IsPath span root members base) :
      IsPath span root (members ++ [word]) ⟨.memberAccess (some base) word, span⟩

theorem IsPath.append {span : Span} {root : String} {front : List String} {base : Node}
    (h : IsPath span root front base) (members : List String) :
    IsPath span root (front ++ members) (members.foldl (Node.member span) base) := by
  induction members generalizing front base with
  | nil => rwa [List.append_nil]
  | cons word members ih =>
    rw [List.append_cons]
    exact ih h.member

/-- The type that a value is read as, and what stands in for a value of another type: `nil` where one
optional layer is taken off, else the initial value if there is one. -/
inductive ReadsAs (span : Span) (written : Node) (initial : Option Node) : Node → Option Node → Prop
  | optional {inner : Node} (h : SpellsOptional inner written) :
      ReadsAs span written initial inner (some ⟨.nilLiteral, span⟩)
  | whole (h : ∀ inner, ¬ SpellsOptional inner written) : ReadsAs span written initial written initial

/-- `value ?? fallback`, or the value alone. -/
def withFallback (span : Span) (value : Node) : Option Node → Node
  | none => value
  | some fallback => ⟨.binary value "??" fallback, span⟩

/-- `receiver.method(before, label: "name")` -/
def Store.use (store : Store) (span : Span) (receiver : Node) (method : String)
    (before : List (Argument Node)) (name : String) : Node :=
  ⟨.call ⟨.memberAccess (some receiver) method, span⟩
    (before ++ [⟨some store.keyLabel, ⟨.stringLiteral [.text name], span⟩⟩]), span⟩

/-- The accessors of a variable: what the setter writes is what the getter reads. -/
inductive Store.Accesses (store : Store) (span : Span) (name : String) (type : Node)
    (fallback : Option Node) : List Node → Prop
  | pair {receiver : Node} (hpath : IsPath span store.root store.members receiver) :
      Accesses store span name type fallback
        [⟨.accessor .get [withFallback span ⟨.tuple [⟨none,
            ⟨.cast (store.use span receiver store.readMethod [] name) .conditional type, span⟩⟩], span⟩
            fallback], span⟩,
          ⟨.accessor .set [store.use span receiver store.writeMethod
            [⟨none, ⟨.identifier "newValue", span⟩⟩] name], span⟩]

theorem accesses_accessors (store : Store) (span : Span) (type : ValueType) (binding : Binding) :
    store.Accesses span binding.name type.type (Store.fallback span type binding)
      [store.getter span type binding, store.setter span binding] := by
  have hpath : IsPath span store.root store.members (store.receiver span) :=
    IsPath.append .root store.members
  have hpair : store.Accesses span binding.name type.type (Store.fallback span type binding) _ := .pair hpath
  unfold Store.getter
  cases hfallback : Store.fallback span type binding with
  | none => rwa [hfallback] at hpair
  | some value => rwa [hfallback] at hpair

theorem readsAs_fallback {site : Site} {type : ValueType} {written : Node} {rest : List Node}
    (htype : site.valueType = .ok type) (hgenerics : site.generics = written :: rest) (span : Span)
    (binding : Binding) :
    ReadsAs span written binding.initial type.type (Store.fallback span type binding) := by
  obtain ⟨written', rest', hgenerics', h⟩ := valueType_eq_ok.1 htype
  obtain ⟨rfl, rfl⟩ := List.cons.inj (hgenerics.symm.trans hgenerics')
  unfold Store.fallback
  rcases h with ⟨hspells, hoptional⟩ | ⟨hplain, rfl⟩
  · rw [if_pos hoptional]
    exact .optional hspells
  · exact .whole hplain

/-! ## Spellings of an optional type -/

/-- Up to spans, two declarations have the same variables, or neither has any. -/
inductive SameVariables : Node → Node → Prop
  | declared {attributes attributes' bindings bindings' : List Node} {modifiers modifiers' : List String}
      {keyword keyword' : BindingKeyword} {span span' : Span}
      (h : bindings.map Node.eraseSpans = bindings'.map Node.eraseSpans) :
      SameVariables ⟨.variableDecl attributes modifiers keyword bindings, span⟩
        ⟨.variableDecl attributes' modifiers' keyword' bindings', span'⟩
  | other {d d' : Node} (h : d.kind ≠ .variableDecl) (h' : d'.kind ≠ .variableDecl) : SameVariables d d'

/-- Up to spans, two sites have the same variables, and write the same optional type in any two ways. -/
structure Site.Respells (site other : Site) : Prop where
  type : ∃ inner inner' written written' rest rest', inner.eraseSpans = inner'.eraseSpans ∧
    site.generics = written :: rest ∧ SpellsOptional inner written ∧
    other.generics = written' :: rest' ∧ SpellsOptional inner' written'
  declaration : Option.Rel SameVariables site.declaration other.declaration

/-- The texts of the accessors that a site is given, or what it is rejected for. -/
def Site.accessorTexts (site : Site) (services : Services) : Except Failure (List String) :=
  ((keyValueAccessors site services).mapError (·.failure)).map (·.map Node.render)

/-- The name of the variable that a declaration binds, or what it is rejected for. -/
def Node.boundName (d : Node) : Except Failure (Option String) :=
  (d.binding.mapError (·.failure)).map (·.map Binding.name)

/-- Neither attributes nor spans matter for the name. -/
theorem boundName_variables (attributes bindings : List Node) (modifiers : List String)
    (keyword : BindingKeyword) (span : Span) :
    Node.boundName ⟨.variableDecl attributes modifiers keyword bindings, span⟩ =
      Node.boundName ⟨.variableDecl [] [] .mutable (bindings.map Node.eraseSpans), default⟩ := by
  -- Only a single binding is looked into, as far as its pattern.
  rcases bindings with _ | ⟨⟨shape, place⟩, _ | ⟨c, rest⟩⟩
  · rfl
  · rw [List.map_singleton, Node.eraseSpans_mk]
    cases shape with
    | patternBinding pattern type initial accessors =>
      obtain ⟨shape, place⟩ := pattern
      rw [Shape.map, Node.eraseSpans_mk]
      cases shape <;> rfl
    | _ => rfl
  · rfl

theorem boundName_congr {d d' : Node} (h : SameVariables d d') : d.boundName = d'.boundName := by
  cases h with
  | declared h => rw [boundName_variables, h, ← boundName_variables]
  | other h h' => rw [Node.boundName, Node.boundName, binding_eq_none_iff.2 h, binding_eq_none_iff.2 h']

theorem eraseSpans_receiver (store : Store) (span : Span) :
    (store.receiver span).eraseSpans = store.receiver default := by
  have hmembers : ∀ (members : List String) (base : Node),
      (members.foldl (Node.member span) base).eraseSpans =
        members.foldl (Node.member default) base.eraseSpans := by
    intro members
    induction members with
    | nil => exact fun _ => rfl
    | cons word members ih => exact fun base => ih _
  exact hmembers store.members _

section Texts

variable {store : Store} {span : Span} {type : ValueType} {binding : Binding}

theorem eraseSpans_use (store : Store) (span : Span) (method : String) (before : List (Argument Node))
    (name : String) : (store.use span (store.receiver span) method before name).eraseSpans =
      store.use default (store.receiver default) method (before.map (·.map Node.eraseSpans)) name := by
  rw [Store.use, Node.eraseSpans_mk, Shape.map, Node.eraseSpans_mk, Shape.map, Option.map,
    eraseSpans_receiver, List.map_append]
  rfl

/-- The getter of a variable of an optional type, without spans. -/
def Store.optionalGetter (store : Store) (type : Node) (name : String) : Node :=
  .accessor default .get [.binary default (.parenthesized default (.cast default
    (store.use default (store.receiver default) store.readMethod [] name) .conditional type)) "??"
    (.nil default)]

/-- The setter of a variable, without spans. -/
def Store.plainSetter (store : Store) (name : String) : Node :=
  .accessor default .set [store.use default (store.receiver default) store.writeMethod
    [.plain (.identifier default "newValue")] name]

theorem eraseSpans_getter (hoptional : type.optional = true) : (store.getter span type binding).eraseSpans =
    store.optionalGetter type.type.eraseSpans binding.name := by
  have hread := eraseSpans_use store span store.readMethod [] binding.name
  unfold Store.getter Store.fallback
  rw [if_pos hoptional, Node.accessor, Node.eraseSpans_mk, Shape.map, List.map_singleton]
  exact congrArg (fun read => Node.accessor default .get [.binary default (.parenthesized default
    (.cast default read .conditional type.type.eraseSpans)) "??" (.nil default)]) hread

theorem eraseSpans_setter : (store.setter span binding).eraseSpans = store.plainSetter binding.name := by
  have hwrite := eraseSpans_use store span store.writeMethod [.plain (.identifier span "newValue")]
    binding.name
  unfold Store.setter
  rw [Node.accessor, Node.eraseSpans_mk, Shape.map, List.map_singleton]
  exact congrArg (fun write => Node.accessor default .set [write]) hwrite

/-- Where the type is optional, the texts depend on the type and the name of the variable only. -/
theorem accessorTexts_eq {site : Site} {services : Services} {d inner : Node}
    (htype : site.valueType = .ok ⟨inner, true⟩) (hdeclaration : site.declaration = some d) :
    site.accessorTexts services = d.boundName.map fun
      | none => []
      | some name => [(services.store.optionalGetter inner.eraseSpans name).render,
          (services.store.plainSetter name).render] := by
  unfold Site.accessorTexts Node.boundName
  rw [keyValueAccessors_declared htype hdeclaration]
  rcases d.binding with rejection | _ | binding
  · rfl
  · rfl
  · simp only [Except.map, Except.mapError, Option.map, List.map_cons, List.map_nil]
    rw [← Node.render_eraseSpans, eraseSpans_getter rfl, ← Node.render_eraseSpans (services.store.setter _ _),
      eraseSpans_setter]

end Texts

theorem accessorTexts_congr {site other : Site} (h : site.Respells other) (services : Services) :
    site.accessorTexts services = other.accessorTexts services := by
  obtain ⟨inner, inner', written, written', rest, rest', hinner, hgenerics, hspells, hgenerics', hspells'⟩ :=
    h.type
  have htype : site.valueType = .ok ⟨inner, true⟩ :=
    valueType_eq_ok.2 ⟨_, _, hgenerics, .inl ⟨hspells, rfl⟩⟩
  have htype' : other.valueType = .ok ⟨inner', true⟩ :=
    valueType_eq_ok.2 ⟨_, _, hgenerics', .inl ⟨hspells', rfl⟩⟩
  have hdeclarations := h.declaration
  generalize hd : site.declaration = declaration at hdeclarations
  generalize hd' : other.declaration = declaration' at hdeclarations
  cases hdeclarations with
  | none =>
    unfold Site.accessorTexts
    rw [keyValueAccessors_undeclared htype hd, keyValueAccessors_undeclared htype' hd']
  | some hsame => rw [accessorTexts_eq htype hd, accessorTexts_eq htype' hd', boundName_congr hsame, hinner]

/-- A site without a type is rejected, whatever it stands on. With a type it is given nothing where no
variables are declared, and rejected unless there is exactly one, with a name. Then it is given a getter and
a setter that reach the same value. Sites that spell an optional type differently are given the same texts. -/
theorem accessors_decided (site : Site) (services : Services) :
    (site.FailsWith services .noTypeDefined ↔ site.generics = []) ∧
    (∀ written rest, site.generics = written :: rest →
      (keyValueAccessors site services = .ok [] ↔
        site.declaration = none ∨ ∃ d, site.declaration = some d ∧ d.kind ≠ .variableDecl) ∧
      ∀ d attributes modifiers keyword bindings, site.declaration = some d →
        d.shape = .variableDecl attributes modifiers keyword bindings →
        (site.FailsWith services .cannotGetBinding ↔ ¬ ∃ b, bindings = [b] ∧ b.kind = .patternBinding) ∧
        ∀ b pattern type initial accessors, bindings = [b] →
          b.shape = .patternBinding pattern type initial accessors →
          (site.FailsWith services .cannotGetVariableName ↔ pattern.kind ≠ .namePattern) ∧
          ∀ name, pattern.shape = .namePattern name → ∃ target fallback nodes,
            ReadsAs site.node.span written initial target fallback ∧
            services.store.Accesses site.node.span name target fallback nodes ∧
            keyValueAccessors site services = .ok nodes) ∧
    ∀ other, site.Respells other → site.accessorTexts services = other.accessorTexts services := by
  refine ⟨failsWith_noTypeDefined_iff, fun written rest hgenerics => ?_, fun other h =>
    accessorTexts_congr h services⟩
  obtain ⟨type, htype⟩ : ∃ type, site.valueType = .ok type := by
    cases htype : site.valueType with
    | error r => exact nomatch hgenerics.symm.trans (valueType_eq_error.1 htype).1
    | ok type => exact ⟨type, rfl⟩
  refine ⟨answers_nothing_iff htype, fun d attributes modifiers keyword bindings hd hshape => ⟨?_, ?_⟩⟩
  · rw [failsWith_iff_binding htype hd]
    exact cannotGetBinding_iff hshape
  rintro b pattern type' initial accessors rfl hbinding
  refine ⟨?_, fun name hname => ?_⟩
  · rw [failsWith_iff_binding htype hd]
    exact cannotGetVariableName_iff hshape hbinding
  · have hbound := binding_of_patternBinding hshape hbinding
    rw [hname] at hbound
    refine ⟨_, _, _, readsAs_fallback htype hgenerics _ ⟨name, initial, b⟩,
      accesses_accessors services.store site.node.span type ⟨name, initial, b⟩, ?_⟩
    rw [keyValueAccessors_declared htype hd, hbound]
    rfl

/-- `@iCloudKeyValue<written> var count = 1` -/
def countSite (written : Node) : Site :=
  let mark : Node := ⟨.attr "iCloudKeyValue" [written] [], ⟨0, written.span.stop + 1⟩⟩
  let one : Node := ⟨.integerLiteral "1", default⟩
  let count : Node := ⟨.patternBinding ⟨.namePattern "count", default⟩ none (some one) [], default⟩
  ⟨"iCloudKeyValue", .accessor, mark, some ⟨.variableDecl [mark] [] .mutable [count], default⟩, ⟨"f", ""⟩⟩

/-- Of `Int??` one layer comes off, and `Swift.Optional<Int?>` is the same type. -/
theorem accessors_decided_nested : ∃ inner long short : Node, ∃ nodes,
    short = ⟨.optionalType inner, ⟨16, 21⟩⟩ ∧ long = ⟨.typeName "Swift.Optional" [inner], ⟨16, 36⟩⟩ ∧
    inner.render = "Int?" ∧ keyValueAccessors (countSite short) default = .ok nodes ∧
    Store.Accesses default (countSite short).node.span "count" inner
      (some (.nil (countSite short).node.span)) nodes ∧
    (countSite short).accessorTexts default = (countSite long).accessorTexts default := by
  let inner : Node := ⟨.optionalType ⟨.typeName "Int" [], ⟨16, 19⟩⟩, ⟨16, 20⟩⟩
  let short : Node := ⟨.optionalType inner, ⟨16, 21⟩⟩
  let long : Node := ⟨.typeName "Swift.Optional" [inner], ⟨16, 36⟩⟩
  obtain ⟨-, htyped, hrespelled⟩ := accessors_decided (countSite short) default
  obtain ⟨-, hdeclared⟩ := htyped short [] rfl
  obtain ⟨-, hbound⟩ := hdeclared _ _ _ _ _ rfl rfl
  obtain ⟨-, hnamed⟩ := hbound _ _ _ _ _ rfl rfl
  obtain ⟨target, fallback, nodes, hreads, haccesses, hanswer⟩ := hnamed "count" rfl
  have hrespells : (countSite short).Respells (countSite long) :=
    { type := ⟨inner, inner, short, long, [], [], rfl, rfl, .mark _, rfl, .qualified _⟩
      declaration := .some (.declared rfl) }
  refine ⟨inner, long, short, nodes, rfl, rfl, by decide +kernel, hanswer, ?_, hrespelled _ hrespells⟩
  cases hreads with
  | optional hspells =>
    obtain rfl : inner = target := Option.some.inj (unwrapOptional?_eq_some.2 hspells)
    exact haccesses
  | whole hplain => exact absurd (.mark _) (hplain inner)

end SwiftMacro
