import SwiftMacro.Proofs.Dispatch
/-!
# What is found at a site

A macro takes an argument, a type and a variable from its site, or rejects the site for the one that does
not fit. For each of the three this says when it is found and which node is at fault otherwise. With that,
`rejects_of_gives` lists everything the standard macros reject a site for, and
`answers_keyValueAccessors` everything the accessor macro can answer; later proofs are case analyses over
the two lists.
-/

namespace SwiftMacro

/-! ## Arguments -/

section Arguments

variable {site : Site} {n e : Node} {r : Rejection}

theorem firstArgument_eq_ok :
    site.firstArgument = .ok e ↔ ∃ a rest, site.arguments = a :: rest ∧ e = a.expression := by
  unfold Site.firstArgument
  cases site.arguments with
  | nil => simp [Rejection.at]
  | cons a rest => simp [eq_comm]

theorem firstArgument_eq_error :
    site.firstArgument = .error r ↔ site.arguments = [] ∧ r = ⟨.missingArgument, site.node.span⟩ := by
  unfold Site.firstArgument
  cases site.arguments with
  | nil => simp [Rejection.at, eq_comm]
  | cons a rest => simp

theorem plainString_eq_error (h : n.plainString = .error r) : r = ⟨.argumentNotString, n.span⟩ := by
  unfold Node.plainString at h
  split at h
  · cases h
  · exact (Except.error.inj h).symm

end Arguments

/-! ## Types -/

/-- The three ways to write the optional type over another. -/
inductive SpellsOptional (inner : Node) : Node → Prop
  | mark (span : Span) : SpellsOptional inner ⟨.optionalType inner, span⟩
  | short (span : Span) : SpellsOptional inner ⟨.typeName "Optional" [inner], span⟩
  | qualified (span : Span) : SpellsOptional inner ⟨.typeName "Swift.Optional" [inner], span⟩

theorem unwrapOptional?_eq_some {n inner : Node} :
    n.unwrapOptional? = some inner ↔ SpellsOptional inner n := by
  constructor
  · intro h
    obtain ⟨shape, span⟩ := n
    unfold Node.unwrapOptional? at h
    split at h
    next hshape =>
      cases hshape
      cases h
      exact .mark span
    next name inner' hshape =>
      cases hshape
      split at h
      next hname =>
        cases h
        simp only [optionalNames, List.mem_cons, List.not_mem_nil, or_false] at hname
        rcases hname with rfl | rfl
        · exact .short span
        · exact .qualified span
      next => cases h
    next => cases h
  · intro h
    cases h <;> rfl

theorem valueType_eq_error {site : Site} {r : Rejection} :
    site.valueType = .error r ↔ site.generics = [] ∧ r = ⟨.noTypeDefined, site.node.span⟩ := by
  unfold Site.valueType
  cases site.generics with
  | nil => simp [Rejection.at, eq_comm]
  | cons written rest => cases h : written.unwrapOptional? <;> simp [h]

/-- One optional layer of the first type argument is taken off, if it has any. -/
theorem valueType_eq_ok {site : Site} {type : ValueType} :
    site.valueType = .ok type ↔ ∃ written rest, site.generics = written :: rest ∧
      ((SpellsOptional type.type written ∧ type.optional = true) ∨
        (∀ inner, ¬ SpellsOptional inner written) ∧ type = ⟨written, false⟩) := by
  obtain ⟨inner, optional⟩ := type
  simp only [← unwrapOptional?_eq_some]
  unfold Site.valueType
  cases site.generics with
  | nil => simp [Rejection.at]
  | cons written rest =>
    cases h : written.unwrapOptional? with
    | none => simp [h, eq_comm]
    | some found => simp [h, eq_comm]

/-! ## Variables -/

/-- What can come of looking for the one variable of a declaration. -/
inductive Node.Bound (declaration : Node) : Except Rejection (Option Binding) → Prop
  | none (hkind : declaration.kind ≠ .variableDecl) : Bound declaration (.ok none)
  | several {attributes modifiers keyword bindings}
      (hshape : declaration.shape = .variableDecl attributes modifiers keyword bindings)
      (hbindings : ∀ b, bindings ≠ [b]) : Bound declaration (.error ⟨.cannotGetBinding, declaration.span⟩)
  | unbound {attributes modifiers keyword b}
      (hshape : declaration.shape = .variableDecl attributes modifiers keyword [b])
      (hkind : b.kind ≠ .patternBinding) : Bound declaration (.error ⟨.cannotGetBinding, b.span⟩)
  | unnamed {attributes modifiers keyword b pattern type initial accessors}
      (hshape : declaration.shape = .variableDecl attributes modifiers keyword [b])
      (hbinding : b.shape = .patternBinding pattern type initial accessors)
      (hkind : pattern.kind ≠ .namePattern) :
      Bound declaration (.error ⟨.cannotGetVariableName, pattern.span⟩)
  | named {attributes modifiers keyword b pattern type initial accessors name}
      (hshape : declaration.shape = .variableDecl attributes modifiers keyword [b])
      (hbinding : b.shape = .patternBinding pattern type initial accessors)
      (hpattern : pattern.shape = .namePattern name) :
      Bound declaration (.ok (some ⟨name, initial, b⟩))

theorem bound_binding (declaration : Node) : declaration.Bound declaration.binding := by
  unfold Node.binding
  split
  next attributes modifiers keyword b hshape =>
    split
    next pattern type initial accessors hbinding =>
      split
      next name hpattern => exact .named hshape hbinding hpattern
      next hother =>
        refine .unnamed hshape hbinding fun hkind => ?_
        obtain ⟨shape, span⟩ := pattern
        cases shape <;> cases hkind
        exact hother _ rfl
    next hother =>
      refine .unbound hshape fun hkind => ?_
      obtain ⟨shape, span⟩ := b
      cases shape <;> cases hkind
      exact hother _ _ _ _ rfl
  next attributes modifiers keyword bindings hone hshape =>
    exact .several hshape hone
  next hother =>
    refine .none fun hkind => ?_
    obtain ⟨shape, span⟩ := declaration
    cases shape <;> cases hkind
    exact hother _ _ _ _ rfl

/-! ## Answers of the accessor macro -/

/-- What the accessor macro can answer. The type is looked at first, whatever it stands on. -/
inductive Site.KeyValueAnswers (site : Site) (store : Store) : Except Rejection (List Node) → Prop
  | untyped (hgenerics : site.generics = []) :
      KeyValueAnswers site store (.error ⟨.noTypeDefined, site.node.span⟩)
  | undeclared {type} (htype : site.valueType = .ok type) (hnone : site.declaration = none) :
      KeyValueAnswers site store (.ok [])
  | elsewhere {type declaration} (htype : site.valueType = .ok type)
      (hdeclaration : site.declaration = some declaration) (hbound : declaration.Bound (.ok none)) :
      KeyValueAnswers site store (.ok [])
  | refused {type declaration rejection} (htype : site.valueType = .ok type)
      (hdeclaration : site.declaration = some declaration)
      (hbound : declaration.Bound (.error rejection)) : KeyValueAnswers site store (.error rejection)
  | stored {type declaration binding} (htype : site.valueType = .ok type)
      (hdeclaration : site.declaration = some declaration)
      (hbound : declaration.Bound (.ok (some binding))) :
      KeyValueAnswers site store (.ok [store.getter site.node.span type binding,
        store.setter site.node.span binding])

section Accessors

variable {site : Site} {services : Services} {rejection : Rejection} {type : ValueType} {declaration : Node}

theorem keyValueAccessors_untyped (htype : site.valueType = .error rejection) :
    keyValueAccessors site services = .error rejection := by
  unfold keyValueAccessors
  rw [htype]
  rfl

theorem keyValueAccessors_undeclared (htype : site.valueType = .ok type)
    (hdeclaration : site.declaration = none) : keyValueAccessors site services = .ok [] := by
  unfold keyValueAccessors
  rw [htype, hdeclaration]
  rfl

theorem keyValueAccessors_declared (htype : site.valueType = .ok type)
    (hdeclaration : site.declaration = some declaration) :
    keyValueAccessors site services = declaration.binding.map fun
      | none => []
      | some binding => [services.store.getter site.node.span type binding,
          services.store.setter site.node.span binding] := by
  unfold keyValueAccessors
  rw [htype, hdeclaration]
  simp only [bind, Except.bind]
  rcases declaration.binding with rejection | _ | binding <;> rfl

theorem answers_keyValueAccessors (site : Site) (services : Services) :
    site.KeyValueAnswers services.store (keyValueAccessors site services) := by
  cases htype : site.valueType with
  | error rejection =>
    rw [keyValueAccessors_untyped htype]
    obtain ⟨hgenerics, rfl⟩ := valueType_eq_error.1 htype
    exact .untyped hgenerics
  | ok type =>
    cases hdeclaration : site.declaration with
    | none =>
      rw [keyValueAccessors_undeclared htype hdeclaration]
      exact .undeclared htype hdeclaration
    | some declaration =>
      rw [keyValueAccessors_declared htype hdeclaration]
      have hbound := bound_binding declaration
      generalize declaration.binding = found at hbound
      rcases found with rejection | _ | binding
      · exact .refused htype hdeclaration hbound
      · exact .elsewhere htype hdeclaration hbound
      · exact .stored htype hdeclaration hbound

end Accessors

/-! ## Rejections of the standard macros -/

/-- What a standard macro rejects a site for. -/
inductive Site.Rejects (site : Site) (services : Services) : Rejection → Prop
  | noArgument (hrole : site.role = .expression) (harguments : site.arguments = []) :
      Rejects site services ⟨.missingArgument, site.node.span⟩
  | noString {a rest} (hrole : site.role = .expression) (harguments : site.arguments = a :: rest) :
      Rejects site services ⟨.argumentNotString, a.expression.span⟩
  | url {a rest content failure} (hrole : site.role = .expression)
      (harguments : site.arguments = a :: rest)
      (hcheck : checkUrl services.urlPolicy content = .error failure) :
      Rejects site services ⟨failure, a.expression.span⟩
  | symbol {a rest name} (hrole : site.role = .expression) (harguments : site.arguments = a :: rest) :
      Rejects site services ⟨.invalidSymbolName name, a.expression.span⟩
  | noType (hrole : site.role = .accessor) (hgenerics : site.generics = []) :
      Rejects site services ⟨.noTypeDefined, site.node.span⟩
  | noVariable {declaration rejection} (hrole : site.role = .accessor)
      (hdeclaration : site.declaration = some declaration)
      (hbound : declaration.Bound (.error rejection)) : Rejects site services rejection

section Rejections

variable {site : Site} {services : Services} {r : Rejection}

theorem rejects_of_firstArgument (hrole : site.role = .expression) (h : site.firstArgument = .error r) :
    site.Rejects services r := by
  obtain ⟨harguments, rfl⟩ := firstArgument_eq_error.1 h
  exact .noArgument hrole harguments

theorem rejects_of_stringify (hrole : site.role = .expression) (h : stringify site services = .error r) :
    site.Rejects services r := by
  rcases bind_eq_error.1 h with h | ⟨e, -, h⟩
  · exact rejects_of_firstArgument hrole h
  · cases h

/-- Up to its check, a macro of one text rejects a site for its argument. -/
theorem rejects_of_text {check : Node → String → Except Rejection Node} (hrole : site.role = .expression)
    (hcheck : ∀ a rest content, site.arguments = a :: rest → check a.expression content = .error r →
      site.Rejects services r)
    (h : (do let argument ← site.firstArgument
             let text ← argument.plainString
             check argument text) = .error r) : site.Rejects services r := by
  rcases bind_eq_error.1 h with h | ⟨e, he, h⟩
  · exact rejects_of_firstArgument hrole h
  obtain ⟨a, rest, harguments, rfl⟩ := firstArgument_eq_ok.1 he
  rcases bind_eq_error.1 h with h | ⟨content, -, h⟩
  · obtain rfl := plainString_eq_error h
    exact .noString hrole harguments
  · exact hcheck a rest content harguments h

theorem rejects_of_urlFromString (hrole : site.role = .expression)
    (h : urlFromString site services = .error r) : site.Rejects services r := by
  refine rejects_of_text hrole (fun a rest content harguments h => ?_) h
  split at h
  next failure hcheck =>
    obtain rfl := Except.error.inj h
    exact .url hrole harguments hcheck
  next => cases h

theorem rejects_of_systemImage (hrole : site.role = .expression)
    (h : systemImage site services = .error r) : site.Rejects services r := by
  refine rejects_of_text hrole (fun a rest content harguments h => ?_) h
  split at h
  next failure hcheck =>
    obtain rfl := Except.error.inj h
    unfold checkSymbol at hcheck
    split at hcheck
    · cases hcheck
    · split at hcheck
      · cases hcheck
      · obtain rfl := Except.error.inj hcheck
        exact .symbol hrole harguments
  next => cases h

theorem rejects_of_keyValueAccessors (hrole : site.role = .accessor)
    (h : keyValueAccessors site services = .error r) : site.Rejects services r := by
  have hanswers := answers_keyValueAccessors site services
  rw [h] at hanswers
  cases hanswers with
  | untyped hgenerics => exact .noType hrole hgenerics
  | refused _ hdeclaration hbound => exact .noVariable hrole hdeclaration hbound

theorem Handler.Gives.eq_error {handler : Handler} (h : handler.Gives site services (.error r)) :
    (∃ run, handler = .expression run ∧ site.role = .expression ∧ run site services = .error r) ∨
      ∃ run, handler = .accessor run ∧ site.role = .accessor ∧ run site services = .error r := by
  generalize hgiven : Except.error r = given at h
  cases h with
  | expression hrole => exact .inl ⟨_, rfl, hrole, map_eq_error.1 hgiven.symm⟩
  | accessor hrole => exact .inr ⟨_, rfl, hrole, map_eq_error.1 hgiven.symm⟩

/-- The standard macros reject a site for nothing else. -/
theorem rejects_of_gives {entry : MacroEntry} (hentry : entry ∈ Registry.standard)
    (h : entry.handler.Gives site services (.error r)) : site.Rejects services r := by
  simp only [Registry.standard, List.mem_cons, List.not_mem_nil, or_false] at hentry
  rcases h.eq_error with ⟨run, hhandler, hrole, hrun⟩ | ⟨run, hhandler, hrole, hrun⟩
  · rcases hentry with rfl | rfl | rfl | rfl <;> cases hhandler
    · exact rejects_of_stringify hrole hrun
    · exact rejects_of_urlFromString hrole hrun
    · exact rejects_of_systemImage hrole hrun
  · rcases hentry with rfl | rfl | rfl | rfl <;> cases hhandler
    exact rejects_of_keyValueAccessors hrole hrun

end Rejections

end SwiftMacro
