import SwiftMacro.Proofs.Literals
/-!
# The nodes that reading gives

`Readable c n` says that a node without spans is one that the grammar can make in the place `c`: an
operand, an expression, a type, a pattern, a statement and so on. `Item.IsReadable` says the same of
what a rule contributes to the node above it.
-/

namespace SwiftMacro

open Peg

/-- The places in which a node can stand. -/
inductive Category where
  /-- An operand before anything that follows it. -/
  | primary
  | operand
  /-- An operand with a sign or none. -/
  | unary
  | expression
  | type
  | attr
  /-- A name in a pattern; `_` is taken for one here. -/
  | name
  | pattern
  | binding
  | accessor
  | statement
deriving DecidableEq

/-- No text is empty or stands next to another one. -/
def Apart : List (Segment Node) → Prop
  | [] => True
  | .interpolation _ :: rest => Apart rest
  | [.text content] => content ≠ ""
  | .text _ :: .text _ :: _ => False
  | .text content :: .interpolation _ :: rest => content ≠ "" ∧ Apart rest

/-- The nodes without spans that the grammar makes in each place. -/
inductive Readable : Category → Node → Prop
  | emptyString : Readable .primary ⟨.stringLiteral [.text ""], default⟩
  | string {segments : List (Segment Node)} (nonempty : segments ≠ []) (apart : Apart segments)
      (inner : ∀ e ∈ segments.filterMap Segment.expression?, Readable .expression e) :
      Readable .primary ⟨.stringLiteral segments, default⟩
  | integer {w : List Char} (digits : IsDigits w) :
      Readable .primary ⟨.integerLiteral (String.ofList w), default⟩
  | float {w v : List Char} (whole : IsDigits w) (part : IsDigits v) :
      Readable .primary ⟨.floatLiteral (String.ofList (w ++ '.' :: v)), default⟩
  | boolean (value : Bool) : Readable .primary ⟨.booleanLiteral value, default⟩
  | nil : Readable .primary ⟨.nilLiteral, default⟩
  | macroUse {name : String} {generics : List Node} {arguments : List (Argument Node)}
      (isName : IsName name.toList) (types : ∀ t ∈ generics, Readable .type t)
      (labels : ∀ a ∈ arguments, ∀ l ∈ a.label, IsName l.toList)
      (inner : ∀ a ∈ arguments, Readable .expression a.expression) :
      Readable .primary ⟨.macroUse name generics arguments, default⟩
  | implicitMember {member : String} (isName : IsName member.toList) :
      Readable .primary ⟨.memberAccess none member, default⟩
  | tuple {elements : List (Argument Node)}
      (labels : ∀ a ∈ elements, ∀ l ∈ a.label, IsName l.toList)
      (inner : ∀ a ∈ elements, Readable .expression a.expression) :
      Readable .primary ⟨.tuple elements, default⟩
  | identifier {name : String} (isName : IsName name.toList) :
      Readable .primary ⟨.identifier name, default⟩
  | ofPrimary {n : Node} (h : Readable .primary n) : Readable .operand n
  | call {callee : Node} {arguments : List (Argument Node)} (h : Readable .operand callee)
      (labels : ∀ a ∈ arguments, ∀ l ∈ a.label, IsName l.toList)
      (inner : ∀ a ∈ arguments, Readable .expression a.expression) :
      Readable .operand ⟨.call callee arguments, default⟩
  | member {base : Node} {member : String} (h : Readable .operand base)
      (isName : IsName member.toList) :
      Readable .operand ⟨.memberAccess (some base) member, default⟩
  | unwrap {operand : Node} (h : Readable .operand operand) :
      Readable .operand ⟨.forceUnwrap operand, default⟩
  | ofOperand {n : Node} (h : Readable .operand n) : Readable .unary n
  | prefixed {operator : String} {operand : Node} (sign : operator ∈ ["-", "!"])
      (h : Readable .operand operand) : Readable .unary ⟨.prefixed operator operand, default⟩
  | ofUnary {n : Node} (h : Readable .unary n) : Readable .expression n
  | binary {lhs rhs : Node} {operator : String} (left : Readable .expression lhs)
      (known : operator ∈ Rule.operators) (right : Readable .unary rhs) :
      Readable .expression ⟨.binary lhs operator rhs, default⟩
  | cast {value target : Node} {kind : CastKind} (left : Readable .expression value)
      (right : Readable .type target) : Readable .expression ⟨.cast value kind target, default⟩
  | typeName {name : String} {generics : List Node} (qualified : IsQualified name.toList)
      (types : ∀ t ∈ generics, Readable .type t) : Readable .type ⟨.typeName name generics, default⟩
  | optional {wrapped : Node} (h : Readable .type wrapped) :
      Readable .type ⟨.optionalType wrapped, default⟩
  | attr {name : String} {generics : List Node} {arguments : List (Argument Node)}
      (isName : IsName name.toList) (types : ∀ t ∈ generics, Readable .type t)
      (labels : ∀ a ∈ arguments, ∀ l ∈ a.label, IsName l.toList)
      (inner : ∀ a ∈ arguments, Readable .expression a.expression) :
      Readable .attr ⟨.attr name generics arguments, default⟩
  | name {name : String} (isName : IsName name.toList) : Readable .name ⟨.namePattern name, default⟩
  | named {name : String} (isName : IsName name.toList) (notWildcard : name ≠ "_") :
      Readable .pattern ⟨.namePattern name, default⟩
  | wildcard : Readable .pattern ⟨.wildcardPattern, default⟩
  | tuplePattern {elements : List Node} (inner : ∀ p ∈ elements, Readable .pattern p) :
      Readable .pattern ⟨.tuplePattern elements, default⟩
  | binding {pattern : Node} {declaredType initial : Option Node} {accessors : List Node}
      (left : Readable .pattern pattern) (types : ∀ t ∈ declaredType, Readable .type t)
      (values : ∀ e ∈ initial, Readable .expression e)
      (inner : ∀ a ∈ accessors, Readable .accessor a) :
      Readable .binding ⟨.patternBinding pattern declaredType initial accessors, default⟩
  | accessor {kind : AccessorKind} {body : List Node} (inner : ∀ s ∈ body, Readable .statement s) :
      Readable .accessor ⟨.accessor kind body, default⟩
  | variableDecl {attributes : List Node} {modifiers : List String} {keyword : BindingKeyword}
      {bindings : List Node} (front : ∀ a ∈ attributes, Readable .attr a)
      (known : ∀ m ∈ modifiers, m ∈ Rule.modifiers) (nonempty : bindings ≠ [])
      (inner : ∀ b ∈ bindings, Readable .binding b) :
      Readable .statement ⟨.variableDecl attributes modifiers keyword bindings, default⟩
  | functionDecl {attributes : List Node} {modifiers : List String} {name : String} {body : List Node}
      (front : ∀ a ∈ attributes, Readable .attr a) (known : ∀ m ∈ modifiers, m ∈ Rule.modifiers)
      (isName : IsName name.toList) (inner : ∀ s ∈ body, Readable .statement s) :
      Readable .statement ⟨.functionDecl attributes modifiers name body, default⟩
  | ofExpression {n : Node} (h : Readable .expression n) : Readable .statement n

/-! ## What each rule contributes -/

/-- The place of the nodes that a rule makes. -/
def Rule.category : Rule → Option Category
  | stringLiteral | integerLiteral | floatLiteral | booleanLiteral | nilLiteral | macroUse
  | implicitMember | tupleExpr => some .primary
  | postfixExpr => some .operand
  | prefixExpr => some .unary
  | expr | interpolation | initialValue | expressionEntry => some .expression
  | typeReference | typeExpr | declaredType | genericClause | typeEntry => some .type
  | attributeUse => some .attr
  | namePattern => some .name
  | tuplePattern | wildcardPattern => some .pattern
  | patternBinding => some .binding
  | accessor | accessorEntry => some .accessor
  | variableDecl | functionDecl | sourceFile => some .statement
  | _ => none

/-- The words that a rule makes. -/
def Rule.Spells (r : Rule) (w : String) : Prop :=
  match r with
  | identifier | argumentLabel | memberSuffix => IsName w.toList
  | qualifiedName => IsQualified w.toList
  | modifier => w ∈ modifiers
  | binaryOperator => w ∈ operators
  | prefixOperator => w ∈ ["-", "!"]
  | _ => True

/-- An argument that can be read. -/
def Argument.IsReadable (a : Argument Node) : Prop :=
  (∀ l ∈ a.label, IsName l.toList) ∧ Readable .expression a.expression

/-- What an item contributes can be read in the place of its rule. -/
def Item.IsReadable (i : Item) : Prop :=
  match i.part with
  | .nothing => True
  | .word w => i.rule.Spells w
  | .node n => ∃ c, i.rule.category = some c ∧ Readable c n
  | .nodes ns => ∃ c, i.rule.category = some c ∧ ∀ n ∈ ns, Readable c n
  | .argument a => a.IsReadable
  | .arguments as => ∀ a ∈ as, a.IsReadable
  | .castTo _ target => Readable .type target
  | .operation operator rhs => operator ∈ Rule.operators ∧ Readable .unary rhs

section Items

variable {items : List Item}

theorem mem_nodesOf {rules : List Rule} {n : Node} (h : n ∈ nodesOf rules items) :
    ∃ i ∈ items, i.part = .node n ∧ i.rule ∈ rules := by
  obtain ⟨i, hi, hn⟩ := List.mem_filterMap.1 h
  refine ⟨i, hi, ?_⟩
  unfold Item.nodeOf? at hn
  split at hn
  · next hpart =>
    split at hn
    · next hr =>
      obtain rfl := Option.some.inj hn
      exact ⟨hpart, hr⟩
    · cases hn
  · cases hn

theorem mem_wordsOf {r : Rule} {w : String} (h : w ∈ wordsOf r items) :
    ∃ i ∈ items, i.part = .word w ∧ i.rule = r := by
  obtain ⟨i, hi, hw⟩ := List.mem_filterMap.1 h
  refine ⟨i, hi, ?_⟩
  unfold Item.wordOf? at hw
  split at hw
  · next hpart =>
    split at hw
    · next hr =>
      obtain rfl := Option.some.inj hw
      exact ⟨hpart, hr⟩
    · cases hw
  · cases hw

variable (h : ∀ i ∈ items, i.IsReadable)

include h

theorem readable_of_mem_nodesOf {r : Rule} {c : Category} (hc : r.category = some c) :
    ∀ n ∈ nodesOf [r] items, Readable c n := by
  intro n hn
  obtain ⟨i, hi, hpart, hr⟩ := mem_nodesOf hn
  have hi' := h i hi
  rw [Item.IsReadable, hpart, List.mem_singleton.1 hr] at hi'
  obtain ⟨d, hd, hread⟩ := hi'
  obtain rfl := Option.some.inj (hc.symm.trans hd)
  exact hread

theorem spells_of_mem_wordsOf {r : Rule} : ∀ w ∈ wordsOf r items, r.Spells w := by
  intro w hw
  obtain ⟨i, hi, hpart, rfl⟩ := mem_wordsOf hw
  have hi' := h i hi
  rw [Item.IsReadable, hpart] at hi'
  exact hi'

theorem readable_of_mem_argumentsOf : ∀ a ∈ argumentsOf items, a.IsReadable := by
  intro a ha
  obtain ⟨i, hi, hai⟩ := List.mem_flatMap.1 ha
  have hi' := h i hi
  split at hai
  · next hpart =>
    rw [Item.IsReadable, hpart] at hi'
    exact hi' a hai
  · cases hai

theorem readable_of_mem_argumentList : ∀ a ∈ argumentList items, a.IsReadable := by
  intro a ha
  obtain ⟨i, hi, hai⟩ := List.mem_filterMap.1 ha
  have hi' := h i hi
  split at hai
  · next hpart =>
    obtain rfl := Option.some.inj hai
    rw [Item.IsReadable, hpart] at hi'
    exact hi'
  · cases hai

/-- Type arguments stand where no other rule makes lists of nodes. -/
theorem readable_of_mem_genericsOf
    (hr : ∀ i ∈ items, ∀ c, i.rule.category = some c → c = .type) :
    ∀ n ∈ genericsOf items, Readable .type n := by
  intro n hn
  obtain ⟨i, hi, hni⟩ := List.mem_flatMap.1 hn
  have hi' := h i hi
  split at hni
  · next hpart =>
    rw [Item.IsReadable, hpart] at hi'
    obtain ⟨c, hc, hall⟩ := hi'
    obtain rfl := hr i hi c hc
    exact hall n hni
  · cases hni

end Items

end SwiftMacro
