import SwiftMacro.Span
/-!
# Nodes of a source tree

A node is a shape with the span it was read from. `Shape α` lists the 24 shapes with children of
type `α`, so what looks only at one level (`map`, `children`, `kind`) needs no recursion, and `Node`
closes the loop. `Node.fold` is the one recursion over trees; `fold_mk` is its law, and
`Node.induct` is induction over children.
-/

namespace SwiftMacro

/-- The three spellings of a cast: `as`, `as?` and `as!`. -/
inductive CastKind where
  | plain | conditional | forced
deriving DecidableEq, Repr

/-- How a variable declaration starts: `let` or `var`. -/
inductive BindingKeyword where
  | constant | mutable
deriving DecidableEq, Repr

/-- The two accessors of a computed variable. -/
inductive AccessorKind where
  | get | set
deriving DecidableEq, Repr

/-- One argument of a call, a tuple, a macro use or an attribute. -/
structure Argument (α : Type) where
  label : Option String
  expression : α
deriving DecidableEq, Repr

/-- A piece of a string literal: text with its escapes resolved, or `\(expression)`. -/
inductive Segment (α : Type) where
  | text (content : String)
  | interpolation (expression : α)
deriving DecidableEq, Repr

/-- The shapes a node can take, with children of type `α`. -/
inductive Shape (α : Type) where
  | stringLiteral (segments : List (Segment α))
  | integerLiteral (digits : String)
  | floatLiteral (digits : String)
  | booleanLiteral (value : Bool)
  | nilLiteral
  | identifier (name : String)
  /-- `base.member`, or `.member` when the base is left to the context. -/
  | memberAccess (base : Option α) (member : String)
  | call (callee : α) (arguments : List (Argument α))
  /-- A list in parentheses; one element without label is a plain grouping. -/
  | tuple (elements : List (Argument α))
  | prefixed (operator : String) (operand : α)
  /-- Operators have no precedence here: a chain is read from left to right. -/
  | binary (lhs : α) (operator : String) (rhs : α)
  | cast (value : α) (kind : CastKind) (target : α)
  | forceUnwrap (operand : α)
  /-- `#name<T>(arguments)` -/
  | macroUse (name : String) (generics : List α) (arguments : List (Argument α))
  /-- `Name<T>`; a qualified name keeps its dots. -/
  | typeName (name : String) (generics : List α)
  /-- `T?` -/
  | optionalType (wrapped : α)
  /-- `@name<T>(arguments)` -/
  | attr (name : String) (generics : List α) (arguments : List (Argument α))
  | variableDecl (attributes : List α) (modifiers : List String) (keyword : BindingKeyword)
      (bindings : List α)
  | functionDecl (attributes : List α) (modifiers : List String) (name : String) (body : List α)
  | patternBinding (pattern : α) (declaredType initial : Option α) (accessors : List α)
  | namePattern (name : String)
  | tuplePattern (elements : List α)
  | wildcardPattern
  | accessor (kind : AccessorKind) (body : List α)
deriving DecidableEq, Repr

/-- A node: its shape, and the span it was read from. -/
structure Node where
  shape : Shape Node
  span : Span

/-! ## One level at a time -/

namespace Argument

variable {α β : Type}

def map (f : α → β) (a : Argument α) : Argument β := ⟨a.label, f a.expression⟩

end Argument

namespace Segment

variable {α β : Type}

def map (f : α → β) : Segment α → Segment β
  | text content => .text content
  | interpolation expression => .interpolation (f expression)

/-- The interpolated expression, if the segment is one. -/
def expression? : Segment α → Option α
  | text _ => none
  | interpolation expression => some expression

end Segment

namespace Shape

variable {α β : Type}

/-- Replaces every child. -/
def map (f : α → β) : Shape α → Shape β
  | stringLiteral segments => .stringLiteral (segments.map (·.map f))
  | integerLiteral digits => .integerLiteral digits
  | floatLiteral digits => .floatLiteral digits
  | booleanLiteral value => .booleanLiteral value
  | nilLiteral => .nilLiteral
  | identifier name => .identifier name
  | memberAccess base member => .memberAccess (base.map f) member
  | call callee arguments => .call (f callee) (arguments.map (·.map f))
  | tuple elements => .tuple (elements.map (·.map f))
  | prefixed operator operand => .prefixed operator (f operand)
  | binary lhs operator rhs => .binary (f lhs) operator (f rhs)
  | cast value kind target => .cast (f value) kind (f target)
  | forceUnwrap operand => .forceUnwrap (f operand)
  | macroUse name generics arguments => .macroUse name (generics.map f) (arguments.map (·.map f))
  | typeName name generics => .typeName name (generics.map f)
  | optionalType wrapped => .optionalType (f wrapped)
  | attr name generics arguments => .attr name (generics.map f) (arguments.map (·.map f))
  | variableDecl attributes modifiers keyword bindings =>
      .variableDecl (attributes.map f) modifiers keyword (bindings.map f)
  | functionDecl attributes modifiers name body =>
      .functionDecl (attributes.map f) modifiers name (body.map f)
  | patternBinding pattern declaredType initial accessors =>
      .patternBinding (f pattern) (declaredType.map f) (initial.map f) (accessors.map f)
  | namePattern name => .namePattern name
  | tuplePattern elements => .tuplePattern (elements.map f)
  | wildcardPattern => .wildcardPattern
  | accessor kind body => .accessor kind (body.map f)

/-- The children in source order. -/
def children : Shape α → List α
  | stringLiteral segments => segments.filterMap Segment.expression?
  | integerLiteral _ | floatLiteral _ | booleanLiteral _ | nilLiteral | identifier _
  | namePattern _ | wildcardPattern => []
  | memberAccess base _ => base.toList
  | call callee arguments => callee :: arguments.map (·.expression)
  | tuple elements => elements.map (·.expression)
  | prefixed _ operand => [operand]
  | binary lhs _ rhs => [lhs, rhs]
  | cast value _ target => [value, target]
  | forceUnwrap inner | optionalType inner => [inner]
  | macroUse _ generics arguments | attr _ generics arguments =>
      generics ++ arguments.map (·.expression)
  | typeName _ generics => generics
  | variableDecl attributes _ _ bindings => attributes ++ bindings
  | functionDecl attributes _ _ body => attributes ++ body
  | patternBinding pattern declaredType initial accessors =>
      pattern :: (declaredType.toList ++ initial.toList ++ accessors)
  | tuplePattern elements => elements
  | accessor _ body => body

end Shape

/-! ## Recursion over a tree -/

namespace Node

variable {β : Type}

mutual

/-- Replaces every node of a tree by what `f` makes of its shape, whose children have been replaced
already, and its span. -/
def fold (f : Shape β → Span → β) : Node → β
  | ⟨shape, span⟩ => f (foldShape f shape) span

def foldShape (f : Shape β → Span → β) : Shape Node → Shape β
  | .stringLiteral segments => .stringLiteral (foldSegments f segments)
  | .integerLiteral digits => .integerLiteral digits
  | .floatLiteral digits => .floatLiteral digits
  | .booleanLiteral value => .booleanLiteral value
  | .nilLiteral => .nilLiteral
  | .identifier name => .identifier name
  | .memberAccess base member => .memberAccess (foldOption f base) member
  | .call callee arguments => .call (fold f callee) (foldArguments f arguments)
  | .tuple elements => .tuple (foldArguments f elements)
  | .prefixed operator operand => .prefixed operator (fold f operand)
  | .binary lhs operator rhs => .binary (fold f lhs) operator (fold f rhs)
  | .cast value kind target => .cast (fold f value) kind (fold f target)
  | .forceUnwrap operand => .forceUnwrap (fold f operand)
  | .macroUse name generics arguments =>
      .macroUse name (foldList f generics) (foldArguments f arguments)
  | .typeName name generics => .typeName name (foldList f generics)
  | .optionalType wrapped => .optionalType (fold f wrapped)
  | .attr name generics arguments => .attr name (foldList f generics) (foldArguments f arguments)
  | .variableDecl attributes modifiers keyword bindings =>
      .variableDecl (foldList f attributes) modifiers keyword (foldList f bindings)
  | .functionDecl attributes modifiers name body =>
      .functionDecl (foldList f attributes) modifiers name (foldList f body)
  | .patternBinding pattern declaredType initial accessors =>
      .patternBinding (fold f pattern) (foldOption f declaredType) (foldOption f initial)
        (foldList f accessors)
  | .namePattern name => .namePattern name
  | .tuplePattern elements => .tuplePattern (foldList f elements)
  | .wildcardPattern => .wildcardPattern
  | .accessor kind body => .accessor kind (foldList f body)

def foldList (f : Shape β → Span → β) : List Node → List β
  | [] => []
  | n :: ns => fold f n :: foldList f ns

def foldOption (f : Shape β → Span → β) : Option Node → Option β
  | none => none
  | some n => some (fold f n)

def foldArguments (f : Shape β → Span → β) : List (Argument Node) → List (Argument β)
  | [] => []
  | a :: as => foldArgument f a :: foldArguments f as

def foldArgument (f : Shape β → Span → β) : Argument Node → Argument β
  | ⟨label, expression⟩ => ⟨label, fold f expression⟩

def foldSegments (f : Shape β → Span → β) : List (Segment Node) → List (Segment β)
  | [] => []
  | s :: ss => foldSegment f s :: foldSegments f ss

def foldSegment (f : Shape β → Span → β) : Segment Node → Segment β
  | .text content => .text content
  | .interpolation expression => .interpolation (fold f expression)

end

variable (f : Shape β → Span → β)

theorem foldList_eq_map : ∀ ns : List Node, foldList f ns = ns.map (fold f)
  | [] => rfl
  | n :: ns => by rw [foldList, foldList_eq_map ns, List.map_cons]

theorem foldOption_eq_map : ∀ n : Option Node, foldOption f n = n.map (fold f)
  | none => rfl
  | some _ => rfl

theorem foldArguments_eq_map :
    ∀ as : List (Argument Node), foldArguments f as = as.map (·.map (fold f))
  | [] => rfl
  | ⟨_, _⟩ :: as => by rw [foldArguments, foldArguments_eq_map as, List.map_cons]; rfl

theorem foldSegments_eq_map :
    ∀ ss : List (Segment Node), foldSegments f ss = ss.map (·.map (fold f))
  | [] => rfl
  | .text _ :: ss => by rw [foldSegments, foldSegments_eq_map ss, List.map_cons]; rfl
  | .interpolation _ :: ss => by rw [foldSegments, foldSegments_eq_map ss, List.map_cons]; rfl

theorem foldShape_eq_map (shape : Shape Node) : foldShape f shape = shape.map (fold f) := by
  cases shape <;>
    simp only [foldShape, Shape.map, foldList_eq_map, foldOption_eq_map, foldArguments_eq_map,
      foldSegments_eq_map]

/-- Folding a node folds its children and then applies the function once. -/
theorem fold_mk (shape : Shape Node) (span : Span) :
    fold f ⟨shape, span⟩ = f (shape.map (fold f)) span := by
  rw [fold, foldShape_eq_map]

/-! ## Induction over children -/

/-- The children in source order. -/
def children (n : Node) : List Node := n.shape.children

theorem sizeOf_lt_of_mem_segments {segments : List (Segment Node)} {c : Node}
    (h : c ∈ segments.filterMap Segment.expression?) : sizeOf c < sizeOf segments := by
  obtain ⟨s, hs, hc⟩ := List.mem_filterMap.1 h
  have := List.sizeOf_lt_of_mem hs
  cases s with
  | text _ => simp [Segment.expression?] at hc
  | interpolation e =>
    simp only [Segment.expression?, Option.some.injEq] at hc
    subst hc
    simp only [Segment.interpolation.sizeOf_spec] at this
    omega

theorem sizeOf_lt_of_mem_arguments {arguments : List (Argument Node)} {c : Node}
    (h : c ∈ arguments.map (·.expression)) : sizeOf c < sizeOf arguments := by
  obtain ⟨⟨label, e⟩, ha, rfl⟩ := List.mem_map.1 h
  have := List.sizeOf_lt_of_mem ha
  simp only [Argument.mk.sizeOf_spec] at this
  show sizeOf e < _
  omega

theorem sizeOf_lt_of_mem_toList {child : Option Node} {c : Node} (h : c ∈ child.toList) :
    sizeOf c < sizeOf child := by
  cases child with
  | none => simp at h
  | some d =>
    simp only [Option.toList_some, List.mem_singleton] at h
    subst h
    simp

/-- A child is smaller than its parent. -/
theorem sizeOf_lt_of_mem_children {n c : Node} (h : c ∈ n.children) : sizeOf c < sizeOf n := by
  obtain ⟨shape, span⟩ := n
  simp only [children] at h
  simp only [mk.sizeOf_spec]
  cases shape <;> simp only [Shape.children, List.mem_cons, List.mem_append, List.not_mem_nil,
    or_false] at h
  case stringLiteral segments =>
    have := sizeOf_lt_of_mem_segments h
    simp only [Shape.stringLiteral.sizeOf_spec]; omega
  case memberAccess base member =>
    have := sizeOf_lt_of_mem_toList h
    simp only [Shape.memberAccess.sizeOf_spec]; omega
  case call callee arguments =>
    simp only [Shape.call.sizeOf_spec]
    rcases h with rfl | h
    · omega
    · have := sizeOf_lt_of_mem_arguments h; omega
  case tuple elements =>
    have := sizeOf_lt_of_mem_arguments h
    simp only [Shape.tuple.sizeOf_spec]; omega
  case prefixed => subst h; simp only [Shape.prefixed.sizeOf_spec]; omega
  case binary =>
    simp only [Shape.binary.sizeOf_spec]
    rcases h with rfl | rfl <;> omega
  case cast =>
    simp only [Shape.cast.sizeOf_spec]
    rcases h with rfl | rfl <;> omega
  case forceUnwrap => subst h; simp only [Shape.forceUnwrap.sizeOf_spec]; omega
  case macroUse name generics arguments =>
    simp only [Shape.macroUse.sizeOf_spec]
    rcases h with h | h
    · have := List.sizeOf_lt_of_mem h; omega
    · have := sizeOf_lt_of_mem_arguments h; omega
  case typeName =>
    have := List.sizeOf_lt_of_mem h
    simp only [Shape.typeName.sizeOf_spec]; omega
  case optionalType => subst h; simp only [Shape.optionalType.sizeOf_spec]; omega
  case attr name generics arguments =>
    simp only [Shape.attr.sizeOf_spec]
    rcases h with h | h
    · have := List.sizeOf_lt_of_mem h; omega
    · have := sizeOf_lt_of_mem_arguments h; omega
  case variableDecl =>
    simp only [Shape.variableDecl.sizeOf_spec]
    rcases h with h | h <;> (have hlt := List.sizeOf_lt_of_mem h; omega)
  case functionDecl =>
    simp only [Shape.functionDecl.sizeOf_spec]
    rcases h with h | h <;> (have hlt := List.sizeOf_lt_of_mem h; omega)
  case patternBinding =>
    simp only [Shape.patternBinding.sizeOf_spec]
    rcases h with rfl | (h | h) | h
    · omega
    · have := sizeOf_lt_of_mem_toList h; omega
    · have := sizeOf_lt_of_mem_toList h; omega
    · have := List.sizeOf_lt_of_mem h; omega
  case tuplePattern =>
    have := List.sizeOf_lt_of_mem h
    simp only [Shape.tuplePattern.sizeOf_spec]; omega
  case accessor =>
    have := List.sizeOf_lt_of_mem h
    simp only [Shape.accessor.sizeOf_spec]; omega

/-- What passes from the children of a node to the node holds of every node. -/
theorem induct {P : Node → Prop} (step : ∀ n, (∀ c ∈ n.children, P c) → P n) (n : Node) : P n :=
  step n fun c _ => induct step c
termination_by sizeOf n
decreasing_by exact sizeOf_lt_of_mem_children ‹_›

/-- The node and everything below it, each node before its children. -/
def preorder (n : Node) : List Node :=
  n :: n.children.attach.flatMap fun c => preorder c.1
termination_by sizeOf n
decreasing_by exact sizeOf_lt_of_mem_children c.2

theorem preorder_eq (n : Node) : n.preorder = n :: n.children.flatMap preorder := by
  rw [preorder]
  simp [List.flatMap_subtype]

/-! ## Spans of a whole tree -/

/-- The tree with every span replaced by the empty span at the start. -/
def eraseSpans : Node → Node := fold fun shape _ => ⟨shape, default⟩

/-- The tree with every span moved up by `n` bytes. -/
def shift (n : Nat) : Node → Node := fold fun shape span => ⟨shape, span.shift n⟩

end Node
end SwiftMacro
