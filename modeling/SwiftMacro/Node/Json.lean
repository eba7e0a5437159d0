import SwiftMacro.Json
import SwiftMacro.Node.Kind
/-!
# Serialized nodes

A node is written as an object with its `value` and its `span`. The value is the name of the kind,
or an object with that name as its only key. `Shape.toJson` and `Shape.ofJson?` deal with one level,
with children that are JSON already; `Node.toJson` and `Node.ofJson?` put the levels together.
-/

namespace SwiftMacro

/-! ## Writing -/

def Span.toJson (s : Span) : Json := .obj [("start", .num s.start), ("end", .num s.stop)]

def CastKind.name : CastKind → String
  | plain => "Plain"
  | conditional => "Conditional"
  | forced => "Forced"

def BindingKeyword.name : BindingKeyword → String
  | constant => "Let"
  | mutable => "Var"

def AccessorKind.name : AccessorKind → String
  | get => "Get"
  | set => "Set"

def Argument.toJson (a : Argument Json) : Json :=
  .obj [("label", .ofOption .str a.label), ("expression", a.expression)]

def Segment.toJson : Segment Json → Json
  | text content => .obj [("Text", .str content)]
  | interpolation expression => .obj [("Interpolation", expression)]

/-- The contents of a shape, without the name of its kind. -/
def Shape.contents : Shape Json → Json
  | stringLiteral segments => .arr (segments.map (·.toJson))
  | integerLiteral digits | floatLiteral digits => .str digits
  | booleanLiteral value => .bool value
  | nilLiteral | wildcardPattern => .null
  | identifier name | namePattern name => .str name
  | memberAccess base member => .obj [("base", .ofOption id base), ("member", .str member)]
  | call callee arguments =>
      .obj [("callee", callee), ("arguments", .arr (arguments.map (·.toJson)))]
  | tuple elements => .arr (elements.map (·.toJson))
  | prefixed operator operand => .obj [("operator", .str operator), ("operand", operand)]
  | binary lhs operator rhs => .obj [("lhs", lhs), ("operator", .str operator), ("rhs", rhs)]
  | cast value kind target => .obj [("value", value), ("kind", .str kind.name), ("target", target)]
  | forceUnwrap inner | optionalType inner => inner
  | macroUse name generics arguments | attr name generics arguments =>
      .obj [("name", .str name), ("generic_arguments", .arr generics),
        ("arguments", .arr (arguments.map (·.toJson)))]
  | typeName name generics => .obj [("name", .str name), ("generic_arguments", .arr generics)]
  | variableDecl attributes modifiers keyword bindings =>
      .obj [("attributes", .arr attributes), ("modifiers", .strings modifiers),
        ("keyword", .str keyword.name), ("bindings", .arr bindings)]
  | functionDecl attributes modifiers name body =>
      .obj [("attributes", .arr attributes), ("modifiers", .strings modifiers),
        ("name", .str name), ("body", .arr body)]
  | patternBinding pattern declaredType initial accessors =>
      .obj [("pattern", pattern), ("annotation", .ofOption id declaredType),
        ("initializer", .ofOption id initial), ("accessors", .arr accessors)]
  | tuplePattern elements => .arr elements
  | accessor kind body => .obj [("kind", .str kind.name), ("body", .arr body)]

/-- A shape whose children have been written. -/
def Shape.toJson (s : Shape Json) : Json :=
  match s with
  | nilLiteral | wildcardPattern => .str s.kind.name
  | _ => .obj [(s.kind.name, s.contents)]

/-- A serialized node. -/
def Node.toJson : Node → Json :=
  fold fun shape span => .obj [("value", shape.toJson), ("span", span.toJson)]

/-! ## Reading -/

def Span.ofJson? (j : Json) : Option Span := do
  return ⟨← (← j.field? "start").num?, ← (← j.field? "end").num?⟩

def CastKind.ofName? : String → Option CastKind
  | "Plain" => some plain
  | "Conditional" => some conditional
  | "Forced" => some forced
  | _ => none

def BindingKeyword.ofName? : String → Option BindingKeyword
  | "Let" => some constant
  | "Var" => some mutable
  | _ => none

def AccessorKind.ofName? : String → Option AccessorKind
  | "Get" => some get
  | "Set" => some set
  | _ => none

namespace Json

/-- A field that holds a string. -/
def strField? (j : Json) (name : String) : Option String := (j.field? name).bind str?

/-- A field that holds a list. -/
def arrField? (j : Json) (name : String) : Option (List Json) := (j.field? name).bind arr?

/-- A field that may be missing or `null`. -/
def optField (j : Json) (name : String) : Option Json :=
  match j.field? name with
  | some null => none
  | other => other

/-- A list of strings. -/
def stringList? (items : List Json) : Option (List String) := items.mapM str?

end Json

def Argument.ofJson? (j : Json) : Option (Argument Json) := do
  let expression ← j.field? "expression"
  match j.optField "label" with
  | none => return ⟨none, expression⟩
  | some label => return ⟨some (← label.str?), expression⟩

def Segment.ofJson? (j : Json) : Option (Segment Json) :=
  match j with
  | .obj [("Text", content)] => content.str?.map .text
  | .obj [("Interpolation", expression)] => some (.interpolation expression)
  | _ => none

/-- The shape of a kind with the given contents. -/
def Shape.ofContents? (kind : Kind) (j : Json) : Option (Shape Json) :=
  match kind with
  | .stringLiteral => do return .stringLiteral (← (← j.arr?).mapM Segment.ofJson?)
  | .integerLiteral => j.str?.map .integerLiteral
  | .floatLiteral => j.str?.map .floatLiteral
  | .booleanLiteral => j.bool?.map .booleanLiteral
  | .nilLiteral | .wildcardPattern => none
  | .identifier => j.str?.map .identifier
  | .memberAccess => do return .memberAccess (j.optField "base") (← j.strField? "member")
  | .call => do
      return .call (← j.field? "callee") (← (← j.arrField? "arguments").mapM Argument.ofJson?)
  | .tuple => do return .tuple (← (← j.arr?).mapM Argument.ofJson?)
  | .prefixed => do return .prefixed (← j.strField? "operator") (← j.field? "operand")
  | .binary => do return .binary (← j.field? "lhs") (← j.strField? "operator") (← j.field? "rhs")
  | .cast => do
      return .cast (← j.field? "value") (← (← j.strField? "kind") |> CastKind.ofName?)
        (← j.field? "target")
  | .forceUnwrap => some (.forceUnwrap j)
  | .macroUse => do
      return .macroUse (← j.strField? "name") (← j.arrField? "generic_arguments")
        (← (← j.arrField? "arguments").mapM Argument.ofJson?)
  | .typeName => do return .typeName (← j.strField? "name") (← j.arrField? "generic_arguments")
  | .optionalType => some (.optionalType j)
  | .attr => do
      return .attr (← j.strField? "name") (← j.arrField? "generic_arguments")
        (← (← j.arrField? "arguments").mapM Argument.ofJson?)
  | .variableDecl => do
      return .variableDecl (← j.arrField? "attributes")
        (← (← j.arrField? "modifiers") |> Json.stringList?)
        (← (← j.strField? "keyword") |> BindingKeyword.ofName?) (← j.arrField? "bindings")
  | .functionDecl => do
      return .functionDecl (← j.arrField? "attributes")
        (← (← j.arrField? "modifiers") |> Json.stringList?) (← j.strField? "name")
        (← j.arrField? "body")
  | .patternBinding => do
      return .patternBinding (← j.field? "pattern") (j.optField "annotation")
        (j.optField "initializer") (← j.arrField? "accessors")
  | .namePattern => j.str?.map .namePattern
  | .tuplePattern => j.arr?.map .tuplePattern
  | .accessor => do
      return .accessor (← (← j.strField? "kind") |> AccessorKind.ofName?) (← j.arrField? "body")

/-- The kind with the given name. -/
def Kind.ofName? (name : String) : Option Kind := Kind.all.find? (·.name == name)

/-- A shape whose children have not been read yet. -/
def Shape.ofJson? : Json → Option (Shape Json)
  | .str "NilLiteral" => some .nilLiteral
  | .str "WildcardPattern" => some .wildcardPattern
  | .obj [(name, contents)] => (Kind.ofName? name).bind fun kind => ofContents? kind contents
  | _ => none

def Argument.traverse {α β : Type} (f : α → Option β) (a : Argument α) : Option (Argument β) :=
  (f a.expression).map (⟨a.label, ·⟩)

def Segment.traverse {α β : Type} (f : α → Option β) : Segment α → Option (Segment β)
  | text content => some (.text content)
  | interpolation expression => (f expression).map .interpolation

/-- A child that may be missing. -/
def traverseOption {α β : Type} (f : α → Option β) : Option α → Option (Option β)
  | none => some none
  | some a => (f a).map some

/-- Replaces every child, if all of them can be replaced. -/
def Shape.traverse {α β : Type} (f : α → Option β) : Shape α → Option (Shape β)
  | stringLiteral segments => (segments.mapM (Segment.traverse f)).map .stringLiteral
  | integerLiteral digits => some (.integerLiteral digits)
  | floatLiteral digits => some (.floatLiteral digits)
  | booleanLiteral value => some (.booleanLiteral value)
  | nilLiteral => some .nilLiteral
  | identifier name => some (.identifier name)
  | memberAccess base member => (traverseOption f base).map (.memberAccess · member)
  | call callee arguments => do return .call (← f callee) (← arguments.mapM (Argument.traverse f))
  | tuple elements => (elements.mapM (Argument.traverse f)).map .tuple
  | prefixed operator operand => (f operand).map (.prefixed operator)
  | binary lhs operator rhs => do return .binary (← f lhs) operator (← f rhs)
  | cast value kind target => do return .cast (← f value) kind (← f target)
  | forceUnwrap operand => (f operand).map .forceUnwrap
  | macroUse name generics arguments => do
      return .macroUse name (← generics.mapM f) (← arguments.mapM (Argument.traverse f))
  | typeName name generics => (generics.mapM f).map (.typeName name)
  | optionalType wrapped => (f wrapped).map .optionalType
  | attr name generics arguments => do
      return .attr name (← generics.mapM f) (← arguments.mapM (Argument.traverse f))
  | variableDecl attributes modifiers keyword bindings => do
      return .variableDecl (← attributes.mapM f) modifiers keyword (← bindings.mapM f)
  | functionDecl attributes modifiers name body => do
      return .functionDecl (← attributes.mapM f) modifiers name (← body.mapM f)
  | patternBinding pattern declaredType initial accessors => do
      return .patternBinding (← f pattern) (← traverseOption f declaredType)
        (← traverseOption f initial) (← accessors.mapM f)
  | namePattern name => some (.namePattern name)
  | tuplePattern elements => (elements.mapM f).map .tuplePattern
  | wildcardPattern => some .wildcardPattern
  | accessor kind body => (body.mapM f).map (.accessor kind)

/-- Reads a serialized node that is nested at most `n` levels deep. -/
def Node.ofJsonWithin? : Nat → Json → Option Node
  | 0, _ => none
  | n + 1, j => do
      let shape ← Shape.ofJson? (← j.field? "value")
      return ⟨← shape.traverse (ofJsonWithin? n), ← Span.ofJson? (← j.field? "span")⟩

/-- Reads a serialized node. -/
def Node.ofJson? (j : Json) : Option Node := ofJsonWithin? j.depth j

end SwiftMacro
