import SwiftMacro.Node
/-!
# Kinds of nodes and what can be read off one

The kind of a node is its shape without contents. The functions here look at a node and at most at
its children.
-/

namespace SwiftMacro

/-- The shape of a node without its contents. -/
inductive Kind where
  | stringLiteral | integerLiteral | floatLiteral | booleanLiteral | nilLiteral | identifier
  | memberAccess | call | tuple | prefixed | binary | cast | forceUnwrap | macroUse
  | typeName | optionalType | attr
  | variableDecl | functionDecl | patternBinding | namePattern | tuplePattern | wildcardPattern
  | accessor
deriving DecidableEq, Repr

namespace Kind

/-- The name of a kind in reports and serialized trees. -/
def name : Kind → String
  | stringLiteral => "StringLiteral"
  | integerLiteral => "IntegerLiteral"
  | floatLiteral => "FloatLiteral"
  | booleanLiteral => "BooleanLiteral"
  | nilLiteral => "NilLiteral"
  | identifier => "Identifier"
  | memberAccess => "MemberAccess"
  | call => "Call"
  | tuple => "Tuple"
  | prefixed => "Prefix"
  | binary => "Infix"
  | cast => "Cast"
  | forceUnwrap => "ForceUnwrap"
  | macroUse => "MacroExpansion"
  | typeName => "TypeReference"
  | optionalType => "OptionalType"
  | attr => "Attribute"
  | variableDecl => "VariableDecl"
  | functionDecl => "FunctionDecl"
  | patternBinding => "PatternBinding"
  | namePattern => "IdentifierPattern"
  | tuplePattern => "TuplePattern"
  | wildcardPattern => "WildcardPattern"
  | accessor => "Accessor"

/-- Every kind, once. -/
def all : List Kind :=
  [stringLiteral, integerLiteral, floatLiteral, booleanLiteral, nilLiteral, identifier,
    memberAccess, call, tuple, prefixed, binary, cast, forceUnwrap, macroUse, typeName,
    optionalType, attr, variableDecl, functionDecl, patternBinding, namePattern, tuplePattern,
    wildcardPattern, accessor]

/-- Whether nodes of this kind are expressions. -/
def isExpression : Kind → Bool
  | stringLiteral | integerLiteral | floatLiteral | booleanLiteral | nilLiteral | identifier
  | memberAccess | call | tuple | prefixed | binary | cast | forceUnwrap | macroUse => true
  | _ => false

/-- Whether nodes of this kind are declarations. -/
def isDeclaration : Kind → Bool
  | variableDecl | functionDecl => true
  | _ => false

end Kind

/-- The kind of a shape. -/
def Shape.kind {α : Type} : Shape α → Kind
  | stringLiteral _ => .stringLiteral
  | integerLiteral _ => .integerLiteral
  | floatLiteral _ => .floatLiteral
  | booleanLiteral _ => .booleanLiteral
  | nilLiteral => .nilLiteral
  | identifier _ => .identifier
  | memberAccess _ _ => .memberAccess
  | call _ _ => .call
  | tuple _ => .tuple
  | prefixed _ _ => .prefixed
  | binary _ _ _ => .binary
  | cast _ _ _ => .cast
  | forceUnwrap _ => .forceUnwrap
  | macroUse _ _ _ => .macroUse
  | typeName _ _ => .typeName
  | optionalType _ => .optionalType
  | attr _ _ _ => .attr
  | variableDecl _ _ _ _ => .variableDecl
  | functionDecl _ _ _ _ => .functionDecl
  | patternBinding _ _ _ _ => .patternBinding
  | namePattern _ => .namePattern
  | tuplePattern _ => .tuplePattern
  | wildcardPattern => .wildcardPattern
  | accessor _ _ => .accessor

namespace Node

/-- The kind of a node. -/
def kind (n : Node) : Kind := n.shape.kind

/-- The first child of a kind. -/
def firstOfKind? (n : Node) (k : Kind) : Option Node := n.children.find? (·.kind == k)

/-- The text of a leaf: a name, the digits of a number, or the contents of a string literal that is
one segment of text. -/
def text? (n : Node) : Option String :=
  match n.shape with
  | .identifier name | .namePattern name => some name
  | .integerLiteral digits | .floatLiteral digits => some digits
  | .stringLiteral [.text content] => some content
  | _ => none

/-- The attributes of a declaration; other nodes have none. -/
def attributes (n : Node) : List Node :=
  match n.shape with
  | .variableDecl attributes _ _ _ | .functionDecl attributes _ _ _ => attributes
  | _ => []

/-- The name of an attribute. -/
def attributeName? (n : Node) : Option String :=
  match n.shape with
  | .attr name _ _ => some name
  | _ => none

/-- The name in a macro use. -/
def macroName? (n : Node) : Option String :=
  match n.shape with
  | .macroUse name _ _ => some name
  | _ => none

/-- The arguments of a macro use or an attribute. -/
def useArguments (n : Node) : List (Argument Node) :=
  match n.shape with
  | .macroUse _ _ arguments | .attr _ _ arguments => arguments
  | _ => []

/-- The type arguments of a macro use or an attribute. -/
def useGenerics (n : Node) : List Node :=
  match n.shape with
  | .macroUse _ generics _ | .attr _ generics _ => generics
  | _ => []

end Node
end SwiftMacro
