import SwiftMacro.Node
/-!
# Building nodes

Nodes that are not read but made. Each takes the span it reports, so that whatever is said about it
later points at the macro use it stands for.
-/

namespace SwiftMacro

namespace Argument

/-- An argument without label. -/
def plain (expression : Node) : Argument Node := ⟨none, expression⟩

/-- An argument with a label. -/
def labeled (label : String) (expression : Node) : Argument Node := ⟨some label, expression⟩

end Argument

namespace Node

variable (span : Span)

/-- A string literal of one segment of text. -/
def string (text : String) : Node := ⟨.stringLiteral [.text text], span⟩

def identifier (name : String) : Node := ⟨.identifier name, span⟩

def nil : Node := ⟨.nilLiteral, span⟩

def member (base : Node) (name : String) : Node := ⟨.memberAccess (some base) name, span⟩

/-- Members of members: `root.a.b`. -/
def memberChain (root : String) (members : List String) : Node :=
  members.foldl (member span) (identifier span root)

def call (callee : Node) (arguments : List (Argument Node)) : Node := ⟨.call callee arguments, span⟩

def tuple (elements : List (Argument Node)) : Node := ⟨.tuple elements, span⟩

/-- A node in parentheses. -/
def parenthesized (inner : Node) : Node := tuple span [.plain inner]

def binary (lhs : Node) (operator : String) (rhs : Node) : Node := ⟨.binary lhs operator rhs, span⟩

def cast (value : Node) (kind : CastKind) (target : Node) : Node := ⟨.cast value kind target, span⟩

def forceUnwrap (operand : Node) : Node := ⟨.forceUnwrap operand, span⟩

def typeName (name : String) (generics : List Node) : Node := ⟨.typeName name generics, span⟩

def accessor (kind : AccessorKind) (body : List Node) : Node := ⟨.accessor kind body, span⟩

end Node
end SwiftMacro
