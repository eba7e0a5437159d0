import SwiftMacro.Node
import SwiftMacro.Text.Escape
/-!
# The canonical text of a node

`Node.render` writes a node with one blank around operators and one statement of a block in each
line. Blocks are indented by four blanks for each block around them; arguments, type arguments and
interpolations start again without indentation.
-/

namespace SwiftMacro

/-- Texts with a separator between them. -/
def joinWith (separator : String) : List String → String
  | [] => ""
  | [a] => a
  | a :: b :: rest => a ++ separator ++ joinWith separator (b :: rest)

/-- The text of a node at a depth of indentation. -/
abbrev Rendering := Nat → String

namespace Render

/-- The blanks in front of a line at a depth. -/
def indent : Nat → String
  | 0 => ""
  | n + 1 => "    " ++ indent n

/-- The text between the quotes of a string literal. -/
def escaped (text : String) : String := String.ofList (text.toList.flatMap Text.escape)

def segment : Segment Rendering → String
  | .text content => escaped content
  | .interpolation expression => "\\(" ++ expression 0 ++ ")"

def argument (a : Argument Rendering) : String :=
  match a.label with
  | none => a.expression 0
  | some label => label ++ ": " ++ a.expression 0

/-- Arguments in parentheses. -/
def arguments (as : List (Argument Rendering)) : String :=
  "(" ++ joinWith ", " (as.map argument) ++ ")"

/-- Type arguments in angle brackets, or nothing. -/
def generics : List Rendering → String
  | [] => ""
  | ts => "<" ++ joinWith ", " (ts.map (· 0)) ++ ">"

/-- The statements of a block, each in a line of its own. -/
def lines (depth : Nat) : List Rendering → String
  | [] => ""
  | s :: ss => indent depth ++ s depth ++ "\n" ++ lines depth ss

/-- A block in braces. -/
def block (depth : Nat) : List Rendering → String
  | [] => "\x7b\x7d"
  | ss => "\x7b\n" ++ lines (depth + 1) ss ++ indent depth ++ "\x7d"

/-- The attributes and modifiers in front of a declaration. -/
def leading (depth : Nat) (attributes : List Rendering) (modifiers : List String) : String :=
  String.join (attributes.map fun a => a depth ++ " ") ++ String.join (modifiers.map (· ++ " "))

def castWord : CastKind → String
  | .plain => "as"
  | .conditional => "as?"
  | .forced => "as!"

def keyword : BindingKeyword → String
  | .constant => "let"
  | .mutable => "var"

def accessorWord : AccessorKind → String
  | .get => "get"
  | .set => "set"

/-- The text of a shape from the texts of its children. -/
def shape (depth : Nat) : Shape Rendering → String
  | .stringLiteral segments => "\"" ++ String.join (segments.map segment) ++ "\""
  | .integerLiteral digits | .floatLiteral digits => digits
  | .booleanLiteral value => if value then "true" else "false"
  | .nilLiteral => "nil"
  | .identifier name | .namePattern name => name
  | .wildcardPattern => "_"
  | .memberAccess none member => "." ++ member
  | .memberAccess (some base) member => base depth ++ "." ++ member
  | .call callee as => callee depth ++ arguments as
  | .tuple elements => arguments elements
  | .prefixed operator operand => operator ++ operand depth
  | .binary lhs operator rhs => lhs depth ++ " " ++ operator ++ " " ++ rhs depth
  | .cast value kind target => value depth ++ " " ++ castWord kind ++ " " ++ target depth
  | .forceUnwrap operand => operand depth ++ "!"
  | .macroUse name ts as => "#" ++ name ++ generics ts ++ arguments as
  | .typeName name ts => name ++ generics ts
  | .optionalType wrapped => wrapped depth ++ "?"
  | .attr name ts [] => "@" ++ name ++ generics ts
  | .attr name ts as => "@" ++ name ++ generics ts ++ arguments as
  | .variableDecl attributes modifiers word bindings =>
      leading depth attributes modifiers ++ keyword word ++ " " ++
        joinWith ", " (bindings.map (· depth))
  | .functionDecl attributes modifiers name body =>
      leading depth attributes modifiers ++ "func " ++ name ++ "() " ++ block depth body
  | .patternBinding pattern declaredType initial accessors =>
      pattern depth ++
        (match declaredType with
          | none => ""
          | some type => ": " ++ type depth) ++
        (match initial with
          | none => ""
          | some value => " = " ++ value depth) ++
        (match accessors with
          | [] => ""
          | as => " " ++ block depth as)
  | .tuplePattern elements => "(" ++ joinWith ", " (elements.map (· depth)) ++ ")"
  | .accessor kind body => accessorWord kind ++ " " ++ block depth body

@[simp] theorem shape_tuple (depth : Nat) (elements : List (Argument Rendering)) :
    shape depth (.tuple elements) = arguments elements := by
  rw [shape]

end Render

/-- The text of a node at a depth of indentation. -/
def Node.renderAt (depth : Nat) (n : Node) : String :=
  n.fold (fun shape _ depth => Render.shape depth shape) depth

/-- The canonical text of a node. -/
def Node.render (n : Node) : String := n.renderAt 0

/-- The canonical text of an argument. -/
def Argument.render (a : Argument Node) : String :=
  Render.argument (a.map fun n depth => n.renderAt depth)

end SwiftMacro
