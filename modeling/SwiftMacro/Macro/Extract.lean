import SwiftMacro.Failure
import SwiftMacro.Site
/-!
# What a macro takes from its site

Each function narrows a part of a site to the form that a macro needs, or rejects it with the span of
the node that does not fit.
-/

namespace SwiftMacro

/-- A failure at a node. -/
def Rejection.at {α : Type} (failure : Failure) (n : Node) : Except Rejection α :=
  .error ⟨failure, n.span⟩

/-- The first argument. Its label does not matter, nor do further arguments. -/
def Site.firstArgument (s : Site) : Except Rejection Node :=
  match s.arguments with
  | [] => Rejection.at .missingArgument s.node
  | a :: _ => .ok a.expression

/-- The contents of a string literal without interpolation. -/
def Node.plainString (n : Node) : Except Rejection String :=
  match n.shape with
  | .stringLiteral [.text content] => .ok content
  | _ => Rejection.at .argumentNotString n

/-- The names that an optional type can be spelled with. -/
def optionalNames : List String := ["Optional", "Swift.Optional"]

/-- The inner type of `T?`, `Optional<T>` and `Swift.Optional<T>`. -/
def Node.unwrapOptional? (n : Node) : Option Node :=
  match n.shape with
  | .optionalType wrapped => some wrapped
  | .typeName name [inner] => if name ∈ optionalNames then some inner else none
  | _ => none

/-- A value type without its optional layer, and whether it had one. -/
structure ValueType where
  type : Node
  optional : Bool

/-- The first type argument, with one optional layer taken off. -/
def Site.valueType (s : Site) : Except Rejection ValueType :=
  match s.generics with
  | [] => Rejection.at .noTypeDefined s.node
  | written :: _ =>
      match written.unwrapOptional? with
      | some inner => .ok ⟨inner, true⟩
      | none => .ok ⟨written, false⟩

/-- A variable: its name, its initial value as written, and the binding. -/
structure Binding where
  name : String
  initial : Option Node
  node : Node

/-- The one variable that a declaration binds; `none` if it declares no variables at all. -/
def Node.binding (declaration : Node) : Except Rejection (Option Binding) :=
  match declaration.shape with
  | .variableDecl _ _ _ [binding] =>
      match binding.shape with
      | .patternBinding pattern _ initial _ =>
          match pattern.shape with
          | .namePattern name => .ok (some ⟨name, initial, binding⟩)
          | _ => Rejection.at .cannotGetVariableName pattern
      | _ => Rejection.at .cannotGetBinding binding
  | .variableDecl _ _ _ _ => Rejection.at .cannotGetBinding declaration
  | _ => .ok none

end SwiftMacro
