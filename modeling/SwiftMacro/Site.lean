import SwiftMacro.Node.Kind
import SwiftMacro.Source
/-!
# Expansion sites

A site is one use of a macro: a `#name(…)` expression, or an attribute together with the declaration
it stands on.
-/

namespace SwiftMacro

/-- What a macro replaces or adds. -/
inductive Role where
  /-- `#name(…)` becomes another expression. -/
  | expression
  /-- `@name<T>` gives a variable its accessors. -/
  | accessor
deriving DecidableEq, Repr

def Role.name : Role → String
  | expression => "expression"
  | accessor => "accessor"

/-- The sign in front of the name of a macro. -/
def Role.sign : Role → String
  | expression => "#"
  | accessor => "@"

/-- One use of a macro. -/
structure Site where
  macroName : String
  role : Role
  /-- The expression or the attribute. -/
  node : Node
  /-- The declaration an attribute stands on. -/
  declaration : Option Node
  source : Source

namespace Site

/-- The site of a `#name(…)` expression. -/
def freestanding? (source : Source) (node : Node) : Option Site :=
  node.macroName?.map fun name => ⟨name, .expression, node, none, source⟩

/-- The site of an attribute on a declaration. -/
def attached? (source : Source) (mark declaration : Node) : Option Site :=
  mark.attributeName?.map fun name => ⟨name, .accessor, mark, some declaration, source⟩

def arguments (s : Site) : List (Argument Node) := s.node.useArguments

def generics (s : Site) : List Node := s.node.useGenerics

/-- Whether the site is an attribute. -/
def isAttached (s : Site) : Bool := s.node.kind == .attr

end Site
end SwiftMacro
