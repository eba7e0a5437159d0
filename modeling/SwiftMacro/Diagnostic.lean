import SwiftMacro.Failure
import SwiftMacro.Node.Json
import SwiftMacro.Source
/-!
# Diagnostics

The message about one rejected macro use. Its identifier is stable: it is made of the name of the
macro and the code of the failure. There are no warnings.
-/

namespace SwiftMacro

/-- One message about a rejected macro use. -/
structure Diagnostic where
  macroName : String
  failure : Failure
  span : Span
  source : Option Source
deriving DecidableEq, Repr

namespace Diagnostic

/-- The domain of all identifiers. -/
def domain : String := "sigil"

/-- How severe a diagnostic is. -/
def severity : String := "error"

/-- The identifier within the domain. -/
def localId (d : Diagnostic) : String := d.macroName ++ "." ++ d.failure.code

/-- The identifier with its domain. -/
def id (d : Diagnostic) : String := domain ++ "::" ++ d.localId

/-- The message in one line, after the place where that is known. -/
def plain (d : Diagnostic) : String :=
  let message := severity ++ "[" ++ d.id ++ "]: " ++ d.failure.message
  match d.source with
  | none => message
  | some source =>
      let (line, column) := source.position d.span.start
      source.name ++ ":" ++ toString line ++ ":" ++ toString column ++ ": " ++ message

/-- The label on the source: its text, where it starts and how long it is, at least one byte. -/
def label (d : Diagnostic) : String × Nat × Nat :=
  (d.failure.label, d.span.start, max d.span.length 1)

def toJson (d : Diagnostic) : Json :=
  .obj [("macro_name", .str d.macroName), ("failure", d.failure.toJson), ("severity", .str severity),
    ("id", .obj [("domain", .str domain), ("id", .str d.localId)]), ("span", d.span.toJson)]

end Diagnostic
end SwiftMacro
