import SwiftMacro.Expansion
import SwiftMacro.Text.Blank
/-!
# Reports

The text and the JSON that is written about the outcomes of a run. Text can be coloured; every change
of colour starts with a reset.
-/

namespace SwiftMacro

/-! ## Colours -/

inductive Color where
  | red | green | yellow | cyan
deriving DecidableEq, Repr

namespace Color

/-- The number of the colour on a terminal. -/
def number : Color → String
  | red => "1"
  | green => "2"
  | yellow => "3"
  | cyan => "6"

end Color

/-- Whether reports are coloured. -/
structure Palette where
  colored : Bool
deriving DecidableEq, Repr

namespace Palette

/-- The control sequence for going back to plain text. -/
def reset (p : Palette) : String := if p.colored then "\x1b[0m" else ""

/-- The control sequence for a colour. -/
def start (p : Palette) (color : Color) (bold : Bool) : String :=
  if p.colored then
    "\x1b[0m" ++ (if bold then "\x1b[1m" else "") ++ "\x1b[3" ++ color.number ++ "m"
  else ""

end Palette

/-! ## Outcomes -/

namespace Expansion

/-- The text of an expansion in reports. -/
def reportText (e : Expansion) : String :=
  match e with
  | accessors [] => "(no accessors)"
  | _ => e.render

end Expansion

/-- Every line of a text behind four blanks. -/
def indented (text : String) : String :=
  String.join ((Text.lines text.toList).map fun line => "    " ++ String.ofList line ++ "\n")

/-- One diagnostic in one line. -/
def Diagnostic.line (p : Palette) (d : Diagnostic) : String :=
  p.start .red false ++ d.plain ++ p.reset ++ "\n"

/-- Where a site is and what it uses, and below that its expansion or its diagnostics. -/
def SiteOutcome.text (p : Palette) (o : SiteOutcome) : String :=
  let (line, column) := o.site.source.position o.site.node.span.start
  o.site.source.name ++ ":" ++ toString line ++ ":" ++ toString column ++ " " ++
    p.start .cyan true ++ o.site.role.sign ++ o.site.macroName ++ "\n" ++ p.reset ++
    match o.result with
    | .ok expansion => indented expansion.reportText
    | .error _ => String.join (o.diagnostics.map fun d => "    " ++ d.line p)

/-- One site in the report on a file. -/
def SiteOutcome.toJson (o : SiteOutcome) : Json :=
  let (line, column) := o.site.source.position o.site.node.span.start
  .obj [("macro", .str o.site.macroName), ("role", .str o.site.role.name), ("line", .num line),
    ("column", .num column),
    match o.result with
    | .ok expansion => ("expansion", .str expansion.reportText)
    | .error _ => ("diagnostics", .arr (o.diagnostics.map Diagnostic.toJson))]

/-- The report on a file. -/
def fileReport (file : String) (outcomes : List SiteOutcome) : Json :=
  .obj [("file", .str file), ("sites", .arr (outcomes.map SiteOutcome.toJson))]

/-! ## Macros -/

/-- A text filled up with blanks to a width. -/
def padRight (width : Nat) (text : String) : String := text ++ "".pushn ' ' (width - text.length)

/-- The list of macros, two lines for each. -/
def Registry.listing (p : Palette) (r : Registry) : String :=
  String.join (r.map fun entry =>
    p.start .yellow true ++ padRight 16 entry.name ++ p.reset ++ " " ++
      padRight 10 entry.role.name ++ " " ++ entry.signature ++ "\n" ++
      padRight 16 "" ++ "            " ++ entry.summary ++ "\n")

/-! ## Totals -/

/-- Totals over the files of a run. -/
structure Summary where
  files : Nat
  sites : Nat
  rejected : Nat
  unreadable : Nat
deriving DecidableEq, Repr

namespace Summary

instance : Inhabited Summary := ⟨⟨0, 0, 0, 0⟩⟩

/-- Adds a file whose sites were expanded. -/
def record (s : Summary) (outcomes : List SiteOutcome) : Summary :=
  { s with
    files := s.files + 1
    sites := s.sites + outcomes.length
    rejected := s.rejected + (outcomes.filter (!·.isSuccess)).length }

/-- Adds a file that could not be read. -/
def recordUnreadable (s : Summary) : Summary := { s with unreadable := s.unreadable + 1 }

/-- Whether every file was read and every site was expanded. -/
def isClean (s : Summary) : Bool := s.rejected == 0 && s.unreadable == 0

/-- The totals in one line. -/
def text (p : Palette) (s : Summary) : String :=
  p.start (if s.isClean then .green else .red) true ++ toString s.files ++ " file(s), " ++
    toString s.sites ++ " site(s), " ++ toString s.rejected ++ " rejected" ++
    (if s.unreadable = 0 then "" else ", " ++ toString s.unreadable ++ " unreadable") ++
    p.reset ++ "\n"

end Summary
end SwiftMacro
