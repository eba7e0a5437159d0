import SwiftMacro.Failure
import SwiftMacro.Text.Blank
/-!
# Symbol catalogs

The names of the symbols that exist on the platform, one name in each line of a catalog file.
-/

namespace SwiftMacro

/-- A catalog answers whether a name exists. -/
abbrev Catalog := String → Bool

/-- A finite catalog: each name once. -/
structure SymbolSet where
  names : List String
deriving DecidableEq, Repr

namespace SymbolSet

/-- The catalog of the given names. -/
def ofNames (names : List String) : SymbolSet := ⟨names.eraseDups⟩

/-- One name in each line. Empty lines, and lines that start with `#`, are skipped. -/
def parse (text : String) : SymbolSet :=
  ofNames (((Text.lines text.toList).map Text.trim).filter
    (fun line => !line.isEmpty && line.head? != some '#') |>.map String.ofList)

def size (s : SymbolSet) : Nat := s.names.length

def isEmpty (s : SymbolSet) : Bool := s.names.isEmpty

def catalog (s : SymbolSet) : Catalog := fun name => s.names.contains name

end SymbolSet

/-- Looks a name up. Without a catalog every name passes. -/
def checkSymbol (catalog : Option Catalog) (name : String) : Except Failure Unit :=
  match catalog with
  | none => .ok ()
  | some exists? => if exists? name then .ok () else .error (.invalidSymbolName name)

end SwiftMacro
