import SwiftMacro.Text.Blank
import SwiftMacro.Text.Escape
/-!
# Tables of characters

A table lists runs of code points in hexadecimal, with blanks between them: `5be`, `5d0-5ea`. A run
may say what its characters become: `e8=65.300` lists the values, `41-5a+61` counts up from a value,
and `100-12e/101` does so for every second character only.
-/

namespace SwiftMacro.Unicode

/-- How the values of a run belong to its characters. -/
inductive RunKind where
  /-- All characters of the run have the same values. -/
  | same
  /-- The value grows with the character. -/
  | shifted
  /-- The value grows with the character, and only every second character is in the run. -/
  | alternating
deriving DecidableEq, Repr

/-- Code points from `first` to `last`. -/
structure Run where
  first : Nat
  last : Nat
  kind : RunKind
  values : List Nat
deriving DecidableEq, Repr

namespace Run

/-- Whether a character stands between a range and its values. -/
def sign? : Char → Option RunKind
  | '=' => some .same
  | '+' => some .shifted
  | '/' => some .alternating
  | _ => none

def hex (digits : List Char) : Nat := (Text.hexFrom? 0 digits).getD 0

/-- Reads one run. -/
def parse (word : List Char) : Run :=
  let range := word.takeWhile fun c => (sign? c).isNone
  let ends := (Text.splitOn '-' range).map hex
  let values := (word.drop (range.length + 1))
  { first := ends.headD 0
    last := ends.getLastD 0
    kind := ((word.drop range.length).head?.bind sign?).getD .same
    values := if values.isEmpty then [] else (Text.splitOn '.' values).map hex }

/-- Reads a table. -/
def table (lines : List String) : Array Run :=
  (lines.flatMap fun line => (Text.splitOn ' ' line.toList).map parse).toArray

/-- Whether a character is in the run. -/
def contains (r : Run) (c : Char) : Bool :=
  r.first ≤ c.toNat && c.toNat ≤ r.last &&
    (r.kind != .alternating || (c.toNat - r.first) % 2 == 0)

/-- The run of a table that a character is in. -/
def lookup? (runs : Array Run) (c : Char) : Option Run := runs.find? (·.contains c)

/-- What a character of the run becomes. -/
def image (r : Run) (c : Char) : List Char :=
  match r.kind with
  | .same => r.values.map Char.ofNat
  | _ => r.values.map fun v => Char.ofNat (v + (c.toNat - r.first))

end Run
end SwiftMacro.Unicode
