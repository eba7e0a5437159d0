/-!
# Named source texts

A source is a text with the name it is reported under. `Source.position` turns a byte offset into a
line and a column.
-/

namespace SwiftMacro

/-- A text and the name it is reported under. -/
structure Source where
  name : String
  content : String
deriving DecidableEq, Repr

namespace Source

/-- Stands in where the text is not known. -/
def fallback (context : String) : Source := ⟨"fallback", "// " ++ context⟩

instance : Inhabited Source := ⟨fallback "default context"⟩

/-- The characters before a byte offset, all of them for an offset past the end; `none` when the
offset lies inside a character. -/
def before? : Nat → List Char → Option (List Char)
  | 0, _ => some []
  | _ + 1, [] => some []
  | n + 1, c :: cs =>
      if c.utf8Size ≤ n + 1 then (before? (n + 1 - c.utf8Size) cs).map (c :: ·) else none

/-- Line and column, from 1, of the place after some characters. Columns count characters. -/
def positionAfter (s : List Char) : Nat × Nat :=
  (s.count '\n' + 1, (s.reverse.takeWhile (· != '\n')).length + 1)

/-- Line and column, from 1, of a byte offset. An offset past the end, or inside a character, is taken
for the end of the text. -/
def position (s : Source) (offset : Nat) : Nat × Nat :=
  let chars := s.content.toList
  positionAfter ((before? offset chars).getD chars)

end Source
end SwiftMacro
