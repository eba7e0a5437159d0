import SwiftMacro.Yaml.Problem
/-!
# Walking through a text

A cursor is what is left of a text, and the place where that starts. Line breaks are carriage
returns, line feeds, both together, and the breaks `85`, `2028` and `2029`.
-/

namespace SwiftMacro.Yaml

/-- Whether a character ends a line. -/
def isBreak (c : Char) : Bool :=
  c == '\n' || c == '\r' || c == '\x85' || c == '\u2028' || c == '\u2029'

/-- Whether a character is a blank inside a line. -/
def isBlank (c : Char) : Bool := c == ' ' || c == '\t'

/-- The characters of anchors and of names in directives. -/
def isWordChar (c : Char) : Bool := c.isAlphanum || c == '_' || c == '-'

/-- Whether a character may stand in a YAML text. -/
def isAllowed (c : Char) : Bool :=
  let n := c.toNat
  n == 0x09 || n == 0x0a || n == 0x0d || (0x20 ≤ n && n ≤ 0x7e) || n == 0x85 ||
    (0xa0 ≤ n && n ≤ 0xfffd) || 0x10000 ≤ n

/-- The rest of a text, and where it starts. -/
structure Cursor where
  rest : List Char
  mark : Mark
deriving DecidableEq, Repr

namespace Cursor

/-- The start of a text. -/
def ofText (text : String) : Cursor := ⟨text.toList, .start⟩

/-- The next character. -/
def next? (c : Cursor) : Option Char := c.rest.head?

/-- The character some places further. -/
def at? (c : Cursor) (n : Nat) : Option Char := c.rest[n]?

/-- Whether the next character is the given one. -/
def sees (c : Cursor) (x : Char) : Bool := c.next? == some x

/-- Whether the next character is of a kind. -/
def seesAny (c : Cursor) (p : Char → Bool) : Bool := c.next?.any p

/-- Whether a blank, a line break or the end stands some places further. -/
def isGapAt (c : Cursor) (n : Nat) : Bool := (c.at? n).all fun x => isBlank x || isBreak x

/-- Whether a line break or the end stands here. -/
def isLineEnd (c : Cursor) : Bool := c.next?.all isBreak

/-- One character further in the same line. -/
def skip (c : Cursor) : Cursor :=
  match c.rest with
  | [] => c
  | _ :: rest => ⟨rest, c.mark.right 1⟩

/-- Some characters further in the same line. -/
def skipMany (c : Cursor) (n : Nat) : Cursor :=
  ⟨c.rest.drop n, c.mark.right (min n c.rest.length)⟩

/-- Past a line break, to the start of the next line. -/
def skipLine (c : Cursor) : Cursor :=
  match c.rest with
  | '\r' :: '\n' :: rest => ⟨rest, ⟨c.mark.index + 2, c.mark.line + 1, 0⟩⟩
  | x :: rest => if isBreak x then ⟨rest, ⟨c.mark.index + 1, c.mark.line + 1, 0⟩⟩ else c
  | [] => c

/-- The text of the line break here: a line feed, unless it is one of `2028` and `2029`. -/
def lineBreak (c : Cursor) : List Char :=
  match c.next? with
  | some x => if x == '\u2028' || x == '\u2029' then [x] else if isBreak x then ['\n'] else []
  | none => []

/-- The characters of a kind from here on, which must not include line breaks, and what follows. -/
def span (c : Cursor) (p : Char → Bool) : List Char × Cursor :=
  let taken := c.rest.takeWhile p
  (taken, c.skipMany taken.length)

/-- Past the characters of a kind, which must not include line breaks. -/
def skipWhile (c : Cursor) (p : Char → Bool) : Cursor := (c.span p).2

/-- Whether `---` or `...` stands alone at the start of a line. -/
def seesMarker (c : Cursor) (x : Char) : Bool :=
  c.mark.column == 0 && c.rest.take 3 == [x, x, x] && c.isGapAt 3

/-- Whether a document starts or ends here. -/
def seesDocumentMarker (c : Cursor) : Bool := c.seesMarker '-' || c.seesMarker '.'

/-- Past a comment. -/
def skipComment (c : Cursor) : Cursor :=
  if c.sees '#' then c.skipWhile (!isBreak ·) else c

/-- A problem at this place. -/
def problem (c : Cursor) (fault : Fault) (during : Option (Activity × Mark)) : Problem :=
  ⟨fault, c.mark, during⟩

end Cursor

/-- Where the first character stands that no YAML text may hold, in bytes from the start. -/
def controlOffset? (offset : Nat) : List Char → Option Nat
  | [] => none
  | c :: cs => if isAllowed c then controlOffset? (offset + c.utf8Size) cs else some offset

end SwiftMacro.Yaml
