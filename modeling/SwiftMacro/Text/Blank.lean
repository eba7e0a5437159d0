/-!
# White space and lines

White space is what the Unicode property `White_Space` says. `lines` cuts a text at its line feeds.
-/

namespace SwiftMacro.Text

/-- The characters with the property `White_Space`. -/
def isWhitespace (c : Char) : Bool :=
  let n := c.toNat
  (0x09 ≤ n && n ≤ 0x0d) || n == 0x20 || n == 0x85 || n == 0xa0 || n == 0x1680 ||
    (0x2000 ≤ n && n ≤ 0x200a) || n == 0x2028 || n == 0x2029 || n == 0x202f || n == 0x205f ||
    n == 0x3000

/-- A text without the white space at its ends. -/
def trim (s : List Char) : List Char :=
  ((s.dropWhile isWhitespace).reverse.dropWhile isWhitespace).reverse

/-- The pieces of a text between the occurrences of a character. -/
def splitOn (separator : Char) : List Char → List (List Char)
  | [] => [[]]
  | c :: cs =>
      if c = separator then [] :: splitOn separator cs
      else match splitOn separator cs with
        | [] => [[c]]
        | first :: rest => (c :: first) :: rest

/-- A line that a line feed ends, without a carriage return before that. -/
def chomp (line : List Char) : List Char :=
  if line.getLast? = some '\r' then line.dropLast else line

/-- The lines of a text. A line feed ends its line, together with a carriage return before it; there
is no empty line after the last one. -/
def lines (s : List Char) : List (List Char) :=
  let pieces := splitOn '\n' s
  let last := pieces.getLastD []
  pieces.dropLast.map chomp ++ (if last.isEmpty then [] else [last])

end SwiftMacro.Text
