import SwiftMacro.Text.Escape
import SwiftMacro.Yaml.Cursor
/-!
# The text of scalars

Plain scalars, quoted scalars and block scalars. Where lines are folded, one line break becomes a
blank and each further one a line feed.
-/

namespace SwiftMacro.Yaml

/-- What was read, and where reading goes on. -/
structure Scanned (α : Type) where
  value : α
  after : Cursor
deriving Repr

/-! ## Between words -/

/-- Blanks and line breaks between two words: the blanks before the first break, and the breaks. -/
structure Gap where
  blanks : List Char
  breaks : List Char
deriving DecidableEq, Repr

namespace Gap

/-- No gap. -/
def none : Gap := ⟨[], []⟩

/-- What a gap becomes in a folded text. -/
def fold (g : Gap) : List Char :=
  match g.breaks with
  | [] => g.blanks
  | ['\n'] => [' ']
  | '\n' :: more => more
  | breaks => breaks

/-- Reads a gap. Behind a line break, a tab before column `limit` is refused. -/
def scan (limit : Nat) : Nat → Gap → Cursor → Except Mark (Scanned Gap)
  | 0, g, c => .ok ⟨g, c⟩
  | fuel + 1, g, c =>
      match c.next? with
      | .none => .ok ⟨g, c⟩
      | some x =>
          if isBlank x then
            if g.breaks.isEmpty then scan limit fuel { g with blanks := g.blanks ++ [x] } c.skip
            else if x == '\t' && c.mark.column < limit then .error c.mark
            else scan limit fuel g c.skip
          else if isBreak x then
            scan limit fuel { g with breaks := g.breaks ++ c.lineBreak } c.skipLine
          else .ok ⟨g, c⟩

end Gap

/-! ## Plain scalars -/

/-- The indicators inside flow collections. -/
def isFlowIndicator (c : Char) : Bool :=
  c == ',' || c == '[' || c == ']' || c == '{' || c == '}'

/-- The characters of a plain scalar up to the next gap or to what ends the scalar. A colon right
before an indicator is refused inside flow collections. -/
def plainWord (flow : Bool) : List Char → Except Nat (List Char)
  | [] => .ok []
  | ':' :: rest =>
      match rest with
      | [] => .ok []
      | x :: _ =>
          if flow && (isFlowIndicator x || x == '?') then .error 0
          else if isBlank x || isBreak x then .ok []
          else match plainWord flow rest with
            | .ok word => .ok (':' :: word)
            | .error n => .error (n + 1)
  | x :: rest =>
      if isBlank x || isBreak x || (flow && isFlowIndicator x) then .ok []
      else match plainWord flow rest with
        | .ok word => .ok (x :: word)
        | .error n => .error (n + 1)

/-- A plain scalar: its text, where it ends, and whether the gap behind it has line breaks. -/
structure Plain where
  text : List Char
  stop : Mark
  broken : Bool
deriving DecidableEq, Repr

/-- Reads on in a plain scalar, of which a text and the gap behind it have been read. Words in
columns before `indent` do not belong to it, except inside flow collections. -/
def Plain.scan (flow : Bool) (indent : Nat) (start : Mark) :
    Nat → Plain → Gap → Cursor → Except Problem (Scanned Plain)
  | 0, p, _, c => .ok ⟨p, c⟩
  | fuel + 1, p, gap, c =>
      let finished : Scanned Plain := ⟨{ p with broken := !gap.breaks.isEmpty }, c⟩
      if c.seesDocumentMarker || c.sees '#' then .ok finished
      else
        match plainWord flow c.rest with
        | .error n =>
            .error ((c.skipMany n).problem .colonInFlow (some (.plainScalar, start)))
        | .ok [] => .ok finished
        | .ok word =>
            let after := c.skipMany word.length
            let text := p.text ++ gap.fold ++ word
            match Gap.scan indent after.rest.length .none after with
            | .error mark => .error ⟨.tabBeforeText, mark, some (.plainScalar, start)⟩
            | .ok ⟨next, behind⟩ =>
                let read : Plain := ⟨text, after.mark, !next.breaks.isEmpty⟩
                if next = .none || (!flow && behind.mark.column < indent) then .ok ⟨read, behind⟩
                else Plain.scan flow indent start fuel read next behind

/-- Reads a plain scalar. -/
def scanPlain (flow : Bool) (indent : Nat) (c : Cursor) : Except Problem (Scanned Plain) :=
  Plain.scan flow indent c.mark (c.rest.length + 1) ⟨[], c.mark, false⟩ .none c

/-! ## Quoted scalars -/

/-- An escape with one letter. -/
def letterEscape? : Char → Option Char
  | '0' => some '\x00'
  | 'a' => some '\x07'
  | 'b' => some '\x08'
  | 't' => some '\t'
  | '\t' => some '\t'
  | 'n' => some '\n'
  | 'v' => some '\x0b'
  | 'f' => some '\x0c'
  | 'r' => some '\r'
  | 'e' => some '\x1b'
  | ' ' => some ' '
  | '"' => some '"'
  | '/' => some '/'
  | '\\' => some '\\'
  | 'N' => some '\x85'
  | '_' => some '\xa0'
  | 'L' => some '\u2028'
  | 'P' => some '\u2029'
  | _ => none

/-- How many hexadecimal digits follow the letter of an escape. -/
def hexEscape? : Char → Option Nat
  | 'x' => some 2
  | 'u' => some 4
  | 'U' => some 8
  | _ => none

/-- Reads an escape; the cursor is at its backslash. -/
def scanEscape (start : Mark) (c : Cursor) : Except Problem (Scanned Char) :=
  let refused (at_ : Cursor) (fault : Fault) : Except Problem (Scanned Char) :=
    .error (at_.problem fault (some (.escapes, start)))
  match c.at? 1 with
  | none => refused c .unknownEscape
  | some letter =>
      match letterEscape? letter, hexEscape? letter with
      | some x, _ => .ok ⟨x, c.skipMany 2⟩
      | none, some count =>
          let digits := (c.rest.drop 2).take count
          match Text.hexFrom? 0 digits with
          | none => refused (c.skipMany 2) .noHexDigit
          | some n =>
              if digits.length < count then refused (c.skipMany 2) .noHexDigit
              else if n.isValidChar then .ok ⟨Char.ofNat n, c.skipMany (count + 2)⟩
              else refused (c.skipMany 2) .badScalarValue
      | none, none => refused c .unknownEscape

/-- Reads on in a scalar between single or double quotes, of which a text has been read; the gap
behind an escaped line break is read as if it had a break that leaves nothing. -/
def Quoted.scan (double : Bool) (start : Mark) :
    Nat → List Char → Cursor → Except Problem (Scanned (List Char))
  | 0, text, c => .ok ⟨text, c⟩
  | fuel + 1, text, c =>
      let quote := if double then '"' else '\''
      let refused (fault : Fault) : Except Problem (Scanned (List Char)) :=
        .error (c.problem fault (some (.quotedScalar, start)))
      if c.seesDocumentMarker then refused .documentMarker
      else
        match c.next? with
        | none => refused .endOfStream
        | some x =>
            if isBlank x || isBreak x then
              match Gap.scan 0 c.rest.length .none c with
              | .error _ => refused .endOfStream
              | .ok ⟨gap, after⟩ => Quoted.scan double start fuel (text ++ gap.fold) after
            else if !double && x == quote && c.at? 1 == some quote then
              Quoted.scan double start fuel (text ++ [quote]) (c.skipMany 2)
            else if x == quote then .ok ⟨text, c.skip⟩
            else if double && x == '\\' then
              if (c.at? 1).any isBreak then
                let line := c.skip.skipLine
                match Gap.scan 0 line.rest.length ⟨[], ['\x00']⟩ line with
                | .error _ => refused .endOfStream
                | .ok ⟨gap, after⟩ =>
                    Quoted.scan double start fuel (text ++ gap.breaks.drop 1) after
              else
                match scanEscape start c with
                | .error problem => .error problem
                | .ok ⟨escaped, after⟩ =>
                    Quoted.scan double start fuel (text ++ [escaped]) after
            else Quoted.scan double start fuel (text ++ [x]) c.skip

/-- Reads a quoted scalar; the cursor is at its quote. -/
def scanQuoted (double : Bool) (c : Cursor) : Except Problem (Scanned (List Char)) :=
  Quoted.scan double c.mark (c.rest.length + 1) [] c.skip

/-! ## Block scalars -/

/-- What happens to the line breaks at the end of a block scalar. -/
inductive Chomping where
  | strip | clip | keep
deriving DecidableEq, Repr

/-- The header of a block scalar. An indentation of zero is found out from the text. -/
structure BlockHeader where
  chomping : Chomping
  indentation : Nat
deriving DecidableEq, Repr

namespace BlockHeader

/-- Reads a sign for chomping. -/
def chomp? (c : Cursor) : Option Chomping :=
  match c.next? with
  | some '+' => some .keep
  | some '-' => some .strip
  | _ => none

/-- Reads the header behind `|` or `>`, with its line break. -/
def scan (start : Mark) (c : Cursor) : Except Problem (Scanned BlockHeader) := do
  let during := some (Activity.blockScalar, start)
  let digit (c : Cursor) : Except Problem (Scanned Nat) :=
    match c.next? with
    | some '0' => .error (c.problem .zeroIndentation during)
    | some x => .ok (if x.isDigit then ⟨x.toNat - '0'.toNat, c.skip⟩ else ⟨0, c⟩)
    | none => .ok ⟨0, c⟩
  let ⟨header, c⟩ ← match chomp? c with
    | some chomping => do
        let ⟨indentation, c⟩ ← digit c.skip
        pure (⟨⟨chomping, indentation⟩, c⟩ : Scanned BlockHeader)
    | none => do
        let ⟨indentation, c⟩ ← digit c
        match indentation, chomp? c with
        | _ + 1, some chomping => pure ⟨⟨chomping, indentation⟩, c.skip⟩
        | _, _ => pure ⟨⟨.clip, indentation⟩, c⟩
  let c := (c.skipWhile isBlank).skipComment
  if c.isLineEnd then return ⟨header, c.skipLine⟩
  else throw (c.problem .noEndOfBlockHeader during)

end BlockHeader

/-- The empty lines before a line of a block scalar: their breaks, and the width of the widest. -/
structure EmptyLines where
  breaks : List Char
  width : Nat
deriving DecidableEq, Repr

/-- Reads empty lines and the indentation behind them; an indentation of zero is not known yet. -/
def EmptyLines.scan (start : Mark) (indent : Nat) :
    Nat → EmptyLines → Cursor → Except Problem (Scanned EmptyLines)
  | 0, lines, c => .ok ⟨lines, c⟩
  | fuel + 1, lines, c =>
      let blanks := (c.rest.takeWhile (· == ' ')).length
      let c := c.skipMany (if indent = 0 then blanks else min blanks (indent - c.mark.column))
      let lines := { lines with width := max lines.width c.mark.column }
      if (indent = 0 || c.mark.column < indent) && c.sees '\t' then
        .error (c.problem .tabInIndentation (some (.blockScalar, start)))
      else if c.seesAny isBreak then
        scan start indent fuel { lines with breaks := lines.breaks ++ c.lineBreak } c.skipLine
      else .ok ⟨lines, c⟩

/-- What has been read of a block scalar: its text, the break of its last line, the breaks of the
empty lines behind that, and whether the last line starts with a blank. -/
structure Block where
  text : List Char
  lineEnd : List Char
  empty : List Char
  blank : Bool
deriving DecidableEq, Repr

namespace Block

/-- The text with the breaks before a further line. In a folded scalar, the break between two lines
that start with no blank is folded. -/
def joined (folded : Bool) (b : Block) (nextBlank : Bool) : List Char :=
  if folded && b.lineEnd == ['\n'] && !b.blank && !nextBlank then
    b.text ++ (if b.empty.isEmpty then [' '] else b.empty)
  else b.text ++ b.lineEnd ++ b.empty

/-- The text with what is kept of the breaks at the end. -/
def chomped (chomping : Chomping) (b : Block) : List Char :=
  match chomping with
  | .strip => b.text
  | .clip => b.text ++ b.lineEnd
  | .keep => b.text ++ b.lineEnd ++ b.empty

/-- Reads the lines of a block scalar with an indentation. -/
def scan (folded : Bool) (start : Mark) (indent : Nat) :
    Nat → Block → Cursor → Except Problem (Scanned Block)
  | 0, b, c => .ok ⟨b, c⟩
  | fuel + 1, b, c =>
      if c.mark.column == indent && c.next?.isSome then
        let blank := c.seesAny isBlank
        let (line, lineEnd) := c.span (!isBreak ·)
        match EmptyLines.scan start indent (c.rest.length + 1) ⟨[], 0⟩ lineEnd.skipLine with
        | .error problem => .error problem
        | .ok ⟨lines, after⟩ =>
            scan folded start indent fuel
              ⟨b.joined folded blank ++ line, lineEnd.lineBreak, lines.breaks, blank⟩ after
      else .ok ⟨b, c⟩

end Block

/-- Reads a block scalar; the cursor is at its `|` or `>`. Its lines stand further right than
`indent - 1`. -/
def scanBlock (folded : Bool) (indent : Nat) (c : Cursor) :
    Except Problem (Scanned (List Char)) := do
  let ⟨header, body⟩ ← BlockHeader.scan c.mark c.skip
  let known := if header.indentation = 0 then 0 else (indent - 1) + header.indentation
  let fuel := c.rest.length + 1
  let ⟨lines, first⟩ ← EmptyLines.scan c.mark known fuel ⟨[], 0⟩ body
  let column := if known = 0 then max (max lines.width indent) 1 else known
  let ⟨block, after⟩ ← Block.scan folded c.mark column fuel ⟨[], [], lines.breaks, false⟩ first
  return ⟨block.chomped header.chomping, after⟩

end SwiftMacro.Yaml
