/-!
# Places and problems in YAML texts

A problem says what was found, where, and what the reader was doing. The wording is a function of
these.
-/

namespace SwiftMacro.Yaml

/-- A place in a text, counted in characters from its start. Lines and columns start with zero. -/
structure Mark where
  index : Nat
  line : Nat
  column : Nat
deriving DecidableEq, Repr, Inhabited

namespace Mark

/-- The start of a text. -/
def start : Mark := ⟨0, 0, 0⟩

/-- Whether two marks are in the same line and column. -/
def sameAs (a b : Mark) : Bool := a.line == b.line && a.column == b.column

/-- ` at line L column C`; nothing for the start of the text. -/
def text (m : Mark) : String :=
  if m.sameAs start then ""
  else " at line " ++ toString (m.line + 1) ++ " column " ++ toString (m.column + 1)

/-- The place some columns further in the same line. -/
def right (m : Mark) (columns : Nat) : Mark :=
  { m with index := m.index + columns, column := m.column + columns }

end Mark

/-- What the reader was doing. -/
inductive Activity where
  | nextToken
  | simpleKey
  | directive
  | versionDirective
  | tagDirective
  | tagDirectiveParts
  | anchor
  | aliasName
  | tag
  | tagParts
  | blockScalar
  | quotedScalar
  | escapes
  | plainScalar
  | node
  | blockNode
  | flowNode
  | blockCollection
  | blockMapping
  | flowSequence
  | flowMapping
deriving DecidableEq, Repr

/-- The wording of an activity. -/
def Activity.text : Activity → String
  | nextToken => "while scanning for the next token"
  | simpleKey => "while scanning a simple key"
  | directive => "while scanning a directive"
  | versionDirective => "while scanning a %YAML directive"
  | tagDirective => "while scanning a %TAG directive"
  | tagDirectiveParts => "while parsing a %TAG directive"
  | anchor => "while scanning an anchor"
  | aliasName => "while scanning an alias"
  | tag => "while scanning a tag"
  | tagParts => "while parsing a tag"
  | blockScalar => "while scanning a block scalar"
  | quotedScalar => "while scanning a quoted scalar"
  | escapes => "while parsing a quoted scalar"
  | plainScalar => "while scanning a plain scalar"
  | node => "while parsing a node"
  | blockNode => "while parsing a block node"
  | flowNode => "while parsing a flow node"
  | blockCollection => "while parsing a block collection"
  | blockMapping => "while parsing a block mapping"
  | flowSequence => "while parsing a flow sequence"
  | flowMapping => "while parsing a flow mapping"

/-- What is wrong. -/
inductive Fault where
  /-- A character that no YAML text may hold, so many bytes after the start. -/
  | controlCharacter (offset : Nat)
  | characterStartsNoToken
  | noColonAfterKey
  | blockEntryHere
  | keyHere
  | valueHere
  | noDirectiveName
  | badDirectiveName
  | unknownDirective
  | noVersionNumber
  | longVersionNumber
  | noVersionPoint
  | noBlankInDirective
  | noBlankAfterPrefix
  | noEndOfDirective
  | repeatedVersion
  | repeatedTagDirective
  | wrongVersion
  | noAnchorName
  | noTagHandle
  | noTagUri
  | noTagEscape
  | badLeadingOctet
  | badTrailingOctet
  | noTagEnd
  | noBlankAfterTag
  | unknownTagHandle
  | zeroIndentation
  | noEndOfBlockHeader
  | tabInIndentation
  | endOfStream
  | documentMarker
  | unknownEscape
  | noHexDigit
  | badScalarValue
  | colonInFlow
  | tabBeforeText
  | noNode
  | noEntry
  | noKey
  | noSequenceEnd
  | noMappingEnd
  | noDocumentStart
  | unknownAnchor
deriving DecidableEq, Repr

/-- The wording of a fault. -/
def Fault.text : Fault → String
  | controlCharacter offset =>
      "control characters are not allowed" ++
        (if offset = 0 then "" else " at position " ++ toString offset)
  | characterStartsNoToken => "found character that cannot start any token"
  | noColonAfterKey => "could not find expected ':'"
  | blockEntryHere => "block sequence entries are not allowed in this context"
  | keyHere => "mapping keys are not allowed in this context"
  | valueHere => "mapping values are not allowed in this context"
  | noDirectiveName => "could not find expected directive name"
  | badDirectiveName => "found unexpected non-alphabetical character"
  | unknownDirective => "found unknown directive name"
  | noVersionNumber => "did not find expected version number"
  | longVersionNumber => "found extremely long version number"
  | noVersionPoint => "did not find expected digit or '.' character"
  | noBlankInDirective => "did not find expected whitespace"
  | noBlankAfterPrefix => "did not find expected whitespace or line break"
  | noEndOfDirective => "did not find expected comment or line break"
  | repeatedVersion => "found duplicate %YAML directive"
  | repeatedTagDirective => "found duplicate %TAG directive"
  | wrongVersion => "found incompatible YAML document"
  | noAnchorName => "did not find expected alphabetic or numeric character"
  | noTagHandle => "did not find expected '!'"
  | noTagUri => "did not find expected tag URI"
  | noTagEscape => "did not find URI escaped octet"
  | badLeadingOctet => "found an incorrect leading UTF-8 octet"
  | badTrailingOctet => "found an incorrect trailing UTF-8 octet"
  | noTagEnd => "did not find the expected '>'"
  | noBlankAfterTag => "did not find expected whitespace or line break"
  | unknownTagHandle => "found undefined tag handle"
  | zeroIndentation => "found an indentation indicator equal to 0"
  | noEndOfBlockHeader => "did not find expected comment or line break"
  | tabInIndentation => "found a tab character where an indentation space is expected"
  | endOfStream => "found unexpected end of stream"
  | documentMarker => "found unexpected document indicator"
  | unknownEscape => "found unknown escape character"
  | noHexDigit => "did not find expected hexdecimal number"
  | badScalarValue => "found invalid Unicode character escape code"
  | colonInFlow => "found unexpected ':'"
  | tabBeforeText => "found a tab character that violates indentation"
  | noNode => "did not find expected node content"
  | noEntry => "did not find expected '-' indicator"
  | noKey => "did not find expected key"
  | noSequenceEnd => "did not find expected ',' or ']'"
  | noMappingEnd => "did not find expected ',' or '\x7d'"
  | noDocumentStart => "did not find expected <document start>"
  | unknownAnchor => "unknown anchor"

/-- Why a text cannot be read any further. -/
structure Problem where
  fault : Fault
  mark : Mark
  /-- What the reader was doing, and where that started. -/
  during : Option (Activity × Mark)
deriving DecidableEq, Repr

namespace Problem

/-- The wording of a problem. A place is said once, and not at all if it is the start. -/
def text (p : Problem) : String :=
  p.fault.text ++ p.mark.text ++
    match p.during with
    | none => ""
    | some (activity, since) =>
        ", " ++ activity.text ++ (if since.sameAs p.mark then "" else since.text)

end Problem
end SwiftMacro.Yaml
