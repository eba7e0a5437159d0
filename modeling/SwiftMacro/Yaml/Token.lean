import SwiftMacro.Yaml.Scalar
/-!
# Tokens

A text is cut into tokens in one pass. Indentation shows in tokens of its own: a block collection is
opened where its first entry stands further right than what is around it, and closed where a line
starts further left. That something is a key is known only at the colon behind it, so the token for
the key is put in front of it afterwards.
-/

namespace SwiftMacro.Yaml

/-- A tag as it is written: `!suffix`, `!handle!suffix`, or `!<suffix>` with an empty handle. -/
structure Tag where
  handle : String
  suffix : String
deriving DecidableEq, Repr

inductive TokenKind where
  | version (major minor : Nat)
  | tagPrefix (handle front : String)
  | documentStart
  | documentEnd
  | blockSequence
  | blockMapping
  | blockEnd
  | flowSequence
  | flowSequenceEnd
  | flowMapping
  | flowMappingEnd
  | flowEntry
  | blockEntry
  | key
  | value
  | aliasOf (name : String)
  | anchor (name : String)
  | tag (tag : Tag)
  | scalar (text : String) (plain : Bool)
deriving DecidableEq, Repr

structure Token where
  kind : TokenKind
  start : Mark
  stop : Mark
deriving DecidableEq, Repr

/-- The tokens of a text: they end with the text, or with a problem. -/
inductive Tokens where
  | finished (mark : Mark)
  | broken (problem : Problem)
  | cons (token : Token) (rest : Tokens)
deriving Repr

namespace Tokens

/-- Puts tokens in front. -/
def append (front : List Token) (rest : Tokens) : Tokens := front.foldr cons rest

/-- The number of tokens. -/
def length : Tokens → Nat
  | finished _ => 0
  | broken _ => 0
  | cons _ rest => rest.length + 1

end Tokens

/-! ## The state between two tokens -/

/-- Where a key may have started: the number of tokens before it. A required key must be one. -/
structure KeyStart where
  mark : Mark
  before : Nat
  required : Bool
deriving DecidableEq, Repr

/-- What is known between two tokens. -/
structure Scanner where
  cursor : Cursor
  /-- The tokens so far, the last one first. -/
  tokens : List Token
  /-- The columns of the open block collections, the innermost first. -/
  indents : List Nat
  /-- The possible key of this level. -/
  keyStart : Option KeyStart
  /-- The possible keys of the levels around the open flow collections. -/
  outerKeys : List (Option KeyStart)
  /-- Whether a key may start here. -/
  keyAllowed : Bool
deriving Repr

namespace Scanner

def ofText (text : String) : Scanner := ⟨.ofText text, [], [], none, [], true⟩

/-- Whether a flow collection is open. -/
def inFlow (s : Scanner) : Bool := !s.outerKeys.isEmpty

/-- The first column that is further right than the innermost block collection. -/
def indent (s : Scanner) : Nat :=
  match s.indents with
  | [] => 0
  | column :: _ => column + 1

def problem (s : Scanner) (fault : Fault) : Problem := s.cursor.problem fault none

/-- Adds a token. -/
def push (s : Scanner) (kind : TokenKind) (start stop : Mark) : Scanner :=
  { s with tokens := ⟨kind, start, stop⟩ :: s.tokens }

/-- Adds a token that has so many characters. -/
def indicator (s : Scanner) (kind : TokenKind) (length : Nat) : Scanner :=
  let after := s.cursor.skipMany length
  { s with tokens := ⟨kind, s.cursor.mark, after.mark⟩ :: s.tokens, cursor := after }

/-- Puts a token behind the first `before` ones. -/
def insert (s : Scanner) (before : Nat) (kind : TokenKind) (mark : Mark) : Scanner :=
  let later := s.tokens.length - before
  { s with tokens := s.tokens.take later ++ ⟨kind, mark, mark⟩ :: s.tokens.drop later }

/-- Every level's possible key, the innermost first. -/
def keyStarts (s : Scanner) : List KeyStart := (s.keyStart :: s.outerKeys).filterMap id

/-- The number of tokens that no later key can be put in front of. -/
def settled (s : Scanner) : Nat := s.keyStarts.foldl (fun n k => min n k.before) s.tokens.length

/-! ## Keys -/

/-- Whether a key that started at a place can still be one here: a key has one line and at most 1024
characters. -/
def KeyStart.isStale (k : KeyStart) (here : Mark) : Bool :=
  k.mark.line < here.line || k.mark.index + 1024 < here.index

/-- Forgets a possible key; one that was required is missed. -/
def missKey (here : Cursor) (k : Option KeyStart) : Except Problem (Option KeyStart) :=
  match k with
  | some key =>
      if key.required then .error (here.problem .noColonAfterKey (some (.simpleKey, key.mark)))
      else .ok none
  | none => .ok none

/-- Forgets a possible key that is stale. -/
def missStaleKey (here : Cursor) (k : Option KeyStart) : Except Problem (Option KeyStart) :=
  if k.any (KeyStart.isStale · here.mark) then missKey here k else .ok k

/-- Forgets the stale keys of all levels; the outermost level comes first. -/
def missStaleKeys (s : Scanner) : Except Problem Scanner := do
  let outer ← s.outerKeys.reverse.mapM (missStaleKey s.cursor)
  let inner ← missStaleKey s.cursor s.keyStart
  return { s with keyStart := inner, outerKeys := outer.reverse }

/-- Forgets the possible key of this level. -/
def clearKey (s : Scanner) : Except Problem Scanner := do
  return { s with keyStart := ← missKey s.cursor s.keyStart }

/-- Notes that a key may start here, if keys are allowed here. -/
def noteKey (s : Scanner) : Except Problem Scanner :=
  if s.keyAllowed then do
    let s ← s.clearKey
    let required := !s.inFlow && s.indents.head? == some s.cursor.mark.column
    return { s with keyStart := some ⟨s.cursor.mark, s.tokens.length, required⟩ }
  else .ok s

def allowKey (s : Scanner) (allowed : Bool) : Scanner := { s with keyAllowed := allowed }

/-! ## Indentation -/

/-- Whether a column is further right than the innermost block collection, outside flow
collections. -/
def isDeeper (s : Scanner) (column : Nat) : Bool := !s.inFlow && s.indent ≤ column

/-- Opens a block collection, if the column is further right than what is around. The token for it
is put behind the first `before` ones. -/
def openBlock (s : Scanner) (kind : TokenKind) (before : Nat) (mark : Mark) : Scanner :=
  if s.isDeeper mark.column then
    { s.insert before kind mark with indents := mark.column :: s.indents }
  else s

/-- Opens a block collection here. -/
def openBlockHere (s : Scanner) (kind : TokenKind) : Scanner :=
  s.openBlock kind s.tokens.length s.cursor.mark

/-- Closes the block collections that stand further right than a column; all of them for `none`. -/
def closeBlocks (s : Scanner) (column : Option Nat) : Scanner :=
  if s.inFlow then s
  else
    let open? (indent : Nat) : Bool := column.all fun c => c < indent
    let closed := s.indents.takeWhile open?
    let mark := s.cursor.mark
    { s with
      tokens := closed.map (fun _ => ⟨.blockEnd, mark, mark⟩) ++ s.tokens
      indents := s.indents.drop closed.length }

/-! ## Blanks and comments -/

/-- Past blanks, comments and line breaks. A line break allows a key, outside flow collections; where
a key is allowed, tabs are no blanks. -/
def toToken (flow : Bool) : Nat → Bool → Cursor → Bool × Cursor
  | 0, allowed, c => (allowed, c)
  | fuel + 1, allowed, c =>
      let c := if c.mark.column == 0 && c.sees '\ufeff' then c.skip else c
      let c := c.skipWhile fun x => x == ' ' || ((flow || !allowed) && x == '\t')
      let c := c.skipComment
      if c.seesAny isBreak then toToken flow fuel (allowed || !flow) c.skipLine
      else (allowed, c)

/-- Goes to the next token and closes what ends before it. -/
def advance (s : Scanner) : Except Problem Scanner := do
  let (allowed, cursor) := toToken s.inFlow (s.cursor.rest.length + 1) s.keyAllowed s.cursor
  let s ← missStaleKeys { s with cursor := cursor, keyAllowed := allowed }
  return s.closeBlocks (some s.cursor.mark.column)

/-! ## Anchors, tags and directives -/

/-- Reads `&name` or `*name`. -/
def scanAnchor (isAlias : Bool) (s : Scanner) : Except Problem Scanner := do
  let s := (← s.noteKey).allowKey false
  let (name, after) := s.cursor.skip.span isWordChar
  let ends := after.isGapAt 0 || after.seesAny fun x => "?:,]\x7d%@`".toList.contains x
  if name.isEmpty || !ends then
    throw (after.problem .noAnchorName
      (some (if isAlias then .aliasName else .anchor, s.cursor.mark)))
  let name := String.ofList name
  return { s.push (if isAlias then .aliasOf name else .anchor name) s.cursor.mark after.mark with
    cursor := after }

/-- What is being read with a tag: a tag, or the directive that declares a handle. -/
structure TagReading where
  isDirective : Bool
  start : Mark

namespace TagReading

def scanning (r : TagReading) : Option (Activity × Mark) :=
  some (if r.isDirective then .tagDirective else .tag, r.start)

def parsing (r : TagReading) : Option (Activity × Mark) :=
  some (if r.isDirective then .tagDirectiveParts else .tagParts, r.start)

/-- Reads a handle: `!`, `!name!`, or `!name`, which is none and is allowed in tags only. -/
def handle (r : TagReading) (c : Cursor) : Except Problem (Scanned (List Char)) :=
  if !c.sees '!' then .error (c.problem .noTagHandle r.scanning)
  else
    let (name, after) := c.skip.span isWordChar
    if after.sees '!' then .ok ⟨'!' :: name ++ ['!'], after.skip⟩
    else if r.isDirective && !name.isEmpty then .error (after.problem .noTagHandle r.parsing)
    else .ok ⟨'!' :: name, after⟩

/-- Reads one escaped octet. -/
def octet (r : TagReading) (c : Cursor) : Except Problem (Scanned Nat) :=
  match c.rest with
  | '%' :: a :: b :: _ =>
      match Text.hexFrom? 0 [a, b] with
      | some n => .ok ⟨n, c.skipMany 3⟩
      | none => .error (c.problem .noTagEscape r.parsing)
  | _ => .error (c.problem .noTagEscape r.parsing)

/-- Reads the octets behind the first one of a character. -/
def octets (r : TagReading) : Nat → Nat → Cursor → Except Problem (Scanned Nat)
  | 0, n, c => .ok ⟨n, c⟩
  | count + 1, n, c => do
      let ⟨next, after⟩ ← r.octet c
      if next / 64 ≠ 2 then throw (c.problem .badTrailingOctet r.parsing)
      r.octets count (n * 64 + next % 64) after

/-- Reads a character that is written in escaped octets of UTF-8. -/
def escaped (r : TagReading) (c : Cursor) : Except Problem (Scanned Char) := do
  let ⟨first, after⟩ ← r.octet c
  let ⟨n, after⟩ ←
    if first < 128 then pure ⟨first, after⟩
    else if first / 32 = 6 then r.octets 1 (first % 32) after
    else if first / 16 = 14 then r.octets 2 (first % 16) after
    else if first / 8 = 30 then r.octets 3 (first % 8) after
    else throw (c.problem .badLeadingOctet r.parsing)
  return ⟨Char.ofNat n, after⟩

/-- The characters of tags; three more are allowed between `<` and `>`. -/
def isTagChar (verbatim : Bool) (c : Char) : Bool :=
  isWordChar c || ";/?:@&=+$.!~*'()%".toList.contains c ||
    (verbatim && (c == ',' || c == '[' || c == ']'))

/-- Reads the characters of a tag. -/
def chars (r : TagReading) (verbatim : Bool) :
    Nat → List Char → Cursor → Except Problem (Scanned (List Char))
  | 0, text, c => .ok ⟨text, c⟩
  | fuel + 1, text, c =>
      match c.next? with
      | none => .ok ⟨text, c⟩
      | some x =>
          if x == '%' then do
            let ⟨y, after⟩ ← r.escaped c
            r.chars verbatim fuel (text ++ [y]) after
          else if isTagChar verbatim x then r.chars verbatim fuel (text ++ [x]) c.skip
          else .ok ⟨text, c⟩

/-- Reads what follows a handle; `front` is what has been read of it already. -/
def uri (r : TagReading) (verbatim : Bool) (front : Option (List Char)) (c : Cursor) :
    Except Problem (Scanned (List Char)) := do
  let ⟨text, after⟩ ← r.chars verbatim (c.rest.length + 1) [] c
  if front.isNone && text.isEmpty then throw (after.problem .noTagUri r.parsing)
  return ⟨front.getD [] ++ text, after⟩

/-- Reads a tag. -/
def tag (r : TagReading) (c : Cursor) : Except Problem (Scanned Tag) :=
  if c.at? 1 == some '<' then do
    let ⟨suffix, after⟩ ← r.uri true none (c.skipMany 2)
    if after.sees '>' then return ⟨⟨"", String.ofList suffix⟩, after.skip⟩
    else throw (after.problem .noTagEnd r.scanning)
  else do
    let ⟨handle, after⟩ ← r.handle c
    if handle.length > 1 && handle.getLast? == some '!' then
      let ⟨suffix, after⟩ ← r.uri false none after
      return ⟨⟨String.ofList handle, String.ofList suffix⟩, after⟩
    else
      let ⟨suffix, after⟩ ← r.uri false (some (handle.drop 1)) after
      if suffix.isEmpty then return ⟨⟨"", "!"⟩, after⟩
      else return ⟨⟨"!", String.ofList suffix⟩, after⟩

end TagReading

/-- Reads a tag. -/
def scanTag (s : Scanner) : Except Problem Scanner := do
  let s := (← s.noteKey).allowKey false
  let start := s.cursor.mark
  let ⟨tag, after⟩ ← TagReading.tag ⟨false, start⟩ s.cursor
  if !after.isGapAt 0 && !(s.inFlow && after.sees ',') then
    throw (after.problem .noBlankAfterTag (some (.tag, start)))
  return { s.push (.tag tag) start after.mark with cursor := after }

/-- Reads a number of a version. -/
def versionNumber (start : Mark) (c : Cursor) : Except Problem (Scanned Nat) :=
  let (digits, after) := c.span Char.isDigit
  let during := some (Activity.versionDirective, start)
  if digits.length > 9 then .error ((c.skipMany 9).problem .longVersionNumber during)
  else if digits.isEmpty then .error (after.problem .noVersionNumber during)
  else .ok ⟨digits.foldl (fun n d => 10 * n + (d.toNat - '0'.toNat)) 0, after⟩

/-- Reads what a directive says behind its name. -/
def directiveValue (start : Mark) (name : String) (c : Cursor) :
    Except Problem (Scanned TokenKind) := do
  let c := c.skipWhile isBlank
  match name with
  | "YAML" =>
      let ⟨major, after⟩ ← versionNumber start c
      if !after.sees '.' then
        throw (after.problem .noVersionPoint (some (.versionDirective, start)))
      let ⟨minor, after⟩ ← versionNumber start after.skip
      return ⟨.version major minor, after⟩
  | _ =>
      let reading : TagReading := ⟨true, start⟩
      let ⟨handle, after⟩ ← reading.handle c
      if !after.seesAny isBlank then throw (after.problem .noBlankInDirective reading.scanning)
      let ⟨front, after⟩ ← reading.uri true none (after.skipWhile isBlank)
      if !after.isGapAt 0 then throw (after.problem .noBlankAfterPrefix reading.scanning)
      return ⟨.tagPrefix (String.ofList handle) (String.ofList front), after⟩

/-- Reads a directive. -/
def scanDirective (s : Scanner) : Except Problem Scanner := do
  let s := (← (s.closeBlocks none).clearKey).allowKey false
  let start := s.cursor.mark
  let during := some (Activity.directive, start)
  let (name, after) := s.cursor.skip.span isWordChar
  if name.isEmpty then throw (after.problem .noDirectiveName during)
  if !after.isGapAt 0 then throw (after.problem .badDirectiveName during)
  let name := String.ofList name
  if name != "YAML" && name != "TAG" then throw (after.problem .unknownDirective during)
  let ⟨kind, after⟩ ← directiveValue start name after
  let lineEnd := (after.skipWhile isBlank).skipComment
  if !lineEnd.isLineEnd then throw (lineEnd.problem .noEndOfDirective during)
  return { s.push kind start after.mark with cursor := lineEnd.skipLine }

/-! ## The next token -/

/-- A document starts or ends. -/
def documentMarker (kind : TokenKind) (s : Scanner) : Except Problem Scanner := do
  return ((← (s.closeBlocks none).clearKey).allowKey false).indicator kind 3

/-- A flow collection starts. -/
def openFlow (kind : TokenKind) (s : Scanner) : Except Problem Scanner := do
  let s ← s.noteKey
  return ({ s with keyStart := none, outerKeys := s.keyStart :: s.outerKeys }.allowKey true).indicator
    kind 1

/-- A flow collection ends. -/
def closeFlow (kind : TokenKind) (s : Scanner) : Except Problem Scanner := do
  let s := (← s.clearKey).allowKey false
  return { s with keyStart := s.outerKeys.headD none, outerKeys := s.outerKeys.tail }.indicator kind 1

/-- An entry of a flow collection ends. -/
def flowEntry (s : Scanner) : Except Problem Scanner := do
  return ((← s.clearKey).allowKey true).indicator .flowEntry 1

/-- An entry of a block sequence starts. -/
def blockEntry (s : Scanner) : Except Problem Scanner := do
  if !s.inFlow && !s.keyAllowed then throw (s.problem .blockEntryHere)
  return ((← (s.openBlockHere .blockSequence).clearKey).allowKey true).indicator .blockEntry 1

/-- A key starts that is marked with `?`. -/
def markedKey (s : Scanner) : Except Problem Scanner := do
  if !s.inFlow && !s.keyAllowed then throw (s.problem .keyHere)
  return ((← (s.openBlockHere .blockMapping).clearKey).allowKey !s.inFlow).indicator .key 1

/-- A value starts. If a key may have started at this level, it is one now. -/
def value (s : Scanner) : Except Problem Scanner :=
  match s.keyStart with
  | some key =>
      let s := (s.insert key.before .key key.mark).openBlock .blockMapping key.before key.mark
      .ok (({ s with keyStart := none }.allowKey false).indicator .value 1)
  | none =>
      if !s.inFlow && !s.keyAllowed then .error (s.problem .valueHere)
      else .ok (((s.openBlockHere .blockMapping).allowKey !s.inFlow).indicator .value 1)

/-- A quoted scalar. -/
def quoted (double : Bool) (s : Scanner) : Except Problem Scanner := do
  let s := (← s.noteKey).allowKey false
  let ⟨text, after⟩ ← scanQuoted double s.cursor
  return { s.push (.scalar (String.ofList text) false) s.cursor.mark after.mark with cursor := after }

/-- A block scalar. -/
def block (folded : Bool) (s : Scanner) : Except Problem Scanner := do
  let s := (← s.clearKey).allowKey true
  let ⟨text, after⟩ ← scanBlock folded s.indent s.cursor
  return { s.push (.scalar (String.ofList text) false) s.cursor.mark after.mark with cursor := after }

/-- A plain scalar. If line breaks follow it, a key may start behind them. -/
def plain (s : Scanner) : Except Problem Scanner := do
  let s := (← s.noteKey).allowKey false
  let ⟨scalar, after⟩ ← scanPlain s.inFlow s.indent s.cursor
  return { s.push (.scalar (String.ofList scalar.text) true) s.cursor.mark scalar.stop with
    cursor := after, keyAllowed := s.keyAllowed || scalar.broken }

/-- The characters that mean something at the start of a token. -/
def isIndicator (c : Char) : Bool := "-?:,[]\x7b\x7d#&*!|>'\"%@`".toList.contains c

/-- Whether a plain scalar can start here. -/
def startsPlain (flow : Bool) (c : Cursor) : Bool :=
  match c.next? with
  | none => false
  | some x =>
      (!isIndicator x && !isBlank x && !isBreak x) ||
        (x == '-' && !(c.at? 1).any isBlank) ||
        (!flow && (x == '?' || x == ':') && !c.isGapAt 1)

/-- Reads the token that starts with a character. -/
def token (s : Scanner) (x : Char) : Except Problem Scanner :=
  let c := s.cursor
  let flow := s.inFlow
  if c.mark.column == 0 && x == '%' then s.scanDirective
  else if c.seesMarker '-' then s.documentMarker .documentStart
  else if c.seesMarker '.' then s.documentMarker .documentEnd
  else if x == '[' then s.openFlow .flowSequence
  else if x == '{' then s.openFlow .flowMapping
  else if x == ']' then s.closeFlow .flowSequenceEnd
  else if x == '}' then s.closeFlow .flowMappingEnd
  else if x == ',' then s.flowEntry
  else if x == '-' && c.isGapAt 1 then s.blockEntry
  else if x == '?' && (flow || c.isGapAt 1) then s.markedKey
  else if x == ':' && (flow || c.isGapAt 1) then s.value
  else if x == '*' then s.scanAnchor true
  else if x == '&' then s.scanAnchor false
  else if x == '!' then s.scanTag
  else if x == '|' && !flow then s.block false
  else if x == '>' && !flow then s.block true
  else if x == '\'' then s.quoted false
  else if x == '"' then s.quoted true
  else if startsPlain flow c then s.plain
  else .error (c.problem .characterStartsNoToken (some (.nextToken, c.mark)))

/-- Closes everything at the end of the text. The end stands at the start of a line. -/
def finish (s : Scanner) : Except Problem (List Token × Mark) := do
  let mark := s.cursor.mark
  let here : Mark := if mark.column = 0 then mark else ⟨mark.index, mark.line + 1, 0⟩
  let s ← clearKey ({ s with cursor := ⟨[], here⟩ }.closeBlocks none)
  return (s.tokens.reverse, here)

/-- Reads all tokens. When there is a problem, only those tokens are known that no key could have
been put in front of. -/
def scan : Nat → Scanner → Tokens
  | 0, s => .append s.tokens.reverse (.finished s.cursor.mark)
  | fuel + 1, s =>
      let stopped (before : Scanner) (problem : Problem) : Tokens :=
        .append (before.tokens.reverse.take before.settled) (.broken problem)
      match s.missStaleKeys with
      | .error problem => stopped s problem
      | .ok s =>
          match s.advance with
          | .error problem => stopped s problem
          | .ok here =>
              match here.cursor.next? with
              | none =>
                  match here.finish with
                  | .error problem => stopped s problem
                  | .ok (tokens, mark) => .append tokens (.finished mark)
              | some x =>
                  match here.token x with
                  | .error problem => stopped s problem
                  | .ok next => scan fuel next

end Scanner

/-- The tokens of a text. -/
def Tokens.ofText (text : String) : Tokens :=
  match controlOffset? 0 text.toList with
  | some offset => .broken ⟨.controlCharacter offset, .start, none⟩
  | none => Scanner.scan (text.length + 1) (.ofText text)

end SwiftMacro.Yaml
