/-!
# JSON values

The values that reports and serialized trees are made of. Numbers are natural numbers: only offsets
and counts occur. An object keeps its fields in the order they were given.
-/

namespace SwiftMacro

/-- A JSON value. -/
inductive Json where
  | null
  | bool (value : Bool)
  | num (value : Nat)
  | str (value : String)
  | arr (items : List Json)
  | obj (fields : List (String × Json))
deriving Inhabited

namespace Json

/-- A string, or `null` where there is none. -/
def ofOption {α : Type} (f : α → Json) : Option α → Json
  | none => null
  | some a => f a

/-- A list of strings. -/
def strings (items : List String) : Json := arr (items.map str)

/-- The first field of an object with the given name. -/
def field? (j : Json) (name : String) : Option Json :=
  match j with
  | obj fields => (fields.find? (·.1 == name)).map (·.2)
  | _ => none

def str? : Json → Option String
  | str value => some value
  | _ => none

def num? : Json → Option Nat
  | num value => some value
  | _ => none

def bool? : Json → Option Bool
  | bool value => some value
  | _ => none

def arr? : Json → Option (List Json)
  | arr items => some items
  | _ => none

mutual

/-- The number of values nested inside each other, at most. -/
def depth : Json → Nat
  | arr items => depthOf items + 1
  | obj fields => depthOfFields fields + 1
  | _ => 1

def depthOf : List Json → Nat
  | [] => 0
  | j :: js => max j.depth (depthOf js)

def depthOfFields : List (String × Json) → Nat
  | [] => 0
  | (_, j) :: fs => max j.depth (depthOfFields fs)

end

/-! ## Order of fields -/

/-- Puts a field into a list of fields that are in the order of their names. -/
def insertField (field : String × Json) : List (String × Json) → List (String × Json)
  | [] => [field]
  | other :: rest =>
      if field.1 ≤ other.1 then field :: other :: rest else other :: insertField field rest

mutual

/-- The value with the fields of all objects in the order of their names. -/
def sorted : Json → Json
  | arr items => arr (sortedItems items)
  | obj fields => obj (sortedFields fields)
  | j => j

def sortedItems : List Json → List Json
  | [] => []
  | j :: js => j.sorted :: sortedItems js

def sortedFields : List (String × Json) → List (String × Json)
  | [] => []
  | (name, j) :: fs => insertField (name, j.sorted) (sortedFields fs)

end

/-! ## Text -/

/-- Four hexadecimal digits. -/
def fourDigits (n : Nat) : String :=
  let digits := String.ofList (Nat.toDigits 16 n)
  "".pushn '0' (4 - digits.length) ++ digits

/-- A character inside a JSON string. -/
def quoteChar (c : Char) : String :=
  if c = '"' then "\\\""
  else if c = '\\' then "\\\\"
  else if c = '\n' then "\\n"
  else if c = '\r' then "\\r"
  else if c = '\t' then "\\t"
  else if c = '\x08' then "\\b"
  else if c = '\x0c' then "\\f"
  else if c.toNat < 0x20 then "\\u" ++ fourDigits c.toNat
  else c.toString

/-- A JSON string with its quotes. -/
def quote (s : String) : String := "\"" ++ String.join (s.toList.map quoteChar) ++ "\""

/-- A line break and the blanks in front of a value at a depth. -/
def newline (level : Nat) : String := "\n" ++ "".pushn ' ' (2 * level)

mutual

/-- The text of a value with two blanks of indentation for each level. -/
def prettyAt (level : Nat) : Json → String
  | null => "null"
  | bool value => if value then "true" else "false"
  | num value => toString value
  | str value => quote value
  | arr [] => "[]"
  | arr (j :: js) =>
      "[" ++ newline (level + 1) ++ prettyAt (level + 1) j ++ prettyItems (level + 1) js ++
        newline level ++ "]"
  | obj [] => "\x7b\x7d"
  | obj ((name, j) :: fs) =>
      "\x7b" ++ newline (level + 1) ++ quote name ++ ": " ++ prettyAt (level + 1) j ++
        prettyFields (level + 1) fs ++ newline level ++ "\x7d"

def prettyItems (level : Nat) : List Json → String
  | [] => ""
  | j :: js => "," ++ newline level ++ prettyAt level j ++ prettyItems level js

def prettyFields (level : Nat) : List (String × Json) → String
  | [] => ""
  | (name, j) :: fs =>
      "," ++ newline level ++ quote name ++ ": " ++ prettyAt level j ++ prettyFields level fs

end

/-- The indented text of a value. -/
def pretty (j : Json) : String := j.prettyAt 0

end Json
end SwiftMacro
