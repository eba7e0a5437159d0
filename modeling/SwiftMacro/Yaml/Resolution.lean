import SwiftMacro.Decimal
import SwiftMacro.Text.Quoted
import SwiftMacro.Yaml.Value
/-!
# What a scalar stands for

A plain scalar can stand for nothing, a truth value or a number; any other scalar is a text. This
matters only for messages about a value of the wrong kind, since a text may be written in any way.
-/

namespace SwiftMacro.Yaml

/-- What a scalar stands for. -/
inductive Resolution where
  | unit
  | bool (value : Bool)
  | int (value : Int)
  | float (text : String)
  | text (value : String)
deriving DecidableEq, Repr

namespace Resolution

/-- The ways to write that there is nothing. -/
def isNull (s : String) : Bool := ["null", "Null", "NULL", "~"].contains s

/-- The ways to write a truth value. -/
def bool? (s : String) : Option Bool :=
  if ["true", "True", "TRUE"].contains s then some true
  else if ["false", "False", "FALSE"].contains s then some false
  else none

/-- The value of a digit, if it is one in a base up to 16. -/
def digit? (base : Nat) (c : Char) : Option Nat := (Text.hexDigit? c).filter (· < base)

/-- The value of digits in a base; there is at least one. -/
def natural? (base : Nat) (cs : List Char) : Option Nat :=
  if cs.isEmpty then none
  else cs.foldl (fun n c => n.bind fun n => (digit? base c).map (base * n + ·)) (some 0)

/-- Whether digits start with a zero that is not the only digit. -/
def hasLeadingZero (cs : List Char) : Bool :=
  match cs with
  | '0' :: d :: ds => (d :: ds).all Char.isDigit
  | _ => false

/-- The value of digits with a sign for their base, or in base ten without a leading zero. -/
def magnitude? (cs : List Char) : Option Nat :=
  match cs with
  | '0' :: 'x' :: digits => natural? 16 digits
  | '0' :: 'o' :: digits => natural? 8 digits
  | '0' :: 'b' :: digits => natural? 2 digits
  | digits => if hasLeadingZero digits then none else natural? 10 digits

/-- A whole number that 128 bits can hold. -/
def int? (s : String) : Option Int :=
  match s.toList with
  | '-' :: cs => (magnitude? cs).bind fun n => if n ≤ Nat.pow 2 127 then some (-(n : Int)) else none
  | '+' :: cs => (magnitude? cs).bind fun n => if n < Nat.pow 2 128 then some (n : Int) else none
  | cs => (magnitude? cs).bind fun n => if n < Nat.pow 2 128 then some (n : Int) else none

/-- A number with a point or an exponent. -/
def float? (s : String) : Option String :=
  let cs := s.toList
  let unsigned := if cs.head? = some '+' then cs.drop 1 else cs
  if cs.head? = some '+' && (unsigned.head? = some '+' || unsigned.head? = some '-') then none
  else if [".inf", ".Inf", ".INF"].contains (String.ofList unsigned) then some "inf.0"
  else if ["-.inf", "-.Inf", "-.INF"].contains s then some "-inf.0"
  else if [".nan", ".NaN", ".NAN"].contains s then some "NaN.0"
  else if hasLeadingZero (Decimal.sign cs).2 then none
  else Decimal.normalize? unsigned

/-- What a plain scalar without a tag stands for. -/
def ofPlain (s : String) : Resolution :=
  if s.isEmpty || isNull s then unit
  else match bool? s with
    | some b => bool b
    | none =>
        match int? s with
        | some n => int n
        | none =>
            match float? s with
            | some x => float x
            | none => text s

/-- How a message names what was found. -/
def describe : Resolution → String
  | unit => "unit value"
  | bool b => "boolean `" ++ (if b then "true" else "false") ++ "`"
  | int n =>
      "integer `" ++ toString n ++ "`" ++
        (if (Nat.pow 2 64 : Int) ≤ n then " as u128"
          else if n < -(Nat.pow 2 63 : Int) then " as i128" else "")
  | float x => "floating point `" ++ x ++ "`"
  | text s => "string " ++ Text.quoted s

end Resolution

/-- The tag of a value that the format itself defines. -/
def coreTag (name : String) : String := "tag:yaml.org,2002:" ++ name

namespace Value

/-- What a scalar stands for; an error names what its tag asks for. -/
def resolve (tag : Option String) (text : String) (plain : Bool) : Except String Resolution :=
  let wanted (found : Option Resolution) (what : String) : Except String Resolution :=
    match found with
    | some r => .ok r
    | none => .error what
  match tag with
  | none => .ok (if plain then .ofPlain text else .text text)
  | some tag =>
      if tag = coreTag "bool" then wanted ((Resolution.bool? text).map .bool) "a boolean"
      else if tag = coreTag "int" then wanted ((Resolution.int? text).map .int) "an integer"
      else if tag = coreTag "float" then wanted ((Resolution.float? text).map .float) "a float"
      else if tag = coreTag "null" then
        wanted (if Resolution.isNull text then some .unit else none) "null"
      else .ok (if plain && tag.toList.head? = some '!' then .ofPlain text else .text text)

end Value
end SwiftMacro.Yaml
