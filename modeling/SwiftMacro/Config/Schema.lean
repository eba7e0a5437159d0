import SwiftMacro.Node.Render
import SwiftMacro.Yaml.Resolution
/-!
# Reading records from YAML values

A schema lists the fields of a record and how each of them is read. Every field may be left out; a
field is given at most once; a strict schema knows all fields there may be. Entries are read in the
order of the text, so the first thing that is wrong is the one that is reported.
-/

namespace SwiftMacro.Config

/-- A step on the way to a value. -/
inductive Step where
  | field (name : String)
  | index (position : Nat)
deriving DecidableEq, Repr

/-- The way from the root to a value. -/
abbrev Path := List Step

/-- A path as messages name it: `url.allowed_schemes[0]`. -/
def Path.text (path : Path) : String :=
  path.foldl (fun front step =>
    match step with
    | .field name => if front.isEmpty then name else front ++ "." ++ name
    | .index position => front ++ "[" ++ toString position ++ "]") ""

/-- What is wrong about a value. -/
inductive Mismatch where
  | unknownField (name : String) (known : List String)
  | duplicateField (name : String)
  | unknownVariant (name : String) (known : List String)
  | invalidType (found expected : String)
  | invalidValue (found expected : String)
deriving DecidableEq, Repr

namespace Mismatch

/-- The names that are known, for a message. -/
def alternatives (known : List String) : String :=
  let quoted := known.map fun name => "`" ++ name ++ "`"
  match quoted with
  | [] => "there are no fields"
  | [one] => "expected " ++ one
  | [one, other] => "expected " ++ one ++ " or " ++ other
  | _ => "expected one of " ++ joinWith ", " quoted

/-- The text for the user. -/
def text : Mismatch → String
  | unknownField name known => "unknown field `" ++ name ++ "`, " ++ alternatives known
  | duplicateField name => "duplicate field `" ++ name ++ "`"
  | unknownVariant name known => "unknown variant `" ++ name ++ "`, " ++ alternatives known
  | invalidType found expected => "invalid type: " ++ found ++ ", expected " ++ expected
  | invalidValue found expected => "invalid value: " ++ found ++ ", expected " ++ expected

end Mismatch

/-- Why a value cannot be read. -/
inductive DecodeError where
  /-- The text is broken before the end of the value. -/
  | malformed (problem : Yaml.Problem)
  | mismatch (path : Path) (what : Mismatch) (mark : Yaml.Mark)
deriving DecidableEq, Repr

/-- The text for the user: the path, what is wrong, and the place. -/
def DecodeError.text : DecodeError → String
  | malformed problem => problem.text
  | mismatch path what mark =>
      (if path.isEmpty then "" else path.text ++ ": ") ++ what.text ++ mark.text

/-- How a value is read, given the path to it. -/
abbrev Decoder (α : Type) := Path → Yaml.Value → Except DecodeError α

namespace Decoder

/-- Refuses a value that is of another kind than expected. -/
def refuse {α : Type} (expected : String) : Decoder α := fun path v =>
  let wrong (found : String) (mark : Yaml.Mark) : Except DecodeError α :=
    .error (.mismatch path (.invalidType found expected) mark)
  match v with
  | .scalar head text plain =>
      match Yaml.Value.resolve head.tag text plain with
      | .ok resolution => wrong resolution.describe head.mark
      | .error wanted =>
          .error (.mismatch path (.invalidValue ("string " ++ Text.quoted text) wanted) head.mark)
  | .sequence head _ => wrong "sequence" head.mark
  | .mapping head _ => wrong "map" head.mark
  | .broken problem => .error (.malformed problem)

/-- A text: any scalar, however it is written. -/
def text (expected : String) : Decoder String := fun path v =>
  match v with
  | .scalar _ text _ => .ok text
  | _ => refuse expected path v

/-- A text or nothing. -/
def optionalText (expected : String) : Decoder (Option String) := fun path v =>
  match v with
  | .scalar head text plain =>
      let none? := plain && match head.tag with
        | none => text.isEmpty || Yaml.Resolution.isNull text
        | some tag => tag == Yaml.coreTag "null" && Yaml.Resolution.isNull text
      .ok (if none? then none else some text)
  | _ => refuse expected path v

/-- Reads the values of a list from the one at a position on. -/
def items {α : Type} (item : Decoder α) (path : Path) :
    Nat → List Yaml.Value → Except DecodeError (List α)
  | _, [] => .ok []
  | position, v :: vs =>
      match item (path ++ [.index position]) v with
      | .error e => .error e
      | .ok a =>
          match items item path (position + 1) vs with
          | .error e => .error e
          | .ok as => .ok (a :: as)

/-- A list; left out, it is empty. -/
def list {α : Type} (item : Decoder α) : Decoder (List α) := fun path v =>
  match v with
  | .sequence _ vs => items item path 0 vs
  | _ => if v.isMissing then .ok [] else refuse "a sequence" path v

/-- One of several names. A tag can name it, too, and then there is no value. -/
def variant {α : Type} (known : List (String × α)) : Decoder α := fun path v =>
  let named (name : String) (mark : Yaml.Mark) : Except DecodeError α :=
    match known.find? (·.1 == name) with
    | some (_, a) => .ok a
    | none => .error (.mismatch path (.unknownVariant name (known.map (·.1))) mark)
  let tagName? (head : Yaml.Head) : Option String :=
    match head.tag.map String.toList with
    | some ('!' :: c :: cs) => some (String.ofList (c :: cs))
    | _ => none
  match v with
  | .scalar head text plain =>
      match tagName? head with
      | none => named text head.mark
      | some name => do
          let a ← named name head.mark
          if (plain && text.isEmpty) || Yaml.Resolution.isNull text then return a
          else throw (.mismatch path (.invalidType ("string " ++ Text.quoted text) "unit") head.mark)
  | .sequence head _ | .mapping head _ =>
      match tagName? head with
      | none => refuse "a YAML tag starting with '!'" path v
      | some name => do
          let _ ← named name head.mark
          refuse "unit" path v
  | .broken problem => .error (.malformed problem)

end Decoder

/-- A field of a record: its name, and how a value for it changes the record. -/
structure Field (σ : Type) where
  name : String
  set : Decoder (σ → σ)

/-- The fields of a record. -/
structure Schema (σ : Type) where
  /-- What messages call the record. -/
  title : String
  fields : List (Field σ)
  /-- Whether other fields are refused. -/
  strict : Bool

namespace Schema

variable {σ : Type}

/-- The names of the fields. -/
def names (s : Schema σ) : List String := s.fields.map Field.name

def find? (s : Schema σ) (name : String) : Option (Field σ) := s.fields.find? (·.name == name)

/-- Where a key starts. -/
def keyMark : Yaml.Value → Yaml.Mark
  | .scalar head _ _ | .sequence head _ | .mapping head _ => head.mark
  | .broken problem => problem.mark

/-- Reads entries into a record; `seen` are the fields that have been given. -/
def entries (s : Schema σ) (path : Path) (mark : Yaml.Mark) (seen : List String) (record : σ) :
    List (Yaml.Value × Yaml.Value) → Except DecodeError σ
  | [] => .ok record
  | (key, value) :: rest =>
      match Decoder.text "field identifier" path key with
      | .error e => .error e
      | .ok name =>
          match s.find? name with
          | none =>
              if s.strict then .error (.mismatch path (.unknownField name s.names) (keyMark key))
              else match value.problem? with
                | some problem => .error (.malformed problem)
                | none => s.entries path mark seen record rest
          | some field =>
              if seen.contains name then .error (.mismatch path (.duplicateField name) mark)
              else match field.set (path ++ [.field name]) value with
                | .error e => .error e
                | .ok change => s.entries path mark (name :: seen) (change record) rest

/-- Reads a record; fields that are left out are taken from `initial`. -/
def decoder (s : Schema σ) (initial : σ) : Decoder σ := fun path v =>
  match v with
  | .mapping head es => s.entries path head.mark [] initial es
  | _ => if v.isMissing then .ok initial else Decoder.refuse ("struct " ++ s.title) path v

end Schema
end SwiftMacro.Config
