import SwiftMacro.Yaml.Problem
/-!
# Values

What a YAML text says. A text that cannot be read to its end still has a value: where reading stopped,
the problem stands in place of what should follow, as the last thing in everything around it. So
whoever walks through a value from its start meets the problem where the text has it.
-/

namespace SwiftMacro.Yaml

/-- Where a value starts, and its tag. -/
structure Head where
  mark : Mark
  tag : Option String
deriving DecidableEq, Repr

/-- A YAML value. -/
inductive Value where
  | scalar (head : Head) (text : String) (plain : Bool)
  | sequence (head : Head) (items : List Value)
  | mapping (head : Head) (entries : List (Value × Value))
  /-- Reading stopped here. -/
  | broken (problem : Problem)
deriving Repr

namespace Value

instance : Inhabited Value := ⟨scalar ⟨.start, none⟩ "" true⟩

/-- What stands where a value was left out. -/
def missing (mark : Mark) : Value := scalar ⟨mark, none⟩ "" true

/-- Whether the value was left out. -/
def isMissing : Value → Bool
  | scalar _ text plain => plain && text.isEmpty
  | _ => false

mutual

/-- Where reading stopped inside a value. -/
def problem? : Value → Option Problem
  | scalar _ _ _ => none
  | sequence _ items => problemOfItems? items
  | mapping _ entries => problemOfEntries? entries
  | broken problem => some problem

def problemOfItems? : List Value → Option Problem
  | [] => none
  | v :: vs =>
      match v.problem? with
      | some problem => some problem
      | none => problemOfItems? vs

def problemOfEntries? : List (Value × Value) → Option Problem
  | [] => none
  | (k, v) :: es =>
      match k.problem? with
      | some problem => some problem
      | none =>
          match v.problem? with
          | some problem => some problem
          | none => problemOfEntries? es

end

end Value

/-- What a text holds. -/
structure Document where
  /-- The first document; nothing if the text has none. -/
  root : Option Value
  /-- What is wrong right behind it. -/
  problem? : Option Problem
  /-- Whether anything follows it. -/
  more : Bool
deriving Repr

end SwiftMacro.Yaml
