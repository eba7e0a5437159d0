import SwiftMacro.Yaml.Token
import SwiftMacro.Yaml.Value
/-!
# The document of a text

Builds the value that tokens stand for. A value that was left out is an empty scalar. An alias stands
for the last value that has its anchor.
-/

namespace SwiftMacro.Yaml

/-- The tokens that are left, the anchored values, and the tag handles. -/
structure Input where
  tokens : Tokens
  anchors : List (String × Value)
  handles : List (String × String)

namespace Input

/-- The first token; `none` at the end, and an error where reading stopped. -/
def peek (s : Input) : Except Problem (Option Token) :=
  match s.tokens with
  | .finished _ => .ok none
  | .broken problem => .error problem
  | .cons token _ => .ok (some token)

/-- Where the first token starts. -/
def mark (s : Input) : Mark :=
  match s.tokens with
  | .finished mark => mark
  | .broken problem => problem.mark
  | .cons token _ => token.start

/-- The kind of the first token. -/
def kind? (s : Input) : Option TokenKind :=
  match s.tokens with
  | .cons token _ => some token.kind
  | _ => none

/-- Why there is no first token. -/
def problem? (s : Input) : Option Problem :=
  match s.tokens with
  | .broken problem => some problem
  | _ => none

/-- Past the first token. -/
def skip (s : Input) : Input :=
  match s.tokens with
  | .cons _ rest => { s with tokens := rest }
  | _ => s

/-- Where the first token ends. -/
def stop (s : Input) : Mark :=
  match s.tokens with
  | .cons token _ => token.stop
  | _ => s.mark

/-- Whether the first token is of one of the kinds. -/
def sees (s : Input) (kinds : List TokenKind) : Bool := s.kind?.any kinds.contains

end Input

/-- What was built, and the rest; no rest if reading stopped. -/
abbrev Built (α : Type) := α × Option Input

/-- Where a value stands. -/
inductive Place where
  | block
  /-- The entry of a block mapping, whose sequences need not stand further right. -/
  | entry
  | flow
deriving DecidableEq, Repr

/-- An anchor and a tag in front of a value. -/
structure Properties where
  start : Mark
  anchor : Option String
  tag : Option (Tag × Mark)

namespace Properties

/-- Reads an anchor and a tag, in any order. -/
def read : Nat → Properties → Input → Except Problem (Properties × Input)
  | 0, p, s => .ok (p, s)
  | fuel + 1, p, s => do
      match ← s.peek with
      | some ⟨.anchor name, _, _⟩ =>
          if p.anchor.isSome then return (p, s)
          read fuel { p with anchor := some name } s.skip
      | some ⟨.tag tag, start, _⟩ =>
          if p.tag.isSome then return (p, s)
          read fuel { p with tag := some (tag, start) } s.skip
      | _ => return (p, s)

/-- The full tag. -/
def resolve (p : Properties) (handles : List (String × String)) :
    Except Problem (Option String) :=
  match p.tag with
  | none => .ok none
  | some (⟨handle, suffix⟩, mark) =>
      if handle.isEmpty then .ok (some suffix)
      else match handles.find? (·.1 == handle) with
        | some (_, front) => .ok (some (front ++ suffix))
        | none => .error ⟨.unknownTagHandle, mark, some (.node, p.start)⟩

/-- Whether there is an anchor or a tag. -/
def isSome (p : Properties) : Bool := p.anchor.isSome || p.tag.isSome

/-- Notes a value under its anchor. -/
def note (p : Properties) (built : Built Value) : Built Value :=
  match p.anchor, built with
  | some name, (v, some s) => (v, some { s with anchors := (name, v) :: s.anchors })
  | _, _ => built

end Properties

/-- A stop: the problem stands in place of the value. -/
def stopped (problem : Problem) : Built Value := (.broken problem, none)

/-- A stop in a list of values. -/
def stoppedItems (problem : Problem) : Built (List Value) := ([.broken problem], none)

/-- A stop in a mapping. -/
def stoppedEntries (problem : Problem) : Built (List (Value × Value)) :=
  ([(.broken problem, .broken problem)], none)

/-- Puts a value in front of the ones that follow it. -/
def andThen {α : Type} (first : Built α) (more : Input → Built (List α)) : Built (List α) :=
  match first with
  | (a, none) => ([a], none)
  | (a, some s) =>
      let (as, rest) := more s
      (a :: as, rest)

/-- Puts a value behind its key. -/
def withValue (key : Built Value) (value : Input → Built Value) : Built (Value × Value) :=
  match key with
  | (k, none) => ((k, k), none)
  | (k, some s) =>
      let (v, rest) := value s
      ((k, v), rest)

mutual

/-- Builds a value. Every call uses up fuel; there are never more nested calls than a few for each
token. -/
def node : Nat → Place → Input → Built Value
  | 0, _, s => stopped ⟨.noNode, s.mark, none⟩
  | fuel + 1, place, s =>
      match s.peek with
      | .error problem => stopped problem
      | .ok (some ⟨.aliasOf name, start, _⟩) =>
          match s.anchors.find? (·.1 == name) with
          | some (_, v) => (v, some s.skip)
          | none => stopped ⟨.unknownAnchor, start, none⟩
      | .ok _ =>
          match Properties.read 2 ⟨s.mark, none, none⟩ s with
          | .error problem => stopped problem
          | .ok (p, s) =>
              match p.resolve s.handles with
              | .error problem => stopped problem
              | .ok tag => p.note (content fuel place p ⟨p.start, tag⟩ s)

/-- Builds a value behind its anchor and tag. -/
def content : Nat → Place → Properties → Head → Input → Built Value
  | 0, _, _, _, s => stopped ⟨.noNode, s.mark, none⟩
  | fuel + 1, place, p, head, s =>
      let sequence (items : Built (List Value)) : Built Value :=
        (.sequence head items.1, items.2)
      let mapping (entries : Built (List (Value × Value))) : Built Value :=
        (.mapping head entries.1, entries.2)
      match s.peek with
      | .error problem => stopped problem
      | .ok token =>
          match token.map Token.kind, place with
          | some .blockEntry, .entry => sequence (looseItems fuel s)
          | some (.scalar text plain), _ => (.scalar head text plain, some s.skip)
          | some .flowSequence, _ => sequence (flowItems fuel s.mark true s.skip)
          | some .flowMapping, _ => mapping (flowEntries fuel s.mark true s.skip)
          | some .blockSequence, .block | some .blockSequence, .entry =>
              sequence (blockItems fuel s.mark s.skip)
          | some .blockMapping, .block | some .blockMapping, .entry =>
              mapping (blockEntries fuel s.mark s.skip)
          | _, _ =>
              if p.isSome then (.scalar head "" true, some s)
              else stopped ⟨.noNode, s.mark,
                some (if place = .flow then .flowNode else .blockNode, p.start)⟩

/-- Builds a value, unless one of the given tokens shows that it was left out. -/
def optionalNode : Nat → Place → List TokenKind → Mark → Input → Built Value
  | 0, _, _, _, s => stopped ⟨.noNode, s.mark, none⟩
  | fuel + 1, place, ends, mark, s =>
      match s.problem? with
      | some problem => stopped problem
      | none => if s.sees ends then (.missing mark, some s) else node fuel place s

/-- The entries of a block sequence. -/
def blockItems : Nat → Mark → Input → Built (List Value)
  | 0, _, s => stoppedItems ⟨.noNode, s.mark, none⟩
  | fuel + 1, start, s =>
      match s.peek with
      | .error problem => stoppedItems problem
      | .ok token =>
          match token.map Token.kind with
          | some .blockEntry =>
              andThen (optionalNode fuel .block [.blockEntry, .blockEnd] s.stop s.skip)
                (blockItems fuel start)
          | some .blockEnd => ([], some s.skip)
          | _ => stoppedItems ⟨.noEntry, s.mark, some (.blockCollection, start)⟩

/-- The entries of a sequence that stands no further right than the mapping around it. -/
def looseItems : Nat → Input → Built (List Value)
  | 0, s => stoppedItems ⟨.noNode, s.mark, none⟩
  | fuel + 1, s =>
      match s.peek with
      | .error problem => stoppedItems problem
      | .ok token =>
          match token.map Token.kind with
          | some .blockEntry =>
              andThen
                (optionalNode fuel .block [.blockEntry, .key, .value, .blockEnd] s.stop s.skip)
                (looseItems fuel)
          | _ => ([], some s)

/-- The entries of a block mapping. -/
def blockEntries : Nat → Mark → Input → Built (List (Value × Value))
  | 0, _, s => stoppedEntries ⟨.noNode, s.mark, none⟩
  | fuel + 1, start, s =>
      match s.peek with
      | .error problem => stoppedEntries problem
      | .ok token =>
          match token.map Token.kind with
          | some .key =>
              andThen
                (withValue (optionalNode fuel .entry [.key, .value, .blockEnd] s.stop s.skip)
                  (blockValue fuel))
                (blockEntries fuel start)
          | some .blockEnd => ([], some s.skip)
          | _ => stoppedEntries ⟨.noKey, s.mark, some (.blockMapping, start)⟩

/-- The value of an entry of a block mapping. -/
def blockValue : Nat → Input → Built Value
  | 0, s => stopped ⟨.noNode, s.mark, none⟩
  | fuel + 1, s =>
      match s.peek with
      | .error problem => stopped problem
      | .ok token =>
          match token.map Token.kind with
          | some .value => optionalNode fuel .entry [.key, .value, .blockEnd] s.stop s.skip
          | _ => (.missing s.mark, some s)

/-- The entries of a flow sequence. Behind the first one, each needs a comma in front. -/
def flowItems : Nat → Mark → Bool → Input → Built (List Value)
  | 0, _, _, s => stoppedItems ⟨.noNode, s.mark, none⟩
  | fuel + 1, start, first, s =>
      match s.peek with
      | .error problem => stoppedItems problem
      | .ok token =>
          match token.map Token.kind with
          | some .flowSequenceEnd => ([], some s.skip)
          | kind =>
              if !first && kind != some .flowEntry then
                stoppedItems ⟨.noSequenceEnd, s.mark, some (.flowSequence, start)⟩
              else
                let s := if first then s else s.skip
                match s.peek with
                | .error problem => stoppedItems problem
                | .ok token =>
                    match token.map Token.kind with
                    | some .flowSequenceEnd => ([], some s.skip)
                    | some .key => andThen (pair fuel s.mark s.skip) (flowItems fuel start false)
                    | _ => andThen (node fuel .flow s) (flowItems fuel start false)

/-- An entry of a flow sequence that is a mapping with one entry. -/
def pair : Nat → Mark → Input → Built Value
  | 0, _, s => stopped ⟨.noNode, s.mark, none⟩
  | fuel + 1, mark, s =>
      let key : Built Value :=
        match s.problem? with
        | some problem => stopped problem
        | none =>
            if s.sees [.value, .flowEntry, .flowSequenceEnd] then (.missing s.stop, some s.skip)
            else node fuel .flow s
      let (entry, rest) := withValue key (flowValue fuel [.flowEntry, .flowSequenceEnd])
      (.mapping ⟨mark, none⟩ [entry], rest)

/-- The entries of a flow mapping. Behind the first one, each needs a comma in front. -/
def flowEntries : Nat → Mark → Bool → Input → Built (List (Value × Value))
  | 0, _, _, s => stoppedEntries ⟨.noNode, s.mark, none⟩
  | fuel + 1, start, first, s =>
      match s.peek with
      | .error problem => stoppedEntries problem
      | .ok token =>
          match token.map Token.kind with
          | some .flowMappingEnd => ([], some s.skip)
          | kind =>
              if !first && kind != some .flowEntry then
                stoppedEntries ⟨.noMappingEnd, s.mark, some (.flowMapping, start)⟩
              else
                let s := if first then s else s.skip
                match s.peek with
                | .error problem => stoppedEntries problem
                | .ok token =>
                    match token.map Token.kind with
                    | some .flowMappingEnd => ([], some s.skip)
                    | some .key =>
                        andThen
                          (withValue
                            (optionalNode fuel .flow [.value, .flowEntry, .flowMappingEnd]
                              s.skip.mark s.skip)
                            (flowValue fuel [.flowEntry, .flowMappingEnd]))
                          (flowEntries fuel start false)
                    | _ =>
                        andThen
                          (withValue (node fuel .flow s) (noValue fuel))
                          (flowEntries fuel start false)

/-- The value of an entry in a flow collection. -/
def flowValue : Nat → List TokenKind → Input → Built Value
  | 0, _, s => stopped ⟨.noNode, s.mark, none⟩
  | fuel + 1, ends, s =>
      match s.peek with
      | .error problem => stopped problem
      | .ok token =>
          match token.map Token.kind with
          | some .value => optionalNode fuel .flow ends s.skip.mark s.skip
          | _ => (.missing s.mark, some s)

/-- The value of an entry in a flow mapping that is only a key. -/
def noValue : Nat → Input → Built Value
  | 0, s => stopped ⟨.noNode, s.mark, none⟩
  | _ + 1, s =>
      match s.problem? with
      | some problem => stopped problem
      | none => (.missing s.mark, some s)

end

/-! ## Documents -/

/-- The handles that need no directive. -/
def standardHandles : List (String × String) := [("!", "!"), ("!!", "tag:yaml.org,2002:")]

/-- Reads directives: the version, at most once, and handles. -/
def directives : Nat → Bool → Input → Except Problem Input
  | 0, _, s => .ok s
  | fuel + 1, versioned, s => do
      match ← s.peek with
      | some ⟨.version major minor, start, _⟩ =>
          if versioned then throw ⟨.repeatedVersion, start, none⟩
          if major ≠ 1 || (minor ≠ 1 && minor ≠ 2) then throw ⟨.wrongVersion, start, none⟩
          directives fuel true s.skip
      | some ⟨.tagPrefix handle front, start, _⟩ =>
          if s.handles.any (·.1 == handle) then throw ⟨.repeatedTagDirective, start, none⟩
          directives fuel versioned { s.skip with handles := s.handles ++ [(handle, front)] }
      | _ => return s

/-- The root of the first document, if there is one. -/
def root? (fuel : Nat) (s : Input) : Except Problem (Option (Built Value)) := do
  match ← s.peek with
  | none => return none
  | some token =>
      match token.kind with
      | .version _ _ | .tagPrefix _ _ | .documentStart =>
          let s ← directives fuel false s
          let missing := standardHandles.filter fun (handle, _) => !s.handles.any (·.1 == handle)
          let s := { s with handles := s.handles ++ missing }
          match ← s.peek with
          | some ⟨.documentStart, _, _⟩ =>
              let s := s.skip
              let ended := match ← s.peek with
                | none => true
                | some ⟨kind, _, _⟩ =>
                    match kind with
                    | .version _ _ | .tagPrefix _ _ | .documentStart | .documentEnd => true
                    | _ => false
              return some (if ended then (.missing s.mark, some s) else node fuel .block s)
          | _ => throw ⟨.noDocumentStart, s.mark, none⟩
      | _ => return some (node fuel .block { s with handles := standardHandles })

/-- Whether anything follows a document: a text may end with any number of end markers. -/
def followed : Nat → Input → Bool
  | 0, _ => true
  | fuel + 1, s =>
      match s.tokens with
      | .finished _ => false
      | .cons ⟨.documentEnd, _, _⟩ _ => followed fuel s.skip
      | _ => true

/-- The document of a text. -/
def Document.ofText (text : String) : Document :=
  let tokens := Tokens.ofText text
  let fuel := 8 * tokens.length + 8
  match root? fuel ⟨tokens, [], []⟩ with
  | .error problem => ⟨some (.broken problem), none, false⟩
  | .ok none => ⟨none, none, false⟩
  | .ok (some (root, none)) => ⟨some root, none, false⟩
  | .ok (some (root, some s)) =>
      match s.problem? with
      | some problem => ⟨some root, some problem, false⟩
      | none => ⟨some root, none, followed fuel s⟩

end SwiftMacro.Yaml
