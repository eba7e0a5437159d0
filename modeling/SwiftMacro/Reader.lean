import SwiftMacro.Grammar
import SwiftMacro.Node
import SwiftMacro.Text.Escape
/-!
# Reading sources

`read` matches a text against an entry rule of the grammar and builds the nodes from the tree that
was matched. Building goes bottom up: `Rule.build` says what one rule makes of the parts below it,
and `Tree.items` applies it everywhere, counting bytes from left to right to place the spans.

A text is refused where the grammar gets stuck (`ReadError.stuck`), or for an escape that stands for
no character (`ReadError.malformed`).
-/

namespace SwiftMacro

/-- Why a text cannot be read. -/
inductive ReadError where
  /-- The grammar does not match: the byte offset of the furthest attempt, and the rules that were
  expected, and not expected, there. -/
  | stuck (offset : Nat) (expected unexpected : List Rule)
  /-- A construct that the grammar lets pass and that means nothing. -/
  | malformed (construct : String) (span : Span)
deriving DecidableEq, Repr

namespace ReadError

/-- `A`, `A or B`, `A, B, or C`. -/
def enumerate : List String → String
  | [] => ""
  | [a] => a
  | [a, b] => a ++ " or " ++ b
  | as => ", ".intercalate as.dropLast ++ ", or " ++ as.getLastD ""

/-- Rules in the order of a report, each once. -/
def listed (rules : List Rule) : List Rule :=
  (rules.mergeSort fun a b => a.ctorIdx ≤ b.ctorIdx).eraseReps

/-- The text of the error. -/
def message : ReadError → String
  | stuck _ expected unexpected =>
      let names rules := enumerate ((listed rules).map Rule.describe)
      match expected, unexpected with
      | [], [] => "unknown parsing error"
      | _, [] => "expected " ++ names expected
      | [], _ => "unexpected " ++ names unexpected
      | _, _ => "unexpected " ++ names unexpected ++ "; expected " ++ names expected
  | malformed construct _ => "malformed " ++ construct

/-- Where the error is; the place where the grammar got stuck has no length. -/
def span : ReadError → Span
  | stuck offset _ _ => ⟨offset, offset⟩
  | malformed _ span => span

end ReadError

/-- The number of bytes of a text. -/
def byteLength : List Char → Nat
  | [] => 0
  | c :: cs => c.utf8Size + byteLength cs

/-! ## From trees to nodes -/

/-- What a rule contributes to the node above it. -/
inductive Part where
  | nothing
  | word (text : String)
  | node (node : Node)
  | nodes (nodes : List Node)
  | argument (argument : Argument Node)
  | arguments (arguments : List (Argument Node))
  /-- `as T` behind an operand. -/
  | castTo (kind : CastKind) (target : Node)
  /-- An operator and its right operand. -/
  | operation (operator : String) (rhs : Node)

/-- A rule that was matched, the bytes it covers and what it contributes. -/
structure Item where
  rule : Rule
  span : Span
  part : Part

namespace Item

/-- The node of an item made by one of the rules. -/
def nodeOf? (rules : List Rule) (i : Item) : Option Node :=
  match i.part with
  | .node n => if i.rule ∈ rules then some n else none
  | _ => none

/-- The word of an item made by the rule. -/
def wordOf? (r : Rule) (i : Item) : Option String :=
  match i.part with
  | .word w => if i.rule = r then some w else none
  | _ => none

end Item

/-- The nodes made by one of the rules, in order. -/
def nodesOf (rules : List Rule) (items : List Item) : List Node := items.filterMap (·.nodeOf? rules)

/-- The words made by the rule, in order. -/
def wordsOf (r : Rule) (items : List Item) : List String := items.filterMap (·.wordOf? r)

/-- The rules of statements that leave a node. -/
def statementRules : List Rule := [.variableDecl, .functionDecl, .expr]

/-- The rules of patterns. -/
def patternRules : List Rule := [.tuplePattern, .wildcardPattern, .namePattern]

/-- The type arguments among the items. -/
def genericsOf (items : List Item) : List Node :=
  items.flatMap fun i => match i.part with
    | .nodes ns => ns
    | _ => []

/-- The arguments of a parenthesised list among the items. -/
def argumentsOf (items : List Item) : List (Argument Node) :=
  items.flatMap fun i => match i.part with
    | .arguments as => as
    | _ => []

/-- A list of arguments from the items of its single arguments. -/
def argumentList (items : List Item) : List (Argument Node) :=
  items.filterMap fun i => match i.part with
    | .argument a => some a
    | _ => none

/-- The segment of a string literal that an item makes. -/
def Item.segment? (i : Item) : Option (Segment Node) :=
  match i.part with
  | .word text => some (.text text)
  | .node n => some (.interpolation n)
  | _ => none

/-- An operand with what touches it: a call, a member or an unwrapping mark. -/
def applySuffix (operand : Node) (i : Item) : Node :=
  let span := operand.span.cover i.span
  match i.part with
  | .arguments as => ⟨.call operand as, span⟩
  | .word member =>
      if i.rule = .memberSuffix then ⟨.memberAccess (some operand) member, span⟩
      else ⟨.forceUnwrap operand, span⟩
  | _ => operand

/-- The chain so far as the left operand of the next operator. -/
def applyTail (lhs : Node) (i : Item) : Node :=
  let span := lhs.span.cover i.span
  match i.part with
  | .castTo kind target => ⟨.cast lhs kind target, span⟩
  | .operation operator rhs => ⟨.binary lhs operator rhs, span⟩
  | _ => lhs

/-- The cast that a spelling stands for. -/
def CastKind.ofSpelling : String → CastKind
  | "as?" => .conditional
  | "as!" => .forced
  | _ => .plain

/-- What a rule makes of the parts matched inside it; `span` and `text` are those of the rule. -/
def Rule.build (r : Rule) (span : Span) (text : String) (items : List Item) :
    Except ReadError Part :=
  let malformed {α : Type} (construct : String) : Except ReadError α :=
    .error (.malformed construct span)
  let named (make : String → Shape Node) (construct : String) : Except ReadError Part :=
    match wordsOf .identifier items with
    | name :: _ => .ok (.node ⟨make name, span⟩)
    | [] => malformed construct
  match r with
  | .endOfInput | .keyword | .escape | .importDecl | .importKeyword => .ok .nothing
  | .identifier | .modifier | .bindingKeyword | .accessorKind | .qualifiedName | .optionalMark
  | .castOperator | .binaryOperator | .prefixOperator | .forceUnwrap | .argumentLabel =>
      .ok (.word text)
  | .integerLiteral => .ok (.node ⟨.integerLiteral text, span⟩)
  | .floatLiteral => .ok (.node ⟨.floatLiteral text, span⟩)
  | .booleanLiteral => .ok (.node ⟨.booleanLiteral (text == "true"), span⟩)
  | .nilLiteral => .ok (.node ⟨.nilLiteral, span⟩)
  | .namePattern => .ok (.node ⟨.namePattern text, span⟩)
  | .wildcardPattern => .ok (.node ⟨.wildcardPattern, span⟩)
  | .tuplePattern => .ok (.node ⟨.tuplePattern (nodesOf patternRules items), span⟩)
  | .stringText =>
      match Text.unescape text.toList with
      | some content => .ok (.word (String.ofList content))
      | none => malformed "escape sequence"
  | .interpolation =>
      match nodesOf [.expr] items with
      | [n] => .ok (.node n)
      | _ => malformed "interpolated expression"
  | .stringLiteral =>
      -- An empty literal has one empty segment, not none.
      match items.filterMap Item.segment? with
      | [] => .ok (.node ⟨.stringLiteral [.text ""], span⟩)
      | segments => .ok (.node ⟨.stringLiteral segments, span⟩)
  | .attributeUse =>
      named (fun name => .attr name (genericsOf items) (argumentsOf items)) "attribute name"
  | .macroUse =>
      named (fun name => .macroUse name (genericsOf items) (argumentsOf items)) "macro name"
  | .implicitMember => named (.memberAccess none) "member name"
  | .memberSuffix =>
      match wordsOf .identifier items with
      | member :: _ => .ok (.word member)
      | [] => malformed "member name"
  | .variableDecl =>
      match wordsOf .bindingKeyword items with
      | word :: _ =>
          .ok (.node ⟨.variableDecl (nodesOf [.attributeUse] items) (wordsOf .modifier items)
            (if word = "let" then .constant else .mutable) (nodesOf [.patternBinding] items), span⟩)
      | [] => malformed "variable declaration"
  | .functionDecl =>
      named (fun name => .functionDecl (nodesOf [.attributeUse] items) (wordsOf .modifier items)
        name (nodesOf statementRules items)) "function name"
  | .patternBinding =>
      match nodesOf patternRules items with
      | pattern :: _ =>
          .ok (.node ⟨.patternBinding pattern (nodesOf [.declaredType] items).head?
            (nodesOf [.initialValue] items).head? (nodesOf [.accessor] items), span⟩)
      | [] => malformed "pattern"
  | .declaredType =>
      match nodesOf [.typeExpr] items with
      | [n] => .ok (.node n)
      | _ => malformed "type"
  | .initialValue =>
      match nodesOf [.expr] items with
      | [n] => .ok (.node n)
      | _ => malformed "initial value"
  | .accessor =>
      match wordsOf .accessorKind items with
      | word :: _ =>
          .ok (.node ⟨.accessor (if word = "get" then .get else .set)
            (nodesOf statementRules items), span⟩)
      | [] => malformed "accessor kind"
  | .typeReference =>
      match wordsOf .qualifiedName items with
      | name :: _ => .ok (.node ⟨.typeName name (genericsOf items), span⟩)
      | [] => malformed "type name"
  | .typeExpr =>
      match nodesOf [.typeReference] items with
      | [named] =>
          .ok (.node ((items.drop 1).foldl
            (fun type mark => ⟨.optionalType type, type.span.cover mark.span⟩) named))
      | _ => malformed "type name"
  | .genericClause => .ok (.nodes (nodesOf [.typeExpr] items))
  | .tupleExpr => .ok (.node ⟨.tuple (argumentList items), span⟩)
  | .argumentClause => .ok (.arguments (argumentList items))
  | .argument =>
      match nodesOf [.expr] items with
      | [expression] => .ok (.argument ⟨(wordsOf .argumentLabel items).head?, expression⟩)
      | _ => malformed "argument"
  | .castTail =>
      match wordsOf .castOperator items, nodesOf [.typeExpr] items with
      | [spelling], [target] => .ok (.castTo (.ofSpelling spelling) target)
      | _, _ => malformed "operand"
  | .binaryTail =>
      match wordsOf .binaryOperator items, nodesOf [.prefixExpr] items with
      | [operator], [rhs] => .ok (.operation operator rhs)
      | _, _ => malformed "operand"
  | .postfixExpr =>
      match items with
      | ⟨_, _, .node first⟩ :: suffixes => .ok (.node (suffixes.foldl applySuffix first))
      | ⟨.identifier, place, .word name⟩ :: suffixes =>
          .ok (.node (suffixes.foldl applySuffix ⟨.identifier name, place⟩))
      | _ => malformed "expression"
  | .prefixExpr =>
      match wordsOf .prefixOperator items, nodesOf [.postfixExpr] items with
      | [], [operand] => .ok (.node operand)
      | [operator], [operand] => .ok (.node ⟨.prefixed operator operand, span⟩)
      | _, _ => malformed "expression"
  | .expr =>
      match items with
      | ⟨.prefixExpr, _, .node first⟩ :: tails => .ok (.node (tails.foldl applyTail first))
      | _ => malformed "operand"
  | .sourceFile => .ok (.nodes (nodesOf statementRules items))
  | .expressionEntry => .ok (.nodes (nodesOf [.expr] items))
  | .accessorEntry => .ok (.nodes (nodesOf [.accessor] items))
  | .typeEntry => .ok (.nodes (nodesOf [.typeExpr] items))

namespace Tree

mutual

/-- The items of a tree whose text starts at a byte offset. -/
def items (offset : Nat) : Tree Rule → Except ReadError (List Item)
  | text _ => .ok []
  | node r parts =>
      match itemsOf offset parts with
      | .error e => .error e
      | .ok inner =>
          let chars := charsOf parts
          let span : Span := ⟨offset, offset + byteLength chars⟩
          match r.build span (String.ofList chars) inner with
          | .error e => .error e
          | .ok part => .ok [⟨r, span, part⟩]

/-- The items of trees that stand one after the other. -/
def itemsOf (offset : Nat) : List (Tree Rule) → Except ReadError (List Item)
  | [] => .ok []
  | t :: ts =>
      match items offset t with
      | .error e => .error e
      | .ok front =>
          match itemsOf (offset + byteLength t.chars) ts with
          | .error e => .error e
          | .ok back => .ok (front ++ back)

end

end Tree

/-! ## Entry points -/

/-- The ways to read a text. -/
inductive Entry where
  | source | expression | accessor | type
deriving DecidableEq, Repr

/-- The rule that an entry matches against a whole text. -/
def Entry.rule : Entry → Rule
  | source => .sourceFile
  | expression => .expressionEntry
  | accessor => .accessorEntry
  | type => .typeEntry

/-- Where the grammar gets stuck in a text. -/
def stuckAt (r : Rule) (s : List Char) : ReadError :=
  let f := sourceGrammar.furthest r s
  .stuck (byteLength (s.take f.place)) f.expected f.unexpected

/-- Reads the characters of a text. -/
def readChars (entry : Entry) (s : List Char) : Except ReadError (List Node) :=
  match sourceGrammar.parse entry.rule s with
  | none => .error (stuckAt entry.rule s)
  | some (trees, _) =>
      match Tree.itemsOf 0 trees with
      | .error e => .error e
      | .ok items => .ok (genericsOf items)

/-- Reads a text: the top-level items of a source without its imports, or the one node of another
entry. -/
def read (entry : Entry) (text : String) : Except ReadError (List Node) :=
  readChars entry text.toList

/-- Reads a text that stands for one node. -/
def readOne (entry : Entry) (text : String) : Except ReadError Node :=
  match read entry text with
  | .error e => .error e
  | .ok [n] => .ok n
  | .ok _ => .error (.malformed "input" ⟨0, text.utf8ByteSize⟩)

/-- Reads a whole source. -/
def readSource (text : String) : Except ReadError (List Node) := read .source text

/-- Reads an expression. -/
def readExpression (text : String) : Except ReadError Node := readOne .expression text

/-- Reads one `get` or `set` accessor. -/
def readAccessor (text : String) : Except ReadError Node := readOne .accessor text

/-- Reads a type. -/
def readType (text : String) : Except ReadError Node := readOne .type text

end SwiftMacro
