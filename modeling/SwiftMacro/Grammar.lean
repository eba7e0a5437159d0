import SwiftMacro.Peg.Furthest
import SwiftMacro.Trivia
/-!
# The grammar of macro client sources

`Rule` names the rules, in the order in which a report lists them, and `Rule.body` gives each its
expression. Operators form a flat chain without precedence, and what follows an operand (a call, a
member, an unwrapping mark) has to touch it, so that a call never goes on in the next line.
-/

namespace SwiftMacro

/-- The rules, in the order in which reports list them. -/
inductive Rule where
  | endOfInput
  | sourceFile | expressionEntry | accessorEntry | typeEntry
  | keyword | identifier
  | integerLiteral | floatLiteral | booleanLiteral | nilLiteral
  | stringLiteral | stringText | escape | interpolation
  | attributeUse | modifier | bindingKeyword
  | variableDecl | patternBinding | declaredType | initialValue
  | accessor | accessorKind
  | importDecl | importKeyword | functionDecl
  | namePattern | wildcardPattern | tuplePattern
  | typeExpr | typeReference | qualifiedName | genericClause | optionalMark
  | expr | castTail | binaryTail | castOperator | binaryOperator
  | prefixExpr | prefixOperator | postfixExpr | memberSuffix | forceUnwrap
  | macroUse | implicitMember | tupleExpr
  | argumentClause | argument | argumentLabel
deriving DecidableEq, Repr

namespace Rule

/-! ## Words -/

/-- The characters of names. -/
def isNameChar (c : Char) : Bool := c.isAlphanum || c == '_'

/-- The characters a name can start with. -/
def isNameStart (c : Char) : Bool := c.isAlpha || c == '_'

/-- Hexadecimal digits of either case. -/
def isHexDigit (c : Char) : Bool :=
  c.isDigit || ('a' ≤ c && c ≤ 'f') || ('A' ≤ c && c ≤ 'F')

open Peg

/-- The first of the words that stands there. -/
def anyOf : List String → Peg Rule
  | [] => not empty
  | [w] => lit w
  | w :: ws => lit w / anyOf ws

/-- No further character of a name follows. -/
def wordEnd : Peg Rule := not (one isNameChar)

/-- Any character. -/
def anyChar : Peg Rule := one fun _ => true

/-- The words that are no names. -/
def keywords : List String := ["var", "let", "func", "import", "as", "nil", "true", "false"]

/-- The words that may stand before a declaration. -/
def modifiers : List String :=
  ["public", "private", "fileprivate", "internal", "open", "static", "final", "lazy", "weak"]

/-- The operators between two operands, a longer one before its own beginning. -/
def operators : List String :=
  ["??", "==", "!=", "<=", ">=", "&&", "||", "+", "-", "*", "/", "%", "<", ">"]

/-! ## Rules without a name -/

/-- One statement. -/
def statement : Peg Rule :=
  rule importDecl / rule variableDecl / rule functionDecl / rule expr

/-- Statements, each with a semicolon behind it or none. -/
def statements : Peg Rule := many (statement ++ opt (lit ";"))

/-- A list of at least one item with commas between. -/
def commaSeparated (item : Peg Rule) : Peg Rule := item ++ many (lit "," ++ item)

/-- What is bound: names, a tuple of patterns, or nothing. -/
def pattern : Peg Rule := rule tuplePattern / rule wildcardPattern / rule namePattern

/-- Arguments in parentheses; a comma may stand behind the last one. -/
def parenthesized : Peg Rule :=
  lit "(" ++ opt (rule argument ++ many (lit "," ++ rule argument) ++ opt (lit ",")) ++ lit ")"

/-- `name<T>(arguments)` behind a sign. -/
def use (sign : String) : Peg Rule :=
  lit sign ++ rule identifier ++ opt (rule genericClause) ++ opt (rule argumentClause)

/-- An operand before anything that follows it. -/
def primary : Peg Rule :=
  rule stringLiteral / rule floatLiteral / rule integerLiteral / rule booleanLiteral /
    rule nilLiteral / rule macroUse / rule implicitMember / rule tupleExpr / rule identifier

/-! ## The rules -/

/-- The expression of each rule. -/
def body : Rule → Peg Rule
  | endOfInput => finish
  | sourceFile => empty ++ statements ++ rule endOfInput
  | expressionEntry => empty ++ rule expr ++ rule endOfInput
  | accessorEntry => empty ++ rule accessor ++ rule endOfInput
  | typeEntry => empty ++ rule typeExpr ++ rule endOfInput
  | keyword => anyOf keywords ++ wordEnd
  | identifier => not (rule keyword) ++ one isNameStart ++ many (one isNameChar)
  | integerLiteral => plus (one Char.isDigit) ++ not (lit "." ++ one Char.isDigit)
  | floatLiteral => plus (one Char.isDigit) ++ lit "." ++ plus (one Char.isDigit)
  | booleanLiteral => anyOf ["true", "false"] ++ wordEnd
  | nilLiteral => lit "nil" ++ wordEnd
  | stringLiteral => lit "\"" ++ many (rule interpolation / rule stringText) ++ lit "\""
  | stringText => plus (rule escape / (not (anyOf ["\"", "\\", "\n"]) ++ anyChar))
  | escape =>
      lit "\\" ++ (anyOf ["\"", "\\", "n", "t", "r", "0", "'"] /
        (lit "u\x7b" ++ upTo (one isHexDigit) 7 ++ lit "\x7d"))
  | interpolation => lit "\\(" ++ rule expr ++ lit ")"
  | attributeUse => use "@"
  | modifier => anyOf modifiers ++ wordEnd
  | bindingKeyword => anyOf ["var", "let"] ++ wordEnd
  | variableDecl =>
      many (rule attributeUse) ++ many (rule modifier) ++ rule bindingKeyword ++
        commaSeparated (rule patternBinding)
  | patternBinding =>
      pattern ++ opt (rule declaredType) ++ opt (rule initialValue) ++
        opt (lit "\x7b" ++ many (rule accessor) ++ lit "\x7d")
  | declaredType => lit ":" ++ rule typeExpr
  | initialValue => lit "=" ++ rule expr
  | accessor => rule accessorKind ++ lit "\x7b" ++ statements ++ lit "\x7d"
  | accessorKind => anyOf ["get", "set"] ++ wordEnd
  | importDecl => rule importKeyword ++ rule qualifiedName
  | importKeyword => lit "import" ++ wordEnd
  | functionDecl =>
      many (rule attributeUse) ++ many (rule modifier) ++ lit "func" ++ rule identifier ++
        lit "(" ++ lit ")" ++ lit "\x7b" ++ statements ++ lit "\x7d"
  | namePattern => rule identifier
  | wildcardPattern => lit "_" ++ wordEnd
  | tuplePattern => lit "(" ++ opt (commaSeparated pattern) ++ lit ")"
  | typeExpr => rule typeReference ++ many (rule optionalMark)
  | typeReference => rule qualifiedName ++ opt (rule genericClause)
  | qualifiedName => rule identifier ++ many (lit "." ++ rule identifier)
  | genericClause => lit "<" ++ commaSeparated (rule typeExpr) ++ lit ">"
  | optionalMark => lit "?"
  | expr => rule prefixExpr ++ many (rule castTail / rule binaryTail)
  | castTail => rule castOperator ++ rule typeExpr
  | binaryTail => rule binaryOperator ++ rule prefixExpr
  | castOperator => lit "as" ++ opt (anyOf ["?", "!"]) ++ wordEnd
  | binaryOperator => anyOf operators
  | prefixExpr => opt (rule prefixOperator) ++ rule postfixExpr
  | prefixOperator => anyOf ["-", "!"] ++ not (one Trivia.isBlank)
  | postfixExpr => primary ++ many (rule argumentClause / rule memberSuffix / rule forceUnwrap)
  | memberSuffix => lit "." ++ rule identifier
  | forceUnwrap => lit "!" ++ not (lit "=")
  | macroUse => use "#"
  | implicitMember => lit "." ++ rule identifier
  | tupleExpr => parenthesized
  | argumentClause => parenthesized
  | argument => opt (rule argumentLabel ++ lit ":") ++ rule expr
  | argumentLabel => rule identifier

/-- The style of each rule. -/
def style : Rule → RuleStyle
  | keyword | identifier | integerLiteral | floatLiteral | booleanLiteral | nilLiteral
  | stringText | escape | modifier | bindingKeyword | accessorKind | importKeyword
  | wildcardPattern | qualifiedName | optionalMark | castOperator | binaryOperator
  | prefixOperator | forceUnwrap | argumentLabel => .word
  | stringLiteral | attributeUse | typeExpr | typeReference | postfixExpr | memberSuffix
  | macroUse | implicitMember => .joined
  | interpolation | genericClause | tupleExpr | argumentClause => .spaced
  | endOfInput | sourceFile | expressionEntry | accessorEntry | typeEntry | variableDecl
  | patternBinding | declaredType | initialValue | accessor | importDecl | functionDecl
  | namePattern | tuplePattern | expr | castTail | binaryTail | prefixExpr | argument => .plain

/-- What a report calls each rule. -/
def describe : Rule → String
  | endOfInput => "end of input"
  | sourceFile => "source_file"
  | expressionEntry => "expression_entry"
  | accessorEntry => "accessor_entry"
  | typeEntry => "type_entry"
  | keyword => "keyword"
  | identifier | argumentLabel => "identifier"
  | integerLiteral => "integer_literal"
  | floatLiteral => "float_literal"
  | booleanLiteral => "boolean_literal"
  | nilLiteral => "nil_literal"
  | stringLiteral => "string_literal"
  | stringText => "string_text"
  | escape => "escape"
  | interpolation => "interpolation"
  | attributeUse => "attribute"
  | modifier => "modifier"
  | bindingKeyword => "binding_keyword"
  | variableDecl => "variable_decl"
  | patternBinding => "binding pattern"
  | declaredType => "type_annotation"
  | initialValue => "initializer"
  | accessor => "accessor"
  | accessorKind => "accessor_kind"
  | importDecl => "import_decl"
  | importKeyword => "import_keyword"
  | functionDecl => "function_decl"
  | namePattern => "identifier_pattern"
  | wildcardPattern => "wildcard_pattern"
  | tuplePattern => "tuple_pattern"
  | typeExpr | typeReference => "type"
  | qualifiedName => "qualified_name"
  | genericClause => "generic argument list"
  | optionalMark => "optional_mark"
  | expr | prefixExpr | postfixExpr => "expression"
  | castTail => "cast_tail"
  | binaryTail => "binary_tail"
  | castOperator => "`as`"
  | binaryOperator => "operator"
  | prefixOperator => "prefix_operator"
  | memberSuffix => "member_suffix"
  | forceUnwrap => "force_unwrap"
  | macroUse => "macro_expansion"
  | implicitMember => "implicit_member"
  | tupleExpr => "tuple_expr"
  | argumentClause => "argument list"
  | argument => "argument"

end Rule

/-- The grammar of sources, with the entry rules for a file, an expression, an accessor and a
type. -/
def sourceGrammar : Grammar Rule where
  body := Rule.body
  style := Rule.style
  blanks := Trivia.split
  depth := 200

end SwiftMacro
