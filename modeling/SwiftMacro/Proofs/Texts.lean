import SwiftMacro.Proofs.Readable
/-!
# The characters of a rendered node

`Node.charsAt` is the text of a node as a list of characters, with an equation for each shape that an
expression, a type or a pattern can take. The text of a readable node starts with a character of its
place (`charsAt_eq_cons`), so nothing is skipped in front of it.
-/

namespace SwiftMacro

namespace Node

/-- The characters of the text of a node at a depth of indentation. -/
def charsAt (depth : Nat) (n : Node) : List Char := (n.renderAt depth).toList

end Node

/-! ## Texts of parts -/

/-- The items with commas between. -/
def commaChars {α : Type} (text : α → List Char) : List α → List Char
  | [] => []
  | x :: xs => text x ++ xs.flatMap fun y => ',' :: ' ' :: text y

def Argument.chars (a : Argument Node) : List Char :=
  match a.label with
  | none => a.expression.charsAt 0
  | some label => label.toList ++ ':' :: ' ' :: a.expression.charsAt 0

def argumentsChars (as : List (Argument Node)) : List Char :=
  '(' :: commaChars Argument.chars as ++ [')']

def genericsChars : List Node → List Char
  | [] => []
  | ts => '<' :: commaChars (Node.charsAt 0) ts ++ ['>']

def Segment.chars : Segment Node → List Char
  | .text content => content.toList.flatMap Text.escape
  | .interpolation e => '\\' :: '(' :: e.charsAt 0 ++ [')']

theorem toList_joinWith_map {α : Type} (text : α → String) (xs : List α) :
    (joinWith ", " (xs.map text)).toList = commaChars (fun x => (text x).toList) xs := by
  cases xs with
  | nil => rfl
  | cons x xs =>
    rw [List.map_cons, toList_joinWith_cons, List.flatMap_map]
    rfl

theorem toList_argument (a : Argument Node) :
    (Render.argument (a.map fun n depth => n.renderAt depth)).toList = a.chars := by
  obtain ⟨label, e⟩ := a
  cases label with
  | none => rfl
  | some label => simp [Render.argument, Argument.map, Argument.chars, Node.charsAt]

theorem toList_arguments (as : List (Argument Node)) :
    (Render.arguments (as.map (·.map fun n depth => n.renderAt depth))).toList = argumentsChars as := by
  rw [Render.arguments, List.map_map]
  simp only [String.toList_append, toList_joinWith_map, Function.comp_def, toList_argument]
  rfl

theorem toList_generics (ts : List Node) :
    (Render.generics (ts.map fun n depth => n.renderAt depth)).toList = genericsChars ts := by
  cases ts with
  | nil => rfl
  | cons t ts =>
    have hgenerics : Render.generics ((t :: ts).map fun n depth => n.renderAt depth) =
        "<" ++ joinWith ", " ((t :: ts).map fun n => n.renderAt 0) ++ ">" := by
      simp [Render.generics, Function.comp_def]
    rw [hgenerics]
    simp only [String.toList_append, toList_joinWith_map]
    rfl

theorem toList_segment (s : Segment Node) :
    (Render.segment (s.map fun n depth => n.renderAt depth)).toList = s.chars := by
  cases s with
  | text content => simp [Render.segment, Segment.map, Render.escaped, Segment.chars]
  | interpolation e => simp [Render.segment, Segment.map, Segment.chars, Node.charsAt]

/-! ## Texts of nodes -/

section

variable (d : Nat) (span : Span)

theorem charsAt_mk (shape : Shape Node) : (⟨shape, span⟩ : Node).charsAt d =
    (Render.shape d (shape.map fun n depth => n.renderAt depth)).toList := by
  rw [Node.charsAt, Node.renderAt_mk]

theorem charsAt_integer (digits : String) :
    (⟨.integerLiteral digits, span⟩ : Node).charsAt d = digits.toList := charsAt_mk ..

theorem charsAt_float (digits : String) :
    (⟨.floatLiteral digits, span⟩ : Node).charsAt d = digits.toList := charsAt_mk ..

theorem charsAt_boolean (value : Bool) :
    (⟨.booleanLiteral value, span⟩ : Node).charsAt d =
      (if value then "true" else "false").toList := charsAt_mk ..

theorem charsAt_nil : (⟨.nilLiteral, span⟩ : Node).charsAt d = "nil".toList := charsAt_mk ..

theorem charsAt_identifier (name : String) :
    (⟨.identifier name, span⟩ : Node).charsAt d = name.toList := charsAt_mk ..

theorem charsAt_namePattern (name : String) :
    (⟨.namePattern name, span⟩ : Node).charsAt d = name.toList := charsAt_mk ..

theorem charsAt_wildcard : (⟨.wildcardPattern, span⟩ : Node).charsAt d = "_".toList :=
  charsAt_mk ..

theorem charsAt_string (segments : List (Segment Node)) :
    (⟨.stringLiteral segments, span⟩ : Node).charsAt d =
      '"' :: segments.flatMap Segment.chars ++ ['"'] := by
  rw [charsAt_mk, Shape.map, Render.shape, List.map_map]
  simp only [String.toList_append, String.toList_join, List.flatMap_map, Function.comp_def, toList_segment]
  rfl

theorem charsAt_macroUse (name : String) (ts : List Node) (as : List (Argument Node)) :
    (⟨.macroUse name ts as, span⟩ : Node).charsAt d =
      '#' :: name.toList ++ genericsChars ts ++ argumentsChars as := by
  rw [charsAt_mk, Shape.map, Render.shape]
  simp only [String.toList_append, toList_generics, toList_arguments]
  rfl

theorem charsAt_implicitMember (member : String) :
    (⟨.memberAccess none member, span⟩ : Node).charsAt d = '.' :: member.toList := by
  rw [charsAt_mk, Shape.map, Option.map_none, Render.shape, String.toList_append]
  rfl

theorem charsAt_tuple (as : List (Argument Node)) :
    (⟨.tuple as, span⟩ : Node).charsAt d = argumentsChars as := by
  rw [charsAt_mk, Shape.map, Render.shape_tuple, toList_arguments]

theorem charsAt_call (callee : Node) (as : List (Argument Node)) :
    (⟨.call callee as, span⟩ : Node).charsAt d = callee.charsAt d ++ argumentsChars as := by
  rw [charsAt_mk, Shape.map, Render.shape, String.toList_append, toList_arguments]
  rfl

theorem charsAt_member (base : Node) (member : String) :
    (⟨.memberAccess (some base) member, span⟩ : Node).charsAt d =
      base.charsAt d ++ '.' :: member.toList := by
  rw [charsAt_mk, Shape.map, Option.map_some, Render.shape]
  simp [Node.charsAt]

theorem charsAt_unwrap (operand : Node) :
    (⟨.forceUnwrap operand, span⟩ : Node).charsAt d = operand.charsAt d ++ ['!'] := by
  rw [charsAt_mk, Shape.map, Render.shape, String.toList_append]
  rfl

theorem charsAt_prefixed (operator : String) (operand : Node) :
    (⟨.prefixed operator operand, span⟩ : Node).charsAt d =
      operator.toList ++ operand.charsAt d := by
  rw [charsAt_mk, Shape.map, Render.shape, String.toList_append]
  rfl

theorem charsAt_binary (lhs rhs : Node) (operator : String) :
    (⟨.binary lhs operator rhs, span⟩ : Node).charsAt d =
      lhs.charsAt d ++ ' ' :: operator.toList ++ ' ' :: rhs.charsAt d := by
  rw [charsAt_mk, Shape.map, Render.shape]
  simp [Node.charsAt]

theorem charsAt_cast (value target : Node) (kind : CastKind) :
    (⟨.cast value kind target, span⟩ : Node).charsAt d =
      value.charsAt d ++ ' ' :: (Render.castWord kind).toList ++ ' ' :: target.charsAt d := by
  rw [charsAt_mk, Shape.map, Render.shape]
  simp [Node.charsAt]

theorem charsAt_typeName (name : String) (ts : List Node) :
    (⟨.typeName name ts, span⟩ : Node).charsAt d = name.toList ++ genericsChars ts := by
  rw [charsAt_mk, Shape.map, Render.shape, String.toList_append, toList_generics]

theorem charsAt_optional (wrapped : Node) :
    (⟨.optionalType wrapped, span⟩ : Node).charsAt d = wrapped.charsAt d ++ ['?'] := by
  rw [charsAt_mk, Shape.map, Render.shape, String.toList_append]
  rfl

theorem charsAt_attr (name : String) (ts : List Node) (as : List (Argument Node)) :
    (⟨.attr name ts as, span⟩ : Node).charsAt d =
      '@' :: name.toList ++ genericsChars ts ++ (if as.isEmpty then [] else argumentsChars as) := by
  rw [charsAt_mk, Shape.map]
  cases as with
  | nil =>
    simp only [List.map_nil, Render.shape, String.toList_append, toList_generics]
    simp
  | cons a as =>
    rw [List.map_cons, Render.shape, ← List.map_cons]
    · simp only [String.toList_append, toList_generics, toList_arguments]
      rfl
    · simp

theorem charsAt_tuplePattern (elements : List Node) :
    (⟨.tuplePattern elements, span⟩ : Node).charsAt d =
      '(' :: commaChars (Node.charsAt d) elements ++ [')'] := by
  rw [charsAt_mk, Shape.map, Render.shape, List.map_map]
  simp only [String.toList_append, toList_joinWith_map, Function.comp_def]
  rfl

end

/-! ## Texts of declarations -/

def indentChars (d : Nat) : List Char := (Render.indent d).toList

/-- The statements of a block, each in a line of its own. -/
def linesChars (d : Nat) (body : List Node) : List Char :=
  body.flatMap fun s => indentChars d ++ s.charsAt d ++ ['\n']

def blockChars (d : Nat) : List Node → List Char
  | [] => ['\x7b', '\x7d']
  | ss => '\x7b' :: '\n' :: linesChars (d + 1) ss ++ indentChars d ++ ['\x7d']

def leadingChars (d : Nat) (attributes : List Node) (modifiers : List String) : List Char :=
  attributes.flatMap (fun a => a.charsAt d ++ [' ']) ++ modifiers.flatMap fun m => m.toList ++ [' ']

theorem toList_lines (d : Nat) (body : List Node) :
    (Render.lines d (body.map fun n depth => n.renderAt depth)).toList = linesChars d body := by
  induction body with
  | nil => rfl
  | cons s ss ih =>
    simp only [List.map_cons, Render.lines, String.toList_append, ih]
    rfl

theorem toList_block (d : Nat) (body : List Node) :
    (Render.block d (body.map fun n depth => n.renderAt depth)).toList = blockChars d body := by
  cases body with
  | nil => simp [Render.block, blockChars]
  | cons s ss =>
    have hblock : Render.block d ((s :: ss).map fun n depth => n.renderAt depth) =
        "\x7b\n" ++ Render.lines (d + 1) ((s :: ss).map fun n depth => n.renderAt depth) ++
          Render.indent d ++ "\x7d" := rfl
    rw [hblock]
    simp only [String.toList_append, toList_lines]
    simp [blockChars, indentChars]

theorem toList_leading (d : Nat) (attributes : List Node) (modifiers : List String) :
    (Render.leading d (attributes.map fun n depth => n.renderAt depth) modifiers).toList =
      leadingChars d attributes modifiers := by
  simp [Render.leading, leadingChars, Function.comp_def, List.flatMap_map, Node.charsAt]

section

variable (d : Nat) (span : Span)

theorem charsAt_variable (attributes : List Node) (modifiers : List String)
    (keyword : BindingKeyword) (bindings : List Node) :
    (⟨.variableDecl attributes modifiers keyword bindings, span⟩ : Node).charsAt d =
      leadingChars d attributes modifiers ++ (Render.keyword keyword).toList ++
        ' ' :: commaChars (Node.charsAt d) bindings := by
  rw [charsAt_mk, Shape.map, Render.shape, List.map_map]
  simp only [String.toList_append, toList_leading, toList_joinWith_map, Function.comp_def,
    List.append_assoc]
  rfl

theorem charsAt_function (attributes : List Node) (modifiers : List String) (name : String)
    (body : List Node) :
    (⟨.functionDecl attributes modifiers name body, span⟩ : Node).charsAt d =
      leadingChars d attributes modifiers ++ "func ".toList ++ name.toList ++ "() ".toList ++
        blockChars d body := by
  rw [charsAt_mk, Shape.map, Render.shape]
  simp only [String.toList_append, toList_leading, toList_block]

theorem charsAt_binding (pattern : Node) (declaredType initial : Option Node)
    (accessors : List Node) :
    (⟨.patternBinding pattern declaredType initial accessors, span⟩ : Node).charsAt d =
      pattern.charsAt d ++ (declaredType.elim [] fun t => ':' :: ' ' :: t.charsAt d) ++
        (initial.elim [] fun e => ' ' :: '=' :: ' ' :: e.charsAt d) ++
        (if accessors.isEmpty then [] else ' ' :: blockChars d accessors) := by
  rw [charsAt_mk, Shape.map]
  cases declaredType <;> cases initial <;> cases accessors <;>
    simp [Render.shape, Node.charsAt, ← toList_block]

theorem charsAt_accessor (kind : AccessorKind) (body : List Node) :
    (⟨.accessor kind body, span⟩ : Node).charsAt d =
      (Render.accessorWord kind).toList ++ ' ' :: blockChars d body := by
  rw [charsAt_mk, Shape.map, Render.shape]
  simp only [String.toList_append, toList_block, List.append_assoc]
  rfl

end

/-! ## First characters -/

/-- The first characters of what stands in a place. -/
def Category.starts : Category → Char → Bool
  | primary | operand => isOperandStart
  | unary | expression => isExpressionStart
  | type | accessor => Rule.isNameStart
  | attr => (· == '@')
  | name | pattern | binding => fun c => c == '(' || Rule.isNameStart c
  | statement => fun c => c == '@' || isExpressionStart c

theorem isSolid_of_starts {category : Category} {c : Char} (h : category.starts c = true) :
    isSolid c = true := by
  refine Decidable.byContradiction fun hc => ?_
  have hmem : c ∈ [' ', '\t', '\r', '\n', '/'] := by
    simp only [isSolid, Trivia.isBlank, Bool.not_eq_true', Bool.not_eq_false, Bool.or_eq_true,
      beq_iff_eq] at hc
    simpa [or_assoc] using hc
  have hnone : ∀ c ∈ [' ', '\t', '\r', '\n', '/'], category.starts c = false := by
    cases category <;> decide
  rw [hnone c hmem] at h
  cases h

theorem isOperandStart_of_isDigit {c : Char} (h : c.isDigit = true) : isOperandStart c = true := by
  simp [isOperandStart, h]

theorem isSolid_of_isDigit {c : Char} (h : c.isDigit = true) : isSolid c = true :=
  have hstarts : Category.operand.starts c = true := isOperandStart_of_isDigit h
  isSolid_of_starts hstarts

theorem eq_cons_of_isDigits {w : List Char} (h : IsDigits w) :
    ∃ c t, w = c :: t ∧ c.isDigit = true := by
  obtain ⟨hne, hall⟩ := h
  cases w with
  | nil => exact absurd rfl hne
  | cons c t => exact ⟨c, t, rfl, hall c List.mem_cons_self⟩

theorem eq_cons_of_isQualified {w : List Char} (h : IsQualified w) :
    ∃ c t, w = c :: t ∧ Rule.isNameStart c = true := by
  obtain ⟨n, ns, hn, -, rfl⟩ := h
  obtain ⟨c, t, rfl, hc⟩ := hn.start
  exact ⟨c, _, rfl, hc⟩

theorem isOperandStart_of_isNameStart {c : Char} (h : Rule.isNameStart c = true) :
    isOperandStart c = true := by
  simp [isOperandStart, h]

theorem isExpressionStart_of_isOperandStart {c : Char} (h : isOperandStart c = true) :
    isExpressionStart c = true := by
  simp [isExpressionStart, h]

theorem attr_eq_cons {n : Node} (h : Readable .attr n) (d : Nat) :
    ∃ t, n.charsAt d = '@' :: t := by
  cases h
  exact ⟨_, charsAt_attr ..⟩

theorem modifier_eq_cons {m : String} (h : m ∈ Rule.modifiers) :
    ∃ c t, m.toList = c :: t ∧ Rule.isNameStart c = true := by
  have hall : ∀ m ∈ Rule.modifiers, m.toList.head?.any Rule.isNameStart = true := by decide
  have hm := hall m h
  cases hl : m.toList with
  | nil => rw [hl] at hm; cases hm
  | cons c t => rw [hl] at hm; exact ⟨c, t, rfl, hm⟩

/-- A declaration starts with its first attribute or modifier, if it has any. -/
theorem leading_eq_cons {attributes : List Node} {modifiers : List String} {s : List Char}
    (front : ∀ a ∈ attributes, Readable .attr a) (known : ∀ m ∈ modifiers, m ∈ Rule.modifiers)
    (d : Nat) (hs : ∃ c t, s = c :: t ∧ Category.statement.starts c = true) :
    ∃ c t, leadingChars d attributes modifiers ++ s = c :: t ∧
      Category.statement.starts c = true := by
  cases attributes with
  | cons a as =>
    obtain ⟨t, ht⟩ := attr_eq_cons (front a List.mem_cons_self) d
    exact ⟨'@', _, by rw [leadingChars, List.flatMap_cons, ht]; rfl, rfl⟩
  | nil =>
    cases modifiers with
    | cons m ms =>
      obtain ⟨c, t, ht, hc⟩ := modifier_eq_cons (known m List.mem_cons_self)
      refine ⟨c, _, by rw [leadingChars, List.flatMap_cons, ht]; rfl, ?_⟩
      simp [Category.starts, isExpressionStart, isOperandStart, hc]
    | nil => exact hs

/-- The text of a readable node starts with a character of its place. -/
theorem charsAt_eq_cons {category : Category} {n : Node} (h : Readable category n) (d : Nat) :
    ∃ c t, n.charsAt d = c :: t ∧ category.starts c = true := by
  induction h with
  | emptyString | string => exact ⟨'"', _, charsAt_string .., rfl⟩
  | integer digits =>
    rw [charsAt_integer, String.toList_ofList]
    obtain ⟨c, t, ht, hc⟩ := eq_cons_of_isDigits digits
    exact ⟨c, t, ht, isOperandStart_of_isDigit hc⟩
  | float whole part =>
    obtain ⟨c, t, rfl, hc⟩ := eq_cons_of_isDigits whole
    rw [charsAt_float, String.toList_ofList]
    exact ⟨c, _, rfl, isOperandStart_of_isDigit hc⟩
  | boolean value =>
    rw [charsAt_boolean]
    cases value
    · exact ⟨'f', "alse".toList, by simp, rfl⟩
    · exact ⟨'t', "rue".toList, by simp, rfl⟩
  | nil => exact ⟨'n', ['i', 'l'], by rw [charsAt_nil]; simp, rfl⟩
  | macroUse => exact ⟨'#', _, charsAt_macroUse .., rfl⟩
  | implicitMember => exact ⟨'.', _, charsAt_implicitMember .., rfl⟩
  | tuple => exact ⟨'(', _, charsAt_tuple .., rfl⟩
  | identifier isName =>
    obtain ⟨c, t, ht, hc⟩ := isName.start
    exact ⟨c, t, ht, isOperandStart_of_isNameStart hc⟩
  | ofPrimary _ ih => exact ih
  | call _ _ _ ih =>
    obtain ⟨c, t, ht, hc⟩ := ih
    exact ⟨c, _, by rw [charsAt_call, ht]; rfl, hc⟩
  | member _ _ ih =>
    obtain ⟨c, t, ht, hc⟩ := ih
    exact ⟨c, _, by rw [charsAt_member, ht]; rfl, hc⟩
  | unwrap _ ih =>
    obtain ⟨c, t, ht, hc⟩ := ih
    exact ⟨c, _, by rw [charsAt_unwrap, ht]; rfl, hc⟩
  | ofOperand _ ih =>
    obtain ⟨c, t, ht, hc⟩ := ih
    exact ⟨c, t, ht, isExpressionStart_of_isOperandStart hc⟩
  | prefixed sign _ ih =>
    simp only [List.mem_cons, List.not_mem_nil, or_false] at sign
    rcases sign with rfl | rfl
    · exact ⟨'-', _, charsAt_prefixed .., rfl⟩
    · exact ⟨'!', _, charsAt_prefixed .., rfl⟩
  | ofUnary _ ih => exact ih
  | binary _ _ _ ih =>
    obtain ⟨c, t, ht, hc⟩ := ih
    exact ⟨c, _, by rw [charsAt_binary, ht]; rfl, hc⟩
  | cast _ _ ih =>
    obtain ⟨c, t, ht, hc⟩ := ih
    exact ⟨c, _, by rw [charsAt_cast, ht]; rfl, hc⟩
  | typeName qualified =>
    obtain ⟨c, t, ht, hc⟩ := eq_cons_of_isQualified qualified
    exact ⟨c, _, by rw [charsAt_typeName, ht]; rfl, hc⟩
  | optional _ ih =>
    obtain ⟨c, t, ht, hc⟩ := ih
    exact ⟨c, _, by rw [charsAt_optional, ht]; rfl, hc⟩
  | attr => exact ⟨'@', _, charsAt_attr .., rfl⟩
  | name isName | named isName =>
    obtain ⟨c, t, ht, hc⟩ := isName.start
    exact ⟨c, t, ht, by simp [Category.starts, hc]⟩
  | wildcard => exact ⟨'_', [], by rw [charsAt_wildcard]; simp, rfl⟩
  | tuplePattern => exact ⟨'(', _, charsAt_tuplePattern .., rfl⟩
  | binding _ _ _ _ ih =>
    obtain ⟨c, t, ht, hc⟩ := ih
    exact ⟨c, _, by rw [charsAt_binding, ht]; rfl, hc⟩
  | @accessor kind body =>
    rw [charsAt_accessor]
    cases kind
    · exact ⟨'g', "et ".toList ++ blockChars d body, by simp [Render.accessorWord], rfl⟩
    · exact ⟨'s', "et ".toList ++ blockChars d body, by simp [Render.accessorWord], rfl⟩
  | @variableDecl _ _ keyword bindings front known =>
    rw [charsAt_variable, List.append_assoc]
    refine leading_eq_cons front known d ?_
    cases keyword
    · exact ⟨'l', "et ".toList ++ commaChars (Node.charsAt d) bindings, by simp [Render.keyword], rfl⟩
    · exact ⟨'v', "ar ".toList ++ commaChars (Node.charsAt d) bindings, by simp [Render.keyword], rfl⟩
  | @functionDecl _ _ name body front known =>
    rw [charsAt_function, List.append_assoc, List.append_assoc, List.append_assoc]
    exact leading_eq_cons front known d
      ⟨'f', "unc ".toList ++ (name.toList ++ ("() ".toList ++ blockChars d body)), by simp, rfl⟩
  | ofExpression _ ih =>
    obtain ⟨c, t, ht, hc⟩ := ih
    exact ⟨c, t, ht, by simp [Category.starts] at hc ⊢; exact .inr hc⟩

/-- No blanks stand in front of a node. -/
theorem after_charsAt {category : Category} {n : Node} (h : Readable category n) (d : Nat)
    (s : List Char) : after .spaced (n.charsAt d ++ s) = n.charsAt d ++ s := by
  obtain ⟨c, t, ht, hc⟩ := charsAt_eq_cons h d
  rw [ht]
  exact after_solid (isSolid_of_starts hc) _

end SwiftMacro
