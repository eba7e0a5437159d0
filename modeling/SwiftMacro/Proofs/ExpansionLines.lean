import SwiftMacro.Proofs.DiagnosticLines
import SwiftMacro.Proofs.StoreWords
/-!
# Lines of expansions

The text of an expansion has no control characters but the line feeds between its lines. String literals
escape them (`printable_escape`), and nothing else that a node shows can hold any (`Readable.inline`). So
a report can write an expansion line by line and loses nothing (`printed_expansion_lossless`).
-/

namespace SwiftMacro

/-! ## Characters -/

/-- None of the characters is a control character. -/
def Printable (s : List Char) : Prop := ∀ c ∈ s, Text.isControl c = false

instance (s : List Char) : Decidable (Printable s) := List.decidableBAll _ s

section Characters

variable {s t : List Char} {c : Char}

@[simp] theorem printable_nil : Printable [] := fun _ hc => nomatch hc

@[simp] theorem printable_cons : Printable (c :: s) ↔ Text.isControl c = false ∧ Printable s :=
  List.forall_mem_cons

@[simp] theorem printable_append : Printable (s ++ t) ↔ Printable s ∧ Printable t :=
  List.forall_mem_append

theorem Printable.newline_notMem (h : Printable s) : '\n' ∉ s := fun hmem => Bool.noConfusion (h _ hmem)

theorem isControl_of_isNameChar (h : Rule.isNameChar c = true) : Text.isControl c = false := by
  rcases Bool.or_eq_true_iff.1 h with h | h
  · exact isControl_of_isSchemeChar (by simp [Url.isSchemeChar, h])
  · obtain rfl := beq_iff_eq.1 h
    rfl

theorem printable_digits (h : IsDigits s) : Printable s := fun c hc =>
  isControl_of_isNameChar (by simp [Rule.isNameChar, Char.isAlphanum, h.2 c hc])

theorem printable_name (h : IsName s) : Printable s := fun c hc => isControl_of_isNameChar (h.chars c hc)

theorem printable_qualified (h : IsQualified s) : Printable s := by
  obtain ⟨first, more, hfirst, hmore, rfl⟩ := h
  refine printable_append.2 ⟨printable_name hfirst, List.forall_mem_flatMap.2 fun name hname => ?_⟩
  exact printable_cons.2 ⟨rfl, printable_name (hmore name hname)⟩

theorem isControl_of_isHexDigit (h : Rule.isHexDigit c = true) : Text.isControl c = false := by
  have hnumber : c.val.toNat = c.toNat := rfl
  simp only [Rule.isHexDigit, Char.isDigit, Bool.or_eq_true, Bool.and_eq_true, decide_eq_true_eq, ge_iff_le,
    UInt32.le_iff_toNat_le, Char.le_def, Char.reduceVal, UInt32.reduceToNat, hnumber] at h
  exact isControl_of_bounds (by omega) (by omega)

/-- No character is written with control characters. -/
theorem printable_escape (c : Char) : Printable (Text.escape c) := by
  unfold Text.escape
  iterate 6
    split
    · decide
  split
  · next hc =>
    have hdigits := (Text.hexDigits_control c.toNat (Text.toNat_lt_of_isControl hc)).2.2.2
    refine printable_append.2 ⟨printable_append.2 ⟨by decide, fun d hd => ?_⟩, by decide⟩
    exact isControl_of_isHexDigit (hdigits d hd)
  · next hc => exact printable_cons.2 ⟨Bool.eq_false_iff.2 hc, printable_nil⟩

end Characters

/-! ## Nodes -/

/-- The text of the node has no control characters, however deep it stands. -/
def Node.Inline (n : Node) : Prop := ∀ d, Printable (n.charsAt d)

section Nodes

variable {span : Span} {arguments : List (Argument Node)}

theorem printable_commaChars {α : Type} {text : α → List Char} {xs : List α}
    (h : ∀ x ∈ xs, Printable (text x)) : Printable (commaChars text xs) := by
  cases xs with
  | nil => exact printable_nil
  | cons x xs =>
    obtain ⟨hfirst, hmore⟩ := List.forall_mem_cons.1 h
    refine printable_append.2 ⟨hfirst, List.forall_mem_flatMap.2 fun y hy => ?_⟩
    exact printable_cons.2 ⟨rfl, printable_cons.2 ⟨rfl, hmore y hy⟩⟩

theorem printable_generics {types : List Node} (h : ∀ t ∈ types, t.Inline) :
    Printable (genericsChars types) := by
  cases types with
  | nil => exact printable_nil
  | cons t ts =>
    have hinner := printable_commaChars fun type htype => h type htype 0
    exact printable_append.2 ⟨printable_cons.2 ⟨rfl, hinner⟩, by decide⟩

theorem printable_arguments (hlabels : ∀ a ∈ arguments, ∀ l ∈ a.label, Printable l.toList)
    (hinner : ∀ a ∈ arguments, a.expression.Inline) : Printable (argumentsChars arguments) := by
  have hone : ∀ a ∈ arguments, Printable a.chars := by
    intro a ha
    have hlabel := hlabels a ha
    have hexpression := hinner a ha 0
    obtain ⟨label, e⟩ := a
    cases label with
    | none => exact hexpression
    | some label =>
      refine printable_append.2 ⟨hlabel label rfl, ?_⟩
      exact printable_cons.2 ⟨rfl, printable_cons.2 ⟨rfl, hexpression⟩⟩
  exact printable_append.2 ⟨printable_cons.2 ⟨rfl, printable_commaChars hone⟩, by decide⟩

namespace Node

theorem inline_string {segments : List (Segment Node)}
    (h : ∀ e ∈ segments.filterMap Segment.expression?, e.Inline) :
    (⟨.stringLiteral segments, span⟩ : Node).Inline := by
  intro d
  rw [charsAt_string]
  refine printable_append.2 ⟨printable_cons.2 ⟨rfl, List.forall_mem_flatMap.2 fun s hs => ?_⟩, by decide⟩
  cases s with
  | text content => exact List.forall_mem_flatMap.2 fun c _ => printable_escape c
  | interpolation e =>
    have he := h e (List.mem_filterMap.2 ⟨_, hs, rfl⟩) 0
    exact printable_append.2 ⟨printable_cons.2 ⟨rfl, printable_cons.2 ⟨rfl, he⟩⟩, by decide⟩

theorem inline_identifier {name : String} (h : Printable name.toList) : (identifier span name).Inline :=
  fun d => by rwa [identifier, charsAt_identifier]

theorem inline_member {base : Node} {name : String} (hbase : base.Inline) (hname : Printable name.toList) :
    (member span base name).Inline := by
  intro d
  rw [member, charsAt_member]
  exact printable_append.2 ⟨hbase d, printable_cons.2 ⟨rfl, hname⟩⟩

theorem inline_call {callee : Node} (hcallee : callee.Inline)
    (hlabels : ∀ a ∈ arguments, ∀ l ∈ a.label, Printable l.toList)
    (hinner : ∀ a ∈ arguments, a.expression.Inline) : (call span callee arguments).Inline := by
  intro d
  rw [call, charsAt_call]
  exact printable_append.2 ⟨hcallee d, printable_arguments hlabels hinner⟩

theorem inline_tuple (hlabels : ∀ a ∈ arguments, ∀ l ∈ a.label, Printable l.toList)
    (hinner : ∀ a ∈ arguments, a.expression.Inline) : (tuple span arguments).Inline := by
  intro d
  rw [tuple, charsAt_tuple]
  exact printable_arguments hlabels hinner

theorem inline_binary {lhs rhs : Node} {operator : String} (hlhs : lhs.Inline)
    (hoperator : Printable operator.toList) (hrhs : rhs.Inline) : (binary span lhs operator rhs).Inline := by
  intro d
  rw [binary, charsAt_binary]
  exact printable_append.2 ⟨printable_append.2 ⟨hlhs d, printable_cons.2 ⟨rfl, hoperator⟩⟩,
    printable_cons.2 ⟨rfl, hrhs d⟩⟩

theorem inline_cast {value target : Node} (kind : CastKind) (hvalue : value.Inline)
    (htarget : target.Inline) : (cast span value kind target).Inline := by
  have hword : Printable (Render.castWord kind).toList := by cases kind <;> decide
  intro d
  rw [cast, charsAt_cast]
  exact printable_append.2 ⟨printable_append.2 ⟨hvalue d, printable_cons.2 ⟨rfl, hword⟩⟩,
    printable_cons.2 ⟨rfl, htarget d⟩⟩

end Node

theorem printable_operator : ∀ operator ∈ Rule.operators, Printable operator.toList := by decide

/-- What can be read and has no blocks inside is written without control characters. -/
theorem Readable.inline {c : Category} {n : Node} (h : Readable c n) (hc : c.hasBlocks = false) :
    n.Inline := by
  induction h with
  | emptyString => exact Node.inline_string fun e he => nomatch he
  | string _ _ _ ih => exact Node.inline_string fun e he => ih e he rfl
  | integer digits =>
    intro d
    rw [charsAt_integer, String.toList_ofList]
    exact printable_digits digits
  | float whole part =>
    intro d
    rw [charsAt_float, String.toList_ofList]
    exact printable_append.2 ⟨printable_digits whole, printable_cons.2 ⟨rfl, printable_digits part⟩⟩
  | boolean value =>
    intro d
    rw [charsAt_boolean]
    cases value <;> decide
  | nil =>
    intro d
    rw [charsAt_nil]
    decide
  | macroUse isName _ labels _ ihTypes ih =>
    intro d
    rw [charsAt_macroUse]
    refine printable_append.2 ⟨printable_append.2 ⟨printable_cons.2 ⟨rfl, printable_name isName⟩, ?_⟩, ?_⟩
    · exact printable_generics fun t ht => ihTypes t ht rfl
    · exact printable_arguments (fun a ha l hl => printable_name (labels a ha l hl)) fun a ha => ih a ha rfl
  | implicitMember isName =>
    intro d
    rw [charsAt_implicitMember]
    exact printable_cons.2 ⟨rfl, printable_name isName⟩
  | tuple labels _ ih =>
    exact Node.inline_tuple (fun a ha l hl => printable_name (labels a ha l hl)) fun a ha => ih a ha rfl
  | identifier isName => exact Node.inline_identifier (printable_name isName)
  | ofPrimary _ ih | ofOperand _ ih | ofUnary _ ih => exact ih rfl
  | call _ labels _ ihCallee ih =>
    exact Node.inline_call (ihCallee rfl) (fun a ha l hl => printable_name (labels a ha l hl))
      fun a ha => ih a ha rfl
  | member _ isName ih => exact Node.inline_member (ih rfl) (printable_name isName)
  | unwrap _ ih =>
    intro d
    rw [charsAt_unwrap]
    exact printable_append.2 ⟨ih rfl d, by decide⟩
  | prefixed sign _ ih =>
    have hsign : ∀ operator ∈ ["-", "!"], Printable operator.toList := by decide
    intro d
    rw [charsAt_prefixed]
    exact printable_append.2 ⟨hsign _ sign, ih rfl d⟩
  | binary _ known _ ihLeft ihRight =>
    exact Node.inline_binary (ihLeft rfl) (printable_operator _ known) (ihRight rfl)
  | @cast _ _ kind _ _ ihLeft ihRight => exact Node.inline_cast kind (ihLeft rfl) (ihRight rfl)
  | typeName qualified _ ih =>
    intro d
    rw [charsAt_typeName]
    exact printable_append.2 ⟨printable_qualified qualified, printable_generics fun t ht => ih t ht rfl⟩
  | optional _ ih =>
    intro d
    rw [charsAt_optional]
    exact printable_append.2 ⟨ih rfl d, by decide⟩
  | attr isName _ labels _ ihTypes ih =>
    intro d
    rw [charsAt_attr]
    refine printable_append.2 ⟨printable_append.2 ⟨printable_cons.2 ⟨rfl, printable_name isName⟩, ?_⟩, ?_⟩
    · exact printable_generics fun t ht => ihTypes t ht rfl
    · split
      · exact printable_nil
      · exact printable_arguments (fun a ha l hl => printable_name (labels a ha l hl)) fun a ha => ih a ha rfl
  | name isName | named isName =>
    intro d
    rw [charsAt_namePattern]
    exact printable_name isName
  | wildcard =>
    intro d
    rw [charsAt_wildcard]
    decide
  | tuplePattern _ ih =>
    intro d
    rw [charsAt_tuplePattern]
    have hinner := printable_commaChars fun p hp => ih p hp rfl d
    exact printable_append.2 ⟨printable_cons.2 ⟨rfl, hinner⟩, by decide⟩
  | binding | accessor | variableDecl | functionDecl | ofExpression => cases hc

theorem inline_of_readable {c : Category} {n : Node} (h : Readable c n.eraseSpans)
    (hc : c.hasBlocks = false) : n.Inline := by
  intro d
  rw [← Node.charsAt_eraseSpans]
  exact h.inline hc d

end Nodes

/-! ## Accessors -/

namespace Store

variable {store : Store}

theorem inline_receiver (h : ∀ w ∈ store.words, Printable w.toList) (span : Span) :
    (store.receiver span).Inline := by
  have hchain : ∀ ws : List String, (∀ w ∈ ws, Printable w.toList) → ∀ base : Node, base.Inline →
      (ws.foldl (Node.member span) base).Inline := by
    intro ws
    induction ws with
    | nil => exact fun _ base hbase => hbase
    | cons w ws ih =>
      intro hws base hbase
      obtain ⟨hw, hws⟩ := List.forall_mem_cons.1 hws
      exact ih hws _ (Node.inline_member hbase hw)
  refine hchain store.members (fun w hw => h w ?_) _ (Node.inline_identifier (h _ List.mem_cons_self))
  exact List.mem_cons_of_mem _ (List.mem_append_left _ hw)

variable (h : ∀ w ∈ store.words, Printable w.toList) (span : Span) (binding : Binding)

include h

theorem inline_key (a : Argument Node) (ha : a = store.key span binding) :
    (∀ l ∈ a.label, Printable l.toList) ∧ a.expression.Inline := by
  subst ha
  refine ⟨fun l hl => ?_, Node.inline_string fun e he => nomatch he⟩
  obtain rfl := Option.some.inj hl
  exact h _ (by simp [words])

/-- The one statement of a getter or a setter. -/
theorem inline_getter {type : ValueType} (htype : type.type.Inline)
    (hinitial : ∀ value ∈ binding.initial, value.Inline) :
    ∃ body, store.getter span type binding = .accessor span .get [body] ∧ body.Inline := by
  have hkey := inline_key h span binding
  have hcall : (Node.call span (.member span (store.receiver span) store.readMethod)
      [store.key span binding]).Inline := by
    refine Node.inline_call (Node.inline_member (inline_receiver h span) (h _ (by simp [words]))) ?_ ?_
    · exact fun a ha => (hkey a (List.mem_singleton.1 ha)).1
    · exact fun a ha => (hkey a (List.mem_singleton.1 ha)).2
  have hread : (store.typedRead span type binding).Inline := by
    refine Node.inline_tuple (fun a ha l hl => ?_) fun a ha => ?_
    · obtain rfl := List.mem_singleton.1 ha
      cases hl
    · obtain rfl := List.mem_singleton.1 ha
      exact Node.inline_cast .conditional hcall htype
  obtain hgetter | ⟨value, hfallback, hgetter⟩ := getter_cases store span type binding
  · exact ⟨_, hgetter, hread⟩
  · refine ⟨_, hgetter, Node.inline_binary hread (by decide) ?_⟩
    rw [fallback] at hfallback
    split at hfallback
    · obtain rfl := Option.some.inj hfallback
      exact Readable.nil.inline rfl
    · exact hinitial value hfallback

theorem inline_write : (store.write span binding).Inline := by
  have harguments : ∀ a ∈ [.plain (.identifier span "newValue"), store.key span binding],
      (∀ l ∈ a.label, Printable l.toList) ∧ a.expression.Inline := by
    intro a ha
    rcases List.mem_cons.1 ha with rfl | ha
    · exact ⟨(fun l hl => nomatch hl), Node.inline_identifier (by decide)⟩
    · exact inline_key h span binding a (List.mem_singleton.1 ha)
  refine Node.inline_call (Node.inline_member (inline_receiver h span) (h _ (by simp [words]))) ?_ ?_
  · exact fun a ha => (harguments a ha).1
  · exact fun a ha => (harguments a ha).2

end Store

theorem printable_of_isIdentifier {w : String} (h : Config.isIdentifier w.toList = true) :
    Printable w.toList := by
  rcases isIdentifier_iff.1 h with hname | hk
  · exact printable_name hname
  · exact fun c hc => isControl_of_isNameChar (isNameChar_of_mem_keywords w hk c hc)

/-- Services have the store that their configuration describes. -/
theorem toStore_of_services {files : FileSystem Id} {config : Config} {services : Services}
    (h : (config.services files).run = .ok services) : config.store.toStore = .ok services.store := by
  unfold Config.services at h
  split at h
  · cases h
  · next store hstore =>
    rw [hstore]
    split at h
    · obtain rfl := Except.ok.inj h
      rfl
    · simp only [bind, pure, Id.run] at h
      split at h
      · cases h
      · obtain rfl := Except.ok.inj h
        rfl

/-! ## Lines -/

theorem Text.splitOn_eq_splitOn (separator : Char) (s : List Char) :
    Text.splitOn separator s = s.splitOn separator := by
  induction s with
  | nil => rfl
  | cons c s ih =>
    rw [Text.splitOn, List.splitOn_cons_eq_if_modifyHead, ih]
    by_cases h : c = separator
    · simp [h]
    · cases hs : s.splitOn separator with
      | nil => exact (List.splitOn_ne_nil _ _ hs).elim
      | cons first rest => simp [h]

/-- The text is made of the lines, with a line feed between each two. They have characters, none of which
is a control character. -/
inductive HasLines : List Char → List (List Char) → Prop
  | one {line : List Char} (printable : Printable line) (nonempty : line ≠ []) : HasLines line [line]
  | more {line rest : List Char} {lines : List (List Char)} (printable : Printable line)
      (nonempty : line ≠ []) (h : HasLines rest lines) : HasLines (line ++ '\n' :: rest) (line :: lines)

namespace HasLines

variable {s t : List Char} {lines more : List (List Char)}

theorem append (hs : HasLines s lines) (ht : HasLines t more) :
    HasLines (s ++ '\n' :: t) (lines ++ more) := by
  induction hs with
  | one printable nonempty => exact .more printable nonempty ht
  | more printable nonempty _ ih =>
    rw [List.append_assoc]
    exact .more printable nonempty ih

theorem printable (h : HasLines s lines) : ∀ line ∈ lines, Printable line := by
  induction h with
  | one printable _ => exact fun line hline => List.mem_singleton.1 hline ▸ printable
  | more printable _ _ ih => exact List.forall_mem_cons.2 ⟨printable, ih⟩

theorem eq_newline_of_isControl (h : HasLines s lines) : ∀ c ∈ s, Text.isControl c = true → c = '\n' := by
  induction h with
  | one printable _ => exact fun c hc hcontrol => absurd (printable c hc) (by simp [hcontrol])
  | more printable _ _ ih =>
    intro c hc hcontrol
    rcases List.mem_append.1 hc with hc | hc
    · exact absurd (printable c hc) (by simp [hcontrol])
    · exact (List.mem_cons.1 hc).elim id fun hc => ih c hc hcontrol

/-- The last line ends the text. -/
theorem exists_last (h : HasLines s lines) :
    ∃ front init last, s = front ++ last ∧ lines = init ++ [last] ∧ Printable last ∧ last ≠ [] := by
  induction h with
  | one printable nonempty => exact ⟨[], [], _, rfl, rfl, printable, nonempty⟩
  | @more line rest lines _ _ _ ih =>
    obtain ⟨front, init, last, rfl, rfl, printable, nonempty⟩ := ih
    exact ⟨line ++ '\n' :: front, line :: init, last, by simp, rfl, printable, nonempty⟩

theorem getLast_ne_newline (h : HasLines s lines) : s.getLast? ≠ some '\n' := by
  obtain ⟨front, -, last, rfl, -, printable, nonempty⟩ := h.exists_last
  rw [List.getLast?_append_of_ne_nil _ nonempty]
  exact fun hlast => printable.newline_notMem (List.mem_of_getLast? hlast)

theorem joinWith_eq (h : HasLines s lines) : joinWith "\n" (lines.map String.ofList) = String.ofList s := by
  induction h with
  | one => rfl
  | @more line rest lines _ _ h ih =>
    obtain ⟨next, lines, rfl⟩ := List.exists_cons_of_ne_nil (by cases h <;> simp : lines ≠ [])
    rw [List.map_cons, List.map_cons, joinWith, ← List.map_cons, ih, ← String.toList_inj]
    simp

theorem splitOn_eq (h : HasLines s lines) : Text.splitOn '\n' s = lines := by
  rw [Text.splitOn_eq_splitOn]
  induction h with
  | one printable _ => exact List.splitOn_eq_singleton printable.newline_notMem
  | more printable _ _ ih =>
    rw [List.splitOn_append_cons_self_of_not_mem printable.newline_notMem, ih]

/-- Cutting the text into lines gives the lines. -/
theorem lines_eq (h : HasLines s lines) : Text.lines s = lines := by
  have hchomp : ∀ line ∈ lines, Text.chomp line = line := by
    intro line hline
    refine if_neg fun hlast => ?_
    have hcontrol := h.printable line hline _ (List.mem_of_getLast? hlast)
    exact Bool.noConfusion hcontrol
  obtain ⟨-, init, last, -, rfl, -, nonempty⟩ := h.exists_last
  have hinit : init.map Text.chomp = init.map id :=
    List.map_congr_left fun line hline => hchomp line (List.mem_append_left _ hline)
  rw [Text.lines, h.splitOn_eq]
  simp [hinit, nonempty]

/-- A report writes each of the lines behind four blanks. -/
theorem indented_eq (h : HasLines s lines) : indented (String.ofList s) =
    String.join (lines.map fun line => "    " ++ String.ofList line ++ "\n") := by
  rw [indented, String.toList_ofList, h.lines_eq]

end HasLines

/-! ## Expansions -/

theorem hasLines_accessor {body : Node} (h : body.Inline) (kind : AccessorKind) (span : Span) :
    ∃ lines, HasLines (Node.accessor span kind [body]).render.toList lines := by
  have hword : Printable ((Render.accessorWord kind).toList ++ [' ', '\x7b']) := by cases kind <;> decide
  have hindent : Printable (indentChars 1) := by decide
  have hbody : Printable (indentChars 1 ++ body.charsAt 1) := printable_append.2 ⟨hindent, h 1⟩
  have hlast : HasLines ['\x7d'] [['\x7d']] := .one (by decide) (by simp)
  have hlines := HasLines.more hword (by simp) (.more hbody (by simp [indentChars, Render.indent]) hlast)
  have htext : (Node.accessor span kind [body]).render.toList = (Render.accessorWord kind).toList ++
      [' ', '\x7b'] ++ '\n' :: (indentChars 1 ++ body.charsAt 1 ++ '\n' :: ['\x7d']) := by
    rw [Node.accessor]
    refine (charsAt_accessor ..).trans ?_
    simp [blockChars, linesChars, indentChars, Render.indent]
  exact ⟨_, htext ▸ hlines⟩

/-- The text of an expansion is made of lines; that of an expression is a single line. -/
theorem exists_hasLines {text : String} {source : Source} {items : List Node} {site : Site}
    {services : Services} {before after : List Diagnostic} {expansion : Expansion}
    (hread : readSource text = .ok items) (hsite : site ∈ Registry.standard.sites source items)
    (hwords : ∀ w ∈ services.store.words, Printable w.toList)
    (hexpand : site.expand Registry.standard services before = (.ok expansion, after)) :
    ∃ lines, HasLines expansion.reportText.toList lines ∧
      ∀ n, expansion = .expression n → lines = [expansion.reportText.toList] := by
  cases expansion with
  | expression n =>
    obtain ⟨hrole, hreplaces⟩ := replaces_of_expand hexpand
    have hreadable := hreplaces.readable fun e => readable_argument hread hsite hrole
    obtain ⟨c, t, htext, -⟩ := charsAt_eq_cons hreadable 0
    rw [Node.charsAt_eraseSpans] at htext
    have hnonempty : (Expansion.expression n).reportText.toList ≠ [] := fun hnil =>
      List.cons_ne_nil c t (htext.symm.trans hnil)
    exact ⟨_, .one (inline_of_readable hreadable rfl 0) hnonempty, fun _ _ => rfl⟩
  | accessors nodes =>
    suffices h : ∃ lines, HasLines (Expansion.accessors nodes).reportText.toList lines by
      obtain ⟨lines, hlines⟩ := h
      exact ⟨lines, hlines, fun n hn => nomatch hn⟩
    obtain rfl | ⟨type, declaration, binding, htype, hdeclaration, hbinding, rfl⟩ :=
      keyValueAccessors_cases (keyValueAccessors_of_expand hexpand)
    · exact ⟨_, .one (by decide +kernel) (by decide +kernel)⟩
    obtain ⟨c, hc, hmark⟩ := readable_declaration hread hsite hdeclaration
    obtain ⟨body, hgetter, hbody⟩ := Store.inline_getter hwords site.node.span binding
      (inline_of_readable (readable_valueType hc hmark htype) rfl)
      fun value hvalue => inline_of_readable (readable_initial hc hbinding hvalue) rfl
    rw [hgetter, Store.setter_eq]
    obtain ⟨front, hfront⟩ := hasLines_accessor hbody .get site.node.span
    obtain ⟨back, hback⟩ :=
      hasLines_accessor (Store.inline_write hwords site.node.span binding) .set site.node.span
    have htext : ∀ getter setter : Node, (Expansion.accessors [getter, setter]).reportText.toList =
        getter.render.toList ++ '\n' :: setter.render.toList := by
      intro getter setter
      rw [Expansion.reportText]
      · simp [Expansion.render, joinWith]
      · simp
    rw [htext]
    exact ⟨_, hfront.append hback⟩

/-! ## Reports -/

/-- The line in front of the expansion of a site. -/
def SiteOutcome.heading (o : SiteOutcome) : String :=
  let (line, column) := o.site.source.position o.site.node.span.start
  o.site.source.name ++ ":" ++ toString line ++ ":" ++ toString column ++ " " ++ o.site.role.sign ++
    o.site.macroName

theorem text_of_ok {o : SiteOutcome} {expansion : Expansion} (h : o.result = .ok expansion) :
    o.text ⟨false⟩ = o.heading ++ "\n" ++ indented expansion.reportText := by
  simp [SiteOutcome.text, SiteOutcome.heading, h, Palette.start, Palette.reset, String.append_assoc]

theorem newline_notMem_heading {r : Registry} {source : Source} {items : List Node} {o : SiteOutcome}
    (hname : '\n' ∉ source.name.toList) (hregistry : ∀ entry ∈ r, ControlFree entry.name)
    (hsite : o.site ∈ r.sites source items) : '\n' ∉ o.heading.toList := by
  obtain ⟨hsource, entry, hentry, hmacro⟩ := named_of_site hsite
  have hfree : ∀ {s : String}, ControlFree s → '\n' ∉ s.toList := Printable.newline_notMem
  have hmacro : '\n' ∉ o.site.macroName.toList := hmacro ▸ hfree (hregistry entry hentry)
  have hsign : '\n' ∉ o.site.role.sign.toList := by cases o.site.role <;> decide
  have hnumber : ∀ n, '\n' ∉ Nat.toDigits 10 n := by
    intro n
    rw [← String.toList_ofList (l := Nat.toDigits 10 n), ← Nat.repr_eq_ofList_toDigits]
    exact hfree (controlFree_repr n)
  simp [SiteOutcome.heading, hsource, hname, hmacro, hsign, hnumber]

/-- The outcomes of a batch are what its sites expand to. -/
theorem expand_of_batch {r : Registry} {services : Services} {sites : List Site}
    {outcomes : List SiteOutcome} (hbatch : expandAll r services sites = .ok outcomes) :
    ∀ o ∈ outcomes, o.site ∈ sites ∧ o.site.expand r services [] = (o.result, o.diagnostics) := by
  intro o ho
  obtain ⟨site, hsite, rfl, hexpand, -⟩ := (partners_of_forall₂ (expandAll_eq_ok_iff.1 hbatch)).2 o ho
  exact ⟨hsite, hexpand⟩

/-- Nothing of an expansion is lost where it is printed. Its text is not empty, has no control characters
but line feeds, none of them at its end, and none at all if it is an expression. Below the line with the
place of the site a report has the lines of this text, each behind four blanks; put together again, they
are what the JSON report says. -/
theorem printed_expansion_lossless {source : Source} {items : List Node} {files : FileSystem Id}
    {config : Config} {services : Services} {outcomes : List SiteOutcome} {o : SiteOutcome}
    {expansion : Expansion} (hname : '\n' ∉ source.name.toList)
    (hread : readSource source.content = .ok items)
    (hservices : (config.services files).run = .ok services)
    (hbatch : expandAll Registry.standard services (Registry.standard.sites source items) = .ok outcomes)
    (ho : o ∈ outcomes) (hresult : o.result = .ok expansion) :
    expansion.reportText ≠ "" ∧
      (∀ c ∈ expansion.reportText.toList, Text.isControl c = true → c = '\n') ∧
      expansion.reportText.toList.getLast? ≠ some '\n' ∧
      (∀ n, expansion = .expression n → '\n' ∉ expansion.reportText.toList) ∧
      '\n' ∉ o.heading.toList ∧
      ∃ lines : List String, (∀ line ∈ lines, '\n' ∉ line.toList) ∧
        o.text ⟨false⟩ = o.heading ++ "\n" ++ String.join (lines.map fun line => "    " ++ line ++ "\n") ∧
        joinWith "\n" lines = expansion.reportText ∧
        o.toJson.field? "expansion" = some (.str expansion.reportText) := by
  obtain ⟨hsite, hexpand⟩ := expand_of_batch hbatch o ho
  rw [hresult] at hexpand
  have hwords : ∀ w ∈ services.store.words, Printable w.toList := fun w hw =>
    printable_of_isIdentifier (StoreSettings.isIdentifier_of_toStore (toStore_of_services hservices) w hw)
  obtain ⟨lines, hlines, hone⟩ := exists_hasLines hread hsite hwords hexpand
  have hindented := hlines.indented_eq
  have hjoined := hlines.joinWith_eq
  rw [String.ofList_toList] at hindented hjoined
  refine ⟨?_, hlines.eq_newline_of_isControl, hlines.getLast_ne_newline, fun n hn => ?_,
    newline_notMem_heading hname controlFree_standard hsite, lines.map String.ofList, ?_, ?_, hjoined, ?_⟩
  · rintro hempty
    obtain ⟨front, -, last, htext, -, -, nonempty⟩ := hlines.exists_last
    rw [hempty] at htext
    exact nonempty (List.append_eq_nil_iff.1 htext.symm).2
  · rw [hone n hn] at hlines
    exact (hlines.printable _ List.mem_cons_self).newline_notMem
  · refine List.forall_mem_map.2 fun line hline => ?_
    rw [String.toList_ofList]
    exact (hlines.printable line hline).newline_notMem
  · rw [text_of_ok hresult, hindented, List.map_map]
    rfl
  · simp [SiteOutcome.toJson, hresult, Json.field?]

/-- Whether a use in the text has an expansion with the given text. -/
def hasExpanded (source : Source) (services : Services) (text : String) : Bool :=
  okAnd (readSource source.content) fun items =>
    okAnd (expandAll Registry.standard services (Registry.standard.sites source items)) fun outcomes =>
      outcomes.any fun o => okAnd o.result fun expansion => expansion.reportText == text

theorem exists_of_hasExpanded {source : Source} {services : Services} {text : String}
    (h : hasExpanded source services text = true) : ∃ items outcomes o expansion,
      readSource source.content = .ok items ∧
      expandAll Registry.standard services (Registry.standard.sites source items) = .ok outcomes ∧
      o ∈ outcomes ∧ o.result = .ok expansion ∧ expansion.reportText = text := by
  obtain ⟨items, hitems, h⟩ := exists_of_okAnd h
  obtain ⟨outcomes, houtcomes, h⟩ := exists_of_okAnd h
  obtain ⟨o, ho, h⟩ := List.any_eq_true.1 h
  obtain ⟨expansion, hexpansion, h⟩ := exists_of_okAnd h
  exact ⟨items, outcomes, o, expansion, hitems, houtcomes, ho, hexpansion, beq_iff_eq.1 h⟩

theorem printed_expansion_lossless_escape : ∃ items outcomes o expansion lines,
    readSource "@iCloudKeyValue<String> var x = \"a\\n\"" = .ok items ∧
    (Config.services (FileTable.system ⟨[]⟩) default).run = .ok default ∧
    expandAll Registry.standard default (Registry.standard.sites
      ⟨"f", "@iCloudKeyValue<String> var x = \"a\\n\""⟩ items) = .ok outcomes ∧
    o ∈ outcomes ∧ o.result = .ok expansion ∧
    o.text ⟨false⟩ = o.heading ++ "\n" ++ String.join (lines.map fun line => "    " ++ line ++ "\n") ∧
    joinWith "\n" lines = expansion.reportText ∧ expansion.reportText =
      "get \x7b\n    (NSUbiquitousKeyValueStore.default.object(forKey: \"x\") as? String) ?? \"a\\n\"\n" ++
        "\x7d\nset \x7b\n    NSUbiquitousKeyValueStore.default.set(newValue, forKey: \"x\")\n\x7d" := by
  obtain ⟨items, outcomes, o, expansion, hitems, houtcomes, ho, hresult, htext⟩ := exists_of_hasExpanded
    (by decide +kernel : hasExpanded ⟨"f", "@iCloudKeyValue<String> var x = \"a\\n\""⟩ default
      ("get \x7b\n    (NSUbiquitousKeyValueStore.default.object(forKey: \"x\") as? String) ?? \"a\\n\"\n" ++
        "\x7d\nset \x7b\n    NSUbiquitousKeyValueStore.default.set(newValue, forKey: \"x\")\n\x7d") = true)
  have hservices : (Config.services (FileTable.system ⟨[]⟩) default).run = .ok default := by
    have hstore : (default : Config).store.toStore = .ok default := by decide +kernel
    unfold Config.services
    rw [hstore]
    rfl
  obtain ⟨-, -, -, -, -, lines, -, hlines, hjoined, -⟩ :=
    printed_expansion_lossless (by decide) hitems hservices houtcomes ho hresult
  exact ⟨items, outcomes, o, expansion, lines, hitems, hservices, houtcomes, ho, hresult, hlines, hjoined,
    htext⟩

end SwiftMacro
