import SwiftMacro.Proofs.Getter
/-!
# The accessors of a stored variable

A variable of the store gets a getter and a setter, or nothing at all. Where the words of the store are
names of the grammar, both are read back from their texts: each as an accessor of its kind with one
statement, and with the same text again (`accessors_reread`).

An accessor holds a value from the source behind `??`, so what is read back need not be the node that
was written. It is enough that the text is that of some node which the grammar makes: `Node.Legible`.
-/

namespace SwiftMacro

/-! ## Texts that the grammar makes -/

theorem argumentsChars_eraseSpans (arguments : List (Argument Node)) :
    argumentsChars (arguments.map (·.map Node.eraseSpans)) = argumentsChars arguments := by
  have hone : ∀ a : Argument Node, (a.map Node.eraseSpans).chars = a.chars := by
    rintro ⟨label, e⟩
    cases label <;> simp [Argument.map, Argument.chars, Node.charsAt_eraseSpans]
  cases arguments with
  | nil => rfl
  | cons a as => simp [argumentsChars, commaChars, List.flatMap_map, hone]

namespace Node

/-- The text of the node is that of one which the grammar makes in the place. -/
def Legible (c : Category) (n : Node) : Prop := ∃ m, Readable c m ∧ ∀ d, m.charsAt d = n.charsAt d

namespace Legible

variable {c : Category} {n base lhs value : Node} {span : Span}

theorem of_readable (h : Readable c n.eraseSpans) : n.Legible c := ⟨_, h, fun d => charsAt_eraseSpans d n⟩

theorem expression_of_operand (h : n.Legible .operand) : n.Legible .expression := by
  obtain ⟨m, hm, htext⟩ := h
  exact ⟨m, .ofUnary (.ofOperand hm), htext⟩

theorem member (h : base.Legible .operand) {word : String} (hword : IsName word.toList) :
    (Node.member span base word).Legible .operand := by
  obtain ⟨m, hm, htext⟩ := h
  refine ⟨⟨.memberAccess (some m) word, default⟩, .member hm hword, fun d => ?_⟩
  rw [Node.member, charsAt_member, charsAt_member, htext]

theorem call (h : base.Legible .operand) {arguments : List (Argument Node)}
    (labels : ∀ a ∈ arguments, ∀ l ∈ a.label, IsName l.toList)
    (inner : ∀ a ∈ arguments, Readable .expression a.expression.eraseSpans) :
    (Node.call span base arguments).Legible .operand := by
  obtain ⟨m, hm, htext⟩ := h
  refine ⟨⟨.call m (arguments.map (·.map eraseSpans)), default⟩, .call hm ?_ ?_, fun d => ?_⟩
  · exact List.forall_mem_map.2 labels
  · exact List.forall_mem_map.2 inner
  · rw [Node.call, charsAt_call, charsAt_call, htext, argumentsChars_eraseSpans]

theorem cast (h : value.Legible .expression) (kind : CastKind) {target : Node}
    (htarget : Readable .type target.eraseSpans) :
    (Node.cast span value kind target).Legible .expression := by
  obtain ⟨m, hm, htext⟩ := h
  refine ⟨⟨.cast m kind target.eraseSpans, default⟩, .cast hm htarget, fun d => ?_⟩
  rw [Node.cast, charsAt_cast, charsAt_cast, htext, charsAt_eraseSpans]

theorem parenthesized (h : n.Legible .expression) : (Node.parenthesized span n).Legible .operand := by
  obtain ⟨m, hm, htext⟩ := h
  refine ⟨⟨.tuple [.plain m], default⟩, .ofPrimary (.tuple ?_ ?_), fun d => ?_⟩
  · intro a ha l hl
    obtain rfl := List.mem_singleton.1 ha
    cases hl
  · intro a ha
    obtain rfl := List.mem_singleton.1 ha
    exact hm
  · have hargument : (Argument.plain m).chars = (Argument.plain n).chars := htext 0
    rw [Node.parenthesized, Node.tuple, charsAt_tuple, charsAt_tuple, argumentsChars, argumentsChars,
      commaChars, commaChars, hargument]

/-- The operators are read in a flat chain, but the text is the same. -/
theorem coalesce (hlhs : lhs.Legible .expression) (hvalue : value.Legible .expression) :
    (Node.binary span lhs "??" value).Legible .expression := by
  obtain ⟨l, hl, hltext⟩ := hlhs
  obtain ⟨v, hv, hvtext⟩ := hvalue
  refine ⟨l.coalesce v, hl.coalesce hv, fun d => ?_⟩
  rw [charsAt_coalesce d l v default, Node.binary, charsAt_binary, charsAt_binary, hltext, hvtext]

end Legible
end Node

/-! ## Words of a store -/

/-- The rule matches the whole word. -/
def Rule.TakesWhole (r : Rule) (w : String) : Prop :=
  sourceGrammar.Accepts .spaced (.rule r) w.toList []

theorem takesWhole_identifier_iff {w : String} : Rule.identifier.TakesWhole w ↔ IsName w.toList := by
  rw [Rule.TakesWhole, accepts_identifier]
  constructor
  · rintro ⟨v, hv, hw, -⟩
    rw [hw, List.append_nil]
    exact hv
  · intro h
    exact ⟨w.toList, h, (List.append_nil _).symm, stops_nil _⟩

/-- The word is an operand: a name or a literal. -/
def IsOperandWord (w : String) : Prop := IsName w.toList ∨ w ∈ literalWords

theorem legible_identifier {w : String} (h : IsOperandWord w) (span : Span) :
    (Node.identifier span w).Legible .operand := by
  rcases h with h | h
  · exact .of_readable (.ofPrimary (.identifier h))
  · have htext : ∀ d, (Node.identifier span w).charsAt d = w.toList := fun d => charsAt_identifier d span w
    simp only [literalWords, List.mem_cons, List.not_mem_nil, or_false] at h
    rcases h with rfl | rfl | rfl
    · exact ⟨_, .ofPrimary .nil, fun d => (charsAt_nil d default).trans (htext d).symm⟩
    · exact ⟨_, .ofPrimary (.boolean true), fun d => (charsAt_boolean d default true).trans (htext d).symm⟩
    · exact ⟨_, .ofPrimary (.boolean false), fun d => (charsAt_boolean d default false).trans (htext d).symm⟩

namespace Store

/-- The words of accessors that come from the store. -/
def words (store : Store) : List String :=
  store.root :: store.members ++ [store.readMethod, store.writeMethod, store.keyLabel]

/-- Accessors can be read with the words of the store: the path may start with a literal, and all other
words are names. -/
structure Usable (store : Store) : Prop where
  root : IsOperandWord store.root
  members : ∀ w ∈ store.members, IsName w.toList
  readMethod : IsName store.readMethod.toList
  writeMethod : IsName store.writeMethod.toList
  keyLabel : IsName store.keyLabel.toList

theorem usable_of_names {store : Store} (h : ∀ w ∈ store.words, IsName w.toList) : store.Usable where
  root := .inl (h _ List.mem_cons_self)
  members w hw := h w (List.mem_cons_of_mem _ (List.mem_append_left _ hw))
  readMethod := h _ (List.mem_cons_of_mem _ (List.mem_append_right _ (by simp)))
  writeMethod := h _ (List.mem_cons_of_mem _ (List.mem_append_right _ (by simp)))
  keyLabel := h _ (List.mem_cons_of_mem _ (List.mem_append_right _ (by simp)))

/-- A getter reads the store, and falls back on a value or on none. -/
theorem getter_cases (store : Store) (span : Span) (type : ValueType) (binding : Binding) :
    store.getter span type binding = .accessor span .get [store.typedRead span type binding] ∨
      ∃ value, fallback span type binding = some value ∧ store.getter span type binding =
        .accessor span .get [.binary span (store.typedRead span type binding) "??" value] := by
  cases hfallback : fallback span type binding with
  | none => exact .inl (by rw [getter, hfallback]; rfl)
  | some value => exact .inr ⟨value, rfl, by rw [getter, hfallback]; rfl⟩

/-- `store.write(newValue, key: "name")` -/
def write (store : Store) (span : Span) (binding : Binding) : Node :=
  .call span (.member span (store.receiver span) store.writeMethod)
    [.plain (.identifier span "newValue"), store.key span binding]

theorem setter_eq (store : Store) (span : Span) (binding : Binding) :
    store.setter span binding = .accessor span .set [store.write span binding] := rfl

theorem legible_memberChain {members : List String} (h : ∀ w ∈ members, IsName w.toList)
    (span : Span) {base : Node} (hbase : base.Legible .operand) :
    (members.foldl (Node.member span) base).Legible .operand := by
  induction members generalizing base with
  | nil => exact hbase
  | cons w ws ih =>
    exact ih (fun v hv => h v (List.mem_cons_of_mem w hv)) (hbase.member (h w List.mem_cons_self))

theorem legible_receiver {store : Store} (hroot : IsOperandWord store.root)
    (hmembers : ∀ w ∈ store.members, IsName w.toList) (span : Span) :
    (store.receiver span).Legible .operand :=
  legible_memberChain hmembers span (legible_identifier hroot span)

variable {store : Store} (h : store.Usable)

include h

theorem legible_typedRead (span : Span) {type : ValueType} (binding : Binding)
    (htype : Readable .type type.type.eraseSpans) :
    (store.typedRead span type binding).Legible .expression := by
  refine (Node.Legible.cast (.expression_of_operand ?_) .conditional
    htype).parenthesized.expression_of_operand
  refine ((legible_receiver h.root h.members span).member h.readMethod).call ?_ ?_
  · intro a ha l hl
    obtain rfl := List.mem_singleton.1 ha
    obtain rfl := Option.some.inj hl
    exact h.keyLabel
  · intro a ha
    obtain rfl := List.mem_singleton.1 ha
    exact (readable_text binding.name).expression_of_primary

/-- The one statement of the getter. -/
theorem legible_getter (span : Span) {type : ValueType} {binding : Binding}
    (htype : Readable .type type.type.eraseSpans)
    (hinitial : ∀ value ∈ binding.initial, Readable .expression value.eraseSpans) :
    ∃ body, store.getter span type binding = .accessor span .get [body] ∧ body.Legible .expression := by
  have hread := legible_typedRead h span binding htype
  obtain hgetter | ⟨value, hfallback, hgetter⟩ := getter_cases store span type binding
  · exact ⟨_, hgetter, hread⟩
  · refine ⟨_, hgetter, hread.coalesce ?_⟩
    rw [fallback] at hfallback
    split at hfallback
    · obtain rfl := Option.some.inj hfallback
      exact .of_readable Readable.nil.expression_of_primary
    · exact .of_readable (hinitial value hfallback)

theorem legible_write (span : Span) (binding : Binding) :
    (store.write span binding).Legible .expression := by
  refine .expression_of_operand ?_
  refine ((legible_receiver h.root h.members span).member h.writeMethod).call ?_ ?_
  · intro a ha l hl
    simp only [List.mem_cons, List.not_mem_nil, or_false] at ha
    rcases ha with rfl | rfl
    · cases hl
    · obtain rfl := Option.some.inj hl
      exact h.keyLabel
  · intro a ha
    simp only [List.mem_cons, List.not_mem_nil, or_false] at ha
    rcases ha with rfl | rfl
    · have hname : IsName "newValue".toList := by decide
      exact (Readable.identifier hname).expression_of_primary
    · exact (readable_text binding.name).expression_of_primary

end Store

/-! ## Accessors that are read back -/

/-- The node is an accessor of the kind, and so is what is read from its text: with one statement, and
with the same text again. -/
def Node.Rereads (n : Node) (kind : AccessorKind) : Prop :=
  (∃ body, n.shape = .accessor kind body) ∧
    ∃ m s, readAccessor n.render = .ok m ∧ m.shape = .accessor kind [s] ∧ m.render = n.render

theorem rereads_of_legible {body : Node} (h : body.Legible .expression) (kind : AccessorKind)
    (span : Span) : (Node.accessor span kind [body]).Rereads kind := by
  obtain ⟨value, hvalue, htext⟩ := h
  obtain ⟨m, hm, heq, hrender⟩ := readAccessor_of_charsAt hvalue (htext 1) kind span
  obtain ⟨shape, place⟩ := m
  rw [Node.eraseSpans_mk] at heq
  cases shape with
  | accessor kind' body' =>
    obtain ⟨rfl, hbody⟩ := Shape.accessor.inj (congrArg Node.shape heq)
    obtain ⟨s, rfl, -⟩ := List.map_eq_singleton_iff.1 hbody
    exact ⟨⟨_, rfl⟩, _, s, hm, rfl, hrender⟩
  | _ => cases heq

/-- The declaration of a site is one that the grammar makes, and has the attribute. -/
theorem readable_declaration {text : String} {source : Source} {items : List Node} {site : Site}
    {declaration : Node} (hread : readSource text = .ok items)
    (hsite : site ∈ Registry.standard.sites source items) (hd : site.declaration = some declaration) :
    ∃ c, Readable c declaration.eraseSpans ∧ site.node ∈ declaration.attributes := by
  obtain ⟨item, hitem, hn, hmark⟩ := attribute_of_site hsite hd
  obtain ⟨c, hc⟩ := readable_of_mem_preorder (readable_of_readChars hread item hitem) hn
  exact ⟨c, hc, hmark⟩

/-- With a usable store, the accessors of a site are none, or a getter and a setter that are read
back. -/
theorem rereads_of_usable {text : String} {source : Source} {items : List Node} {site : Site}
    {services : Services} {accessors : List Node} (hread : readSource text = .ok items)
    (hsite : site ∈ Registry.standard.sites source items)
    (haccessors : keyValueAccessors site services = .ok accessors) (hstore : services.store.Usable) :
    accessors = [] ∨ ∃ getter setter, accessors = [getter, setter] ∧ getter.Rereads .get ∧
      setter.Rereads .set := by
  obtain rfl | ⟨type, declaration, binding, htype, hdeclaration, hbinding, rfl⟩ :=
    keyValueAccessors_cases haccessors
  · exact .inl rfl
  obtain ⟨c, hc, hmark⟩ := readable_declaration hread hsite hdeclaration
  obtain ⟨getterBody, hgetter, hgetterText⟩ := Store.legible_getter hstore site.node.span
    (readable_valueType hc hmark htype) fun value hvalue => readable_initial hc hbinding hvalue
  refine .inr ⟨_, _, rfl, ?_, ?_⟩
  · rw [hgetter]
    exact rereads_of_legible hgetterText .get _
  · rw [Store.setter_eq]
    exact rereads_of_legible (Store.legible_write hstore site.node.span binding) .set _

/-- A macro for accessors has accessors as its expansion. -/
theorem exists_accessors_of_expand {site : Site} {services : Services} {before after : List Diagnostic}
    {expansion : Expansion} (hmark : site.macroName = "iCloudKeyValue")
    (hexpand : site.expand Registry.standard services before = (.ok expansion, after)) :
    ∃ accessors, expansion = .accessors accessors ∧ keyValueAccessors site services = .ok accessors := by
  obtain ⟨entry, hmem, hname, h⟩ := handler_of_expand hexpand
  rw [hmark] at hname
  simp only [Registry.standard, List.mem_cons, List.not_mem_nil, or_false] at hmem
  rcases hmem with rfl | rfl | rfl | rfl
  · exact absurd hname (by decide)
  · exact absurd hname (by decide)
  · exact absurd hname (by decide)
  · obtain ⟨_, _, hhandler, -⟩ | ⟨_, accessors, -, -, -, rfl⟩ := h
    · cases hhandler
    · exact ⟨accessors, rfl, keyValueAccessors_of_expand hexpand⟩

/-- An expansion of `@iCloudKeyValue` adds nothing, or exactly a getter and a setter. If the words of
the store are identifiers of the grammar, the text of each is read as an accessor of its kind with one
statement, and shows the same text again. -/
theorem accessors_reread {text : String} {source : Source} {items : List Node} {site : Site}
    {services : Services} {before after : List Diagnostic} {expansion : Expansion}
    (hread : readSource text = .ok items) (hsite : site ∈ Registry.standard.sites source items)
    (hmark : site.macroName = "iCloudKeyValue")
    (hwords : ∀ w ∈ services.store.words, Rule.identifier.TakesWhole w)
    (hexpand : site.expand Registry.standard services before = (.ok expansion, after)) :
    expansion = .accessors [] ∨ ∃ getter setter, expansion = .accessors [getter, setter] ∧
      getter.Rereads .get ∧ setter.Rereads .set := by
  have hstore : services.store.Usable := Store.usable_of_names fun w hw =>
    takesWhole_identifier_iff.1 (hwords w hw)
  obtain ⟨accessors, rfl, haccessors⟩ := exists_accessors_of_expand hmark hexpand
  obtain rfl | ⟨getter, setter, rfl, hgetter, hsetter⟩ := rereads_of_usable hread hsite haccessors hstore
  · exact .inl rfl
  · exact .inr ⟨getter, setter, rfl, hgetter, hsetter⟩

theorem accessors_reread_chain :
    ∃ items site getter setter,
      readSource "@iCloudKeyValue<Int> var lazy = -a + b as? T" = .ok items ∧
      site ∈ Registry.standard.sites default items ∧
      site.expand Registry.standard default [] = (.ok (.accessors [getter, setter]), []) ∧
      getter.Rereads .get ∧ setter.Rereads .set := by
  have h : oneAnd (readSource "@iCloudKeyValue<Int> var lazy = -a + b as? T") (fun declaration =>
      declaration.storedAnd fun _ _ _ _ => true) = true := by decide +kernel
  obtain ⟨declaration, hread, h⟩ := exists_of_oneAnd h
  obtain ⟨mark, type, binding, initial, hmark, hname, htype, -, hbinding, -⟩ := exists_of_storedAnd h
  have hsite := mem_sites_of_attribute default hmark hname
  have hexpand := expand_attribute default htype hbinding []
  have hwords : ∀ w ∈ (Services.store default).words, Rule.identifier.TakesWhole w := by
    simp only [takesWhole_identifier_iff]
    decide
  obtain hnone | ⟨getter, setter, heq, hgetter, hsetter⟩ :=
    accessors_reread hread hsite rfl hwords hexpand
  · cases hnone
  · exact ⟨_, _, getter, setter, hread, hsite, by rw [hexpand, heq], hgetter, hsetter⟩

end SwiftMacro
