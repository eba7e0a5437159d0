import SwiftMacro.Proofs.Replacement
import SwiftMacro.Proofs.Reprinting
/-!
# What a getter falls back on

The getter of a stored variable writes `??` and the initial value behind a read of the store, without
parentheses. Operators form a flat chain, so if the initial value is a chain of its own, only its first
operand is read as the fallback, and the rest of it is applied to the whole (`getter_falls_back_iff`).
-/

namespace SwiftMacro

/-! ## A value behind an operator -/

namespace Node

/-- The value as it is read behind `lhs ??`: the operator takes its first operand. -/
def coalesce (lhs value : Node) : Node := value.mapFirst fun first => ⟨.binary lhs "??" first, default⟩

theorem coalesce_of_isOperand {lhs value : Node} (h : value.isOperand = true) :
    lhs.coalesce value = ⟨.binary lhs "??" value, default⟩ := mapFirst_of_isOperand _ h

theorem charsAt_eraseSpans (d : Nat) (n : Node) : n.eraseSpans.charsAt d = n.charsAt d :=
  congrArg String.toList (renderAt_mapSpans _ d n)

/-- The text shows nothing of how the operators are grouped. -/
theorem charsAt_coalesce (d : Nat) (lhs value : Node) (span : Span) :
    (lhs.coalesce value).charsAt d = (⟨.binary lhs "??" value, span⟩ : Node).charsAt d := by
  induction value using induct with
  | step value ih =>
    have hoperand : value.isOperand = true → (lhs.coalesce value).charsAt d =
        (⟨.binary lhs "??" value, span⟩ : Node).charsAt d := by
      intro h
      rw [coalesce_of_isOperand h, charsAt_binary, charsAt_binary]
    obtain ⟨shape, place⟩ := value
    cases shape with
    | binary left operator right =>
      have hleft := ih left List.mem_cons_self
      have hchain : lhs.coalesce ⟨.binary left operator right, place⟩ =
          ⟨.binary (lhs.coalesce left) operator right, place⟩ := rfl
      rw [hchain, charsAt_binary, hleft, charsAt_binary, charsAt_binary, charsAt_binary]
      simp
    | cast left kind target =>
      have hleft := ih left List.mem_cons_self
      have hchain : lhs.coalesce ⟨.cast left kind target, place⟩ =
          ⟨.cast (lhs.coalesce left) kind target, place⟩ := rfl
      rw [hchain, charsAt_cast, hleft, charsAt_binary, charsAt_binary, charsAt_cast]
      simp
    | _ => exact hoperand rfl

theorem isOperand_eraseSpans (n : Node) : n.eraseSpans.isOperand = n.isOperand := by
  obtain ⟨shape, span⟩ := n
  rw [eraseSpans_mk]
  cases shape <;> rfl

end Node

theorem Readable.isOperand {n : Node} (h : Readable .unary n) : n.isOperand = true := by
  cases h with
  | prefixed => rfl
  | ofOperand h =>
    cases h with
    | call | member | unwrap => rfl
    | ofPrimary h => cases h <;> rfl

theorem Readable.coalesce {lhs value : Node} (hlhs : Readable .expression lhs)
    (h : Readable .expression value) : Readable .expression (lhs.coalesce value) := by
  generalize hc : Category.expression = c at h
  induction h with
  | ofUnary h =>
    rw [Node.coalesce_of_isOperand h.isOperand]
    exact .binary hlhs (by decide) h
  | binary _ known right ih => exact .binary (ih rfl) known right
  | cast _ right ih => exact .cast (ih rfl) right
  | _ => cases hc

/-! ## The read of the store -/

namespace Store

/-- `(store.read(key: "name") as? T)` -/
def typedRead (store : Store) (span : Span) (type : ValueType) (binding : Binding) : Node :=
  .parenthesized span (.cast span (.call span (.member span (store.receiver span) store.readMethod)
    [store.key span binding]) .conditional type.type)

theorem getter_eq (store : Store) (span : Span) {type : ValueType} {binding : Binding} {initial : Node}
    (htype : type.optional = false) (hinitial : binding.initial = some initial) :
    store.getter span type binding =
      .accessor span .get [.binary span (store.typedRead span type binding) "??" initial] := by
  unfold getter fallback
  simp only [htype, hinitial]
  rfl

/-- The words that a read of the store is made of are names. -/
def HasNames (store : Store) : Prop :=
  ∀ w ∈ store.root :: store.readMethod :: store.keyLabel :: store.members, IsName w.toList

theorem hasNames_default : HasNames default := by
  unfold HasNames
  decide

theorem readable_memberChain (span : Span) {members : List String}
    (h : ∀ w ∈ members, IsName w.toList) {base : Node} (hbase : Readable .operand base.eraseSpans) :
    Readable .operand (members.foldl (Node.member span) base).eraseSpans := by
  induction members generalizing base with
  | nil => exact hbase
  | cons w ws ih =>
    refine ih (fun v hv => h v (List.mem_cons_of_mem w hv)) ?_
    exact .member hbase (h w List.mem_cons_self)

theorem readable_typedRead {store : Store} (h : store.HasNames) (span : Span) {type : ValueType}
    (binding : Binding) (htype : Readable .type type.type.eraseSpans) :
    Readable .expression (store.typedRead span type binding).eraseSpans := by
  have hroot : Readable .operand (Node.identifier span store.root).eraseSpans :=
    .ofPrimary (.identifier (h _ List.mem_cons_self))
  have hreceiver : Readable .operand (store.receiver span).eraseSpans := by
    refine readable_memberChain span (fun w hw => h w ?_) hroot
    simp [hw]
  have hread : Readable .operand (Node.call span
      (.member span (store.receiver span) store.readMethod) [store.key span binding]).eraseSpans := by
    refine .call (.member hreceiver (h _ (by simp))) ?_ ?_
    · intro a ha l hl
      obtain rfl := List.mem_singleton.1 ha
      obtain rfl := Option.some.inj hl
      exact h _ (by simp)
    · intro a ha
      obtain rfl := List.mem_singleton.1 ha
      exact (readable_text binding.name).expression_of_primary
  refine (Readable.tuple ?_ ?_).expression_of_primary
  · intro a ha l hl
    obtain rfl := List.mem_singleton.1 ha
    cases hl
  · intro a ha
    obtain rfl := List.mem_singleton.1 ha
    exact .cast (.ofUnary (.ofOperand hread)) htype

end Store

/-! ## The getter -/

/-- A getter of one statement, which is the left operand or else the whole of the value. -/
def FallsBackOn (getter lhs value : Node) : Prop :=
  ∃ body left right, getter.shape = .accessor .get [body] ∧ body.shape = .binary left "??" right ∧
    left.eraseSpans = lhs.eraseSpans ∧ right.eraseSpans = value.eraseSpans

/-- An accessor of one statement whose text is that of an expression is read with the expression. -/
theorem readAccessor_of_charsAt {value body : Node} (hvalue : Readable .expression value)
    (htext : value.charsAt 1 = body.charsAt 1) (kind : AccessorKind) (span : Span) :
    ∃ m, readAccessor (Node.accessor span kind [body]).render = .ok m ∧
      m.eraseSpans = ⟨.accessor kind [value], default⟩ ∧
      m.render = (Node.accessor span kind [body]).render := by
  have hread : Readable .accessor ⟨.accessor kind [value], default⟩ := by
    refine .accessor fun s hs => ?_
    obtain rfl := List.mem_singleton.1 hs
    exact .ofExpression hvalue
  have hrender : (⟨.accessor kind [value], default⟩ : Node).render =
      (Node.accessor span kind [body]).render := by
    refine String.toList_inj.1 ?_
    change Node.charsAt 0 _ = Node.charsAt 0 _
    rw [Node.accessor, charsAt_accessor, charsAt_accessor]
    simp only [blockChars, linesChars, List.flatMap_cons, List.flatMap_nil, htext]
  obtain ⟨m, hm, hjoin⟩ := readAccessor_render hread
  rw [hrender] at hm
  have heq : m.eraseSpans = ⟨.accessor kind [value], default⟩ := by
    rw [hjoin, join_accessor, List.map_singleton, hvalue.join_eq rfl]
    rfl
  refine ⟨m, hm, heq, ?_⟩
  rw [← Node.render_eraseSpans m, heq, hrender]

/-- The text of a getter is read with the operators in a flat chain. -/
theorem readAccessor_getter {lhs value : Node} (hlhs : Readable .expression lhs.eraseSpans)
    (hvalue : Readable .expression value.eraseSpans) (span span' : Span) :
    ∃ m, readAccessor (Node.accessor span .get [.binary span' lhs "??" value]).render = .ok m ∧
      m.eraseSpans = ⟨.accessor .get [lhs.eraseSpans.coalesce value.eraseSpans], default⟩ := by
  have htext : (lhs.eraseSpans.coalesce value.eraseSpans).charsAt 1 =
      (Node.binary span' lhs "??" value).charsAt 1 := by
    rw [Node.charsAt_coalesce 1 _ _ default, Node.binary, charsAt_binary, charsAt_binary,
      Node.charsAt_eraseSpans, Node.charsAt_eraseSpans]
  obtain ⟨m, hm, heq, -⟩ := readAccessor_of_charsAt (hlhs.coalesce hvalue) htext .get span
  exact ⟨m, hm, heq⟩

theorem fallsBackOn_iff_eraseSpans {getter lhs value : Node} : FallsBackOn getter lhs value ↔
    getter.eraseSpans =
      ⟨.accessor .get [⟨.binary lhs.eraseSpans "??" value.eraseSpans, default⟩], default⟩ := by
  obtain ⟨shape, span⟩ := getter
  constructor
  · rintro ⟨⟨_, _⟩, left, right, rfl, rfl, hleft, hright⟩
    simp [Node.eraseSpans_mk, Shape.map, hleft, hright]
  · intro h
    rw [Node.eraseSpans_mk] at h
    cases shape with
    | accessor kind body =>
      simp only [Shape.map, Node.mk.injEq, Shape.accessor.injEq, and_true] at h
      obtain ⟨rfl, hbody⟩ := h
      obtain ⟨⟨statement, place⟩, rfl, hstatement⟩ := List.map_eq_singleton_iff.1 hbody
      rw [Node.eraseSpans_mk] at hstatement
      cases statement with
      | binary left operator right =>
        simp only [Shape.map, Node.mk.injEq, Shape.binary.injEq, and_true] at hstatement
        obtain ⟨hleft, rfl, hright⟩ := hstatement
        exact ⟨_, left, right, rfl, rfl, hleft, hright⟩
      | _ => cases hstatement
    | _ => cases h

/-- An operator takes the whole of a value that is no chain, and only of such a value. -/
theorem coalesce_eq_iff (lhs : Node) {value : Node} (h : Readable .expression value) :
    lhs.coalesce value = ⟨.binary lhs "??" value, default⟩ ↔ value.isOperand = true := by
  refine ⟨fun hchain => ?_, Node.coalesce_of_isOperand⟩
  cases h with
  | ofUnary h => exact h.isOperand
  | @binary left right operator _ known hright =>
    -- The right operand of the chain would be the whole chain.
    have heq : right = ⟨.binary left operator right, default⟩ :=
      (Shape.binary.inj (congrArg Node.shape hchain)).2.2
    have hoperand := hright.isOperand
    rw [heq] at hoperand
    cases hoperand
  | cast => cases hchain

theorem fallsBackOn_iff {m lhs value : Node} (hvalue : Readable .expression value.eraseSpans)
    (hm : m.eraseSpans = ⟨.accessor .get [lhs.eraseSpans.coalesce value.eraseSpans], default⟩) :
    FallsBackOn m lhs value ↔ value.isOperand = true := by
  rw [fallsBackOn_iff_eraseSpans, hm, ← Node.isOperand_eraseSpans,
    ← coalesce_eq_iff lhs.eraseSpans hvalue]
  simp

/-! ## What the macro takes from its site -/

theorem Readable.attributes {c : Category} {n : Node} (h : Readable c n) :
    ∀ a ∈ n.attributes, Readable .attr a := by
  induction h with
  | ofPrimary _ ih | ofOperand _ ih | ofUnary _ ih | ofExpression _ ih => exact ih
  | variableDecl front | functionDecl front => exact front
  | _ => exact fun _ ha => nomatch ha

theorem Readable.useGenerics {c : Category} {n : Node} (h : Readable c n) :
    ∀ t ∈ n.useGenerics, Readable .type t := by
  induction h with
  | ofPrimary _ ih | ofOperand _ ih | ofUnary _ ih | ofExpression _ ih => exact ih
  | macroUse _ types | attr _ types => exact types
  | _ => exact fun _ ht => nomatch ht

/-- A site with a declaration is an attribute of it. -/
theorem attribute_of_site {r : Registry} {source : Source} {items : List Node} {site : Site}
    {declaration : Node} (h : site ∈ r.sites source items) (hd : site.declaration = some declaration) :
    ∃ item ∈ items, declaration ∈ item.preorder ∧ site.node ∈ declaration.attributes := by
  obtain ⟨item, hitem, n, hn, ⟨-, hmark, hn'⟩ | ⟨-, -, hnone⟩⟩ := site_cases h
  · obtain rfl := Option.some.inj (hd.symm.trans hn')
    exact ⟨item, hitem, hn, hmark⟩
  · cases hnone.symm.trans hd

theorem attributes_eraseSpans (n : Node) : n.eraseSpans.attributes = n.attributes.map Node.eraseSpans := by
  obtain ⟨shape, span⟩ := n
  rw [Node.eraseSpans_mk]
  cases shape <;> rfl

theorem useGenerics_eraseSpans (n : Node) :
    n.eraseSpans.useGenerics = n.useGenerics.map Node.eraseSpans := by
  obtain ⟨shape, span⟩ := n
  rw [Node.eraseSpans_mk]
  cases shape <;> rfl

/-- What is left of a type without its optional layer is a type. -/
theorem Readable.unwrapOptional {n inner : Node} (h : Readable .type n.eraseSpans)
    (hinner : n.unwrapOptional? = some inner) : Readable .type inner.eraseSpans := by
  obtain ⟨shape, span⟩ := n
  rw [Node.eraseSpans_mk] at h
  unfold Node.unwrapOptional? at hinner
  split at hinner
  · next hshape =>
    obtain rfl := Option.some.inj hinner
    subst hshape
    cases h with
    | optional h => exact h
  · next hshape =>
    split at hinner
    · obtain rfl := Option.some.inj hinner
      subst hshape
      cases h with
      | typeName _ types => exact types _ List.mem_cons_self
    · cases hinner
  · cases hinner

/-- The type that an attribute names is a type, with or without its optional layer. -/
theorem readable_valueType {c : Category} {site : Site} {declaration : Node} {type : ValueType}
    (h : Readable c declaration.eraseSpans) (hmark : site.node ∈ declaration.attributes)
    (htype : site.valueType = .ok type) : Readable .type type.type.eraseSpans := by
  have hattribute : Readable .attr site.node.eraseSpans := by
    refine h.attributes _ ?_
    rw [attributes_eraseSpans]
    exact List.mem_map_of_mem hmark
  unfold Site.valueType at htype
  split at htype
  · cases htype
  · next written rest hgenerics =>
    have hwritten : Readable .type written.eraseSpans := by
      refine hattribute.useGenerics _ ?_
      rw [useGenerics_eraseSpans]
      exact List.mem_map_of_mem (by rw [← Site.generics, hgenerics]; exact List.mem_cons_self)
    split at htype
    · next inner hinner =>
      obtain rfl := Except.ok.inj htype
      exact hwritten.unwrapOptional hinner
    · obtain rfl := Except.ok.inj htype
      exact hwritten

theorem Readable.bindings {c : Category} {attributes : List Node} {modifiers : List String}
    {keyword : BindingKeyword} {bindings : List Node} {span : Span}
    (h : Readable c ⟨.variableDecl attributes modifiers keyword bindings, span⟩) :
    ∀ b ∈ bindings, Readable .binding b := by
  generalize hn : (⟨.variableDecl attributes modifiers keyword bindings, span⟩ : Node) = n at h
  induction h with
  | ofPrimary _ ih | ofOperand _ ih | ofUnary _ ih | ofExpression _ ih => exact ih hn
  | variableDecl _ _ _ inner =>
    cases hn
    exact inner
  | _ => cases hn

/-- The initial value of a variable is an expression. -/
theorem readable_initial {c : Category} {declaration initial : Node} {binding : Binding}
    (h : Readable c declaration.eraseSpans) (hbinding : declaration.binding = .ok (some binding))
    (hinitial : binding.initial = some initial) : Readable .expression initial.eraseSpans := by
  unfold Node.binding at hbinding
  split at hbinding
  · next attributes modifiers keyword bound hshape =>
    split at hbinding
    · next pattern declaredType value accessors hbound =>
      split at hbinding
      · obtain rfl := Option.some.inj (Except.ok.inj hbinding)
        obtain rfl : value = some initial := hinitial
        obtain ⟨_, span⟩ := declaration
        obtain ⟨_, place⟩ := bound
        subst hshape hbound
        rw [Node.eraseSpans_mk] at h
        cases h.bindings _ List.mem_cons_self with
        | binding _ _ values => exact values _ rfl
      · cases hbinding
    · cases hbinding
  · cases hbinding
  · cases hbinding

/-- Only the macro for stored variables adds accessors. -/
theorem keyValueAccessors_of_expand {site : Site} {services : Services}
    {before after : List Diagnostic} {accessors : List Node}
    (hexpand : site.expand Registry.standard services before = (.ok (.accessors accessors), after)) :
    keyValueAccessors site services = .ok accessors := by
  obtain ⟨entry, hmem, -, h⟩ := handler_of_expand hexpand
  obtain ⟨_, _, _, _, _, heq⟩ | ⟨run, ns, hhandler, -, hok, heq⟩ := h
  · cases heq
  obtain rfl := Expansion.accessors.inj heq
  simp only [Registry.standard, List.mem_cons, List.not_mem_nil, or_false] at hmem
  rcases hmem with rfl | rfl | rfl | rfl
  · cases hhandler
  · cases hhandler
  · cases hhandler
  · obtain rfl := Handler.accessor.inj hhandler
    exact hok

/-- It adds none, or the getter and the setter of the one variable of its declaration. -/
theorem keyValueAccessors_cases {site : Site} {services : Services} {accessors : List Node}
    (h : keyValueAccessors site services = .ok accessors) :
    accessors = [] ∨ ∃ type declaration binding, site.valueType = .ok type ∧
      site.declaration = some declaration ∧ declaration.binding = .ok (some binding) ∧
      accessors = [services.store.getter site.node.span type binding,
        services.store.setter site.node.span binding] := by
  obtain ⟨type, htype, h⟩ := bind_eq_ok.1 h
  split at h
  · exact .inl (Except.ok.inj h).symm
  · next declaration hdeclaration =>
    obtain ⟨found, hfound, h⟩ := bind_eq_ok.1 h
    cases found with
    | none => exact .inl (Except.ok.inj h).symm
    | some binding =>
      exact .inr ⟨type, declaration, binding, htype, hdeclaration, hfound, (Except.ok.inj h).symm⟩

/-- An expansion that adds accessors to a variable adds the getter and the setter of the store. -/
theorem accessors_of_expand {site : Site} {services : Services} {before after : List Diagnostic}
    {accessors : List Node} {type : ValueType} {declaration : Node} {binding : Binding}
    (hexpand : site.expand Registry.standard services before = (.ok (.accessors accessors), after))
    (htype : site.valueType = .ok type) (hdeclaration : site.declaration = some declaration)
    (hbinding : declaration.binding = .ok (some binding)) :
    accessors = [services.store.getter site.node.span type binding,
      services.store.setter site.node.span binding] := by
  have hok := keyValueAccessors_of_expand hexpand
  rw [keyValueAccessors, htype, hdeclaration] at hok
  simp only [bind, Except.bind, hbinding] at hok
  exact (Except.ok.inj hok).symm

/-- The text of a getter with an initial value is read as a getter of one statement. That is the read of
the store, or else the whole initial value, if and only if the value is no chain of operators. -/
theorem getter_falls_back_iff {text : String} {source : Source} {items : List Node} {site : Site}
    {before after : List Diagnostic} {accessors : List Node} {type : ValueType} {declaration : Node}
    {binding : Binding} {initial : Node} (hread : readSource text = .ok items)
    (hsite : site ∈ Registry.standard.sites source items)
    (hexpand : site.expand Registry.standard default before = (.ok (.accessors accessors), after))
    (htype : site.valueType = .ok type) (hplain : type.optional = false)
    (hdeclaration : site.declaration = some declaration)
    (hbinding : declaration.binding = .ok (some binding)) (hinitial : binding.initial = some initial) :
    ∃ getter setter m, accessors = [getter, setter] ∧ readAccessor getter.render = .ok m ∧
      m.eraseSpans = ⟨.accessor .get [(Store.typedRead default site.node.span type binding).eraseSpans.coalesce
        initial.eraseSpans], default⟩ ∧
      (FallsBackOn m (Store.typedRead default site.node.span type binding) initial ↔
        initial.isOperand = true) := by
  obtain ⟨item, hitem, hn, hmark⟩ := attribute_of_site hsite hdeclaration
  obtain ⟨c, hc⟩ := readable_of_mem_preorder (readable_of_readChars hread item hitem) hn
  have hvalue := readable_initial hc hbinding hinitial
  have hlhs := Store.readable_typedRead Store.hasNames_default site.node.span binding
    (readable_valueType hc hmark htype)
  obtain ⟨m, hm, heq⟩ := readAccessor_getter hlhs hvalue site.node.span site.node.span
  have hgetter : Store.getter default site.node.span type binding = _ :=
    Store.getter_eq default site.node.span hplain hinitial
  rw [← hgetter] at hm
  exact ⟨_, _, m, accessors_of_expand hexpand htype hdeclaration hbinding, hm, heq,
    fallsBackOn_iff hvalue heq⟩

/-! ## Examples -/

/-- An attribute of the macro on a declaration makes a site. -/
theorem mem_sites_of_attribute (source : Source) {declaration mark : Node}
    (hmark : mark ∈ declaration.attributes) (hname : mark.attributeName? = some "iCloudKeyValue") :
    ⟨"iCloudKeyValue", .accessor, mark, some declaration, source⟩ ∈
      Registry.standard.sites source [declaration] := by
  refine List.mem_flatMap.2 ⟨declaration, ?_, List.mem_append_left _ (List.mem_filter.2 ⟨?_, rfl⟩)⟩
  · rw [List.flatMap_cons, Node.preorder_eq]
    exact List.mem_cons_self
  · exact List.mem_filterMap.2 ⟨mark, hmark, by rw [Site.attached?, hname]; rfl⟩

/-- Its expansion succeeds if it names a type and the declaration binds one variable. -/
theorem expand_attribute {source : Source} (services : Services) {declaration mark : Node}
    {type : ValueType} {binding : Binding}
    (htype : Site.valueType ⟨"iCloudKeyValue", .accessor, mark, some declaration, source⟩ = .ok type)
    (hbinding : declaration.binding = .ok (some binding)) (before : List Diagnostic) :
    Site.expand ⟨"iCloudKeyValue", .accessor, mark, some declaration, source⟩ Registry.standard services
      before = (.ok (.accessors [services.store.getter mark.span type binding,
        services.store.setter mark.span binding]), before) := by
  have hrun : keyValueAccessors ⟨"iCloudKeyValue", .accessor, mark, some declaration, source⟩ services =
      .ok [services.store.getter mark.span type binding, services.store.setter mark.span binding] := by
    rw [keyValueAccessors, htype]
    simp only [bind, Except.bind, hbinding]
    rfl
  have hsite : Site.run ⟨"iCloudKeyValue", .accessor, mark, some declaration, source⟩ Registry.standard
      services = .ok ((keyValueAccessors ⟨"iCloudKeyValue", .accessor, mark, some declaration, source⟩
        services).map .accessors) := rfl
  rw [Site.expand, hsite, hrun]
  rfl

/-- A test of the attribute, the type, the binding and the initial value of a stored variable. -/
def Node.storedAnd (declaration : Node) (p : Node → ValueType → Binding → Node → Bool) : Bool :=
  declaration.attributes.any fun mark => mark.attributeName? == some "iCloudKeyValue" &&
    okAnd (Site.valueType ⟨"iCloudKeyValue", .accessor, mark, some declaration, default⟩) fun type =>
      !type.optional && okAnd declaration.binding fun binding =>
        binding.any fun b => b.initial.any fun initial => p mark type b initial

theorem exists_of_storedAnd {declaration : Node} {p : Node → ValueType → Binding → Node → Bool}
    (h : declaration.storedAnd p = true) : ∃ mark type binding initial,
      mark ∈ declaration.attributes ∧ mark.attributeName? = some "iCloudKeyValue" ∧
      Site.valueType ⟨"iCloudKeyValue", .accessor, mark, some declaration, default⟩ = .ok type ∧
      type.optional = false ∧ declaration.binding = .ok (some binding) ∧
      binding.initial = some initial ∧ p mark type binding initial = true := by
  obtain ⟨mark, hmark, h⟩ := List.any_eq_true.1 h
  obtain ⟨hname, h⟩ := Bool.and_eq_true_iff.1 h
  obtain ⟨type, htype, h⟩ := exists_of_okAnd h
  obtain ⟨hplain, h⟩ := Bool.and_eq_true_iff.1 h
  obtain ⟨bound, hbound, h⟩ := exists_of_okAnd h
  obtain ⟨binding, hbinding, h⟩ := (Option.any_eq_true _ _).1 h
  obtain ⟨initial, hinitial, h⟩ := (Option.any_eq_true _ _).1 h
  rw [hbinding] at hbound
  exact ⟨mark, type, binding, initial, hmark, beq_iff_eq.1 hname, htype, by simpa using hplain,
    hbound, hinitial, h⟩

theorem getter_falls_back_iff_call :
    ∃ items site getter setter m type binding initial,
      readSource "@iCloudKeyValue<Int> var x: Int = f(1)" = .ok items ∧
      site ∈ Registry.standard.sites default items ∧
      site.expand Registry.standard default [] = (.ok (.accessors [getter, setter]), []) ∧
      readAccessor getter.render = .ok m ∧
      FallsBackOn m (Store.typedRead default site.node.span type binding) initial := by
  have h : oneAnd (readSource "@iCloudKeyValue<Int> var x: Int = f(1)") (fun declaration =>
      declaration.storedAnd fun _ _ _ initial => initial.isOperand) = true := by decide +kernel
  obtain ⟨declaration, hread, h⟩ := exists_of_oneAnd h
  obtain ⟨mark, type, binding, initial, hmark, hname, htype, hplain, hbinding, hinitial, hoperand⟩ :=
    exists_of_storedAnd h
  have hsite := mem_sites_of_attribute default hmark hname
  have hexpand := expand_attribute default htype hbinding []
  obtain ⟨getter, setter, m, haccessors, hm, -, hiff⟩ :=
    getter_falls_back_iff hread hsite hexpand htype hplain rfl hbinding hinitial
  refine ⟨_, _, getter, setter, m, _, _, _, hread, hsite, ?_, hm, hiff.2 hoperand⟩
  rw [hexpand, haccessors]

/-- The operator between two operands. -/
def Node.operator? (n : Node) : Option String :=
  match n.shape with
  | .binary _ operator _ => some operator
  | _ => none

/-- A sum is not the fallback as a whole: only its first operand is. -/
theorem getter_splits_initial :
    ¬ ∀ (text : String) (source : Source) (items : List Node) (site : Site)
      (before after : List Diagnostic) (accessors : List Node) (type : ValueType) (declaration : Node)
      (binding : Binding) (initial : Node), readSource text = .ok items →
      site ∈ Registry.standard.sites source items →
      site.expand Registry.standard default before = (.ok (.accessors accessors), after) →
      site.valueType = .ok type → type.optional = false → site.declaration = some declaration →
      declaration.binding = .ok (some binding) → binding.initial = some initial →
      ∃ getter setter m, accessors = [getter, setter] ∧ readAccessor getter.render = .ok m ∧
        FallsBackOn m (Store.typedRead default site.node.span type binding) initial := by
  intro hclaim
  have h : oneAnd (readSource "@iCloudKeyValue<Int> var x: Int = a + b") (fun declaration =>
      declaration.storedAnd fun mark type binding _ =>
        okAnd (readAccessor (Services.store default |>.getter mark.span type binding).render) fun m =>
          m.children.all fun body => body.operator? != some "??") = true := by decide +kernel
  obtain ⟨declaration, hread, h⟩ := exists_of_oneAnd h
  obtain ⟨mark, type, binding, initial, hmark, hname, htype, hplain, hbinding, hinitial, hsplit⟩ :=
    exists_of_storedAnd h
  obtain ⟨getter, setter, m, haccessors, hm, body, left, right, hget, hbody, -, -⟩ :=
    hclaim _ _ _ _ _ _ _ _ _ _ _ hread (mem_sites_of_attribute default hmark hname)
      (expand_attribute default htype hbinding []) htype hplain rfl hbinding hinitial
  obtain ⟨rfl, -⟩ := List.cons.inj haccessors
  rw [hm] at hsplit
  have hmem : body ∈ m.children := by rw [Node.children, hget]; exact List.mem_cons_self
  have hoperator : body.operator? = some "??" := by rw [Node.operator?, hbody]
  have hother := List.all_eq_true.1 hsplit body hmem
  rw [hoperator] at hother
  cases hother

end SwiftMacro
