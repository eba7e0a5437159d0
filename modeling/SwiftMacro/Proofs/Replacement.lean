import SwiftMacro.Expansion
import SwiftMacro.Proofs.Results
import SwiftMacro.Proofs.RoundTrip
/-!
# Replacement expressions

Whatever stands below a node that was read could have been read on its own, so what a macro takes
over from its site is an expression again (`readable_argument`). `replacement_of_expand` sums up the
three expression macros; that their results are read back, each as what it is, is a case analysis
over it.
-/

namespace SwiftMacro

/-! ## Below a readable node -/

theorem Node.children_eraseSpans (n : Node) : n.eraseSpans.children = n.children.map eraseSpans := by
  obtain ⟨shape, span⟩ := n
  rw [eraseSpans_mk]
  exact Shape.children_map eraseSpans shape

theorem Node.preorder_eraseSpans (n : Node) : n.eraseSpans.preorder = n.preorder.map eraseSpans := by
  induction n using induct with
  | step n ih =>
    rw [preorder_eq, preorder_eq n, children_eraseSpans, List.map_cons, List.flatMap_map,
      List.map_flatMap]
    refine congrArg (n.eraseSpans :: ·) ?_
    simp only [List.flatMap_def]
    exact congrArg List.flatten (List.map_congr_left ih)

/-- The children of a readable node are readable, each in a place of its own. -/
theorem Readable.of_mem_children {c : Category} {n m : Node} (h : Readable c n)
    (hm : m ∈ n.children) : ∃ d, Readable d m := by
  induction h with
  | ofPrimary _ ih | ofOperand _ ih | ofUnary _ ih | ofExpression _ ih => exact ih hm
  | string _ _ inner => exact ⟨_, inner m hm⟩
  | macroUse _ types _ inner | attr _ types _ inner =>
    rcases List.mem_append.1 hm with hm | hm
    · exact ⟨_, types m hm⟩
    · obtain ⟨a, ha, rfl⟩ := List.mem_map.1 hm
      exact ⟨_, inner a ha⟩
  | tuple _ inner =>
    obtain ⟨a, ha, rfl⟩ := List.mem_map.1 hm
    exact ⟨_, inner a ha⟩
  | call hcallee _ inner =>
    rcases List.mem_cons.1 hm with rfl | hm
    · exact ⟨_, hcallee⟩
    · obtain ⟨a, ha, rfl⟩ := List.mem_map.1 hm
      exact ⟨_, inner a ha⟩
  | member h | unwrap h | prefixed _ h | optional h =>
    obtain rfl := List.mem_singleton.1 hm
    exact ⟨_, h⟩
  | binary left _ right | cast left right =>
    rcases List.mem_cons.1 hm with rfl | hm
    · exact ⟨_, left⟩
    · obtain rfl := List.mem_singleton.1 hm
      exact ⟨_, right⟩
  | typeName _ types => exact ⟨_, types m hm⟩
  | tuplePattern inner | accessor inner => exact ⟨_, inner m hm⟩
  | variableDecl front _ _ inner | functionDecl front _ _ inner =>
    rcases List.mem_append.1 hm with hm | hm
    · exact ⟨_, front m hm⟩
    · exact ⟨_, inner m hm⟩
  | binding left types values inner =>
    rcases List.mem_cons.1 hm with rfl | hm
    · exact ⟨_, left⟩
    · rcases List.mem_append.1 hm with hm | hm
      · rcases List.mem_append.1 hm with hm | hm
        · exact ⟨_, types m (Option.mem_toList.1 hm)⟩
        · exact ⟨_, values m (Option.mem_toList.1 hm)⟩
      · exact ⟨_, inner m hm⟩
  | _ => cases hm

/-- So is everything below it. -/
theorem readable_of_mem_preorder {c : Category} {n m : Node} (h : Readable c n.eraseSpans)
    (hm : m ∈ n.preorder) : ∃ d, Readable d m.eraseSpans := by
  induction n using Node.induct generalizing c with
  | step n ih =>
    rw [Node.preorder_eq] at hm
    rcases List.mem_cons.1 hm with rfl | hm
    · exact ⟨c, h⟩
    · obtain ⟨child, hchild, hm⟩ := List.mem_flatMap.1 hm
      have hmem : child.eraseSpans ∈ n.eraseSpans.children := by
        rw [Node.children_eraseSpans]
        exact List.mem_map_of_mem hchild
      obtain ⟨d, hd⟩ := h.of_mem_children hmem
      exact ih child hchild hd hm

theorem useArguments_eraseSpans (n : Node) :
    n.eraseSpans.useArguments = n.useArguments.map (·.map Node.eraseSpans) := by
  obtain ⟨shape, span⟩ := n
  rw [Node.eraseSpans_mk]
  cases shape <;> rfl

/-- The arguments of a macro use or an attribute are expressions. -/
theorem Readable.useArguments {c : Category} {n : Node} (h : Readable c n) :
    ∀ a ∈ n.useArguments, Readable .expression a.expression := by
  induction h with
  | ofPrimary _ ih | ofOperand _ ih | ofUnary _ ih | ofExpression _ ih => exact ih
  | macroUse _ _ _ inner | attr _ _ _ inner => exact inner
  | _ => exact fun _ ha => nomatch ha

/-! ## Sites of a source -/

/-- A site is an attribute together with its declaration, or a macro use. -/
theorem site_cases {r : Registry} {source : Source} {items : List Node} {site : Site}
    (h : site ∈ r.sites source items) :
    ∃ item ∈ items, ∃ n ∈ item.preorder,
      (site.role = .accessor ∧ site.node ∈ n.attributes ∧ site.declaration = some n) ∨
      (site.role = .expression ∧ site.node = n ∧ site.declaration = none) := by
  obtain ⟨n, hn, hs⟩ := List.mem_flatMap.1 h
  obtain ⟨item, hitem, hn⟩ := List.mem_flatMap.1 hn
  refine ⟨item, hitem, n, hn, ?_⟩
  rcases List.mem_append.1 hs with hs | hs
  · obtain ⟨mark, hmark, hs⟩ := List.mem_filterMap.1 (List.mem_filter.1 hs).1
    obtain ⟨name, -, rfl⟩ := Option.map_eq_some_iff.1 hs
    exact .inl ⟨rfl, hmark, rfl⟩
  · obtain ⟨name, -, rfl⟩ := Option.map_eq_some_iff.1 (Option.mem_toList.1 (List.mem_filter.1 hs).1)
    exact .inr ⟨rfl, rfl, rfl⟩

/-- What a macro use of a source takes as its first argument is an expression. -/
theorem readable_argument {text : String} {source : Source} {items : List Node} {site : Site}
    {r : Registry} {e : Node} (hread : readSource text = .ok items)
    (hsite : site ∈ r.sites source items) (hrole : site.role = .expression)
    (he : site.firstArgument = .ok e) : Readable .expression e.eraseSpans := by
  obtain ⟨item, hitem, n, hn, h⟩ := site_cases hsite
  obtain ⟨hattached, -⟩ | ⟨-, rfl, -⟩ := h
  · rw [hrole] at hattached
    cases hattached
  obtain ⟨c, hc⟩ := readable_of_mem_preorder (readable_of_readChars hread item hitem) hn
  unfold Site.firstArgument at he
  split at he
  · cases he
  · next a rest hargs =>
    obtain rfl := Except.ok.inj he
    have hmem : a.map Node.eraseSpans ∈ site.node.eraseSpans.useArguments := by
      rw [useArguments_eraseSpans]
      exact List.mem_map_of_mem (by rw [← Site.arguments, hargs]; exact List.mem_cons_self)
    exact hc.useArguments _ hmem

/-! ## What the expression macros make -/

/-- What each expression macro makes of its site. -/
inductive Replaces (site : Site) (services : Services) : Node → Prop
  | stringify {e : Node} (name : site.macroName = "stringify") (argument : site.firstArgument = .ok e) :
      Replaces site services
        (.tuple site.node.span [.plain e, .plain (.string site.node.span e.render)])
  | url {e : Node} {content : String} (name : site.macroName = "urlFromString")
      (argument : site.firstArgument = .ok e) (plain : e.plainString = .ok content)
      (valid : checkUrl services.urlPolicy content = .ok ()) :
      Replaces site services (.forceUnwrap site.node.span (.call site.node.span
        (.identifier site.node.span "URL") [.labeled "string" (.string site.node.span content)]))
  | image {e : Node} {content : String} (name : site.macroName = "systemImage")
      (argument : site.firstArgument = .ok e) (plain : e.plainString = .ok content)
      (valid : checkSymbol services.symbols content = .ok ()) :
      Replaces site services (.call site.node.span (.identifier site.node.span "Image")
        [.labeled "systemName" (.string site.node.span content)])

section Expand

variable {site : Site} {services : Services} {n : Node}

theorem replaces_of_stringify (name : site.macroName = "stringify")
    (h : stringify site services = .ok n) : Replaces site services n := by
  obtain ⟨e, he, hn⟩ := bind_eq_ok.1 h
  obtain rfl := Except.ok.inj hn
  exact .stringify name he

theorem replaces_of_urlFromString (name : site.macroName = "urlFromString")
    (h : urlFromString site services = .ok n) : Replaces site services n := by
  obtain ⟨e, he, h⟩ := bind_eq_ok.1 h
  obtain ⟨content, hplain, h⟩ := bind_eq_ok.1 h
  split at h
  · cases h
  · next hvalid =>
    obtain rfl := Except.ok.inj h
    exact .url name he hplain hvalid

theorem replaces_of_systemImage (name : site.macroName = "systemImage")
    (h : systemImage site services = .ok n) : Replaces site services n := by
  obtain ⟨e, he, h⟩ := bind_eq_ok.1 h
  obtain ⟨content, hplain, h⟩ := bind_eq_ok.1 h
  split at h
  · cases h
  · next hvalid =>
    obtain rfl := Except.ok.inj h
    exact .image name he hplain hvalid

/-- The name and the handler of a macro that is found stand in the registry. -/
theorem mem_of_lookup? {r : Registry} {name : String} {entry : MacroEntry}
    (h : r.lookup? name = some entry) : entry ∈ r ∧ name = entry.name := by
  have hname := List.find?_some h
  exact ⟨List.mem_of_find?_eq_some h, (beq_iff_eq.1 hname).symm⟩

/-- An expansion that succeeds is what a handler of the site's role makes. -/
theorem handler_of_expand {r : Registry} {before after : List Diagnostic} {expansion : Expansion}
    (h : site.expand r services before = (.ok expansion, after)) :
    ∃ entry ∈ r, site.macroName = entry.name ∧
      ((∃ run n, entry.handler = .expression run ∧ site.role = .expression ∧
          run site services = .ok n ∧ expansion = .expression n) ∨
        (∃ run ns, entry.handler = .accessor run ∧ site.role = .accessor ∧
          run site services = .ok ns ∧ expansion = .accessors ns)) := by
  have hrun : site.run r services = .ok (.ok expansion) := by
    unfold Site.expand at h
    split at h
    · cases h
    · next hrun =>
      cases h
      exact hrun
    · cases h
  unfold Site.run at hrun
  split at hrun
  · cases hrun
  · next entry hentry =>
    obtain ⟨hmem, hname⟩ := mem_of_lookup? hentry
    refine ⟨entry, hmem, hname, ?_⟩
    split at hrun
    · next run hhandler hrole =>
      cases hok : run site services with
      | error e => simp [hok, Except.map] at hrun
      | ok n =>
        rw [hok] at hrun
        exact .inl ⟨run, n, hhandler, hrole, hok, (Except.ok.inj (Except.ok.inj hrun)).symm⟩
    · next run hhandler hrole =>
      cases hok : run site services with
      | error e => simp [hok, Except.map] at hrun
      | ok ns =>
        rw [hok] at hrun
        exact .inr ⟨run, ns, hhandler, hrole, hok, (Except.ok.inj (Except.ok.inj hrun)).symm⟩
    · cases hrun

/-- A site whose expansion is an expression is one of a standard expression macro. -/
theorem replaces_of_expand {before after : List Diagnostic}
    (h : site.expand Registry.standard services before = (.ok (.expression n), after)) :
    site.role = .expression ∧ Replaces site services n := by
  obtain ⟨entry, hmem, hname, h⟩ := handler_of_expand h
  obtain ⟨run, m, hhandler, hrole, hok, heq⟩ | ⟨_, _, _, _, _, heq⟩ := h
  · obtain rfl := Expansion.expression.inj heq
    refine ⟨hrole, ?_⟩
    simp only [Registry.standard, List.mem_cons, List.not_mem_nil, or_false] at hmem
    rcases hmem with rfl | rfl | rfl | rfl
    · obtain rfl := Handler.expression.inj hhandler
      exact replaces_of_stringify hname hok
    · obtain rfl := Handler.expression.inj hhandler
      exact replaces_of_urlFromString hname hok
    · obtain rfl := Handler.expression.inj hhandler
      exact replaces_of_systemImage hname hok
    · cases hhandler
  · cases heq

end Expand

/-! ## What was made is read back -/

/-- A text makes a string literal that can be read. -/
theorem readable_text (content : String) :
    Readable .primary ⟨.stringLiteral [.text content], default⟩ := by
  by_cases h : content = ""
  · rw [h]
    exact .emptyString
  · exact .string (List.cons_ne_nil _ _) h fun e he => nomatch he

theorem Readable.expression_of_primary {n : Node} (h : Readable .primary n) :
    Readable .expression n := .ofUnary (.ofOperand (.ofPrimary h))

/-- A call of a name with one labeled text. -/
theorem readable_construction {name label : String} (hname : IsName name.toList)
    (hlabel : IsName label.toList) (content : String) :
    Readable .operand ⟨.call ⟨.identifier name, default⟩
      [⟨some label, ⟨.stringLiteral [.text content], default⟩⟩], default⟩ := by
  refine .call (.ofPrimary (.identifier hname)) ?_ ?_
  · intro a ha l hl
    obtain rfl := List.mem_singleton.1 ha
    obtain rfl := Option.some.inj hl
    exact hlabel
  · intro a ha
    obtain rfl := List.mem_singleton.1 ha
    exact (readable_text content).expression_of_primary

/-- A replacement is an expression if what it takes over is one. -/
theorem Replaces.readable {site : Site} {services : Services} {n : Node}
    (h : Replaces site services n)
    (hargument : ∀ e, site.firstArgument = .ok e → Readable .expression e.eraseSpans) :
    Readable .expression n.eraseSpans := by
  cases h with
  | @stringify e _ he =>
    have helements : ∀ a ∈ ([⟨none, e.eraseSpans⟩, ⟨none, ⟨.stringLiteral [.text e.render], default⟩⟩] :
        List (Argument Node)), a.label = none ∧ Readable .expression a.expression := by
      intro a ha
      rcases List.mem_cons.1 ha with rfl | ha
      · exact ⟨rfl, hargument e he⟩
      · obtain rfl := List.mem_singleton.1 ha
        exact ⟨rfl, (readable_text _).expression_of_primary⟩
    refine (Readable.tuple (fun a ha l hl => ?_) fun a ha => (helements a ha).2).expression_of_primary
    rw [(helements a ha).1] at hl
    cases hl
  | url _ _ _ _ =>
    exact .ofUnary (.ofOperand (.unwrap (readable_construction (by decide) (by decide) _)))
  | image _ _ _ _ =>
    exact .ofUnary (.ofOperand (readable_construction (by decide) (by decide) _))

/-! ## The string literals of a tree -/

namespace Node

/-- The segments of a string literal. -/
def segments? (n : Node) : Option (List (Segment Node)) :=
  match n.shape with
  | .stringLiteral segments => some segments
  | _ => none

/-- The string literals of a tree, each before those inside it. -/
def stringLiterals (n : Node) : List (List (Segment Node)) := n.preorder.filterMap segments?

theorem stringLiterals_eq (n : Node) :
    n.stringLiterals = n.segments?.toList ++ n.children.flatMap stringLiterals := by
  rw [stringLiterals, preorder_eq, List.filterMap_cons, List.filterMap_flatMap]
  cases n.segments? <;> rfl

theorem stringLiterals_forceUnwrap (span : Span) (n : Node) :
    (forceUnwrap span n).stringLiterals = n.stringLiterals := by
  rw [stringLiterals_eq]
  exact List.append_nil n.stringLiterals

theorem stringLiterals_construction (span : Span) (name label content : String) :
    (call span (identifier span name) [.labeled label (string span content)]).stringLiterals =
      [[.text content]] := by
  rw [stringLiterals_eq]
  change [identifier span name, string span content].flatMap stringLiterals = _
  rw [List.flatMap_cons, List.flatMap_cons, List.flatMap_nil, stringLiterals_eq, stringLiterals_eq]
  rfl

theorem segments?_eraseSpans (n : Node) :
    n.eraseSpans.segments? = n.segments?.map (·.map (·.map eraseSpans)) := by
  obtain ⟨shape, span⟩ := n
  rw [eraseSpans_mk]
  cases shape <;> rfl

theorem stringLiterals_eraseSpans (n : Node) :
    n.eraseSpans.stringLiterals = n.stringLiterals.map (·.map (·.map eraseSpans)) := by
  rw [stringLiterals, stringLiterals, preorder_eraseSpans, List.filterMap_map, List.map_filterMap]
  congr 1
  funext m
  exact segments?_eraseSpans m

/-- Literals without interpolation do not depend on spans. -/
theorem stringLiterals_eq_text {m n : Node} {content : String} (h : m.eraseSpans = n.eraseSpans)
    (hn : n.stringLiterals = [[.text content]]) : m.stringLiterals = [[.text content]] := by
  have hm : m.stringLiterals.map (·.map (·.map eraseSpans)) = [[.text content]] := by
    rw [← stringLiterals_eraseSpans, h, stringLiterals_eraseSpans, hn]
    rfl
  obtain ⟨segments, hm, hsegments⟩ := List.map_eq_singleton_iff.1 hm
  obtain ⟨segment, rfl, hsegment⟩ := List.map_eq_singleton_iff.1 hsegments
  cases segment with
  | text _ =>
    rw [hm]
    exact congrArg (fun s => [[s]]) hsegment
  | interpolation _ => cases hsegment

end Node

/-! ## The main statement -/

/-- Every replacement is read back from its text, up to spans. That of `#stringify` pairs its argument
with a literal whose contents are read as that argument; those of `#urlFromString` and `#systemImage`
hold one string literal, and it is read back as the string that was checked. -/
theorem replacement_reads_back {text : String} {source : Source} {items : List Node} {site : Site}
    {services : Services} {before after : List Diagnostic} {n : Node}
    (hread : readSource text = .ok items) (hsite : site ∈ Registry.standard.sites source items)
    (hexpand : site.expand Registry.standard services before = (.ok (.expression n), after)) :
    ∃ m, readExpression n.render = .ok m ∧ m.eraseSpans = n.eraseSpans ∧
      (site.macroName = "stringify" → ∃ e literal content, site.firstArgument = .ok e ∧
        n.shape = .tuple [⟨none, e⟩, ⟨none, literal⟩] ∧ literal.shape = .stringLiteral [.text content] ∧
        ∃ e', readExpression content = .ok e' ∧ e'.eraseSpans = e.eraseSpans) ∧
      (site.macroName = "urlFromString" → ∃ e content, site.firstArgument = .ok e ∧
        e.plainString = .ok content ∧ checkUrl services.urlPolicy content = .ok () ∧
        m.stringLiterals = [[.text content]]) ∧
      (site.macroName = "systemImage" → ∃ e content, site.firstArgument = .ok e ∧
        e.plainString = .ok content ∧ checkSymbol services.symbols content = .ok () ∧
        m.stringLiterals = [[.text content]]) := by
  obtain ⟨hrole, hreplaces⟩ := replaces_of_expand hexpand
  have hargument : ∀ e, site.firstArgument = .ok e → Readable .expression e.eraseSpans :=
    fun e => readable_argument hread hsite hrole
  obtain ⟨m, hm, heq⟩ := readExpression_render (hreplaces.readable hargument)
  rw [Node.render_eraseSpans] at hm
  refine ⟨m, hm, heq, ?_, ?_, ?_⟩
  · intro hname
    cases hreplaces with
    | @stringify e _ he =>
      obtain ⟨e', he', heq'⟩ := readExpression_render (hargument e he)
      rw [Node.render_eraseSpans] at he'
      exact ⟨e, _, e.render, he, rfl, rfl, e', he', heq'⟩
    | url name | image name =>
      exact absurd (hname.symm.trans name) (by decide)
  · intro hname
    cases hreplaces with
    | @url e content _ he hplain hvalid =>
      refine ⟨e, content, he, hplain, hvalid, Node.stringLiterals_eq_text heq ?_⟩
      rw [Node.stringLiterals_forceUnwrap, Node.stringLiterals_construction]
    | stringify name | image name =>
      exact absurd (hname.symm.trans name) (by decide)
  · intro hname
    cases hreplaces with
    | @image e content _ he hplain hvalid =>
      exact ⟨e, content, he, hplain, hvalid,
        Node.stringLiterals_eq_text heq (Node.stringLiterals_construction _ _ _ _)⟩
    | stringify name | url name =>
      exact absurd (hname.symm.trans name) (by decide)

theorem replacement_reads_back_nested :
    ∃ items site n m, readSource "#stringify(f(\"a\\\"b\"))" = .ok items ∧
      site ∈ Registry.standard.sites default items ∧
      site.expand Registry.standard default [] = (.ok (.expression n), []) ∧
      readExpression n.render = .ok m ∧ m.eraseSpans = n.eraseSpans := by
  obtain ⟨e, span, hread⟩ : ∃ e span, readSource "#stringify(f(\"a\\\"b\"))" =
      .ok [⟨.macroUse "stringify" [] [⟨none, e⟩], span⟩] := by
    have h : oneAnd (readSource "#stringify(f(\"a\\\"b\"))") (fun n =>
        n.macroName? == some "stringify" && n.useGenerics.isEmpty && n.useArguments.length == 1 &&
          n.useArguments.all fun a => a.label.isNone) = true := by decide +kernel
    obtain ⟨⟨shape, span⟩, hread, h⟩ := exists_of_oneAnd h
    cases shape with
    | macroUse name ts as =>
      simp only [Bool.and_eq_true, beq_iff_eq, List.isEmpty_iff, List.all_eq_true,
        Option.isNone_iff_eq_none] at h
      obtain ⟨⟨⟨hname, hts⟩, has⟩, hlabel⟩ := h
      obtain ⟨⟨label, e⟩, rfl⟩ := List.length_eq_one_iff.1 has
      obtain rfl : ts = [] := hts
      obtain rfl : name = "stringify" := Option.some.inj hname
      obtain rfl : label = none := hlabel _ List.mem_cons_self
      exact ⟨e, span, hread⟩
    | _ => cases h
  let site : Site :=
    ⟨"stringify", .expression, ⟨.macroUse "stringify" [] [⟨none, e⟩], span⟩, none, default⟩
  have hsite : site ∈ Registry.standard.sites default [site.node] := by
    refine List.mem_flatMap.2 ⟨site.node, ?_, List.mem_singleton.2 rfl⟩
    rw [List.flatMap_cons, Node.preorder_eq]
    exact List.mem_cons_self
  have hexpand : site.expand Registry.standard default [] =
      (.ok (.expression (.tuple span [.plain e, .plain (.string span e.render)])), []) := rfl
  obtain ⟨m, hm, heq, -⟩ := replacement_reads_back hread hsite hexpand
  exact ⟨_, site, _, m, hread, hsite, hexpand, hm, heq⟩

end SwiftMacro
