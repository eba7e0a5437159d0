import SwiftMacro.Proofs.Accessors
import SwiftMacro.Proofs.Extraction
import SwiftMacro.Proofs.SiteOrder
import SwiftMacro.Proofs.Verdicts
/-!
# Nodes at fault

A diagnostic points at the node that does not fit: the macro use itself, its argument, the declaration it
stands on, or the pattern of the variable (`Site.Blames`). Which node it is follows from the list of
rejections; that its span covers text of the source, inside the use or the declaration, follows from the
spans of a tree that was read (`rejection_points_at_fault`).
-/

namespace SwiftMacro

/-- The node is the one that a failure at the site is about. -/
def Site.Blames (site : Site) (n : Node) : Failure → Prop
  | .missingArgument | .noTypeDefined => n = site.node
  | .argumentNotString | .invalidUrl | .invalidUrlScheme _ | .invalidUrlHost | .invalidSymbolName _ =>
      ∃ a rest, site.arguments = a :: rest ∧ n = a.expression
  | .cannotGetBinding => site.declaration = some n
  | .cannotGetVariableName => ∃ declaration attributes modifiers keyword b type initial accessors,
      site.declaration = some declaration ∧
      declaration.shape = .variableDecl attributes modifiers keyword [b] ∧
      b.shape = .patternBinding n type initial accessors

/-- Whether every variable that the declaration binds is a binding of a pattern. -/
def Node.BindsPatterns (declaration : Node) : Prop :=
  ∀ attributes modifiers keyword bindings,
    declaration.shape = .variableDecl attributes modifiers keyword bindings →
      ∀ b ∈ bindings, b.kind = .patternBinding

section Rejections

variable {site : Site} {services : Services} {r : Rejection}

/-- A rejection has the span of the node that its failure is about. -/
theorem blames_of_rejects (h : site.Rejects services r)
    (hbinds : ∀ declaration, site.declaration = some declaration → declaration.BindsPatterns) :
    ∃ n, site.Blames n r.failure ∧ r.span = n.span := by
  cases h with
  | noArgument | noType => exact ⟨site.node, rfl, rfl⟩
  | noString _ harguments | symbol _ harguments => exact ⟨_, ⟨_, _, harguments, rfl⟩, rfl⟩
  | url _ harguments hcheck =>
    rcases checkUrlWith_eq_error Url.keepsSchemes_parse hcheck with rfl | rfl | ⟨reported, rfl, -⟩ <;>
      exact ⟨_, ⟨_, _, harguments, rfl⟩, rfl⟩
  | noVariable _ hdeclaration hbound =>
    generalize hfound : (Except.error r : Except Rejection (Option Binding)) = found at hbound
    cases hbound with
    | several =>
      obtain rfl := Except.error.inj hfound
      exact ⟨_, hdeclaration, rfl⟩
    | unbound hshape hkind => exact absurd (hbinds _ hdeclaration _ _ _ _ hshape _ List.mem_cons_self) hkind
    | unnamed hshape hbinding =>
      obtain rfl := Except.error.inj hfound
      exact ⟨_, ⟨_, _, _, _, _, _, _, _, hdeclaration, hshape, hbinding⟩, rfl⟩
    | none | named => cases hfound

end Rejections

/-! ## The place of the node -/

theorem Node.expression_mem_children {n : Node} {a : Argument Node} (h : a ∈ n.useArguments) :
    a.expression ∈ n.children := by
  obtain ⟨shape, span⟩ := n
  cases shape <;> first | cases h; done | exact List.mem_append_right _ (List.mem_map_of_mem h)

theorem Node.mem_preorder_self (n : Node) : n ∈ n.preorder := by
  rw [preorder_eq]
  exact List.mem_cons_self

theorem Node.mem_preorder_child {n c : Node} (h : c ∈ n.children) : c ∈ n.preorder :=
  mem_preorder_of_mem_children n.mem_preorder_self h

/-- The node at fault stands in the macro use, or in the declaration. -/
theorem mem_preorder_of_blames {site : Site} {n : Node} {failure : Failure}
    (h : site.Blames n failure) : n ∈ site.node.preorder ∨
      ∃ declaration, site.declaration = some declaration ∧ n ∈ declaration.preorder := by
  cases failure with
  | missingArgument | noTypeDefined =>
    obtain rfl : n = site.node := h
    exact .inl site.node.mem_preorder_self
  | argumentNotString | invalidUrl | invalidUrlScheme | invalidUrlHost | invalidSymbolName =>
    obtain ⟨a, rest, harguments, rfl⟩ := h
    refine .inl (Node.mem_preorder_child (Node.expression_mem_children ?_))
    rw [← Site.arguments, harguments]
    exact List.mem_cons_self
  | cannotGetBinding => exact .inr ⟨n, h, n.mem_preorder_self⟩
  | cannotGetVariableName =>
    obtain ⟨declaration, attributes, modifiers, keyword, b, type, initial, accessors, hdeclaration, hshape,
      hbinding⟩ := h
    refine .inr ⟨declaration, hdeclaration, ?_⟩
    have hb : b ∈ declaration.children := by
      rw [Node.children, hshape]
      exact List.mem_append_right _ List.mem_cons_self
    have hn : n ∈ b.children := by
      rw [Node.children, hbinding]
      exact List.mem_cons_self
    exact Node.mem_preorder_of_mem_children (Node.mem_preorder_child hb) hn

/-- The span lies inside another one. -/
def Span.Inside (s t : Span) : Prop := t.start ≤ s.start ∧ s.stop ≤ t.stop

/-- A placed tree covers all that is in it. -/
theorem Node.AllPlaced.inside {text : String} {n m : Node} (h : n.AllPlaced text)
    (hm : m ∈ n.preorder) : m.span.Inside n.span := by
  induction n using induct with
  | step n ih =>
    rw [preorder_eq, List.mem_cons, List.mem_flatMap] at hm
    rcases hm with rfl | ⟨c, hc, hm⟩
    · exact ⟨Nat.le_refl _, Nat.le_refl _⟩
    · obtain ⟨hstart, hstop⟩ := ih c hc (h.child hc) hm
      obtain ⟨hlo, hhi⟩ := h.self.order.bounds c hc
      exact ⟨Nat.le_trans hlo hstart, Nat.le_trans hstop hhi⟩

/-! ## Sites of a text -/

section Read

variable {text : String} {source : Source} {items : List Node} {site : Site}

/-- The grammar makes no other bindings. -/
theorem bindsPatterns_of_site (hread : readSource text = .ok items)
    (hsite : site ∈ Registry.standard.sites source items) {declaration : Node}
    (hdeclaration : site.declaration = some declaration) : declaration.BindsPatterns := by
  intro attributes modifiers keyword bindings hshape b hb
  obtain ⟨c, hc, -⟩ := readable_declaration hread hsite hdeclaration
  obtain ⟨shape, span⟩ := declaration
  subst hshape
  rw [Node.eraseSpans_mk] at hc
  have hbinding := hc.bindings b.eraseSpans (List.mem_map_of_mem hb)
  obtain ⟨shape, place⟩ := b
  rw [Node.eraseSpans_mk] at hbinding
  cases shape <;> first | rfl | cases hbinding

/-- The node that a site is searched in: the macro use, or the declaration around the attribute. -/
theorem placed_of_site {r : Registry} (hread : readSource text = .ok items)
    (hsite : site ∈ r.sites source items) : ∃ scope : Node, scope.AllPlaced text ∧
      site.node ∈ scope.preorder ∧ (∀ d, site.declaration = some d → d = scope) ∧
      ((site.role = .expression ∧ scope = site.node) ∨
        site.role = .accessor ∧ site.declaration = some scope) := by
  obtain ⟨item, hitem, n, hn, h⟩ := site_cases hsite
  have hplaced : n.AllPlaced text := fun m hm =>
    (placed_of_read hread).2 item hitem m (mem_preorder_trans hn hm)
  refine ⟨n, hplaced, ?_⟩
  rcases h with ⟨hrole, hmark, hdeclaration⟩ | ⟨hrole, rfl, hdeclaration⟩
  · have hchild : site.node ∈ n.children := (attributes_prefix_children n).subset hmark
    refine ⟨Node.mem_preorder_child hchild, fun d hd => ?_, .inr ⟨hrole, hdeclaration⟩⟩
    exact Option.some.inj (hd.symm.trans hdeclaration)
  · refine ⟨Node.mem_preorder_self _, fun d hd => ?_, .inl ⟨hrole, rfl⟩⟩
    cases hdeclaration.symm.trans hd

end Read

/-- A rejected site leaves one diagnostic, which says what the result says. -/
theorem rejects_of_settles {site : Site} {services : Services} {o : SiteOutcome} {e : ExpansionError}
    (h : site.Settles Registry.standard services o) (he : o.result = .error e) :
    ∃ r, site.Rejects services r ∧ e = .rejected site.macroName r.failure ∧
      o.diagnostics = [site.diagnostic r] := by
  obtain ⟨site', result, diagnostics⟩ := o
  obtain ⟨-, hexpand, hfatal⟩ := h
  have hanswers := answers_of_expand site Registry.standard services []
  rw [hexpand] at hanswers
  cases hanswers with
  | unknown | mismatch => cases hfatal _ rfl
  | expands => cases he
  | rejects hentry hgives =>
    obtain rfl := Except.error.inj he
    exact ⟨_, rejects_of_gives (mem_of_lookup? hentry).1 hgives, rfl, rfl⟩

/-- What a batch says about a site that it rejects. -/
theorem rejects_of_batch {sites : List Site} {services : Services} {outcomes : List SiteOutcome}
    {o : SiteOutcome} {e : ExpansionError}
    (hbatch : expandAll Registry.standard services sites = .ok outcomes) (ho : o ∈ outcomes)
    (he : o.result = .error e) : o.site ∈ sites ∧ ∃ r, o.site.Rejects services r ∧
      e = .rejected o.site.macroName r.failure ∧ o.diagnostics = [o.site.diagnostic r] := by
  obtain ⟨site, hsite, hsettles⟩ := (partners_of_forall₂ (expandAll_eq_ok_iff.1 hbatch)).2 o ho
  obtain rfl : o.site = site := hsettles.1
  exact ⟨hsite, rejects_of_settles hsettles he⟩

/-- Whether a use in the text is rejected for the failure. -/
def hasRejected (source : Source) (services : Services) (failure : Failure) : Bool :=
  okAnd (readSource source.content) fun items =>
    okAnd (expandAll Registry.standard services (Registry.standard.sites source items)) fun outcomes =>
      outcomes.any fun o => !o.isSuccess && o.diagnostics.all fun d => d.failure == failure

theorem exists_of_hasRejected {source : Source} {services : Services} {failure : Failure}
    (h : hasRejected source services failure = true) : ∃ items outcomes o d e,
      readSource source.content = .ok items ∧
      expandAll Registry.standard services (Registry.standard.sites source items) = .ok outcomes ∧
      o ∈ outcomes ∧ o.result = .error e ∧ o.diagnostics = [d] ∧ d.failure = failure := by
  obtain ⟨items, hitems, h⟩ := exists_of_okAnd h
  obtain ⟨outcomes, houtcomes, h⟩ := exists_of_okAnd h
  obtain ⟨o, ho, h⟩ := List.any_eq_true.1 h
  obtain ⟨hrejected, hfailure⟩ := Bool.and_eq_true_iff.1 h
  obtain ⟨e, he⟩ : ∃ e, o.result = .error e := by
    unfold SiteOutcome.isSuccess at hrejected
    cases hresult : o.result with
    | ok expansion => rw [hresult] at hrejected; cases hrejected
    | error e => exact ⟨e, rfl⟩
  obtain ⟨-, r, -, -, hd⟩ := rejects_of_batch houtcomes ho he
  rw [hd, List.all_cons, List.all_nil, Bool.and_true] at hfailure
  exact ⟨items, outcomes, o, _, e, hitems, houtcomes, ho, he, hd, beq_iff_eq.1 hfailure⟩

/-- The diagnostic of a rejected site has the span of the node at fault. It covers text of the source from
one character to another, inside the macro use or the declaration around the attribute, and the label is
as long as the span. -/
theorem rejection_points_at_fault {text : String} {source : Source} {items : List Node}
    {services : Services} {outcomes : List SiteOutcome} {o : SiteOutcome} {e : ExpansionError}
    (hread : readSource text = .ok items)
    (hbatch : expandAll Registry.standard services (Registry.standard.sites source items) = .ok outcomes)
    (ho : o ∈ outcomes) (he : o.result = .error e) :
    ∃ d n, o.diagnostics = [d] ∧ e = .rejected o.site.macroName d.failure ∧
      o.site.Blames n d.failure ∧ d.span = n.span ∧
      d.span.start < d.span.stop ∧ d.span.stop ≤ text.utf8ByteSize ∧
      IsBoundary text d.span.start ∧ IsBoundary text d.span.stop ∧
      d.label = (d.failure.label, d.span.start, d.span.stop - d.span.start) ∧
      ((o.site.role = .expression ∧ d.span.Inside o.site.node.span) ∨
        o.site.role = .accessor ∧
          ∃ declaration, o.site.declaration = some declaration ∧ d.span.Inside declaration.span) := by
  obtain ⟨hsite, r, hrejects, rfl, hdiagnostics⟩ := rejects_of_batch hbatch ho he
  obtain ⟨n, hblames, hspan⟩ := blames_of_rejects hrejects fun d hd => bindsPatterns_of_site hread hsite hd
  obtain ⟨scope, hplaced, hmark, honly, hscope⟩ := placed_of_site hread hsite
  have hn : n ∈ scope.preorder := by
    rcases mem_preorder_of_blames hblames with hn | ⟨d, hd, hn⟩
    · exact mem_preorder_trans hmark hn
    · rwa [honly d hd] at hn
  obtain ⟨hlt, hstart, hstop, -, -⟩ := hplaced n hn
  have hinside := hplaced.inside hn
  rw [← hspan] at hlt hstart hstop hinside
  have hlength : max r.span.length 1 = r.span.stop - r.span.start := by
    unfold Span.length
    omega
  refine ⟨_, n, hdiagnostics, rfl, hblames, hspan, hlt, hstop.le, hstart, hstop, ?_, ?_⟩
  · exact congrArg (fun length => (r.failure.label, r.span.start, length)) hlength
  · rcases hscope with ⟨hrole, rfl⟩ | ⟨hrole, hdeclaration⟩
    · exact .inl ⟨hrole, hinside⟩
    · exact .inr ⟨hrole, scope, hdeclaration, hinside⟩

theorem rejection_points_at_fault_pattern : ∃ items outcomes o d n,
    readSource "@iCloudKeyValue<Int> /* é */ var (p, _): T" = .ok items ∧
    expandAll Registry.standard default
      (Registry.standard.sites ⟨"f", "@iCloudKeyValue<Int> /* é */ var (p, _): T"⟩ items) = .ok outcomes ∧
    o ∈ outcomes ∧ o.diagnostics = [d] ∧ d.failure = .cannotGetVariableName ∧
    o.site.Blames n .cannotGetVariableName ∧ d.span = n.span ∧ d.span.start < d.span.stop := by
  obtain ⟨items, outcomes, o, d, e, hitems, houtcomes, ho, he, hd, hfailure⟩ := exists_of_hasRejected
    (by decide +kernel : hasRejected ⟨"f", "@iCloudKeyValue<Int> /* é */ var (p, _): T"⟩ default
      .cannotGetVariableName = true)
  obtain ⟨d', n, hd', -, hblames, hspan, hlt, -⟩ := rejection_points_at_fault hitems houtcomes ho he
  obtain rfl : d = d' := List.singleton_injective (hd.symm.trans hd')
  exact ⟨items, outcomes, o, d, n, hitems, houtcomes, ho, hd, hfailure, hfailure ▸ hblames, hspan, hlt⟩

end SwiftMacro
