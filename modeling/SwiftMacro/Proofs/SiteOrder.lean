import SwiftMacro.Proofs.Batches
import SwiftMacro.Proofs.Placement
/-!
# The order of sites

The walk over a tree reports the attributes of a declaration before anything below them. As long as no
earlier attribute holds a site of its own, that is the order of the text; `sites_increasing_iff` says
that this is the only exception, and `sites_out_of_order` is a source that shows it.

The proof goes down the tree: sites of a node start inside it, and nodes stand one behind the other.
-/

namespace SwiftMacro

/-! ## Attributes and children -/

theorem attributes_prefix_children (n : Node) : n.attributes <+: n.children := by
  obtain ⟨shape, span⟩ := n
  cases shape <;> first | exact List.nil_prefix | exact List.prefix_append _ _

theorem isUse_of_macroName? {n : Node} {name : String} (h : n.macroName? = some name) :
    n.kind.isUse = true := by
  obtain ⟨shape, span⟩ := n
  cases shape <;> first | rfl | cases h

theorem isUse_of_attributeName? {n : Node} {name : String} (h : n.attributeName? = some name) :
    n.kind.isUse = true ∧ n.attributes = [] ∧ n.macroName? = none := by
  obtain ⟨shape, span⟩ := n
  cases shape <;> first | exact ⟨rfl, rfl, rfl⟩ | cases h

/-- Of nodes in order, an earlier one ends before a later one starts. -/
theorem InOrder.pairwise {lo hi : Nat} {ns : List Node} (h : InOrder lo hi ns) :
    ns.Pairwise fun a b => a.span.start < a.span.stop ∧ a.span.stop ≤ b.span.start := by
  induction ns generalizing lo with
  | nil => exact .nil
  | cons n ns ih => exact .cons (fun m hm => ⟨h.2.1, (h.2.2.bounds m hm).1⟩) (ih h.2.2)

theorem mem_preorder_trans {root n m : Node} (hn : n ∈ root.preorder) (hm : m ∈ n.preorder) :
    m ∈ root.preorder :=
  Node.mem_preorder_iff.2 ((Node.mem_preorder_iff.1 hm).trans (Node.mem_preorder_iff.1 hn))

/-- Every node of the tree is placed. -/
def Node.AllPlaced (text : String) (n : Node) : Prop := ∀ m ∈ n.preorder, m.Placed text

theorem Node.AllPlaced.self {text : String} {n : Node} (h : n.AllPlaced text) : n.Placed text :=
  h n (by rw [preorder_eq]; exact List.mem_cons_self)

theorem Node.AllPlaced.child {text : String} {n c : Node} (h : n.AllPlaced text)
    (hc : c ∈ n.children) : c.AllPlaced text := by
  intro m hm
  refine h m ?_
  rw [preorder_eq]
  exact List.mem_cons_of_mem _ (List.mem_flatMap.2 ⟨c, hc, hm⟩)

/-! ## The sites of a tree -/

namespace Registry

variable (r : Registry) (source : Source)

theorem sites_cons (n : Node) (ns : List Node) :
    r.sites source (n :: ns) = r.sites source [n] ++ r.sites source ns := by
  simp [sites]

theorem sites_append (ns ms : List Node) :
    r.sites source (ns ++ ms) = r.sites source ns ++ r.sites source ms := by
  simp [sites]

/-- The sites of a tree are those at its root and then those of the children. -/
theorem sites_root (n : Node) :
    r.sites source [n] = r.sitesAt source n ++ r.sites source n.children := by
  simp [sites, Node.preorder_eq n]

theorem mem_sites {ns : List Node} {s : Site} :
    s ∈ r.sites source ns ↔ ∃ n ∈ ns, s ∈ r.sites source [n] := by
  induction ns with
  | nil => simp [sites]
  | cons n ns ih => rw [sites_cons, List.mem_append, ih]; simp

theorem sites_sublist_of_mem {ns : List Node} {n : Node} (h : n ∈ ns) :
    (r.sites source [n]).Sublist (r.sites source ns) := by
  obtain ⟨front, back, rfl⟩ := List.append_of_mem h
  rw [sites_append, r.sites_cons source n back]
  exact (List.sublist_append_left _ _).trans (List.sublist_append_right _ _)

/-- The sites of a part are among those of the whole, in the same order. -/
theorem sites_sublist {root n : Node} (h : n ∈ root.preorder) :
    (r.sites source [n]).Sublist (r.sites source [root]) := by
  induction root using Node.induct with
  | step root ih =>
    rw [Node.preorder_eq, List.mem_cons, List.mem_flatMap] at h
    rcases h with rfl | ⟨c, hc, hn⟩
    · exact .refl _
    · rw [r.sites_root source root]
      exact ((ih c hc hn).trans (r.sites_sublist_of_mem source hc)).trans
        (List.sublist_append_right _ _)

/-- Whether an attribute makes a site. -/
def marks (mark : Node) : Bool := mark.attributeName?.any r.isAttached

theorem marks_iff {mark : Node} :
    r.marks mark = true ↔ ∃ name, mark.attributeName? = some name ∧ r.isAttached name = true := by
  unfold marks
  cases mark.attributeName? <;> simp

theorem accessorSite?_eq_some {declaration mark : Node} (h : r.marks mark = true) :
    ∃ s, r.accessorSite? source declaration mark = some s ∧ s.node = mark := by
  obtain ⟨name, hname, hattached⟩ := r.marks_iff.1 h
  refine ⟨⟨name, .accessor, mark, some declaration, source⟩, ?_, rfl⟩
  simp [accessorSite?, hname, Option.filter, hattached]

theorem node_of_accessorSite? {declaration mark : Node} {s : Site}
    (h : r.accessorSite? source declaration mark = some s) : s.node = mark ∧ r.marks mark = true := by
  obtain ⟨name, hname, rfl⟩ := Option.map_eq_some_iff.1 h
  obtain ⟨hname, hattached⟩ := Option.filter_eq_some_iff.1 hname
  exact ⟨rfl, r.marks_iff.2 ⟨name, hname, hattached⟩⟩

theorem node_of_expressionSite? {n : Node} {s : Site} (h : r.expressionSite? source n = some s) :
    s.node = n ∧ n.kind.isUse = true := by
  obtain ⟨name, hname, rfl⟩ := Option.map_eq_some_iff.1 h
  exact ⟨rfl, isUse_of_macroName? (Option.filter_eq_some_iff.1 hname).1⟩

end Registry

section Order

variable {r : Registry} {source : Source} {text : String}

/-- A site of a placed tree starts inside it. -/
theorem sites_bounds {n : Node} (h : n.AllPlaced text) :
    ∀ s ∈ r.sites source [n], n.span.start ≤ s.node.span.start ∧ s.node.span.start < n.span.stop := by
  induction n using Node.induct with
  | step n ih =>
    intro s hs
    have hchild : ∀ c ∈ n.children, n.span.start ≤ c.span.start ∧ c.span.start < n.span.stop := by
      intro c hc
      have hbounds := h.self.order.bounds c hc
      have hlt := (h.child hc).self.nonempty
      omega
    rw [Registry.sites_root, Registry.sitesAt_eq, List.mem_append, List.mem_append,
      List.mem_filterMap, Option.mem_toList, Registry.mem_sites] at hs
    rcases hs with (⟨mark, hmark, hs⟩ | hs) | ⟨c, hc, hs⟩
    · rw [(r.node_of_accessorSite? source hs).1]
      exact hchild mark ((attributes_prefix_children n).subset hmark)
    · rw [(r.node_of_expressionSite? source hs).1]
      exact ⟨Nat.le_refl _, h.self.nonempty⟩
    · have hbounds := ih c hc (h.child hc) s hs
      have hinside := h.self.order.bounds c hc
      omega

/-- Sites of nodes in order start no earlier than the first of them. -/
theorem sites_start_le {lo hi : Nat} {ns : List Node} (horder : InOrder lo hi ns)
    (hplaced : ∀ n ∈ ns, n.AllPlaced text) {s : Site} (hs : s ∈ r.sites source ns) :
    lo ≤ s.node.span.start := by
  obtain ⟨n, hn, hs⟩ := (r.mem_sites source).1 hs
  exact Nat.le_trans (horder.bounds n hn).1 (sites_bounds (hplaced n hn) s hs).1

/-- A macro use or an attribute starts before everything in it. -/
theorem start_lt_of_isUse {n : Node} (h : n.AllPlaced text) (hn : n.kind.isUse = true) {s : Site}
    (hs : s ∈ r.sites source n.children) : n.span.start < s.node.span.start := by
  obtain ⟨c, hc, hs⟩ := (r.mem_sites source).1 hs
  exact Nat.lt_of_lt_of_le (h.self.behindName hn c hc) (sites_bounds (h.child hc) s hs).1

variable (r source) in
/-- No attribute in front of one that makes a site holds a site. -/
def InStep (n : Node) : Prop :=
  n.attributes.Pairwise fun a b => r.marks b = true → r.sites source [a] = []

/-- Where the attributes are in step, each that makes a site starts before the sites below. -/
theorem start_lt_of_marks {lo hi : Nat} {marks rest : List Node}
    (horder : InOrder lo hi (marks ++ rest)) (hplaced : ∀ n ∈ marks ++ rest, n.AllPlaced text)
    (hstep : marks.Pairwise fun a b => r.marks b = true → r.sites source [a] = []) {b : Node}
    (hb : b ∈ marks) (hmarks : r.marks b = true) {s : Site}
    (hs : s ∈ r.sites source (marks ++ rest)) : b.span.start < s.node.span.start := by
  induction marks generalizing lo with
  | nil => cases hb
  | cons a marks ih =>
    obtain ⟨-, hlt, htail⟩ := horder
    have hplaced' : ∀ n ∈ marks ++ rest, n.AllPlaced text := fun n hn =>
      hplaced n (List.mem_cons_of_mem _ hn)
    rw [List.cons_append, Registry.sites_cons, List.mem_append] at hs
    rcases List.mem_cons.1 hb with rfl | hb
    · rcases hs with hs | hs
      · -- The attribute is no site as a node; what is left of its sites stands behind its name.
        obtain ⟨name, hname, -⟩ := r.marks_iff.1 hmarks
        obtain ⟨huse, hnone, hmacro⟩ := isUse_of_attributeName? hname
        rw [Registry.sites_root, Registry.sitesAt_eq, hnone, Registry.expressionSite?, hmacro] at hs
        exact start_lt_of_isUse (hplaced b List.mem_cons_self) huse (by simpa using hs)
      · exact Nat.lt_of_lt_of_le hlt (sites_start_le htail hplaced' hs)
    · rcases hs with hs | hs
      · rw [(List.pairwise_cons.1 hstep).1 b hb hmarks] at hs
        cases hs
      · exact ih htail hplaced' (List.pairwise_cons.1 hstep).2 hb hs

/-- The sites start one behind the other. -/
def Increasing (sites : List Site) : Prop :=
  sites.Pairwise fun s t => s.node.span.start < t.node.span.start

/-- Sites of nodes in order are in order if those of each node are. -/
theorem increasing_of_inOrder {lo hi : Nat} {ns : List Node} (horder : InOrder lo hi ns)
    (hplaced : ∀ n ∈ ns, n.AllPlaced text) (h : ∀ n ∈ ns, Increasing (r.sites source [n])) :
    Increasing (r.sites source ns) := by
  induction ns generalizing lo with
  | nil => exact .nil
  | cons n ns ih =>
    have hplaced' : ∀ m ∈ ns, m.AllPlaced text := fun m hm => hplaced m (List.mem_cons_of_mem _ hm)
    rw [Registry.sites_cons]
    refine List.pairwise_append.2 ⟨h n List.mem_cons_self, ?_, ?_⟩
    · exact ih horder.2.2 hplaced' fun m hm => h m (List.mem_cons_of_mem _ hm)
    · intro s hs t ht
      have hstop := (sites_bounds (hplaced n List.mem_cons_self) s hs).2
      have hstart := sites_start_le horder.2.2 hplaced' ht
      omega

/-- What an attribute in front holds stands before the next attribute. -/
theorem start_lt_of_earlier {a b : Node} (hplaced : a.AllPlaced text)
    (hab : a.span.stop ≤ b.span.start) {s : Site} (hs : s ∈ r.sites source [a]) :
    s.node.span.start < b.span.start :=
  Nat.lt_of_lt_of_le (sites_bounds hplaced s hs).2 hab

/-- The attributes of a placed node are in order with each other. -/
theorem attributes_pairwise {n : Node} (h : n.Placed text) : n.attributes.Pairwise fun a b =>
    a.span.start < a.span.stop ∧ a.span.stop ≤ b.span.start :=
  h.order.pairwise.sublist (attributes_prefix_children n).sublist

theorem increasing_attributes {n : Node} (h : n.Placed text) :
    Increasing (n.attributes.filterMap (r.accessorSite? source n)) := by
  refine (attributes_pairwise h).filterMap _ fun a b hab s hs t ht => ?_
  rw [(r.node_of_accessorSite? source hs).1, (r.node_of_accessorSite? source ht).1]
  omega

/-- Where all attributes are in step, the sites are in order. -/
theorem increasing_of_inStep {n : Node} (h : n.AllPlaced text)
    (hstep : ∀ m ∈ n.preorder, InStep r source m) : Increasing (r.sites source [n]) := by
  induction n using Node.induct with
  | step n ih =>
    have hchildren : Increasing (r.sites source n.children) := by
      refine increasing_of_inOrder h.self.order (fun c hc => h.child hc) fun c hc => ?_
      refine ih c hc (h.child hc) fun m hm => hstep m ?_
      rw [Node.preorder_eq]
      exact List.mem_cons_of_mem _ (List.mem_flatMap.2 ⟨c, hc, hm⟩)
    have hself : InStep r source n := hstep n (by rw [Node.preorder_eq]; exact List.mem_cons_self)
    obtain ⟨rest, hrest⟩ := attributes_prefix_children n
    rw [Registry.sites_root, Registry.sitesAt_eq, List.append_assoc]
    refine List.pairwise_append.2 ⟨increasing_attributes h.self, ?_, ?_⟩
    · refine List.pairwise_append.2 ⟨?_, hchildren, ?_⟩
      · cases r.expressionSite? source n with
        | none => exact .nil
        | some s => exact List.pairwise_singleton _ s
      · intro s hs t ht
        obtain ⟨hnode, huse⟩ := r.node_of_expressionSite? source (Option.mem_toList.1 hs)
        rw [hnode]
        exact start_lt_of_isUse h huse ht
    · intro s hs t ht
      obtain ⟨mark, hmark, hs⟩ := List.mem_filterMap.1 hs
      obtain ⟨hnode, hmarks⟩ := r.node_of_accessorSite? source hs
      rw [hnode]
      rcases List.mem_append.1 ht with ht | ht
      · -- A macro use has no attributes.
        obtain ⟨name, hname, -⟩ := Option.map_eq_some_iff.1 (Option.mem_toList.1 ht)
        rw [attributes_of_macroName? (Option.filter_eq_some_iff.1 hname).1] at hmark
        cases hmark
      · exact start_lt_of_marks (hrest ▸ h.self.order) (fun c hc => h.child (hrest ▸ hc)) hself
          hmark hmarks (hrest.symm ▸ ht)

/-- Where the sites of a tree are in order, the attributes at its root are in step. -/
theorem inStep_of_increasing {n : Node} (h : n.AllPlaced text)
    (hsites : Increasing (r.sites source [n])) : InStep r source n := by
  refine (attributes_pairwise h.self).imp_of_mem fun {a b} ha hb hab hmarks => ?_
  have ha := (attributes_prefix_children n).subset ha
  rw [List.eq_nil_iff_forall_not_mem]
  intro t ht
  obtain ⟨s, hs, hnode⟩ := r.accessorSite?_eq_some source hmarks
  -- The site of `b` comes first, though `t` is in the attribute in front of `b`.
  rw [Registry.sites_root, Registry.sitesAt_eq, List.append_assoc] at hsites
  have hlt := (List.pairwise_append.1 hsites).2.2 s (List.mem_filterMap.2 ⟨b, hb, hs⟩) t
    (List.mem_append_right _ ((r.mem_sites source).2 ⟨a, ha, ht⟩))
  rw [hnode] at hlt
  have := start_lt_of_earlier (h.child ha) hab.2 ht
  omega

end Order

/-- The sites of a text start one behind the other exactly if no declaration has an attribute that
makes a site behind one that holds a site. -/
theorem sites_increasing_iff {text : String} {items : List Node} (h : readSource text = .ok items)
    (r : Registry) (source : Source) :
    ((r.sites source items).map (·.node.span.start)).Pairwise (· < ·) ↔
      ∀ item ∈ items, ∀ n ∈ item.preorder, InStep r source n := by
  obtain ⟨horder, hplaced⟩ := placed_of_read h
  rw [List.pairwise_map]
  constructor
  · intro hsites item hitem n hn
    have hbelow : n.AllPlaced text := fun m hm =>
      hplaced item hitem m (mem_preorder_trans hn hm)
    refine inStep_of_increasing hbelow (hsites.sublist ?_)
    exact (r.sites_sublist source hn).trans (r.sites_sublist_of_mem source hitem)
  · intro hstep
    exact increasing_of_inOrder horder hplaced fun n hn =>
      increasing_of_inStep (hplaced n hn) (hstep n hn)

theorem sites_increasing_iff_nested : ∃ items,
    readSource "@iCloudKeyValue<Int> @a(#stringify(#stringify(2))) var x = #systemImage(\"y\")" =
      .ok items ∧
    ∀ item ∈ items, ∀ n ∈ item.preorder, InStep Registry.standard ⟨"f", ""⟩ n := by
  obtain ⟨items, hitems, hstarts⟩ := exists_of_okAnd
    (by decide +kernel : okAnd (readSource
      "@iCloudKeyValue<Int> @a(#stringify(#stringify(2))) var x = #systemImage(\"y\")") (fun items =>
        (Registry.standard.sites ⟨"f", ""⟩ items).map (·.node.span.start) == [0, 24, 35, 59]) = true)
  refine ⟨items, hitems, (sites_increasing_iff hitems Registry.standard ⟨"f", ""⟩).1 ?_⟩
  rw [beq_iff_eq.1 hstarts]
  decide

/-- The attribute in front of `@iCloudKeyValue` is no site, but it holds one, which comes second. -/
theorem sites_out_of_order : ∃ items,
    readSource "@available(#stringify(1)) @iCloudKeyValue<Int> var x: Int" = .ok items ∧
    (Registry.standard.sites ⟨"f", ""⟩ items).map (·.node.span.start) = [26, 11] ∧
    ¬ ((Registry.standard.sites ⟨"f", ""⟩ items).map (·.node.span.start)).Pairwise (· < ·) := by
  obtain ⟨items, hitems, hstarts⟩ := exists_of_okAnd
    (by decide +kernel : okAnd (readSource
      "@available(#stringify(1)) @iCloudKeyValue<Int> var x: Int") (fun items =>
        (Registry.standard.sites ⟨"f", ""⟩ items).map (·.node.span.start) == [26, 11]) = true)
  have hstarts := beq_iff_eq.1 hstarts
  refine ⟨items, hitems, hstarts, ?_⟩
  rw [hstarts]
  decide

end SwiftMacro
