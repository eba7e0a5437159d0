import SwiftMacro.Proofs.Entries
import SwiftMacro.Proofs.Escapes
import SwiftMacro.Proofs.Parts
import SwiftMacro.Proofs.RoundTrip
/-!
# Where nodes stand

Spans are well nested: a node covers text of its own, its children stand inside it, one behind the
other, and so do the items of a text (`read_wellNested`). The proof goes up the tree that was matched.
Items stand one behind the other because the trees do, and what a rule makes of them (`Makes`) keeps
to the bytes that the rule covers.
-/

namespace SwiftMacro

/-! ## Byte offsets -/

/-- The offset does not fall into the middle of a character. -/
def IsBoundary (text : String) (offset : Nat) : Prop :=
  ∃ before behind : String, text = before ++ behind ∧ offset = before.utf8ByteSize

theorem utf8ByteSize_ofList (s : List Char) : (String.ofList s).utf8ByteSize = byteLength s := by
  induction s with
  | nil => rfl
  | cons c s ih =>
    rw [String.ofList_cons, String.utf8ByteSize_append, String.utf8ByteSize_singleton, ih, byteLength]

theorem byteLength_toList (text : String) : byteLength text.toList = text.utf8ByteSize := by
  rw [← utf8ByteSize_ofList, String.ofList_toList]

theorem isBoundary_of_append {text : String} {before behind : List Char}
    (h : text.toList = before ++ behind) : IsBoundary text (byteLength before) := by
  refine ⟨String.ofList before, String.ofList behind, ?_, (utf8ByteSize_ofList before).symm⟩
  rw [← String.ofList_append, ← h, String.ofList_toList]

theorem IsBoundary.le {text : String} {offset : Nat} (h : IsBoundary text offset) :
    offset ≤ text.utf8ByteSize := by
  obtain ⟨before, behind, rfl, rfl⟩ := h
  rw [String.utf8ByteSize_append]
  exact Nat.le_add_right _ _

theorem byteLength_pos {s : List Char} (h : s ≠ []) : 0 < byteLength s := by
  obtain ⟨c, t, rfl⟩ := List.exists_cons_of_ne_nil h
  have := c.utf8Size_pos
  simp only [byteLength]
  omega

/-! ## Well nested trees -/

/-- The nodes stand one behind the other between two offsets. -/
def InOrder (lo hi : Nat) : List Node → Prop
  | [] => lo ≤ hi
  | n :: ns => lo ≤ n.span.start ∧ n.span.start < n.span.stop ∧ InOrder n.span.stop hi ns

/-- The node covers text of its own, from one character to another, and its children stand inside
it, one behind the other; those of a macro use or an attribute stand behind its name. -/
structure Node.Placed (text : String) (n : Node) : Prop where
  nonempty : n.span.start < n.span.stop
  start : IsBoundary text n.span.start
  stop : IsBoundary text n.span.stop
  order : InOrder n.span.start n.span.stop n.children
  behindName : n.kind.isUse = true → ∀ c ∈ n.children, n.span.start < c.span.start

section Order

variable {lo mid hi : Nat} {ns ms : List Node}

theorem InOrder.le (h : InOrder lo hi ns) : lo ≤ hi := by
  induction ns generalizing lo with
  | nil => exact h
  | cons n ns ih =>
    have := ih h.2.2
    have := h.1
    have := h.2.1
    omega

theorem InOrder.of_le {lo' : Nat} (h : InOrder lo hi ns) (hlo : lo' ≤ lo) : InOrder lo' hi ns := by
  cases ns with
  | nil => exact Nat.le_trans hlo h
  | cons n ns => exact ⟨Nat.le_trans hlo h.1, h.2⟩

theorem InOrder.mono {hi' : Nat} (h : InOrder lo hi ns) (hhi : hi ≤ hi') : InOrder lo hi' ns := by
  induction ns generalizing lo with
  | nil => exact Nat.le_trans h hhi
  | cons n ns ih => exact ⟨h.1, h.2.1, ih h.2.2⟩

theorem InOrder.append (h : InOrder lo mid ns) (h' : InOrder mid hi ms) : InOrder lo hi (ns ++ ms) := by
  induction ns generalizing lo with
  | nil => exact h'.of_le h
  | cons n ns ih => exact ⟨h.1, h.2.1, ih h.2.2⟩

/-- Nodes in order stand between the two offsets. -/
theorem InOrder.bounds (h : InOrder lo hi ns) : ∀ n ∈ ns, lo ≤ n.span.start ∧ n.span.stop ≤ hi := by
  induction ns generalizing lo with
  | nil => simp
  | cons m ns ih =>
    have hle := h.2.2.le
    intro n hn
    rcases List.mem_cons.1 hn with rfl | hn
    · exact ⟨h.1, hle⟩
    · have := ih h.2.2 n hn
      have := h.1
      have := h.2.1
      omega

/-- Nodes in order do not overlap. -/
theorem InOrder.isChain (h : InOrder lo hi ns) :
    ns.IsChain fun c d => c.span.stop ≤ d.span.start := by
  induction ns generalizing lo with
  | nil => exact .nil
  | cons n ns ih =>
    cases ns with
    | nil => exact .singleton _
    | cons m ns => exact .cons_cons h.2.2.1 (ih h.2.2)

end Order

/-! ## The items of a tree -/

/-- The item covers text from one character to another, and its nodes stand inside it, placed with all
that is below them. -/
structure Item.Placed (text : String) (i : Item) : Prop where
  nonempty : sourceRanks.mayBeEmpty i.rule = false → i.span.start < i.span.stop
  start : IsBoundary text i.span.start
  stop : IsBoundary text i.span.stop
  order : InOrder i.span.start i.span.stop i.part.nodesIn
  nodes : ∀ n ∈ i.part.nodesIn, ∀ m ∈ n.preorder, m.Placed text

/-- Placed items stand one behind the other between two offsets. -/
def PlacedIn (text : String) (lo hi : Nat) : List Item → Prop
  | [] => lo ≤ hi
  | i :: is => lo ≤ i.span.start ∧ i.Placed text ∧ PlacedIn text i.span.stop hi is

section Items

variable {text : String} {lo mid hi : Nat} {items jtems : List Item}

theorem PlacedIn.of_le {lo' : Nat} (h : PlacedIn text lo hi items) (hlo : lo' ≤ lo) :
    PlacedIn text lo' hi items := by
  cases items with
  | nil => exact Nat.le_trans hlo h
  | cons i items => exact ⟨Nat.le_trans hlo h.1, h.2⟩

theorem PlacedIn.append (h : PlacedIn text lo mid items) (h' : PlacedIn text mid hi jtems) :
    PlacedIn text lo hi (items ++ jtems) := by
  induction items generalizing lo with
  | nil => exact h'.of_le h
  | cons i items ih => exact ⟨h.1, h.2.1, ih h.2.2⟩

/-- The nodes of items in order are in order. -/
theorem PlacedIn.order (h : PlacedIn text lo hi items) : InOrder lo hi (carried items) := by
  induction items generalizing lo with
  | nil => exact h
  | cons i items ih => exact (h.2.1.order.of_le h.1).append (ih h.2.2)

theorem PlacedIn.nodes (h : PlacedIn text lo hi items) :
    ∀ n ∈ carried items, ∀ m ∈ n.preorder, m.Placed text := by
  induction items generalizing lo with
  | nil => simp
  | cons i items ih =>
    intro n hn
    rw [carried_cons, List.mem_append] at hn
    exact hn.elim (h.2.1.nodes n) (ih h.2.2 n)

/-- What holds of a node and of all that is below its children holds of all that is below it. -/
theorem forall_preorder {P : Node → Prop} {n : Node} (hself : P n)
    (hbelow : ∀ c ∈ n.children, ∀ m ∈ c.preorder, P m) : ∀ m ∈ n.preorder, P m := by
  intro m hm
  rw [Node.preorder_eq] at hm
  rcases List.mem_cons.1 hm with rfl | hm
  · exact hself
  · obtain ⟨c, hc, hm⟩ := List.mem_flatMap.1 hm
    exact hbelow c hc m hm

theorem forall_preorder_iff {P : Node → Prop} {n : Node} :
    (∀ m ∈ n.preorder, P m) ↔ P n ∧ ∀ c ∈ n.children, ∀ m ∈ c.preorder, P m := by
  rw [Node.preorder_eq, List.forall_mem_cons, List.forall_mem_flatMap]

/-- A node over placed children is placed. -/
theorem placed_mk {n : Node} {span : Span} {children : List Node} (hspan : n.span = span)
    (hchildren : n.children = children) (hnonempty : span.start < span.stop)
    (hstart : IsBoundary text span.start) (hstop : IsBoundary text span.stop)
    (horder : InOrder span.start span.stop children)
    (huse : n.kind.isUse = true → ∀ c ∈ children, span.start < c.span.start)
    (hbelow : ∀ c ∈ children, ∀ m ∈ c.preorder, m.Placed text) :
    ∀ m ∈ n.preorder, m.Placed text := by
  subst hspan hchildren
  exact forall_preorder ⟨hnonempty, hstart, hstop, horder, huse⟩ hbelow

/-- An operand that grows over placed items stays placed. -/
theorem placed_foldl {r : Rule} {step : Node → Item → Node} (hstep : ∀ i ∈ items, Grows r step i)
    {base : Node} (hstop : base.span.stop ≤ lo) (hbase : ∀ m ∈ base.preorder, m.Placed text)
    (h : PlacedIn text lo hi items) :
    base.span.start ≤ (items.foldl step base).span.start ∧ (items.foldl step base).span.stop ≤ hi ∧
      ∀ m ∈ (items.foldl step base).preorder, m.Placed text := by
  induction items generalizing base lo with
  | nil => exact ⟨Nat.le_refl _, Nat.le_trans hstop h, hbase⟩
  | cons i items ih =>
    obtain ⟨hspan, hchildren, -, huse⟩ := hstep i List.mem_cons_self base
    have hplaced := hbase base (by rw [Node.preorder_eq]; exact List.mem_cons_self)
    have hle := h.2.1.order.le
    have hlt := hplaced.nonempty
    have hlo := h.1
    -- The operand ends before the item starts, so the new node reaches from one to the other.
    have hcover : (step base i).span = ⟨base.span.start, i.span.stop⟩ := by
      rw [hspan, Span.cover, Nat.min_eq_left (by omega), Nat.max_eq_right (by omega)]
    have hnext : ∀ m ∈ (step base i).preorder, m.Placed text := by
      refine placed_mk hcover hchildren (by simp only; omega) hplaced.start h.2.1.stop ?_
        (by simp [huse]) ?_
      · exact ⟨Nat.le_refl _, hlt, h.2.1.order.of_le (by omega)⟩
      · intro c hc
        rcases List.mem_cons.1 hc with rfl | hc
        · exact hbase
        · exact h.2.1.nodes c hc
    obtain ⟨hstart, hstop, hall⟩ := ih (fun j hj => hstep j (List.mem_cons_of_mem _ hj))
      (by rw [hcover]) hnext h.2.2
    rw [hcover] at hstart
    exact ⟨hstart, hstop, hall⟩

/-- What a rule makes of placed items keeps to the bytes of the rule. -/
theorem placed_of_makes {r : Rule} {part : Part} (h : PlacedIn text lo hi items)
    (hmakes : Makes r ⟨lo, hi⟩ items part) (hfirst : ∀ i ∈ items, part.kind = .node →
      sourceRanks.mayBeEmpty i.rule = false) (hlt : part.kind = .node → lo < hi)
    (hlo : IsBoundary text lo) (hhi : IsBoundary text hi) :
    InOrder lo hi part.nodesIn ∧ ∀ n ∈ part.nodesIn, ∀ m ∈ n.preorder, m.Placed text := by
  cases hmakes with
  | hands _ hnodes =>
    rw [hnodes]
    exact ⟨h.order, h.nodes⟩
  | @wraps shape hkind huse hchildren =>
    have hlt := hlt rfl
    have hbehind : shape.kind.isUse = true → ∀ c ∈ carried items, lo < c.span.start := by
      intro hkind c hc
      obtain ⟨name, rest, rfl, hname, hnone⟩ := huse hkind
      have hnonempty := h.2.1.nonempty (by rw [hname]; rfl)
      rw [carried_cons, hnone] at hc
      have hstart := (h.2.2.order.bounds c hc).1
      have hle := h.1
      omega
    refine ⟨⟨Nat.le_refl lo, hlt, Nat.le_refl hi⟩, ?_⟩
    intro n hn
    obtain rfl := List.mem_singleton.1 hn
    exact placed_mk rfl hchildren hlt hlo hhi h.order hbehind h.nodes
  | @grows first rest base step _ hitems hbase hstep _ =>
    subst hitems
    obtain ⟨hle, hplaced, hrest⟩ := h
    -- The first operand is the node of the first item or covers the item itself.
    obtain ⟨hstart, hstop, hbelow⟩ : lo ≤ base.span.start ∧ base.span.stop ≤ first.span.stop ∧
        ∀ m ∈ base.preorder, m.Placed text := by
      rcases hbase with hpart | ⟨-, hspan, hnone, -⟩
      · have horder := hplaced.order
        have hnodes := hplaced.nodes
        rw [hpart] at horder hnodes
        exact ⟨Nat.le_trans hle horder.1, horder.2.2, hnodes base List.mem_cons_self⟩
      · have hlt := hplaced.nonempty (hfirst first List.mem_cons_self rfl)
        refine ⟨by rw [hspan]; exact hle, by rw [hspan], ?_⟩
        exact placed_mk hspan hnone hlt hplaced.start hplaced.stop (Nat.le_of_lt hlt) (by simp)
          (by simp)
    obtain ⟨hstart', hstop', hall⟩ := placed_foldl hstep hstop hbelow hrest
    have hlt := (hall _ (by rw [Node.preorder_eq]; exact List.mem_cons_self)).nonempty
    refine ⟨⟨Nat.le_trans hstart hstart', hlt, hstop'⟩, ?_⟩
    intro n hn
    obtain rfl := List.mem_singleton.1 hn
    exact hall

end Items

/-! ## From the tree to the nodes -/

/-- Wherever the tree stands in the text, its items are placed within its bytes. -/
def TreePlaced (text : String) (t : Tree Rule) : Prop :=
  ∀ before behind items, text.toList = before ++ t.chars ++ behind →
    t.items (byteLength before) = .ok items →
    PlacedIn text (byteLength before) (byteLength before + byteLength t.chars) items

theorem placedIn_itemsOf {text : String} {ts : List (Tree Rule)} (h : ∀ t ∈ ts, TreePlaced text t)
    {before behind : List Char} {items : List Item}
    (htext : text.toList = before ++ Tree.charsOf ts ++ behind)
    (hitems : Tree.itemsOf (byteLength before) ts = .ok items) :
    PlacedIn text (byteLength before) (byteLength before + byteLength (Tree.charsOf ts)) items := by
  induction ts generalizing before items with
  | nil =>
    obtain rfl := Except.ok.inj hitems
    exact Nat.le_add_right _ _
  | cons t ts ih =>
    obtain ⟨front, back, hfront, hback, rfl⟩ := Tree.itemsOf_cons_eq_ok.1 hitems
    rw [← byteLength_append] at hback
    rw [Tree.charsOf, byteLength_append, ← Nat.add_assoc, ← byteLength_append]
    have hfirst := h t List.mem_cons_self before (Tree.charsOf ts ++ behind) front
      (by rw [htext]; simp [Tree.charsOf]) hfront
    rw [← byteLength_append] at hfirst
    exact hfirst.append
      (ih (fun u hu => h u (List.mem_cons_of_mem _ hu)) (by rw [htext]; simp [Tree.charsOf]) hback)

theorem mayBeEmpty_of_partKind {r : Rule} (h : r.partKind = .node) :
    sourceRanks.mayBeEmpty r = false ∧ ∀ q ∈ r.body.rules, sourceRanks.mayBeEmpty q = false := by
  revert h
  cases r <;> decide

theorem treePlaced_node (text : String) {r : Rule} {layout : Layout} {ps : List (Tree Rule)}
    {rest : List Char}
    (hmatch : sourceGrammar.Matches (r.style.inside layout) r.body (Tree.charsOf ps ++ rest) ps rest)
    (hrow : r.style ≠ .word → r.body.Row (heads ps)) (h : ∀ t ∈ ps, TreePlaced text t) :
    TreePlaced text (.node r ps) := by
  intro before behind items htext hitems
  obtain ⟨inner, part, hinner, hpart, rfl⟩ := Tree.items_node_eq_ok.1 hitems
  have hfront : text.toList = before ++ (Tree.charsOf ps ++ behind) := by
    rw [htext]
    simp [Tree.chars]
  have hboundary : IsBoundary text (byteLength before) := isBoundary_of_append hfront
  have hboundary' : IsBoundary text (byteLength before + byteLength (Tree.charsOf ps)) := by
    rw [← byteLength_append]
    exact isBoundary_of_append htext
  have hlt : sourceRanks.mayBeEmpty r = false →
      byteLength before < byteLength before + byteLength (Tree.charsOf ps) := by
    intro hr
    have hlength := hmatch.length_lt sourceGrammar_blanksSplit sourceGrammar_ranked (by
      by_contra hempty
      rw [sourceGrammar_ranked.mayBeEmpty r (Bool.eq_true_of_not_eq_false hempty)] at hr
      cases hr)
    have hpos := byteLength_pos (s := Tree.charsOf ps) (by rintro hnil; simp [hnil] at hlength)
    omega
  obtain ⟨hrules, -⟩ := isRow_of_itemsOf hinner
  have hkind := kind_of_build hpart
  have hmade := placed_of_makes (placedIn_itemsOf h htext hinner)
    (makes_of_match hmatch hrow hinner hpart)
    (fun i hi hnode => by
      by_cases hstyle : r.style = .word
      · rw [itemsOf_word hstyle hmatch hinner] at hi
        cases hi
      · have hmem := (hrow hstyle).mem_rules (hrules ▸ List.mem_map_of_mem hi)
        exact (mayBeEmpty_of_partKind (hkind.symm.trans hnode)).2 _ hmem)
    (fun hnode => hlt (mayBeEmpty_of_partKind (hkind.symm.trans hnode)).1) hboundary hboundary'
  exact ⟨Nat.le_refl _, ⟨hlt, hboundary, hboundary', hmade.1, hmade.2⟩, Nat.le_refl _⟩

theorem treePlaced_of_matches (text : String) {layout : Layout} {e : Peg Rule}
    {s rest : List Char} {parts : List (Tree Rule)}
    (h : sourceGrammar.Matches layout e s parts rest) : ∀ t ∈ parts, TreePlaced text t := by
  refine (trees_of_matches (P := TreePlaced text) ?_ ?_ h).1
  · intro cs before behind items _ hitems
    obtain rfl := Except.ok.inj hitems
    exact Nat.le_add_right _ _
  · intro r layout ps rest hmatch hrow hps
    exact treePlaced_node text hmatch hrow hps

/-- An entry reads the nodes that its items carry. -/
theorem genericsOf_eq_carried {entry : Entry} {s rest : List Char} {trees : List (Tree Rule)}
    (hmatch : sourceGrammar.Matches .spaced (.rule entry.rule) s trees rest) {items : List Item}
    (hitems : Tree.itemsOf 0 trees = .ok items) : genericsOf items = carried items := by
  obtain ⟨ps, rfl, -⟩ := entry_tree hmatch
  obtain ⟨place, part, rfl, hkind⟩ := (isRow_of_itemsOf hitems).single
  cases entry <;> cases part <;> first | cases hkind; done | rfl

/-- The nodes read from a text are its items in order, and every node below them is placed. -/
theorem placed_of_read {entry : Entry} {text : String} {nodes : List Node}
    (h : read entry text = .ok nodes) :
    InOrder 0 text.utf8ByteSize nodes ∧ ∀ n ∈ nodes, ∀ m ∈ n.preorder, m.Placed text := by
  obtain ⟨trees, rest, items, hmatch, hitems, rfl⟩ := readChars_eq_ok_iff_matches.1 h
  have htext := hmatch.text sourceGrammar_blanksSplit
  have hwhole : text.toList = [] ++ Tree.charsOf trees ++ rest := htext.symm
  have hplaced := placedIn_itemsOf (treePlaced_of_matches text hmatch) hwhole hitems
  rw [genericsOf_eq_carried hmatch hitems]
  refine ⟨hplaced.order.mono ?_, hplaced.nodes⟩
  rw [← byteLength_toList, ← htext, byteLength_append]
  simp [byteLength]

/-- The spans of the items of a text: the items stand one behind the other, every node below them covers
text of its own, and its children stand inside it, one behind the other. -/
structure WellNested (text : String) (items : List Node) : Prop where
  apart : items.IsChain fun c d => c.span.stop ≤ d.span.start
  covers : ∀ item ∈ items, ∀ n ∈ item.preorder,
    n.span.start < n.span.stop ∧ n.span.stop ≤ text.utf8ByteSize
  boundaries : ∀ item ∈ items, ∀ n ∈ item.preorder,
    IsBoundary text n.span.start ∧ IsBoundary text n.span.stop
  inside : ∀ item ∈ items, ∀ n ∈ item.preorder, ∀ c ∈ n.children,
    n.span.start ≤ c.span.start ∧ c.span.stop ≤ n.span.stop
  childrenApart : ∀ item ∈ items, ∀ n ∈ item.preorder,
    n.children.IsChain fun c d => c.span.stop ≤ d.span.start

theorem wellNested_of_read {entry : Entry} {text : String} {nodes : List Node}
    (h : read entry text = .ok nodes) : WellNested text nodes := by
  obtain ⟨horder, hplaced⟩ := placed_of_read h
  exact {
    apart := horder.isChain
    covers := fun item hitem n hn =>
      ⟨(hplaced item hitem n hn).nonempty, (hplaced item hitem n hn).stop.le⟩
    boundaries := fun item hitem n hn =>
      ⟨(hplaced item hitem n hn).start, (hplaced item hitem n hn).stop⟩
    inside := fun item hitem n hn => (hplaced item hitem n hn).order.bounds
    childrenApart := fun item hitem n hn => (hplaced item hitem n hn).order.isChain }

/-- The spans of what is read from a text are well nested, by each way to read one. -/
theorem read_wellNested (entry : Entry) (text : String) :
    (∀ items, read entry text = .ok items → WellNested text items) ∧
    ∀ n, readOne entry text = .ok n → WellNested text [n] :=
  ⟨fun _ h => wellNested_of_read h, fun _ h => wellNested_of_read (readOne_eq_ok.1 h)⟩

theorem read_wellNested_trivia : ∃ items,
    readSource "@a var x /* é */ = -f(\"ü\\(y)\").z! + 1 // c\nlet (p, _): T<U>? = nil" = .ok items ∧
      items.length = 2 ∧
      WellNested "@a var x /* é */ = -f(\"ü\\(y)\").z! + 1 // c\nlet (p, _): T<U>? = nil" items := by
  obtain ⟨items, hitems, hlength⟩ := exists_of_okAnd
    (by decide +kernel : okAnd (readSource
      "@a var x /* é */ = -f(\"ü\\(y)\").z! + 1 // c\nlet (p, _): T<U>? = nil")
      (fun items => items.length == 2) = true)
  exact ⟨items, hitems, beq_iff_eq.1 hlength, (read_wellNested .source _).1 items hitems⟩

end SwiftMacro
