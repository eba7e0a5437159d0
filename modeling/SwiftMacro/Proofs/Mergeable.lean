import SwiftMacro.Proofs.Replacement
import SwiftMacro.Proofs.Reprinting
/-!
# Neighbours that can be taken for one

`Mergeable` describes two neighbouring statements by their shapes alone: a subtraction without its left
side below something that can be one, and a word that can be a modifier above a declaration without
attributes. Among statements that were read these are exactly the neighbours that run into each other
(`runsInto_iff_mergeable`), so a declaration is read back from its text, up to spans, if and only if no
block in it has such a pair (`rereads_iff_unmergeable`).
-/

namespace SwiftMacro

namespace Node

/-- An expression whose first operand has a minus sign. -/
def StartsNegative (n : Node) : Prop :=
  n.kind.isExpression = true ∧ ∃ operand, n.first.shape = .prefixed "-" operand

/-- A binding with an initial value and no accessors. -/
def EndsWithInitial (binding : Node) : Prop :=
  ∃ pattern declaredType initial, binding.shape = .patternBinding pattern declaredType (some initial) []

/-- Variables of which the last one has an initial value and no accessors. -/
def LastEndsWithInitial (n : Node) : Prop :=
  ∃ attributes modifiers keyword bindings last,
    n.shape = .variableDecl attributes modifiers keyword bindings ∧ bindings.getLast? = some last ∧
      last.EndsWithInitial

/-- Two statements, one above the other, that can be taken for one. -/
inductive Mergeable (s t : Node) : Prop
  | subtraction (left : s.kind.isExpression = true ∨ s.LastEndsWithInitial) (right : t.StartsNegative)
  | modifier {name : String} (left : s.shape = .identifier name) (known : name ∈ Rule.modifiers)
      (right : t.kind.isDeclaration = true) (bare : t.attributes = [])

/-- A block in the tree, at any depth, has two neighbours that can be taken for one. -/
def HasMergeable (n : Node) : Prop :=
  ∃ block ∈ n.preorder, ∃ front s t back, block.body = front ++ s :: t :: back ∧ s.Mergeable t

/-! ## Shapes -/

theorem isNegated_iff (n : Node) : n.isNegated = true ↔ n.StartsNegative := by
  have hfirst : n.isNegated = true ↔ ∃ operand, n.first.shape = .prefixed "-" operand := by
    unfold isNegated
    split
    · next operator operand hshape => simp [hshape]
    · next hother => simpa using hother "-"
  rw [hfirst, StartsNegative, and_iff_right_of_imp]
  rintro ⟨operand, hoperand⟩
  -- A node that is no chain is its own first operand.
  obtain ⟨shape, span⟩ := n
  cases shape <;> first | rfl | cases hoperand

theorem isOpen_iff (binding : Node) : binding.isOpen = true ↔ binding.EndsWithInitial := by
  unfold isOpen EndsWithInitial
  split
  · next pattern declaredType initial hshape => simp [hshape]
  · next hother => simpa using fun pattern declaredType initial => hother pattern declaredType initial

theorem isBareDeclaration_iff (n : Node) :
    n.isBareDeclaration = true ↔ n.kind.isDeclaration = true ∧ n.attributes = [] := by
  obtain ⟨shape, span⟩ := n
  cases shape with
  | variableDecl attributes | functionDecl attributes =>
    cases attributes <;> simp [isBareDeclaration, kind, Shape.kind, Kind.isDeclaration, attributes]
  | _ => simp [isBareDeclaration, kind, Shape.kind, Kind.isDeclaration]

/-! ## Statements that were read -/

theorem kind_eraseSpans (n : Node) : n.eraseSpans.kind = n.kind := by
  obtain ⟨shape, span⟩ := n
  rw [eraseSpans_mk]
  cases shape <;> rfl

end Node

/-- What stands in the place of a statement or of a part of an expression is a declaration or an
expression. -/
theorem Readable.kind {c : Category} {n : Node} (h : Readable c n)
    (hc : c ∈ [Category.primary, .operand, .unary, .expression, .statement]) :
    n.kind.isDeclaration = true ∨ n.kind.isExpression = true := by
  induction h with
  | ofPrimary _ ih | ofOperand _ ih | ofUnary _ ih | ofExpression _ ih => exact ih (by decide)
  | variableDecl | functionDecl => exact .inl rfl
  | typeName | optional | attr | name | named | wildcard | tuplePattern | binding | accessor =>
    exact absurd hc (by decide)
  | _ => exact .inr rfl

theorem Readable.body {c : Category} {n : Node} (h : Readable c n) :
    ∀ s ∈ n.body, Readable .statement s := by
  induction h with
  | ofPrimary _ ih | ofOperand _ ih | ofUnary _ ih | ofExpression _ ih => exact ih
  | accessor inner => exact inner
  | functionDecl _ _ _ inner => exact inner
  | _ => exact fun _ hs => nomatch hs

/-- Below a statement that was read, another one goes on with it exactly if the two are mergeable. -/
theorem runsInto_iff_mergeable {s : Node} (h : Readable .statement s.eraseSpans) (t : Node) :
    s.runsInto t = true ↔ s.Mergeable t := by
  have hkind := h.kind (by decide)
  rw [Node.kind_eraseSpans] at hkind
  -- An expression that is no single name goes on only with a minus sign.
  have hexpression : ∀ {n : Node}, n.kind.isExpression = true →
      (∀ name, n.shape ≠ .identifier name) → (t.isNegated = true ↔ n.Mergeable t) := by
    intro n hn hname
    rw [Node.isNegated_iff]
    refine ⟨.subtraction (.inl hn), fun hmerge => ?_⟩
    cases hmerge with
    | subtraction _ right => exact right
    | modifier left => exact absurd left (hname _)
  obtain ⟨shape, span⟩ := s
  cases shape with
  | identifier name =>
    rw [Node.runsInto, Bool.or_eq_true, Bool.and_eq_true, decide_eq_true_iff, Node.isNegated_iff,
      Node.isBareDeclaration_iff]
    constructor
    · rintro (hminus | ⟨known, hdeclaration, hbare⟩)
      · exact .subtraction (.inl rfl) hminus
      · exact .modifier rfl known hdeclaration hbare
    · rintro (⟨-, hminus⟩ | ⟨left, known, hdeclaration, hbare⟩)
      · exact .inl hminus
      · obtain rfl := Shape.identifier.inj left
        exact .inr ⟨known, hdeclaration, hbare⟩
  | variableDecl attributes modifiers keyword bindings =>
    rw [Node.runsInto, Bool.and_eq_true, Node.isNegated_iff, Option.any_eq_true]
    constructor
    · rintro ⟨⟨last, hlast, hopen⟩, hminus⟩
      exact .subtraction (.inr ⟨_, _, _, _, last, rfl, hlast, (Node.isOpen_iff last).1 hopen⟩) hminus
    · rintro (⟨left | ⟨_, _, _, _, last, hshape, hlast, hopen⟩, hminus⟩ | ⟨left, -, -, -⟩)
      · cases left
      · cases hshape
        exact ⟨⟨last, hlast, (Node.isOpen_iff last).2 hopen⟩, hminus⟩
      · cases left
  | functionDecl =>
    constructor
    · intro hruns
      cases hruns
    · rintro (⟨left | ⟨_, _, _, _, _, hshape, -⟩, -⟩ | ⟨left, -, -, -⟩)
      · cases left
      · cases hshape
      · cases left
  | _ =>
    refine hexpression (hkind.resolve_left Bool.noConfusion) fun name hshape => ?_
    cases hshape

/-! ## Trees that were read -/

/-- In a tree that was read, no neighbours run into each other if and only if none are mergeable. -/
theorem separate_iff_not_hasMergeable {c : Category} {n : Node} (h : Readable c n.eraseSpans) :
    n.Separate ↔ ¬ n.HasMergeable := by
  have hbody : ∀ block ∈ n.preorder, ∀ s ∈ block.body, Readable .statement s.eraseSpans := by
    intro block hblock s hs
    obtain ⟨d, hd⟩ := readable_of_mem_preorder h hblock
    refine hd.body _ ?_
    rw [Node.body_eraseSpans]
    exact List.mem_map_of_mem hs
  simp only [Node.Separate, Node.HasMergeable, List.isChain_iff_forall_rel_of_append_cons_cons]
  constructor
  · rintro hseparate ⟨block, hblock, front, s, t, back, hsplit, hmerge⟩
    have hs := hbody block hblock s (by simp [hsplit])
    have hruns := (runsInto_iff_mergeable hs t).2 hmerge
    rw [hseparate block hblock hsplit] at hruns
    cases hruns
  · intro hnone block hblock s t front back hsplit
    have hs := hbody block hblock s (by simp [hsplit])
    refine Bool.eq_false_iff.2 fun hruns => hnone ?_
    exact ⟨block, hblock, front, s, t, back, hsplit, (runsInto_iff_mergeable hs t).1 hruns⟩

/-- What is read back is the tree that was written if and only if no block has mergeable neighbours. -/
theorem eraseSpans_eq_iff {c : Category} {n m : Node} (h : Readable c n.eraseSpans)
    (hm : m.eraseSpans = n.eraseSpans.join) :
    m.eraseSpans = n.eraseSpans ↔ ¬ n.HasMergeable := by
  rw [hm, Node.join_eq_self_iff, Node.separate_eraseSpans, separate_iff_not_hasMergeable h]

/-- The text tells: it is the same again if and only if no block has mergeable neighbours. -/
theorem render_eq_iff_unmergeable {c : Category} {n m : Node} (h : Readable c n.eraseSpans)
    (hc : c.hasBlocks = true) (hm : m.eraseSpans = n.eraseSpans.join) :
    m.render = n.render ↔ ¬ n.HasMergeable :=
  (render_eq_iff_separate h hc hm).trans (separate_iff_not_hasMergeable h)

/-- Reading the text of a declaration, an expression or an accessor that was read gives one node. It is
the same node, up to spans, if and only if no block in it, at any depth, has mergeable neighbours. -/
theorem rereads_iff_unmergeable (text : String) :
    (∀ nodes, readSource text = .ok nodes → ∀ n ∈ nodes,
      ∃ m, readSource n.render = .ok [m] ∧ (m.eraseSpans = n.eraseSpans ↔ ¬ n.HasMergeable)) ∧
    (∀ n, readAccessor text = .ok n →
      ∃ m, readAccessor n.render = .ok m ∧ (m.eraseSpans = n.eraseSpans ↔ ¬ n.HasMergeable)) := by
  constructor
  · intro nodes h n hn
    have hread : Readable .statement n.eraseSpans := readable_of_readChars h n hn
    obtain ⟨m, hm, hjoin⟩ := readSource_render hread
    rw [Node.render_eraseSpans] at hm
    exact ⟨m, hm, eraseSpans_eq_iff hread hjoin⟩
  · intro n h
    have hread : Readable .accessor n.eraseSpans := readable_of_readOne h
    obtain ⟨m, hm, hjoin⟩ := readAccessor_render hread
    rw [Node.render_eraseSpans] at hm
    exact ⟨m, hm, eraseSpans_eq_iff hread hjoin⟩

theorem rereads_iff_unmergeable_nested :
    (∃ n m, readSource "func f() { lazy; @a var x = 1 { get { y } }; -b }" = .ok [n] ∧
      readSource n.render = .ok [m] ∧ m.eraseSpans = n.eraseSpans ∧ ¬ n.HasMergeable) ∧
    (∃ n m, readAccessor "set { lazy; var x = 1 }" = .ok n ∧
      readAccessor n.render = .ok m ∧ m.eraseSpans ≠ n.eraseSpans ∧ n.HasMergeable) := by
  constructor
  · have hkeeps : oneAnd (readSource "func f() { lazy; @a var x = 1 { get { y } }; -b }")
        (fun n => okAnd (readSource n.render) fun ms => ms.all fun m => decide (m.render = n.render)) =
          true := by
      decide +kernel
    obtain ⟨n, hread, hkeeps⟩ := exists_of_oneAnd hkeeps
    have hreadable : Readable .statement n.eraseSpans := readable_of_readChars hread n List.mem_cons_self
    obtain ⟨m, hm, hiff⟩ := (rereads_iff_unmergeable _).1 _ hread n List.mem_cons_self
    obtain ⟨m', hm', hjoin⟩ := readSource_render hreadable
    rw [Node.render_eraseSpans, hm] at hm'
    obtain rfl : m = m' := List.cons.inj (Except.ok.inj hm') |>.1
    rw [hm] at hkeeps
    have htext := of_decide_eq_true (List.all_eq_true.1 hkeeps m List.mem_cons_self)
    have hnone := (render_eq_iff_unmergeable hreadable rfl hjoin).1 htext
    exact ⟨n, m, hread, hm, hiff.2 hnone, hnone⟩
  · have hchanges : okAnd (readAccessor "set { lazy; var x = 1 }") (fun n =>
        okAnd (readAccessor n.render) fun m => decide (m.render ≠ n.render)) = true := by
      decide +kernel
    obtain ⟨n, hread, hchanges⟩ := exists_of_okAnd hchanges
    obtain ⟨m, hm, hiff⟩ := (rereads_iff_unmergeable _).2 _ hread
    rw [hm] at hchanges
    have htext := of_decide_eq_true hchanges
    have hne : m.eraseSpans ≠ n.eraseSpans := fun heq =>
      htext (by rw [← Node.render_eraseSpans m, heq, Node.render_eraseSpans])
    exact ⟨n, m, hread, hm, hne, not_not.1 fun h => hne (hiff.2 h)⟩

end SwiftMacro
