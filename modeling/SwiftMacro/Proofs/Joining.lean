import Mathlib.Data.List.ModifyLast
import SwiftMacro.Grammar
import SwiftMacro.Node.Kind
import SwiftMacro.Proofs.Nodes
/-!
# Statements that run into each other

A canonical text has one statement in each line and no semicolons. Two neighbours `runsInto` each
other if reading such a text would take them for one statement: a subtraction goes on where the next
line starts with a minus sign, and a word such as `lazy` is a modifier of the declaration below it.
`Node.join` makes the one statement of such neighbours, in all blocks of a tree, and changes nothing
exactly where no neighbours run into each other (`join_eq_self_iff`).
-/

namespace SwiftMacro

namespace Node

/-! ## The first operand of a chain -/

/-- The operand that a chain of operators and casts starts with. -/
def first : Node → Node
  | ⟨.binary lhs _ _, _⟩ => first lhs
  | ⟨.cast value _ _, _⟩ => first value
  | n => n

/-- The chain with another first operand. -/
def mapFirst (f : Node → Node) : Node → Node
  | ⟨.binary lhs operator rhs, span⟩ => ⟨.binary (mapFirst f lhs) operator rhs, span⟩
  | ⟨.cast value kind target, span⟩ => ⟨.cast (mapFirst f value) kind target, span⟩
  | n => f n

/-- Whether the operand is no chain itself. -/
def isOperand (n : Node) : Bool :=
  match n.shape with
  | .binary _ _ _ | .cast _ _ _ => false
  | _ => true

theorem mapFirst_of_isOperand {n : Node} (f : Node → Node) (h : n.isOperand = true) :
    n.mapFirst f = f n := by
  obtain ⟨shape, span⟩ := n
  cases shape <;> first | rfl | cases h

/-- Whether the chain starts with a minus sign. -/
def isNegated (n : Node) : Bool :=
  match n.first.shape with
  | .prefixed operator _ => operator == "-"
  | _ => false

/-- The operand behind a sign as the right side of an operator with that sign. -/
def afterSign (lhs n : Node) : Node :=
  match n.shape with
  | .prefixed operator operand => ⟨.binary lhs operator operand, n.span⟩
  | _ => n

/-- The chain that starts with a minus sign, subtracted from what stands before it. -/
def subtractedFrom (n lhs : Node) : Node := n.mapFirst lhs.afterSign

/-! ## Neighbours -/

/-- Whether the text of a binding ends with its initial value. -/
def isOpen (binding : Node) : Bool :=
  match binding.shape with
  | .patternBinding _ _ (some _) [] => true
  | _ => false

/-- The binding with another initial value, if its text ends with one. -/
def mapInitial (f : Node → Node) (binding : Node) : Node :=
  match binding.shape with
  | .patternBinding pattern declaredType (some value) [] =>
      ⟨.patternBinding pattern declaredType (some (f value)) [], binding.span⟩
  | _ => binding

/-- Whether the node is a declaration without attributes. -/
def isBareDeclaration (n : Node) : Bool :=
  match n.shape with
  | .variableDecl [] _ _ _ | .functionDecl [] _ _ _ => true
  | _ => false

theorem attributes_of_isBareDeclaration {n : Node} (h : n.isBareDeclaration = true) :
    n.attributes = [] := by
  unfold isBareDeclaration at h
  unfold attributes
  split at h
  · next hshape => rw [hshape]
  · next hshape => rw [hshape]
  · cases h

/-- The declaration with one more modifier in front. -/
def withModifier (modifier : String) (n : Node) : Node :=
  match n.shape with
  | .variableDecl attributes modifiers keyword bindings =>
      ⟨.variableDecl attributes (modifier :: modifiers) keyword bindings, n.span⟩
  | .functionDecl attributes modifiers name body =>
      ⟨.functionDecl attributes (modifier :: modifiers) name body, n.span⟩
  | _ => n

/-- Whether a statement and the one in the next line are read as one. -/
def runsInto (s t : Node) : Bool :=
  match s.shape with
  | .identifier name => t.isNegated || (decide (name ∈ Rule.modifiers) && t.isBareDeclaration)
  | .variableDecl _ _ _ bindings => bindings.getLast?.any isOpen && t.isNegated
  | .functionDecl _ _ _ _ => false
  | _ => t.isNegated

/-- The one statement that two neighbours are read as. -/
def merged (s t : Node) : Node :=
  match s.shape with
  | .variableDecl attributes modifiers keyword bindings =>
      ⟨.variableDecl attributes modifiers keyword
        (bindings.modifyLast (mapInitial t.subtractedFrom)), s.span⟩
  | .identifier name => if t.isNegated then t.subtractedFrom s else t.withModifier name
  | _ => t.subtractedFrom s

/-! ## Blocks -/

/-- A statement in front of others that have been joined already. -/
def joinFront (s : Node) : List Node → List Node
  | [] => [s]
  | t :: ts => if s.runsInto t then s.merged t :: ts else s :: t :: ts

/-- The statements of a block with neighbours joined. -/
def joinAll (body : List Node) : List Node := body.foldr joinFront []

end Node

/-- The shape with the statements of its block joined. -/
def Shape.joinBody : Shape Node → Shape Node
  | .functionDecl attributes modifiers name body =>
      .functionDecl attributes modifiers name (Node.joinAll body)
  | .accessor kind body => .accessor kind (Node.joinAll body)
  | shape => shape

namespace Node

/-- The tree with neighbours joined in all blocks. -/
def join : Node → Node := fold fun shape span => ⟨shape.joinBody, span⟩

theorem join_mk (shape : Shape Node) (span : Span) :
    join ⟨shape, span⟩ = ⟨(shape.map join).joinBody, span⟩ := fold_mk _ shape span

/-- The statements of the block of a function or an accessor. -/
def body (n : Node) : List Node :=
  match n.shape with
  | .functionDecl _ _ _ body | .accessor _ body => body
  | _ => []

/-- No neighbours in a block of the tree run into each other. -/
def Separate (n : Node) : Prop :=
  ∀ block ∈ n.preorder, block.body.IsChain fun s t => s.runsInto t = false

/-! ## Where nothing is joined -/

theorem joinAll_cons (s : Node) (ss : List Node) : joinAll (s :: ss) = joinFront s (joinAll ss) := rfl

theorem joinFront_eq_cons {s : Node} {ts : List Node} (h : ∀ t ∈ ts.head?, s.runsInto t = false) :
    joinFront s ts = s :: ts := by
  cases ts with
  | nil => rfl
  | cons t ts => simp [joinFront, h t rfl]

theorem length_joinFront_le (s : Node) (ts : List Node) : (joinFront s ts).length ≤ ts.length + 1 := by
  cases ts with
  | nil => simp [joinFront]
  | cons t ts => by_cases h : s.runsInto t = true <;> simp [joinFront, h]

theorem length_joinAll_le (ss : List Node) : (joinAll ss).length ≤ ss.length := by
  induction ss with
  | nil => simp [joinAll]
  | cons s ss ih =>
    have hfront := length_joinFront_le s (joinAll ss)
    rw [joinAll_cons, List.length_cons]
    omega

/-- Statements of which as many are left as there were have not been joined. -/
theorem joinAll_eq_of_length {ss : List Node} (h : (joinAll ss).length = ss.length) :
    joinAll ss = ss ∧ ss.IsChain fun s t => s.runsInto t = false := by
  induction ss with
  | nil => exact ⟨rfl, .nil⟩
  | cons s ss ih =>
    have hfront := length_joinFront_le s (joinAll ss)
    have hle := length_joinAll_le ss
    rw [joinAll_cons, List.length_cons] at h
    obtain ⟨heq, hchain⟩ := ih (by omega)
    rw [heq] at h
    rw [joinAll_cons, heq]
    cases ss with
    | nil => exact ⟨rfl, .singleton s⟩
    | cons t ts =>
      cases hruns : s.runsInto t with
      | true => simp [joinFront, hruns] at h
      | false => exact ⟨by simp [joinFront, hruns], .cons_cons hruns hchain⟩

theorem joinAll_of_isChain {ss : List Node} (h : ss.IsChain fun s t => s.runsInto t = false) :
    joinAll ss = ss := by
  induction ss with
  | nil => rfl
  | cons s ss ih =>
    cases ss with
    | nil => rfl
    | cons t ts =>
      obtain ⟨hruns, hchain⟩ := List.isChain_cons_cons.1 h
      rw [joinAll_cons, ih hchain]
      simp [joinFront, hruns]

/-- Joined statements are the same as before only if neither they nor anything inside them changed. -/
theorem joinAll_map_eq_self_iff {f : Node → Node} {ss : List Node} :
    joinAll (ss.map f) = ss ↔
      (∀ s ∈ ss, f s = s) ∧ ss.IsChain fun s t => s.runsInto t = false := by
  constructor
  · intro h
    have hlength : (joinAll (ss.map f)).length = (ss.map f).length := by rw [h, List.length_map]
    obtain ⟨heq, hchain⟩ := joinAll_eq_of_length hlength
    have hmap : ss.map f = ss.map id := by rw [← heq, h, List.map_id]
    refine ⟨List.map_inj_left.1 hmap, ?_⟩
    rwa [hmap, List.map_id] at hchain
  · rintro ⟨hmap, hchain⟩
    have hid : ss.map f = ss := (List.map_congr_left hmap).trans (List.map_id ss)
    rw [hid, joinAll_of_isChain hchain]

end Node

namespace Shape

theorem map_eq_self_iff {α : Type} {f : α → α} {shape : Shape α} :
    shape.map f = shape ↔ ∀ c ∈ shape.children, f c = c := by
  constructor
  · intro h
    have hchildren := children_map f shape
    rw [h] at hchildren
    exact List.map_inj_left.1 (hchildren.symm.trans (List.map_id _).symm)
  · intro h
    have hsegment : ∀ s : Segment α, s.map (fun c => c) = s := fun s => by cases s <;> rfl
    refine (map_congr h).trans ?_
    cases shape <;> simp [Shape.map, Argument.map, hsegment]

end Shape

namespace Node

theorem separate_iff (n : Node) : n.Separate ↔
    (n.body.IsChain fun s t => s.runsInto t = false) ∧ ∀ c ∈ n.children, c.Separate := by
  unfold Separate
  rw [preorder_eq]
  simp only [List.mem_cons, List.mem_flatMap, forall_eq_or_imp]
  constructor
  · rintro ⟨hbody, hbelow⟩
    exact ⟨hbody, fun c hc block hblock => hbelow block ⟨c, hc, hblock⟩⟩
  · rintro ⟨hbody, hbelow⟩
    exact ⟨hbody, fun block ⟨c, hc, hblock⟩ => hbelow c hc block hblock⟩

/-- Joining changes a tree exactly where neighbours run into each other. -/
theorem join_eq_self_iff (n : Node) : n.join = n ↔ n.Separate := by
  induction n using induct with
  | step n ih =>
    obtain ⟨shape, span⟩ := n
    have hchildren : (∀ c ∈ shape.children, c.join = c) ↔
        ∀ c ∈ (⟨shape, span⟩ : Node).children, c.Separate :=
      forall₂_congr ih
    have hmap := @Shape.map_eq_self_iff _ join shape
    rw [separate_iff, ← hchildren, join_mk, mk.injEq, and_iff_left rfl]
    cases shape with
    | functionDecl attributes modifiers name body =>
      simp only [Shape.map, Shape.joinBody, Shape.functionDecl.injEq, true_and, Shape.children,
        List.mem_append, or_imp, forall_and, Node.body, joinAll_map_eq_self_iff]
      have hfront : attributes.map join = attributes ↔ ∀ a ∈ attributes, a.join = a := by
        have hid := @List.map_inj_left _ _ attributes join id
        rwa [List.map_id] at hid
      rw [hfront]
      constructor
      · rintro ⟨hfront, hinner, hchain⟩
        exact ⟨hchain, hfront, hinner⟩
      · rintro ⟨hchain, hfront, hinner⟩
        exact ⟨hfront, hinner, hchain⟩
    | accessor kind body =>
      simp only [Shape.map, Shape.joinBody, Shape.accessor.injEq, true_and, Shape.children, Node.body,
        joinAll_map_eq_self_iff]
      exact and_comm
    | _ => exact hmap.trans (and_iff_right .nil).symm

end Node
end SwiftMacro
