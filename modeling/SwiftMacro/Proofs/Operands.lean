import SwiftMacro.Macro.Extract
import SwiftMacro.Proofs.Getter
import SwiftMacro.Proofs.Joints
import SwiftMacro.Proofs.Mergeable
import SwiftMacro.Proofs.SiteOrder
/-!
# The shape of expressions

What is read as an expression has no operator on the right of another, and nothing is called, unwrapped or
asked for a member that has an operator or a sign in front: these take brackets. So a chain leans to the
left, and its operands and operators stand in the text in the order in which the tree has them
(`read_well_shaped`).
-/

namespace SwiftMacro

/-! ## What stands below a node -/

/-- What is called, unwrapped, asked for a member or has a sign in front without brackets around it. -/
def Kind.isBase : Kind → Bool
  | binary | cast | prefixed => false
  | _ => true

/-- What stands directly below a node that can be read. -/
def Node.Composed (n : Node) : Prop :=
  match n.shape with
  | .stringLiteral segments => segments = [.text ""] ∨ segments ≠ [] ∧ Apart segments
  | .call base _ | .memberAccess (some base) _ | .forceUnwrap base | .prefixed _ base =>
      base.kind.isBase = true
  | .binary _ _ rhs => rhs.isOperand = true
  | .cast _ _ target => target.isOperand = true
  | _ => True

theorem isBase_of_readable {n : Node} (h : Readable .operand n) : n.kind.isBase = true := by
  cases h with
  | ofPrimary h => cases h <;> rfl
  | call | member | unwrap => rfl

theorem isOperand_of_readable_type {n : Node} (h : Readable .type n) : n.isOperand = true := by
  cases h <;> rfl

theorem Readable.composed {c : Category} {n : Node} (h : Readable c n) : n.Composed := by
  induction h with
  | emptyString => exact .inl rfl
  | string nonempty apart => exact .inr ⟨nonempty, apart⟩
  | call h | member h | unwrap h | prefixed _ h => exact isBase_of_readable h
  | binary _ _ right => exact right.isOperand
  | cast _ right => exact isOperand_of_readable_type right
  | ofPrimary _ ih | ofOperand _ ih | ofUnary _ ih | ofExpression _ ih => exact ih
  | _ => trivial

/-! ## Segments of strings -/

section Segments

variable {segments front back : List (Segment Node)} {a b : String}

theorem Apart.of_text (h : Apart (.text a :: segments)) : a ≠ "" ∧ Apart segments := by
  cases segments with
  | nil => exact ⟨h, trivial⟩
  | cons s segments =>
    cases s with
    | text b => exact h.elim
    | interpolation e => exact h

theorem Apart.tail {s : Segment Node} (h : Apart (s :: segments)) : Apart segments := by
  cases s with
  | text a => exact h.of_text.2
  | interpolation e => exact h

theorem Apart.not_adjacent (h : Apart segments) : segments ≠ front ++ .text a :: .text b :: back := by
  rintro rfl
  induction front with
  | nil => exact h
  | cons s front ih => exact ih h.tail

theorem apart_map (f : Node → Node) : Apart (segments.map (·.map f)) ↔ Apart segments := by
  fun_induction Apart segments with
  | case2 _ rest ih => exact ih
  | case5 content _ rest ih => exact and_congr_right fun _ => ih
  | _ => rfl

theorem map_eq_empty {f : Node → Node} (h : segments.map (·.map f) = [.text ""]) :
    segments = [.text ""] := by
  obtain ⟨s, rfl, hs⟩ := List.map_eq_singleton_iff.1 h
  cases s with
  | text content => rw [Segment.text.inj hs]
  | interpolation e => cases hs

theorem Apart.empty_not_mem (h : Apart segments) : .text "" ∉ segments := by
  induction segments with
  | nil => nofun
  | cons s segments ih =>
    intro hmem
    rcases List.mem_cons.1 hmem with rfl | hmem
    · exact h.of_text.1 rfl
    · exact ih h.tail hmem

end Segments

/-! ## Chains -/

/-- An operator or a cast, with what stands on its right. -/
inductive Link where
  | operation (operator : String) (rhs : Node)
  | castTo (kind : CastKind) (target : Node)

namespace Link

/-- The text between the operands. -/
def word : Link → String
  | operation operator _ => operator
  | castTo kind _ => Render.castWord kind

/-- What stands on the right. -/
def operand : Link → Node
  | operation _ rhs => rhs
  | castTo _ target => target

/-- The node with this on its left. -/
def apply (lhs : Node) : Link → Node
  | operation operator rhs => ⟨.binary lhs operator rhs, ⟨lhs.span.start, rhs.span.stop⟩⟩
  | castTo kind target => ⟨.cast lhs kind target, ⟨lhs.span.start, target.span.stop⟩⟩

end Link

/-- The first operand of a tree of operators and casts, and the links behind it, from left to right. -/
def Node.flattened : Node → Node × List Link
  | ⟨.binary lhs operator rhs, _⟩ =>
      (lhs.flattened.1, lhs.flattened.2 ++ .operation operator rhs.flattened.1 :: rhs.flattened.2)
  | ⟨.cast value kind target, _⟩ => (value.flattened.1, value.flattened.2 ++ [.castTo kind target])
  | n => (n, [])

section Flattened

variable {text : List Char} {a b : Nat}

theorem Node.flattened_of_isOperand {n : Node} (h : n.isOperand = true) : n.flattened = (n, []) := by
  obtain ⟨shape, span⟩ := n
  cases shape with
  | binary | cast => cases h
  | _ => rw [flattened] <;> nofun

/-- From byte `a` up to byte `b` stand the links, each with its word in front of its operand. -/
inductive Follow (text : List Char) : Nat → List Link → Nat → Prop
  | nil (a : Nat) : Follow text a [] a
  | cons {a b : Nat} {link : Link} {links : List Link}
      (word : WordBetween text a link.word link.operand.span.start)
      (le : link.operand.span.start ≤ link.operand.span.stop)
      (rest : Follow text link.operand.span.stop links b) : Follow text a (link :: links) b

theorem Follow.snoc {links : List Link} (h : Follow text a links b) {link : Link}
    (hword : WordBetween text b link.word link.operand.span.start)
    (hle : link.operand.span.start ≤ link.operand.span.stop) :
    Follow text a (links ++ [link]) link.operand.span.stop := by
  induction h with
  | nil => exact .cons hword hle (.nil _)
  | cons word le _ ih => exact .cons word le (ih hword)

end Flattened

/-- The node is its first operand with one link after the other applied to what is on the left. No operand
is itself an operator or a cast, and they stand in the text in this order. -/
structure Node.LeansLeft (text : List Char) (n : Node) : Prop where
  folded : n.flattened.2.foldl Link.apply n.flattened.1 = n
  first : n.flattened.1.isOperand = true
  operands : ∀ link ∈ n.flattened.2, link.operand.isOperand = true
  start : n.flattened.1.span.start = n.span.start
  le : n.flattened.1.span.start ≤ n.flattened.1.span.stop
  order : Follow text n.flattened.1.span.stop n.flattened.2 n.span.stop

theorem Link.apply_span (lhs : Node) (link : Link) :
    (link.apply lhs).span = ⟨lhs.span.start, link.operand.span.stop⟩ := by
  cases link <;> rfl

/-- One more link on the right. -/
theorem Node.LeansLeft.snoc {text : List Char} {lhs n : Node} {link : Link} (h : lhs.LeansLeft text)
    (hn : link.apply lhs = n) (hflat : n.flattened = (lhs.flattened.1, lhs.flattened.2 ++ [link]))
    (hoperand : link.operand.isOperand = true)
    (hword : WordBetween text lhs.span.stop link.word link.operand.span.start)
    (hle : link.operand.span.start ≤ link.operand.span.stop) : n.LeansLeft text := by
  subst hn
  constructor <;> simp only [hflat, Link.apply_span]
  · rw [List.foldl_append, h.folded]
    rfl
  · exact h.first
  · intro other hother
    rcases List.mem_append.1 hother with hother | hother
    · exact h.operands other hother
    · rwa [List.mem_singleton.1 hother]
  · exact h.start
  · exact h.le
  · exact h.order.snoc hword hle

/-- A tree leans to the left if its nodes are joined, and no operator or cast has one of them on its
right. -/
theorem Node.leansLeft {text : List Char} {n : Node}
    (h : ∀ m ∈ n.preorder, m.Composed ∧ m.Joined text ∧ m.span.start ≤ m.span.stop) :
    n.LeansLeft text := by
  -- By induction on the tree. Only what is on the left can be a chain itself, so each step adds one link.
  induction n using Node.induct with
  | step n ih =>
  obtain ⟨⟨hcomposed, hjoined, hle⟩, hbelow⟩ := forall_preorder_iff.1 h
  have hchildren : ∀ c ∈ n.children, c.LeansLeft text ∧ c.span.start ≤ c.span.stop := fun c hc =>
    ⟨ih c hc (hbelow c hc), (forall_preorder_iff.1 (hbelow c hc)).1.2.2⟩
  by_cases hoperand : n.isOperand = true
  · have hflat := flattened_of_isOperand hoperand
    constructor <;> rw [hflat]
    · rfl
    · exact hoperand
    · exact nofun
    · exact hle
    · exact .nil _
  obtain ⟨shape, span⟩ := n
  cases shape with
  | binary lhs operator rhs =>
    obtain ⟨hspan, hword⟩ := hjoined.links lhs operator rhs rfl
    have hlink : (Link.operation operator rhs).apply lhs = ⟨.binary lhs operator rhs, span⟩ :=
      congrArg (Node.mk _) hspan.symm
    refine (hchildren lhs (by simp [children, Shape.children])).1.snoc hlink ?_ hcomposed hword
      (hchildren rhs (by simp [children, Shape.children])).2
    rw [flattened, flattened_of_isOperand hcomposed]
  | cast value kind target =>
    obtain ⟨hspan, hword⟩ := hjoined.links value _ target rfl
    have hlink : (Link.castTo kind target).apply value = ⟨.cast value kind target, span⟩ :=
      congrArg (Node.mk _) hspan.symm
    refine (hchildren value (by simp [children, Shape.children])).1.snoc hlink ?_ hcomposed hword
      (hchildren target (by simp [children, Shape.children])).2
    rw [flattened]
  | _ => exact absurd rfl hoperand

/-! ## All nodes of a text -/

/-- The segments of a string literal: a text is empty only where the whole string is, and texts are told
apart by what is between them. -/
structure WellSegmented (segments : List (Segment Node)) : Prop where
  nonempty : segments ≠ []
  separate : ∀ front a b back, segments ≠ front ++ .text a :: .text b :: back
  empty : .text "" ∈ segments → segments = [.text ""]

theorem wellSegmented {segments : List (Segment Node)}
    (h : segments = [.text ""] ∨ segments ≠ [] ∧ Apart segments) : WellSegmented segments := by
  rcases h with rfl | ⟨hne, hapart⟩
  · refine ⟨nofun, fun front a b back h => ?_, fun _ => rfl⟩
    have hlength := congrArg List.length h
    simp at hlength
    omega
  · exact ⟨hne, fun _ _ _ _ => hapart.not_adjacent, fun h => absurd h hapart.empty_not_mem⟩

/-- A string is plain if nothing is interpolated. -/
theorem WellSegmented.plainString {segments : List (Segment Node)} {n : Node} (h : WellSegmented segments)
    (hshape : n.shape = .stringLiteral segments) :
    (∃ content, n.plainString = .ok content) ↔ ∀ e, .interpolation e ∉ segments := by
  obtain ⟨shape, span⟩ := n
  obtain rfl : shape = _ := hshape
  constructor
  · rintro ⟨content, hcontent⟩ e he
    match segments with
    | [.text _] => cases List.mem_singleton.1 he
    | [] | .interpolation _ :: _ | .text _ :: _ :: _ => cases hcontent
  · intro hplain
    match segments with
    | [] => exact absurd rfl h.nonempty
    | [.text content] => exact ⟨content, rfl⟩
    | .interpolation e :: _ => exact absurd List.mem_cons_self (hplain e)
    | .text _ :: .interpolation e :: _ =>
      exact absurd (List.mem_cons_of_mem _ List.mem_cons_self) (hplain e)
    | .text a :: .text b :: back => exact absurd rfl (h.separate [] a b back)

/-- What a node of a text is made of, and where its operand ends. -/
structure Node.WellShaped (text : List Char) (n : Node) : Prop where
  binary : ∀ lhs operator rhs, n.shape = .binary lhs operator rhs → rhs.isOperand = true
  member : ∀ base name, n.shape = .memberAccess (some base) name →
    base.kind.isBase = true ∧ HasChar text base.span.stop '.'
  call : ∀ callee arguments, n.shape = .call callee arguments →
    callee.kind.isBase = true ∧ HasChar text callee.span.stop '('
  unwrap : ∀ operand, n.shape = .forceUnwrap operand →
    operand.kind.isBase = true ∧ HasChar text operand.span.stop '!'
  prefixed : ∀ operator operand, n.shape = .prefixed operator operand → operand.kind.isBase = true
  chain : n.LeansLeft text
  string : ∀ segments, n.shape = .stringLiteral segments → WellSegmented segments ∧
    ((∃ content, n.plainString = .ok content) ↔ ∀ e, .interpolation e ∉ segments)

theorem Node.wellShaped {text : List Char} {n : Node}
    (h : ∀ m ∈ n.preorder, m.Composed ∧ m.Joined text ∧ m.span.start ≤ m.span.stop) :
    n.WellShaped text := by
  obtain ⟨hcomposed, hjoined, -⟩ := (forall_preorder_iff.1 h).1
  have htouches : ∀ {shape}, n.shape = shape → ∀ operand sign,
      shape.suffixed? = some (operand, sign) → HasChar text operand.span.stop sign := by
    rintro _ rfl
    exact hjoined.touches
  unfold Composed at hcomposed
  refine ⟨fun lhs operator rhs hshape => ?_, fun base name hshape => ⟨?_, htouches hshape base _ rfl⟩,
    fun callee arguments hshape => ⟨?_, htouches hshape callee _ rfl⟩,
    fun operand hshape => ⟨?_, htouches hshape operand _ rfl⟩, fun operator operand hshape => ?_,
    leansLeft h, fun segments hshape => ?_⟩ <;> rw [hshape] at hcomposed
  case refine_6 =>
    exact ⟨wellSegmented hcomposed, (wellSegmented hcomposed).plainString hshape⟩
  all_goals exact hcomposed

theorem Node.composed_of_eraseSpans {n : Node} (h : n.eraseSpans.Composed) : n.Composed := by
  obtain ⟨shape, span⟩ := n
  rw [eraseSpans_mk] at h
  cases shape with
  | stringLiteral segments =>
    rcases h with h | ⟨hne, hapart⟩
    · exact .inl (map_eq_empty h)
    · exact .inr ⟨fun h => hne (congrArg _ h), (apart_map eraseSpans).1 hapart⟩
  | memberAccess base name =>
    cases base with
    | none => trivial
    | some base => exact (congrArg Kind.isBase base.kind_eraseSpans).symm.trans h
  | call base | forceUnwrap base | prefixed _ base =>
    exact (congrArg Kind.isBase base.kind_eraseSpans).symm.trans h
  | binary lhs operator rhs => exact rhs.isOperand_eraseSpans.symm.trans h
  | cast value kind target => exact target.isOperand_eraseSpans.symm.trans h
  | _ => trivial

theorem Node.Sliced.start_le {text : List Char} {n : Node} (h : n.Sliced text) :
    n.span.start ≤ n.span.stop := by
  obtain ⟨before, slice, -, -, hspan, -⟩ := h
  rw [hspan]
  exact Nat.le_add_right _ _

/-- What an entry accepts has the shape of expressions in all its nodes: chains lean to the left and stand
in the order of the text, what touches an operand stands where it ends, and texts of strings are apart. -/
theorem read_well_shaped (entry : Entry) (text : String) :
    (∀ items, read entry text = .ok items →
      ∀ item ∈ items, ∀ n ∈ item.preorder, n.WellShaped text.toList) ∧
    ∀ item, readOne entry text = .ok item → ∀ n ∈ item.preorder, n.WellShaped text.toList := by
  have hread : ∀ items, read entry text = .ok items →
      ∀ item ∈ items, ∀ n ∈ item.preorder, n.WellShaped text.toList := by
    intro items h item hitem n hn
    -- The grammar says what stands below a node, the spans say where.
    refine Node.wellShaped fun m hm => ?_
    have hm : m ∈ item.preorder := mem_preorder_trans hn hm
    obtain ⟨c, hc⟩ := readable_of_mem_preorder (readable_of_readChars h item hitem) hm
    exact ⟨Node.composed_of_eraseSpans hc.composed, joined_of_read h item hitem m hm,
      (sliced_of_read h item hitem m hm).start_le⟩
  exact ⟨hread, fun item h => hread [item] (readOne_eq_ok.1 h) item List.mem_cons_self⟩

theorem read_well_shaped_chain :
    (∃ items, readSource "var s = \"a\\(b)c\" + \"\"\nx.f(1)!.y\n(1)" = .ok items ∧ items.length = 3 ∧
      ∀ item ∈ items, ∀ n ∈ item.preorder,
        n.WellShaped "var s = \"a\\(b)c\" + \"\"\nx.f(1)!.y\n(1)".toList) ∧
    ∃ item, readExpression "-f(1 + 2).z as? T /* é */ ?? (a * b)! - c" = .ok item ∧
      item.flattened.2.map Link.word = ["as?", "??", "-"] ∧
      ∀ n ∈ item.preorder, n.WellShaped "-f(1 + 2).z as? T /* é */ ?? (a * b)! - c".toList := by
  obtain ⟨items, hitems, hlength⟩ := exists_of_okAnd
    (by decide +kernel : okAnd (readSource "var s = \"a\\(b)c\" + \"\"\nx.f(1)!.y\n(1)")
      (fun items => items.length == 3) = true)
  obtain ⟨item, hitem, hwords⟩ := exists_of_okAnd
    (by decide +kernel : okAnd (readExpression "-f(1 + 2).z as? T /* é */ ?? (a * b)! - c")
      (fun item => item.flattened.2.map Link.word == ["as?", "??", "-"]) = true)
  exact ⟨⟨items, hitems, beq_iff_eq.1 hlength, (read_well_shaped .source _).1 items hitems⟩,
    item, hitem, beq_iff_eq.1 hwords, (read_well_shaped .expression _).2 item hitem⟩

end SwiftMacro
