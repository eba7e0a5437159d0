import Mathlib.Algebra.GroupWithZero.Nat
import Mathlib.Data.List.Basic
import SwiftMacro.Proofs.Blocks
/-!
# The lines of a text

Each statement of a block has a line of its own, so a text in which statements have been joined has
fewer line ends. `newlines_join` says that the text keeps its number of line ends only if nothing was
joined at all.
-/

namespace SwiftMacro

/-- The number of line ends in the text of a node. -/
def Node.newlines (d : Nat) (n : Node) : Nat := (n.charsAt d).count '\n'

/-- The number of line ends in the texts of some nodes. -/
def newlinesOf (d : Nat) (ns : List Node) : Nat := (ns.map (Node.newlines d)).sum

theorem newlinesOf_cons (d : Nat) (n : Node) (ns : List Node) :
    newlinesOf d (n :: ns) = n.newlines d + newlinesOf d ns := List.sum_cons

theorem newlinesOf_append (d : Nat) (ms ns : List Node) :
    newlinesOf d (ms ++ ns) = newlinesOf d ms + newlinesOf d ns := by
  simp [newlinesOf]

theorem count_commaChars (d : Nat) (ns : List Node) :
    (commaChars (Node.charsAt d) ns).count '\n' = newlinesOf d ns := by
  cases ns with
  | nil => rfl
  | cons n ns =>
    have hrest : (ns.flatMap fun y => ',' :: ' ' :: y.charsAt d).count '\n' = newlinesOf d ns := by
      induction ns with
      | nil => rfl
      | cons m ms ih => simp [newlinesOf_cons, ih, Node.newlines]
    rw [commaChars, List.count_append, hrest, newlinesOf_cons]
    rfl

theorem count_indent (d : Nat) : (indentChars d).count '\n' = 0 := by
  induction d with
  | zero => rfl
  | succ d ih =>
    have hindent : indentChars (d + 1) = "    ".toList ++ indentChars d := String.toList_append ..
    rw [hindent, List.count_append, ih]
    rfl

theorem count_linesChars (d : Nat) (ns : List Node) :
    (linesChars d ns).count '\n' = newlinesOf d ns + ns.length := by
  induction ns with
  | nil => rfl
  | cons n ns ih =>
    have hline : linesChars d (n :: ns) = indentChars d ++ n.charsAt d ++ ['\n'] ++ linesChars d ns := by
      simp [linesChars]
    simp only [hline, List.count_append, count_indent, ih, newlinesOf_cons, List.length_cons]
    simp only [Node.newlines, List.count_singleton_self]
    omega

theorem count_blockChars {d : Nat} {ns : List Node} (h : ns ≠ []) :
    (blockChars d ns).count '\n' = newlinesOf (d + 1) ns + ns.length + 1 := by
  cases ns with
  | nil => exact absurd rfl h
  | cons n ns =>
    have hblock : blockChars d (n :: ns) =
        '\x7b' :: '\n' :: (linesChars (d + 1) (n :: ns) ++ indentChars d ++ ['\x7d']) := rfl
    rw [hblock]
    simp [count_linesChars, count_indent]

theorem newlines_variable (d : Nat) (span : Span) (attributes : List Node) (modifiers : List String)
    (keyword : BindingKeyword) (bindings : List Node) :
    (⟨.variableDecl attributes modifiers keyword bindings, span⟩ : Node).newlines d =
      (leadingChars d attributes modifiers ++ (Render.keyword keyword).toList).count '\n' +
        newlinesOf d bindings := by
  rw [Node.newlines, charsAt_variable, List.count_append, List.count_cons_of_ne (by decide),
    count_commaChars]

/-! ## Joined statements -/

/-- A subtraction has the line ends of its two sides. -/
theorem newlines_subtractedFrom (d : Nat) (lhs : Node) {n : Node} (h : n.isNegated = true) :
    (n.subtractedFrom lhs).newlines d = lhs.newlines d + n.newlines d := by
  induction n using Node.induct with
  | step n ih =>
    obtain ⟨shape, span⟩ := n
    cases shape with
    | binary left operator right =>
      have hleft := ih left List.mem_cons_self h
      have hjoined : (⟨.binary left operator right, span⟩ : Node).subtractedFrom lhs =
          ⟨.binary (left.subtractedFrom lhs) operator right, span⟩ := rfl
      simp only [Node.newlines] at hleft
      simp only [hjoined, Node.newlines, charsAt_binary, List.count_append, hleft, Nat.add_assoc]
    | cast value kind target =>
      have hvalue := ih value List.mem_cons_self h
      have hjoined : (⟨.cast value kind target, span⟩ : Node).subtractedFrom lhs =
          ⟨.cast (value.subtractedFrom lhs) kind target, span⟩ := rfl
      simp only [Node.newlines] at hvalue
      simp only [hjoined, Node.newlines, charsAt_cast, List.count_append, hvalue, Nat.add_assoc]
    | prefixed operator operand =>
      obtain rfl : operator = "-" := beq_iff_eq.1 h
      have hjoined : (⟨.prefixed "-" operand, span⟩ : Node).subtractedFrom lhs =
          ⟨.binary lhs "-" operand, span⟩ := rfl
      rw [hjoined]
      simp [Node.newlines, charsAt_binary, charsAt_prefixed]
    | _ => cases h

theorem newlines_withModifier (d : Nat) (m : String) {n : Node} (h : n.isBareDeclaration = true) :
    (n.withModifier m).newlines d = m.toList.count '\n' + n.newlines d := by
  obtain ⟨shape, span⟩ := n
  unfold Node.isBareDeclaration at h
  split at h
  · next hshape =>
    subst hshape
    simp [Node.withModifier, Node.newlines, charsAt_variable, leadingChars]
  · next hshape =>
    subst hshape
    simp [Node.withModifier, Node.newlines, charsAt_function, leadingChars]
  · cases h

theorem newlines_mapInitial (d : Nat) {t b : Node} (ht : t.isNegated = true) (hb : b.isOpen = true) :
    (b.mapInitial t.subtractedFrom).newlines d = b.newlines d + t.newlines d := by
  obtain ⟨shape, span⟩ := b
  unfold Node.isOpen at hb
  split at hb
  · next pattern declaredType value hshape =>
    subst hshape
    have hvalue := newlines_subtractedFrom d value ht
    simp only [Node.newlines] at hvalue
    simp [Node.mapInitial, Node.newlines, charsAt_binding, hvalue, Nat.add_assoc]
  · cases hb

/-- Two statements read as one have all their line ends but the one between them. -/
theorem newlines_merged (d : Nat) {s t : Node} (h : s.runsInto t = true) :
    (s.merged t).newlines d = s.newlines d + t.newlines d := by
  obtain ⟨shape, span⟩ := s
  cases shape with
  | variableDecl attributes modifiers keyword bindings =>
    obtain ⟨hopen, hneg⟩ := (Bool.and_eq_true _ _).mp h
    obtain rfl | ⟨init, last, rfl⟩ := List.eq_nil_or_concat' bindings
    · cases hopen
    rw [List.getLast?_concat, Option.any_some] at hopen
    have hlast := newlines_mapInitial d hneg hopen
    simp only [Node.merged, List.modifyLast_concat, newlines_variable, newlinesOf_append, newlinesOf_cons,
      hlast]
    omega
  | identifier name =>
    cases hneg : t.isNegated with
    | true =>
      have hmerged : Node.merged ⟨.identifier name, span⟩ t = t.subtractedFrom ⟨.identifier name, span⟩ :=
        if_pos hneg
      rw [hmerged, newlines_subtractedFrom d _ hneg]
    | false =>
      simp only [Node.runsInto, hneg, Bool.false_or, Bool.and_eq_true] at h
      have hmerged : Node.merged ⟨.identifier name, span⟩ t = t.withModifier name :=
        if_neg (by rw [hneg]; exact Bool.false_ne_true)
      rw [hmerged, newlines_withModifier d name h.2, Node.newlines, Node.newlines, charsAt_identifier]
  | functionDecl => cases h
  | _ => exact newlines_subtractedFrom d _ h

/-! ## Blocks -/

theorem joinFront_ne_nil (s : Node) (ts : List Node) : s.joinFront ts ≠ [] := by
  cases ts with
  | nil => exact List.cons_ne_nil s []
  | cons t ts =>
    rw [Node.joinFront]
    split
    · exact List.cons_ne_nil _ _
    · exact List.cons_ne_nil _ _

/-- Statements have fewer lines once they are joined, unless there is nothing to join. -/
theorem count_joinFront (d : Nat) (s : Node) (ts : List Node) :
    (linesChars d (s.joinFront ts)).count '\n' ≤ (linesChars d (s :: ts)).count '\n' ∧
    ((linesChars d (s.joinFront ts)).count '\n' = (linesChars d (s :: ts)).count '\n' →
      s.joinFront ts = s :: ts) := by
  cases ts with
  | nil => exact ⟨Nat.le_refl _, fun _ => rfl⟩
  | cons t ts =>
    cases hruns : s.runsInto t with
    | true =>
      have hmerged := newlines_merged d hruns
      rw [Node.joinFront, if_pos hruns]
      simp only [count_linesChars, newlinesOf_cons, List.length_cons, hmerged]
      exact ⟨by omega, fun h => by omega⟩
    | false =>
      rw [Node.joinFront_eq_cons fun t' ht' => Option.some.inj ht' ▸ hruns]
      exact ⟨Nat.le_refl _, fun _ => rfl⟩

theorem count_joinAll (d : Nat) (ss : List Node) :
    (linesChars d (Node.joinAll ss)).count '\n' ≤ (linesChars d ss).count '\n' ∧
    ((linesChars d (Node.joinAll ss)).count '\n' = (linesChars d ss).count '\n' →
      Node.joinAll ss = ss) := by
  induction ss with
  | nil => exact ⟨Nat.le_refl _, fun _ => rfl⟩
  | cons s ss ih =>
    obtain ⟨hle, heq⟩ := ih
    obtain ⟨hfront, hsame⟩ := count_joinFront d s (Node.joinAll ss)
    rw [Node.joinAll_cons]
    simp only [count_linesChars, newlinesOf_cons, List.length_cons] at hle heq hfront hsame ⊢
    refine ⟨by omega, fun h => ?_⟩
    rw [hsame (by omega), heq (by omega)]

/-! ## Trees -/

/-- Joining takes line ends away, unless it changes nothing. -/
def Shrinks (n : Node) : Prop :=
  ∀ d, n.join.newlines d ≤ n.newlines d ∧ (n.join.newlines d = n.newlines d → n.join = n)

theorem newlinesOf_map_join (d : Nat) {ns : List Node} (h : ∀ n ∈ ns, Shrinks n) :
    newlinesOf d (ns.map Node.join) ≤ newlinesOf d ns ∧
      (newlinesOf d (ns.map Node.join) = newlinesOf d ns → ns.map Node.join = ns) := by
  induction ns with
  | nil => exact ⟨Nat.le_refl _, fun _ => rfl⟩
  | cons n ns ih =>
    obtain ⟨hle, heq⟩ := ih fun m hm => h m (List.mem_cons_of_mem n hm)
    obtain ⟨hfirst, hsame⟩ := h n List.mem_cons_self d
    simp only [List.map_cons, newlinesOf_cons] at hle heq ⊢
    refine ⟨by omega, fun hsum => ?_⟩
    rw [hsame (by omega), heq (by omega)]

theorem count_block_join (d : Nat) {body : List Node} (h : ∀ s ∈ body, Shrinks s) :
    (blockChars d (Node.joinAll (body.map Node.join))).count '\n' ≤ (blockChars d body).count '\n' ∧
    ((blockChars d (Node.joinAll (body.map Node.join))).count '\n' = (blockChars d body).count '\n' →
      Node.joinAll (body.map Node.join) = body) := by
  cases body with
  | nil => exact ⟨Nat.le_refl _, fun _ => rfl⟩
  | cons s ss =>
    obtain ⟨hmap, hsame⟩ := newlinesOf_map_join (d + 1) h
    obtain ⟨hall, hjoined⟩ := count_joinAll (d + 1) ((s :: ss).map Node.join)
    have hne : Node.joinAll ((s :: ss).map Node.join) ≠ [] := joinFront_ne_nil _ _
    rw [count_blockChars hne, count_blockChars (List.cons_ne_nil s ss)]
    simp only [count_linesChars, List.length_map] at hall hjoined
    refine ⟨by omega, fun h => ?_⟩
    rw [hjoined (by omega), hsame (by omega)]

/-- A readable text has fewer lines once its statements are joined, unless there is nothing to join. -/
theorem Readable.shrinks {c : Category} {n : Node} (h : Readable c n) (hc : c.hasBlocks = true) :
    Shrinks n := by
  have hspace : ' ' ≠ '\n' := by decide
  induction h with
  | @binding pattern declaredType initial accessors left types values inner _ _ _ ih =>
    intro d
    rw [join_binding left types values]
    cases accessors with
    | nil => exact ⟨Nat.le_refl _, fun _ => rfl⟩
    | cons a as =>
      obtain ⟨hle, heq⟩ := newlinesOf_map_join (d + 1) fun x hx => ih x hx rfl
      have hmap : (a :: as).map Node.join ≠ [] := List.cons_ne_nil _ _
      have hblock := count_blockChars (d := d) (List.cons_ne_nil a as)
      have hblock' := count_blockChars (d := d) hmap
      rw [List.length_map] at hblock'
      simp only [Node.newlines, charsAt_binding, List.count_append, List.isEmpty_cons, List.map_cons,
        Bool.false_eq_true, if_false, List.count_cons_of_ne hspace]
      rw [← List.map_cons]
      exact ⟨by omega, fun h => by rw [heq (by omega)]⟩
  | accessor inner ih =>
    intro d
    obtain ⟨hle, heq⟩ := count_block_join d fun s hs => ih s hs rfl
    simp only [join_accessor, Node.newlines, charsAt_accessor, List.count_append,
      List.count_cons_of_ne hspace]
    exact ⟨by omega, fun h => by rw [heq (by omega)]⟩
  | variableDecl front known nonempty inner _ ih =>
    intro d
    obtain ⟨hle, heq⟩ := newlinesOf_map_join d fun b hb => ih b hb rfl
    rw [join_variable front, newlines_variable, newlines_variable]
    exact ⟨by omega, fun h => by rw [heq (by omega)]⟩
  | functionDecl front known isName inner _ ih =>
    intro d
    obtain ⟨hle, heq⟩ := count_block_join d fun s hs => ih s hs rfl
    simp only [join_function front, Node.newlines, charsAt_function, List.count_append]
    exact ⟨by omega, fun h => by rw [heq (by omega)]⟩
  | ofExpression h =>
    intro d
    rw [h.join_eq rfl]
    exact ⟨Nat.le_refl _, fun _ => rfl⟩
  | _ => cases hc

end SwiftMacro
