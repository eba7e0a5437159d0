import Mathlib.Data.List.Chain
import SwiftMacro.Proofs.Bindings
import SwiftMacro.Proofs.Newlines
/-!
# Reading a text that was written

The canonical text of a declaration or an accessor can be read again. What is read is the node with
neighbours joined, so its text is the same exactly if no statements of a block run into each other
(`reprint_eq_iff_separate`). They do where a semicolon in the source kept apart what the canonical text
writes in two lines (`reprint_changes_text`).
-/

namespace SwiftMacro

open Peg

/-! ## Spans do not matter -/

namespace Node

theorem eraseSpans_shape (n : Node) : n.eraseSpans.shape = n.shape.map eraseSpans :=
  mapSpans_shape _ n

theorem isNegated_eraseSpans (n : Node) : n.eraseSpans.isNegated = n.isNegated := by
  induction n using induct with
  | step n ih =>
    obtain ⟨shape, span⟩ := n
    rw [eraseSpans_mk]
    cases shape with
    | binary lhs operator rhs => exact ih lhs List.mem_cons_self
    | cast value kind target => exact ih value List.mem_cons_self
    | _ => rfl

theorem isOpen_eraseSpans (n : Node) : n.eraseSpans.isOpen = n.isOpen := by
  obtain ⟨shape, span⟩ := n
  rw [eraseSpans_mk]
  cases shape with
  | patternBinding pattern declaredType initial accessors => cases initial <;> cases accessors <;> rfl
  | _ => rfl

theorem isBareDeclaration_eraseSpans (n : Node) :
    n.eraseSpans.isBareDeclaration = n.isBareDeclaration := by
  obtain ⟨shape, span⟩ := n
  rw [eraseSpans_mk]
  cases shape with
  | variableDecl attributes | functionDecl attributes => cases attributes <;> rfl
  | _ => rfl

theorem runsInto_eraseSpans (s t : Node) : s.eraseSpans.runsInto t.eraseSpans = s.runsInto t := by
  obtain ⟨shape, span⟩ := s
  rw [eraseSpans_mk]
  cases shape with
  | identifier name =>
    simp [runsInto, Shape.map, isNegated_eraseSpans, isBareDeclaration_eraseSpans]
  | variableDecl attributes modifiers keyword bindings =>
    simp [runsInto, Shape.map, isNegated_eraseSpans, List.getLast?_map, Option.any_map,
      isOpen_eraseSpans]
  | functionDecl => rfl
  | _ => exact isNegated_eraseSpans t

theorem body_eraseSpans (n : Node) : n.eraseSpans.body = n.body.map eraseSpans := by
  obtain ⟨shape, span⟩ := n
  rw [eraseSpans_mk]
  cases shape <;> rfl

theorem separate_eraseSpans (n : Node) : n.eraseSpans.Separate ↔ n.Separate := by
  induction n using induct with
  | step n ih =>
    have hchildren : (∀ c ∈ n.eraseSpans.children, c.Separate) ↔ ∀ c ∈ n.children, c.Separate := by
      have hmap : n.eraseSpans.children = n.children.map eraseSpans := by
        rw [children, eraseSpans_shape, Shape.children_map]
        rfl
      rw [hmap, List.forall_mem_map]
      exact forall₂_congr ih
    rw [separate_iff, separate_iff n, hchildren, body_eraseSpans, List.isChain_map]
    simp only [runsInto_eraseSpans]

end Node

/-! ## Whole texts -/

/-- The text of a statement is read as one, with neighbours joined. -/
theorem readSource_render {n : Node} (h : Readable .statement n) :
    ∃ m, readSource n.render = .ok [m] ∧ m.eraseSpans = n.join := by
  have hend : Lines [] (after .spaced []) [] := by
    rw [after_nil]
    exact .done
  have hlines : Lines [n.join] (n.charsAt 0 ++ []) [] := readsBack h 0 [] [] [] (stops_nil _) hend
  have hsolid := after_charsAt h 0 []
  rw [← hsolid] at hlines
  have hread := hlines.readsPast
  rw [hsolid] at hread
  obtain ⟨nodes, hnodes, herase⟩ :=
    readChars_of_readsPast .source (e := Rule.statements) rfl rfl (fun _ _ => rfl) hsolid hread
  rw [nodesOf_map_statementItem] at herase
  obtain ⟨m, rfl, hm⟩ := List.map_eq_singleton_iff.1 herase
  rw [List.append_nil] at hnodes
  exact ⟨m, hnodes, hm⟩

/-- So is the text of an accessor. -/
theorem readAccessor_render {n : Node} (h : Readable .accessor n) :
    ∃ m, readAccessor n.render = .ok m ∧ m.eraseSpans = n.join := by
  have hread := readsBack h 0 []
  rw [List.append_nil] at hread
  have hsolid := after_charsAt h 0 []
  rw [List.append_nil] at hsolid
  have hone := readOne_of_readsPast .accessor rfl rfl (fun _ _ => rfl) hsolid hread
  rw [Node.charsAt, String.ofList_toList] at hone
  exact hone

/-- The text of what was read again is the same if nothing was joined, and only then. -/
theorem render_eq_iff_separate {c : Category} {n m : Node} (h : Readable c n.eraseSpans)
    (hc : c.hasBlocks = true) (hm : m.eraseSpans = n.eraseSpans.join) :
    m.render = n.render ↔ n.Separate := by
  rw [← Node.separate_eraseSpans, ← Node.join_eq_self_iff, ← Node.render_eraseSpans m,
    ← Node.render_eraseSpans n, hm]
  constructor
  · intro htext
    refine (h.shrinks hc 0).2 ?_
    rw [Node.newlines, Node.newlines]
    exact congrArg (fun text : String => text.toList.count '\n') htext
  · intro hjoin
    rw [hjoin]

/-- Reading the canonical text of a declaration or an accessor that was read gives one such node, with
neighbours joined. Its text is the same if and only if no statements run into each other. -/
theorem reprint_eq_iff_separate (text : String) :
    (∀ nodes, readSource text = .ok nodes → ∀ n ∈ nodes,
      ∃ m, readSource n.render = .ok [m] ∧ m.eraseSpans = n.eraseSpans.join ∧
        (m.render = n.render ↔ n.Separate)) ∧
    (∀ n, readAccessor text = .ok n →
      ∃ m, readAccessor n.render = .ok m ∧ m.eraseSpans = n.eraseSpans.join ∧
        (m.render = n.render ↔ n.Separate)) := by
  constructor
  · intro nodes h n hn
    have hread : Readable .statement n.eraseSpans := readable_of_readChars h n hn
    obtain ⟨m, hm, heq⟩ := readSource_render hread
    rw [Node.render_eraseSpans] at hm
    exact ⟨m, hm, heq, render_eq_iff_separate hread rfl heq⟩
  · intro n h
    have hread : Readable .accessor n.eraseSpans := readable_of_readOne h
    obtain ⟨m, hm, heq⟩ := readAccessor_render hread
    rw [Node.render_eraseSpans] at hm
    exact ⟨m, hm, heq, render_eq_iff_separate hread rfl heq⟩

theorem reprint_eq_iff_separate_lines :
    (∃ n m, readSource "func f() \x7b lazy; var x = 1; -b \x7d" = .ok [n] ∧
      readSource n.render = .ok [m] ∧ m.render ≠ n.render ∧ ¬ n.Separate) ∧
    (∃ n m, readAccessor "get \x7b a; b - c; var x: T \x7d" = .ok n ∧
      readAccessor n.render = .ok m ∧ m.render = n.render ∧ n.Separate) := by
  constructor
  · have hchanges : oneAnd (readSource "func f() \x7b lazy; var x = 1; -b \x7d") (fun n =>
        okAnd (readSource n.render) fun ms => ms.all fun m => decide (m.render ≠ n.render)) = true := by
      decide +kernel
    obtain ⟨n, hread, hchanges⟩ := exists_of_oneAnd hchanges
    obtain ⟨m, hm, -, hiff⟩ := (reprint_eq_iff_separate _).1 _ hread n List.mem_cons_self
    rw [hm] at hchanges
    have htext := of_decide_eq_true (List.all_eq_true.1 hchanges m List.mem_cons_self)
    exact ⟨n, m, hread, hm, htext, fun h => htext (hiff.2 h)⟩
  · have hkeeps : okAnd (readAccessor "get \x7b a; b - c; var x: T \x7d") (fun n =>
        okAnd (readAccessor n.render) fun m => decide (m.render = n.render)) = true := by
      decide +kernel
    obtain ⟨n, hread, hkeeps⟩ := exists_of_okAnd hkeeps
    obtain ⟨m, hm, -, hiff⟩ := (reprint_eq_iff_separate _).2 _ hread
    rw [hm] at hkeeps
    have htext := of_decide_eq_true hkeeps
    exact ⟨n, m, hread, hm, htext, hiff.1 htext⟩

/-- Two statements that a semicolon keeps apart are one in the canonical text. -/
theorem reprint_changes_text :
    ¬ ((∀ text nodes, readSource text = .ok nodes → ∀ n ∈ nodes,
        ∃ m, readSource n.render = .ok [m] ∧ m.render = n.render) ∧
      (∀ text n, readAccessor text = .ok n →
        ∃ m, readAccessor n.render = .ok m ∧ m.render = n.render)) := by
  rintro ⟨hsource, -⟩
  have hchanges : oneAnd (readSource "func f() \x7b a; -b \x7d") (fun n =>
      okAnd (readSource n.render) fun ms => ms.all fun m => decide (m.render ≠ n.render)) = true := by
    decide +kernel
  obtain ⟨n, hread, hchanges⟩ := exists_of_oneAnd hchanges
  obtain ⟨m, hm, htext⟩ := hsource _ _ hread n List.mem_cons_self
  rw [hm] at hchanges
  exact of_decide_eq_true (List.all_eq_true.1 hchanges m List.mem_cons_self) htext

end SwiftMacro
