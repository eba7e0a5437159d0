import SwiftMacro.Proofs.Nodes
import SwiftMacro.Reader
/-!
# Spans do not steer reading

What a rule makes of its parts does not depend on where they stand. `build_mapSpans` says so for any
map of spans that respects `Span.cover`, and `itemsOf_shift` follows: the same trees further to the
right make the same items, moved. Two such maps matter, moving all spans and erasing them.
-/

namespace SwiftMacro

/-! ## Replacing spans -/

/-- The part with every span replaced. -/
def Part.mapSpans (f : Span → Span) : Part → Part
  | nothing => .nothing
  | word text => .word text
  | node n => .node (n.mapSpans f)
  | nodes ns => .nodes (ns.map (·.mapSpans f))
  | argument a => .argument (a.map (·.mapSpans f))
  | arguments as => .arguments (as.map (·.map (·.mapSpans f)))
  | castTo kind target => .castTo kind (target.mapSpans f)
  | operation operator rhs => .operation operator (rhs.mapSpans f)

/-- The item with every span replaced. -/
def Item.mapSpans (f : Span → Span) (i : Item) : Item := ⟨i.rule, f i.span, i.part.mapSpans f⟩

/-- The error with its span replaced. -/
def ReadError.mapSpans (f : Span → Span) : ReadError → ReadError
  | stuck offset expected unexpected => .stuck offset expected unexpected
  | malformed construct span => .malformed construct (f span)

/-- A result with every span replaced. -/
def mapResult {α β : Type} (f : Span → Span) (g : α → β) : Except ReadError α → Except ReadError β
  | .ok a => .ok (g a)
  | .error e => .error (e.mapSpans f)

/-! ## What is picked from the items -/

section Picked

variable (f : Span → Span) (items : List Item)

theorem nodesOf_mapSpans (rules : List Rule) :
    nodesOf rules (items.map (Item.mapSpans f)) = (nodesOf rules items).map (Node.mapSpans f) := by
  rw [nodesOf, nodesOf, List.filterMap_map, List.map_filterMap]
  congr 1
  funext i
  obtain ⟨r, span, part⟩ := i
  cases part with
  | node n => by_cases hr : r ∈ rules <;> simp [Item.nodeOf?, Item.mapSpans, Part.mapSpans, hr]
  | _ => rfl

theorem wordsOf_mapSpans (r : Rule) : wordsOf r (items.map (Item.mapSpans f)) = wordsOf r items := by
  rw [wordsOf, wordsOf, List.filterMap_map]
  congr 1
  funext i
  obtain ⟨r', span, part⟩ := i
  cases part <;> rfl

theorem genericsOf_mapSpans :
    genericsOf (items.map (Item.mapSpans f)) = (genericsOf items).map (Node.mapSpans f) := by
  rw [genericsOf, genericsOf, List.flatMap_map, List.map_flatMap]
  congr 1
  funext i
  obtain ⟨r, span, part⟩ := i
  cases part <;> rfl

theorem argumentsOf_mapSpans : argumentsOf (items.map (Item.mapSpans f)) =
    (argumentsOf items).map (·.map (Node.mapSpans f)) := by
  rw [argumentsOf, argumentsOf, List.flatMap_map, List.map_flatMap]
  congr 1
  funext i
  obtain ⟨r, span, part⟩ := i
  cases part <;> rfl

theorem argumentList_mapSpans : argumentList (items.map (Item.mapSpans f)) =
    (argumentList items).map (·.map (Node.mapSpans f)) := by
  rw [argumentList, argumentList, List.filterMap_map, List.map_filterMap]
  congr 1
  funext i
  obtain ⟨r, span, part⟩ := i
  cases part <;> rfl

theorem segments_mapSpans : (items.map (Item.mapSpans f)).filterMap Item.segment? =
    (items.filterMap Item.segment?).map (·.map (Node.mapSpans f)) := by
  rw [List.filterMap_map, List.map_filterMap]
  congr 1
  funext i
  obtain ⟨r, span, part⟩ := i
  cases part <;> rfl

end Picked

/-! ## What a rule makes -/

/-- The map of spans respects the span that covers two others. -/
def RespectsCover (f : Span → Span) : Prop := ∀ s t : Span, f (s.cover t) = (f s).cover (f t)

theorem respectsCover_shift (n : Nat) : RespectsCover (Span.shift n) := Span.shift_cover n

theorem respectsCover_default : RespectsCover fun _ => default := fun _ _ =>
  (Span.cover_self default).symm

section Build

variable {f : Span → Span} (hf : RespectsCover f)

include hf

theorem applySuffix_mapSpans (n : Node) (i : Item) :
    applySuffix (n.mapSpans f) (i.mapSpans f) = (applySuffix n i).mapSpans f := by
  obtain ⟨r, span, part⟩ := i
  cases part with
  | word w =>
    simp only [applySuffix, Item.mapSpans, Part.mapSpans, Node.mapSpans_span, ← hf n.span span]
    split <;> rw [Node.mapSpans_mk] <;> rfl
  | arguments as =>
    simp only [applySuffix, Item.mapSpans, Part.mapSpans, Node.mapSpans_span, ← hf n.span span]
    rw [Node.mapSpans_mk]
    rfl
  | _ => rfl

theorem applyTail_mapSpans (n : Node) (i : Item) :
    applyTail (n.mapSpans f) (i.mapSpans f) = (applyTail n i).mapSpans f := by
  obtain ⟨r, span, part⟩ := i
  cases part with
  | castTo kind target =>
    simp only [applyTail, Item.mapSpans, Part.mapSpans, Node.mapSpans_span, ← hf n.span span]
    rw [Node.mapSpans_mk]
    rfl
  | operation operator rhs =>
    simp only [applyTail, Item.mapSpans, Part.mapSpans, Node.mapSpans_span, ← hf n.span span]
    rw [Node.mapSpans_mk]
    rfl
  | _ => rfl

theorem optionalMark_mapSpans (n : Node) (i : Item) :
    (⟨.optionalType (n.mapSpans f), (n.mapSpans f).span.cover (i.mapSpans f).span⟩ : Node) =
      (⟨.optionalType n, n.span.cover i.span⟩ : Node).mapSpans f := by
  rw [Node.mapSpans_mk, Node.mapSpans_span]
  simp only [Item.mapSpans, ← hf n.span i.span]
  rfl

omit hf in
/-- A fold over items passes through a map of spans if each of its steps does. -/
theorem foldl_mapSpans {step : Node → Item → Node}
    (hstep : ∀ n i, step (n.mapSpans f) (i.mapSpans f) = (step n i).mapSpans f) (items : List Item)
    (n : Node) : (items.map (Item.mapSpans f)).foldl step (n.mapSpans f) =
      (items.foldl step n).mapSpans f := by
  induction items generalizing n with
  | nil => rfl
  | cons i items ih => rw [List.map_cons, List.foldl_cons, List.foldl_cons, hstep, ih]

/-- A rule makes the same of its parts wherever they stand. -/
theorem build_mapSpans (r : Rule) (span : Span) (text : String) (items : List Item) :
    r.build (f span) text (items.map (Item.mapSpans f)) =
      mapResult f (Part.mapSpans f) (r.build span text items) := by
  cases r <;> simp only [Rule.build, nodesOf_mapSpans, wordsOf_mapSpans, genericsOf_mapSpans,
    argumentsOf_mapSpans, argumentList_mapSpans, segments_mapSpans]
  case stringText => cases Text.unescape text.toList <;> rfl
  case stringLiteral =>
    cases items.filterMap Item.segment? <;> simp [mapResult, Part.mapSpans, Shape.map, Segment.map]
  case interpolation | initialValue =>
    rcases nodesOf [.expr] items with _ | ⟨n, _ | ⟨m, ns⟩⟩ <;> rfl
  case declaredType =>
    rcases nodesOf [.typeExpr] items with _ | ⟨n, _ | ⟨m, ns⟩⟩ <;> rfl
  case argument =>
    rcases nodesOf [.expr] items with _ | ⟨n, _ | ⟨m, ns⟩⟩ <;> rfl
  case attributeUse | macroUse | implicitMember | memberSuffix | functionDecl =>
    cases wordsOf .identifier items <;> simp [mapResult, Part.mapSpans, Shape.map, ReadError.mapSpans]
  case variableDecl =>
    cases wordsOf .bindingKeyword items <;>
      simp [mapResult, Part.mapSpans, Shape.map, ReadError.mapSpans]
  case accessor =>
    cases wordsOf .accessorKind items <;>
      simp [mapResult, Part.mapSpans, Shape.map, ReadError.mapSpans]
  case typeReference =>
    cases wordsOf .qualifiedName items <;>
      simp [mapResult, Part.mapSpans, Shape.map, ReadError.mapSpans]
  case patternBinding =>
    cases nodesOf patternRules items <;>
      simp [mapResult, Part.mapSpans, Shape.map, ReadError.mapSpans]
  case typeExpr =>
    rw [← List.map_drop]
    rcases nodesOf [.typeReference] items with _ | ⟨n, _ | ⟨m, ns⟩⟩
    · rfl
    · exact congrArg (fun n => Except.ok (Part.node n))
        (foldl_mapSpans (optionalMark_mapSpans hf) (items.drop 1) n)
    · rfl
  case castTail =>
    rcases wordsOf .castOperator items with _ | ⟨w, _ | ⟨v, ws⟩⟩ <;>
      rcases nodesOf [.typeExpr] items with _ | ⟨n, _ | ⟨m, ns⟩⟩ <;> rfl
  case binaryTail =>
    rcases wordsOf .binaryOperator items with _ | ⟨w, _ | ⟨v, ws⟩⟩ <;>
      rcases nodesOf [.prefixExpr] items with _ | ⟨n, _ | ⟨m, ns⟩⟩ <;> rfl
  case prefixExpr =>
    rcases wordsOf .prefixOperator items with _ | ⟨w, _ | ⟨v, ws⟩⟩ <;>
      rcases nodesOf [.postfixExpr] items with _ | ⟨n, _ | ⟨m, ns⟩⟩ <;>
      simp [mapResult, Part.mapSpans, Shape.map, ReadError.mapSpans]
  case postfixExpr =>
    rcases items with _ | ⟨⟨r, place, part⟩, items⟩
    · rfl
    · cases part with
      | node n =>
        exact congrArg (fun n => Except.ok (Part.node n))
          (foldl_mapSpans (applySuffix_mapSpans hf) items n)
      | word w =>
        cases r with
        | identifier =>
          refine congrArg (fun n => Except.ok (Part.node n)) ?_
          rw [← foldl_mapSpans (applySuffix_mapSpans hf) items, Node.mapSpans_mk]
          rfl
        | _ => rfl
      | _ => rfl
  case expr =>
    rcases items with _ | ⟨⟨r, place, part⟩, items⟩
    · rfl
    · cases part with
      | node n =>
        cases r with
        | prefixExpr =>
          exact congrArg (fun n => Except.ok (Part.node n))
            (foldl_mapSpans (applyTail_mapSpans hf) items n)
        | _ => rfl
      | _ => cases r <;> rfl
  all_goals simp [mapResult, Part.mapSpans, Shape.map]

end Build

end SwiftMacro
