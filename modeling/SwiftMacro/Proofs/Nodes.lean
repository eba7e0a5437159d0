import SwiftMacro.Node.Render
/-!
# Trees level by level

Laws of `Shape.map` and `Shape.children`, and what follows from them for whole trees: replacing
spans is done once (`mapSpans_mapSpans`), and a text does not depend on spans (`renderAt_mapSpans`).
-/

namespace SwiftMacro

namespace Shape

variable {α β γ : Type}

theorem map_map (f : α → β) (g : β → γ) (shape : Shape α) :
    (shape.map f).map g = shape.map (g ∘ f) := by
  have hs : ∀ s : Segment α, (s.map f).map g = s.map (g ∘ f) := by
    intro s
    cases s <;> rfl
  cases shape <;> simp [Shape.map, Argument.map, hs]

theorem map_segments_congr {f g : α → β} {segments : List (Segment α)}
    (h : ∀ c ∈ segments.filterMap Segment.expression?, f c = g c) :
    segments.map (·.map f) = segments.map (·.map g) := by
  refine List.map_congr_left fun s hs => ?_
  cases s with
  | text c => rfl
  | interpolation e =>
    exact congrArg Segment.interpolation (h e (List.mem_filterMap.2 ⟨_, hs, rfl⟩))

theorem map_arguments_congr {f g : α → β} {arguments : List (Argument α)}
    (h : ∀ c ∈ arguments.map (·.expression), f c = g c) :
    arguments.map (·.map f) = arguments.map (·.map g) := by
  refine List.map_congr_left fun a ha => ?_
  exact congrArg (Argument.mk a.label) (h _ (List.mem_map.2 ⟨a, ha, rfl⟩))

theorem map_option_congr {f g : α → β} {o : Option α} (h : ∀ c ∈ o.toList, f c = g c) :
    o.map f = o.map g := by
  cases o with
  | none => rfl
  | some c => exact congrArg some (h c (by simp))

/-- Only the children matter to `map`. -/
theorem map_congr {f g : α → β} {shape : Shape α} (h : ∀ c ∈ shape.children, f c = g c) :
    shape.map f = shape.map g := by
  cases shape <;> simp only [Shape.children, List.mem_append, List.mem_cons, or_imp, forall_and,
    forall_eq] at h <;> simp only [Shape.map]
  case stringLiteral => rw [map_segments_congr h]
  case memberAccess => rw [map_option_congr h]
  case call => rw [h.1, map_arguments_congr h.2]
  case tuple => rw [map_arguments_congr h]
  case prefixed | forceUnwrap | optionalType => rw [h.1]
  case binary | cast => rw [h.1, h.2.1]
  case macroUse | attr => rw [List.map_congr_left h.1, map_arguments_congr h.2]
  case typeName | tuplePattern | accessor => rw [List.map_congr_left h]
  case variableDecl | functionDecl => rw [List.map_congr_left h.1, List.map_congr_left h.2]
  case patternBinding =>
    rw [h.1, map_option_congr h.2.1.1, map_option_congr h.2.1.2, List.map_congr_left h.2.2]

theorem filterMap_expression_map (f : α → β) (segments : List (Segment α)) :
    (segments.map (·.map f)).filterMap Segment.expression? =
      (segments.filterMap Segment.expression?).map f := by
  rw [List.filterMap_map, List.map_filterMap]
  congr 1
  funext s
  cases s <;> rfl

theorem children_map (f : α → β) (shape : Shape α) :
    (shape.map f).children = shape.children.map f := by
  cases shape <;> simp only [Shape.map, Shape.children, filterMap_expression_map]
  all_goals simp [Argument.map, Option.toList_map]

end Shape

namespace Node

/-! ## Spans -/

/-- The tree with every span replaced. -/
def mapSpans (f : Span → Span) : Node → Node := fold fun shape span => ⟨shape, f span⟩

variable (f : Span → Span)

@[simp] theorem mapSpans_mk (shape : Shape Node) (span : Span) :
    (⟨shape, span⟩ : Node).mapSpans f = ⟨shape.map (mapSpans f), f span⟩ := fold_mk _ shape span

@[simp] theorem mapSpans_span (n : Node) : (n.mapSpans f).span = f n.span := by
  cases n with
  | mk shape span => rw [mapSpans_mk]

theorem mapSpans_shape (n : Node) : (n.mapSpans f).shape = n.shape.map (mapSpans f) := by
  cases n with
  | mk shape span => rw [mapSpans_mk]

theorem mapSpans_mapSpans (g : Span → Span) (n : Node) :
    (n.mapSpans f).mapSpans g = n.mapSpans (g ∘ f) := by
  induction n using induct with
  | step n ih =>
    obtain ⟨shape, span⟩ := n
    simp only [mapSpans_mk, Shape.map_map, mk.injEq, Function.comp_apply, and_true]
    exact Shape.map_congr ih

theorem eraseSpans_mk (shape : Shape Node) (span : Span) :
    (⟨shape, span⟩ : Node).eraseSpans = ⟨shape.map eraseSpans, default⟩ := mapSpans_mk _ shape span

/-! ## Texts -/

theorem renderAt_mk (depth : Nat) (shape : Shape Node) (span : Span) :
    (⟨shape, span⟩ : Node).renderAt depth =
      Render.shape depth (shape.map fun n depth => n.renderAt depth) := by
  rw [renderAt, fold_mk]
  rfl

/-- The text of a node does not depend on spans. -/
theorem renderAt_mapSpans (depth : Nat) (n : Node) : (n.mapSpans f).renderAt depth = n.renderAt depth := by
  induction n using induct generalizing depth with
  | step n ih =>
    obtain ⟨shape, span⟩ := n
    rw [mapSpans_mk, renderAt_mk, renderAt_mk, Shape.map_map]
    refine congrArg (Render.shape depth) (Shape.map_congr fun c hc => ?_)
    funext d
    exact ih c hc d

theorem render_eraseSpans (n : Node) : n.eraseSpans.render = n.render := renderAt_mapSpans _ 0 n

end Node
end SwiftMacro
