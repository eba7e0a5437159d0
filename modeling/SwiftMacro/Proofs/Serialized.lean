import SwiftMacro.Node.Json
import SwiftMacro.Proofs.Nodes
/-!
# Serialized nodes are read back

What `Node.toJson` writes, `Node.ofJson?` reads as the same node with the same spans, whatever its
shape (`Node.toJson_reads_back`). One level is enough for most of it: `Shape.ofJson?_toJson` reads a shape
whose children are JSON already. The only thing it asks of them is that none is `null`, which stands
for a child that is missing. The bound of the reader is the depth of the JSON, and a child lies less
deep than its parent (`Shape.depth_lt_of_mem_children`).
-/

namespace SwiftMacro

/-! ## Lists that are read item by item -/

theorem mapM_map_eq_some {α β : Type} {write : α → β} {read : β → Option α} {items : List α}
    (h : ∀ a ∈ items, read (write a) = some a) : (items.map write).mapM read = some items := by
  induction items with
  | nil => rfl
  | cons a items ih =>
    have hrest := ih fun b hb => h b (List.mem_cons_of_mem _ hb)
    simp [h a List.mem_cons_self, hrest]

theorem stringList?_map (words : List String) : Json.stringList? (words.map .str) = some words :=
  mapM_map_eq_some fun _ _ => rfl

/-! ## Names -/

theorem CastKind.ofName?_name (kind : CastKind) : ofName? kind.name = some kind := by
  cases kind <;> rfl

theorem BindingKeyword.ofName?_name (keyword : BindingKeyword) : ofName? keyword.name = some keyword := by
  cases keyword <;> rfl

theorem AccessorKind.ofName?_name (kind : AccessorKind) : ofName? kind.name = some kind := by
  cases kind <;> rfl

/-- No two kinds share a name. -/
theorem Kind.ofName?_name (kind : Kind) : ofName? kind.name = some kind := by
  cases kind <;> rfl

/-! ## One level -/

theorem Argument.ofJson?_toJson (a : Argument Json) : Argument.ofJson? a.toJson = some a := by
  obtain ⟨label, expression⟩ := a
  cases label <;> rfl

theorem Segment.ofJson?_toJson (s : Segment Json) : Segment.ofJson? s.toJson = some s := by
  cases s <;> rfl

theorem mapM_arguments (arguments : List (Argument Json)) :
    (arguments.map (·.toJson)).mapM Argument.ofJson? = some arguments :=
  mapM_map_eq_some fun a _ => a.ofJson?_toJson

/-- A child that may be missing is read from a field that holds it or `null`. -/
theorem optField_of_field (j : Json) (name : String) {child : Option Json}
    (hfield : j.field? name = some (.ofOption id child)) (hchild : Json.null ∉ child.toList) :
    j.optField name = child := by
  unfold Json.optField
  rw [hfield]
  cases child with
  | none => rfl
  | some c =>
    cases c with
    | null => exact absurd List.mem_cons_self hchild
    | _ => rfl

/-- The contents of a shape are read as the shape, unless it has none. -/
theorem Shape.ofContents?_contents {s : Shape Json} (hnull : Json.null ∉ s.children)
    (hnil : s ≠ .nilLiteral) (hwildcard : s ≠ .wildcardPattern) :
    Shape.ofContents? s.kind s.contents = some s := by
  cases s with
  | stringLiteral segments =>
    have hsegments : (segments.map Segment.toJson).mapM _ = some segments :=
      mapM_map_eq_some fun s _ => s.ofJson?_toJson
    simp [kind, contents, ofContents?, Json.arr?, hsegments]
  | integerLiteral | floatLiteral | booleanLiteral | identifier | prefixed | binary | forceUnwrap
  | typeName | optionalType | namePattern | tuplePattern => rfl
  | nilLiteral => exact absurd rfl hnil
  | wildcardPattern => exact absurd rfl hwildcard
  | memberAccess base member =>
    have hbase := optField_of_field (Shape.memberAccess base member).contents "base" rfl hnull
    simp only [kind, ofContents?, hbase]
    rfl
  | call callee arguments =>
    simp [kind, contents, ofContents?, Json.arrField?, Json.field?, Json.arr?, mapM_arguments,
      -List.mapM_map]
  | tuple elements => simp [kind, contents, ofContents?, Json.arr?, mapM_arguments, -List.mapM_map]
  | cast value castKind target =>
    simp [kind, contents, ofContents?, Json.strField?, Json.field?, Json.str?, CastKind.ofName?_name]
  | macroUse name generics arguments | attr name generics arguments =>
    simp [kind, contents, ofContents?, Json.strField?, Json.arrField?, Json.field?, Json.arr?, Json.str?,
      mapM_arguments, -List.mapM_map]
  | variableDecl attributes modifiers keyword bindings =>
    simp [kind, contents, ofContents?, Json.strField?, Json.arrField?, Json.field?, Json.arr?, Json.str?,
      Json.strings, stringList?_map, BindingKeyword.ofName?_name]
  | functionDecl attributes modifiers name body =>
    simp [kind, contents, ofContents?, Json.strField?, Json.arrField?, Json.field?, Json.arr?, Json.str?,
      Json.strings, stringList?_map]
  | patternBinding pattern declaredType initial accessors =>
    simp only [children, List.mem_cons, List.mem_append, not_or] at hnull
    obtain ⟨-, ⟨htype, hinitial⟩, -⟩ := hnull
    have htype := optField_of_field
      (Shape.patternBinding pattern declaredType initial accessors).contents "annotation" rfl htype
    have hinitial := optField_of_field
      (Shape.patternBinding pattern declaredType initial accessors).contents "initializer" rfl hinitial
    simp only [kind, ofContents?, htype, hinitial]
    rfl
  | accessor accessorKind body =>
    simp [kind, contents, ofContents?, Json.strField?, Json.arrField?, Json.field?, Json.arr?, Json.str?,
      AccessorKind.ofName?_name]

theorem Shape.ofJson?_toJson {s : Shape Json} (hnull : Json.null ∉ s.children) :
    Shape.ofJson? s.toJson = some s := by
  by_cases hnil : s = .nilLiteral
  · rw [hnil]
    rfl
  by_cases hwildcard : s = .wildcardPattern
  · rw [hwildcard]
    rfl
  have hjson : s.toJson = .obj [(s.kind.name, s.contents)] := by
    cases s <;> first | rfl | exact absurd rfl hnil | exact absurd rfl hwildcard
  rw [hjson, Shape.ofJson?, Kind.ofName?_name]
  exact Shape.ofContents?_contents hnull hnil hwildcard

/-! ## All levels -/

section Traverse

variable {α β : Type} {write : α → β} {read : β → Option α}

theorem traverse_arguments {arguments : List (Argument α)}
    (h : ∀ c ∈ arguments.map (·.expression), read (write c) = some c) :
    (arguments.map (·.map write)).mapM (Argument.traverse read) = some arguments := by
  refine mapM_map_eq_some fun a ha => ?_
  simp [Argument.map, Argument.traverse, h _ (List.mem_map_of_mem ha)]

theorem traverse_segments {segments : List (Segment α)}
    (h : ∀ c ∈ segments.filterMap Segment.expression?, read (write c) = some c) :
    (segments.map (·.map write)).mapM (Segment.traverse read) = some segments := by
  refine mapM_map_eq_some fun s hs => ?_
  cases s with
  | text content => rfl
  | interpolation e =>
    simp [Segment.map, Segment.traverse, h e (List.mem_filterMap.2 ⟨_, hs, rfl⟩)]

theorem traverse_option {child : Option α} (h : ∀ c ∈ child.toList, read (write c) = some c) :
    traverseOption read (child.map write) = some child := by
  cases child with
  | none => rfl
  | some c => simp [traverseOption, h c (by simp)]

/-- If every child is read as it was written, so is the shape. -/
theorem Shape.traverse_map {s : Shape α} (h : ∀ c ∈ s.children, read (write c) = some c) :
    (s.map write).traverse read = some s := by
  cases s <;> simp only [Shape.children, List.mem_append, List.mem_cons, List.not_mem_nil, or_imp,
    forall_and, forall_eq] at h <;> simp only [Shape.map, Shape.traverse]
  case stringLiteral => rw [traverse_segments h]; rfl
  case memberAccess => rw [traverse_option h]; rfl
  case call => simp [h.1, traverse_arguments h.2]
  case tuple => rw [traverse_arguments h]; rfl
  case prefixed | forceUnwrap | optionalType => rw [h.1]; rfl
  case binary | cast => simp [h.1, h.2.1]
  case macroUse | attr => simp [mapM_map_eq_some h.1, traverse_arguments h.2]
  case typeName | tuplePattern | accessor => rw [mapM_map_eq_some h]; rfl
  case variableDecl | functionDecl => simp [mapM_map_eq_some h.1, mapM_map_eq_some h.2]
  case patternBinding =>
    simp [h.1, traverse_option h.2.1.1, traverse_option h.2.1.2, mapM_map_eq_some h.2.2]

end Traverse

/-! ## The depth of a child -/

namespace Json

theorem depth_lt_arr {c : Json} {items : List Json} (h : c ∈ items) : c.depth < (arr items).depth := by
  rw [depth, Nat.lt_succ_iff]
  induction items with
  | nil => cases h
  | cons j items ih =>
    rw [depthOf]
    rcases List.mem_cons.1 h with rfl | h
    · exact Nat.le_max_left _ _
    · exact Nat.le_trans (ih h) (Nat.le_max_right _ _)

theorem depth_lt_obj (name : String) {c : Json} {fields : List (String × Json)} (h : (name, c) ∈ fields) :
    c.depth < (obj fields).depth := by
  rw [depth, Nat.lt_succ_iff]
  induction fields with
  | nil => cases h
  | cons field fields ih =>
    obtain ⟨other, j⟩ := field
    rw [depthOfFields]
    rcases List.mem_cons.1 h with h | h
    · obtain ⟨-, rfl⟩ := Prod.mk.inj h
      exact Nat.le_max_left _ _
    · exact Nat.le_trans (ih h) (Nat.le_max_right _ _)

theorem depth_lt_arguments {c : Json} {arguments : List (Argument Json)}
    (h : c ∈ arguments.map (·.expression)) : c.depth < (arr (arguments.map (·.toJson))).depth := by
  obtain ⟨a, ha, rfl⟩ := List.mem_map.1 h
  have hfield : a.expression.depth < a.toJson.depth := depth_lt_obj "expression" (by simp)
  exact Nat.lt_trans hfield (depth_lt_arr (List.mem_map_of_mem ha))

theorem depth_lt_segments {c : Json} {segments : List (Segment Json)}
    (h : c ∈ segments.filterMap Segment.expression?) :
    c.depth < (arr (segments.map (·.toJson))).depth := by
  obtain ⟨s, hs, hc⟩ := List.mem_filterMap.1 h
  cases s with
  | text content => cases hc
  | interpolation e =>
    obtain rfl := Option.some.inj hc
    have hfield : e.depth < (Segment.toJson (.interpolation e)).depth :=
      depth_lt_obj "Interpolation" (by simp)
    exact Nat.lt_trans hfield (depth_lt_arr (List.mem_map_of_mem hs))

end Json

theorem Shape.depth_le_contents {s : Shape Json} {c : Json} (h : c ∈ s.children) :
    c.depth ≤ s.contents.depth := by
  have hfield : ∀ (name : String) {j : Json} {fields : List (String × Json)}, (name, j) ∈ fields →
      c.depth ≤ j.depth → c.depth ≤ (Json.obj fields).depth := fun name _ _ hmem hle =>
    Nat.le_trans hle (Nat.le_of_lt (Json.depth_lt_obj name hmem))
  have hlist : ∀ {items : List Json}, c ∈ items → c.depth ≤ (Json.arr items).depth := fun hmem =>
    Nat.le_of_lt (Json.depth_lt_arr hmem)
  have harguments : ∀ {arguments : List (Argument Json)}, c ∈ arguments.map (·.expression) →
      c.depth ≤ (Json.arr (arguments.map (·.toJson))).depth := fun hmem =>
    Nat.le_of_lt (Json.depth_lt_arguments hmem)
  have hoption : ∀ {child : Option Json}, c ∈ child.toList →
      c.depth ≤ (Json.ofOption id child).depth := fun {child} hmem => by
    cases child with
    | none => cases hmem
    | some d => rw [List.mem_singleton.1 hmem]; exact Nat.le_refl _
  cases s <;> simp only [Shape.children, List.mem_append, List.mem_cons, List.not_mem_nil,
    or_false] at h <;> simp only [Shape.contents]
  case stringLiteral => exact Nat.le_of_lt (Json.depth_lt_segments h)
  case memberAccess => exact hfield "base" (by simp) (hoption h)
  case call =>
    rcases h with rfl | h
    · exact hfield "callee" (by simp) (Nat.le_refl _)
    · exact hfield "arguments" (by simp) (harguments h)
  case tuple => exact harguments h
  case prefixed => subst h; exact hfield "operand" (by simp) (Nat.le_refl _)
  case binary =>
    rcases h with rfl | rfl
    · exact hfield "lhs" (by simp) (Nat.le_refl _)
    · exact hfield "rhs" (by simp) (Nat.le_refl _)
  case cast =>
    rcases h with rfl | rfl
    · exact hfield "value" (by simp) (Nat.le_refl _)
    · exact hfield "target" (by simp) (Nat.le_refl _)
  case forceUnwrap | optionalType => subst h; exact Nat.le_refl _
  case macroUse | attr =>
    rcases h with h | h
    · exact hfield "generic_arguments" (by simp) (hlist h)
    · exact hfield "arguments" (by simp) (harguments h)
  case typeName => exact hfield "generic_arguments" (by simp) (hlist h)
  case variableDecl =>
    rcases h with h | h
    · exact hfield "attributes" (by simp) (hlist h)
    · exact hfield "bindings" (by simp) (hlist h)
  case functionDecl =>
    rcases h with h | h
    · exact hfield "attributes" (by simp) (hlist h)
    · exact hfield "body" (by simp) (hlist h)
  case patternBinding =>
    rcases h with rfl | (h | h) | h
    · exact hfield "pattern" (by simp) (Nat.le_refl _)
    · exact hfield "annotation" (by simp) (hoption h)
    · exact hfield "initializer" (by simp) (hoption h)
    · exact hfield "accessors" (by simp) (hlist h)
  case tuplePattern => exact hlist h
  case accessor => exact hfield "body" (by simp) (hlist h)

/-- A child lies less deep than its parent. -/
theorem Shape.depth_lt_of_mem_children {s : Shape Json} {c : Json} (h : c ∈ s.children) :
    c.depth < s.toJson.depth := by
  have hobject : c.depth < (Json.obj [(s.kind.name, s.contents)]).depth :=
    Nat.lt_of_le_of_lt (Shape.depth_le_contents h) (Json.depth_lt_obj _ List.mem_cons_self)
  cases s with
  | nilLiteral | wildcardPattern => cases h
  | _ => exact hobject

/-! ## Nodes -/

namespace Node

theorem toJson_mk (shape : Shape Node) (span : Span) : (⟨shape, span⟩ : Node).toJson =
    .obj [("value", (shape.map toJson).toJson), ("span", span.toJson)] := fold_mk _ shape span

theorem ofJsonWithin?_toJson (n : Node) {depth : Nat} (h : n.toJson.depth ≤ depth) :
    ofJsonWithin? depth n.toJson = some n := by
  induction n using induct generalizing depth with
  | step n ih =>
    obtain ⟨shape, span⟩ := n
    rw [toJson_mk] at h ⊢
    cases depth with
    | zero => cases h
    | succ depth =>
      -- A node is an object, so no child is taken for a missing one.
      have hnull : Json.null ∉ (shape.map toJson).children := by
        rw [Shape.children_map]
        rintro hmem
        obtain ⟨⟨_, _⟩, -, hc⟩ := List.mem_map.1 hmem
        rw [toJson_mk] at hc
        cases hc
      have hvalue : (shape.map toJson).toJson.depth ≤ depth :=
        Nat.le_of_lt_succ (Nat.lt_of_lt_of_le (Json.depth_lt_obj _ List.mem_cons_self) h)
      have hchildren : ∀ c ∈ shape.children, ofJsonWithin? depth c.toJson = some c := by
        intro c hc
        have hmem : c.toJson ∈ (shape.map toJson).children := by
          rw [Shape.children_map]
          exact List.mem_map_of_mem hc
        exact ih c hc (Nat.le_trans (Nat.le_of_lt (Shape.depth_lt_of_mem_children hmem)) hvalue)
      -- For any value, so that the JSON of the shape is not taken apart.
      have hfields : ∀ value, Json.field? (.obj [("value", value), ("span", span.toJson)]) "value" =
          some value ∧ Json.field? (.obj [("value", value), ("span", span.toJson)]) "span" =
          some span.toJson := fun _ => ⟨rfl, rfl⟩
      have hspan : Span.ofJson? span.toJson = some span := rfl
      simp [ofJsonWithin?, hfields, hspan, Shape.ofJson?_toJson hnull, Shape.traverse_map hchildren]

/-- The value is the name of the kind, or an object with that name as its only key. -/
theorem toJson_form (s : Shape Json) : s.toJson = .str s.kind.name ∨
    ∃ contents, s.toJson = .obj [(s.kind.name, contents)] := by
  cases s with
  | nilLiteral | wildcardPattern => exact .inl rfl
  | _ => exact .inr ⟨_, rfl⟩

/-- Every node is written as an object with its value and its span, and is read back from it as the
same node. So no two nodes are written alike. -/
theorem toJson_reads_back (n : Node) :
    (∃ value, n.toJson = .obj [("value", value),
        ("span", .obj [("start", .num n.span.start), ("end", .num n.span.stop)])] ∧
      (value = .str n.kind.name ∨ ∃ contents, value = .obj [(n.kind.name, contents)])) ∧
    ofJson? n.toJson = some n ∧ ∀ m : Node, m.toJson = n.toJson ↔ m = n := by
  have hread : ∀ m : Node, ofJson? m.toJson = some m := fun m => ofJsonWithin?_toJson m (Nat.le_refl _)
  refine ⟨?_, hread n, fun m => ⟨fun hm => ?_, fun hm => hm ▸ rfl⟩⟩
  · obtain ⟨shape, span⟩ := n
    have hkind : (shape.map toJson).kind = shape.kind := by cases shape <;> rfl
    refine ⟨_, toJson_mk shape span, ?_⟩
    have hform := toJson_form (shape.map toJson)
    rwa [hkind] at hform
  · have hsame := hread m
    rw [hm, hread n] at hsame
    exact (Option.some.inj hsame).symm

end Node
end SwiftMacro
