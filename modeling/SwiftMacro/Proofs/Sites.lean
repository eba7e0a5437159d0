import Mathlib.Data.List.Lex
import Mathlib.Data.Prod.Basic
import SwiftMacro.Macro.Standard
import SwiftMacro.Proofs.Listings
/-!
# The sites of a source

`Registry.sites` walks every tree once, each node before its children. What it should find is said here
without the walk. A shape has places for children (`Shape.Place`), a node below another one stands at a
path of places (`Node.at?`), and a node of a source at an address (`nodeAt?`). Addresses have an order: a
node comes before what is below it, and of two parts of a node the one whose text stands first.

`sites_complete` says of each role which addresses make sites and that the sites are listed in the order
of their addresses, one for each: a child that the walk forgets, or visits twice, would show there.
-/

namespace SwiftMacro

/-! ## Places -/

namespace Shape

/-- The fields of shapes that hold children, in the order of their text. -/
inductive Field where
  | segments | base | callee | operand | left | value | wrapped | generics | attributes | pattern
  | elements | arguments | right | target | bindings | body | declaredType | initial | accessors
deriving DecidableEq

/-- Every field, in order. -/
def Field.all : List Field :=
  [segments, base, callee, operand, left, value, wrapped, generics, attributes, pattern, elements,
    arguments, right, target, bindings, body, declaredType, initial, accessors]

def Field.Before (a b : Field) : Prop := a.ctorIdx < b.ctorIdx

instance : DecidableRel Field.Before := fun a b => inferInstanceAs (Decidable (a.ctorIdx < b.ctorIdx))

instance : Std.Asymm Field.Before := ⟨fun _ _ => Nat.lt_asymm⟩

variable {α : Type}

/-- The entries of a field. A text between interpolations is an entry, but no child. -/
def entries : Shape α → Field → List (Option α)
  | stringLiteral segments => fun
      | .segments => segments.map fun
        | .text _ => none
        | .interpolation e => some e
      | _ => []
  | integerLiteral _ | floatLiteral _ | booleanLiteral _ | nilLiteral | identifier _
  | namePattern _ | wildcardPattern => fun _ => []
  | memberAccess base _ => fun
      | .base => [base]
      | _ => []
  | call callee arguments => fun
      | .callee => [some callee]
      | .arguments => arguments.map (some ·.expression)
      | _ => []
  | tuple elements => fun
      | .arguments => elements.map (some ·.expression)
      | _ => []
  | prefixed _ operand | forceUnwrap operand => fun
      | .operand => [some operand]
      | _ => []
  | binary lhs _ rhs => fun
      | .left => [some lhs]
      | .right => [some rhs]
      | _ => []
  | cast value _ target => fun
      | .value => [some value]
      | .target => [some target]
      | _ => []
  | macroUse _ generics arguments | attr _ generics arguments => fun
      | .generics => generics.map some
      | .arguments => arguments.map (some ·.expression)
      | _ => []
  | typeName _ generics => fun
      | .generics => generics.map some
      | _ => []
  | optionalType wrapped => fun
      | .wrapped => [some wrapped]
      | _ => []
  | variableDecl attributes _ _ bindings => fun
      | .attributes => attributes.map some
      | .bindings => bindings.map some
      | _ => []
  | functionDecl attributes _ _ body => fun
      | .attributes => attributes.map some
      | .body => body.map some
      | _ => []
  | patternBinding pattern declaredType initial accessors => fun
      | .pattern => [some pattern]
      | .declaredType => [declaredType]
      | .initial => [initial]
      | .accessors => accessors.map some
      | _ => []
  | tuplePattern elements => fun
      | .elements => elements.map some
      | _ => []
  | accessor _ body => fun
      | .body => body.map some
      | _ => []

/-- A place for a child: a field, and the number of an entry. -/
abbrev Place := Field × Nat

/-- Places in the order of their text. -/
def Place.Before : Place → Place → Prop := Prod.Lex Field.Before (· < ·)

instance : Std.Asymm Place.Before := inferInstanceAs (Std.Asymm (Prod.Lex Field.Before (· < ·)))

/-- The child at a place. -/
def part? (shape : Shape α) (place : Place) : Option α := (shape.entries place.1)[place.2]?.join

theorem children_eq_flatMap (shape : Shape α) :
    shape.children = Field.all.flatMap fun field => (shape.entries field).filterMap id := by
  cases shape with
  | stringLiteral segments =>
    simp only [children, Field.all, entries, List.flatMap_cons, List.flatMap_nil, List.filterMap_nil,
      List.filterMap_map, List.append_nil]
    exact congrArg (List.filterMap · segments) (funext fun s => by cases s <;> rfl)
  | memberAccess base member => cases base <;> rfl
  | patternBinding pattern declaredType initial accessors =>
    cases declaredType <;> cases initial <;> simp [children, Field.all, entries, List.filterMap_map]
  | _ => simp [children, Field.all, entries, List.filterMap_map]

theorem listed_all : Listed Field.Before (fun f g => g = f) Field.all := by
  refine ⟨Field.all.map fun f => (f, f), by decide, by decide, fun f g => ?_⟩
  cases f <;> simp [Field.all]

/-- The children of a shape are what stands at its places, in the order of the places. -/
theorem listed_children (shape : Shape α) :
    Listed Place.Before (fun place c => shape.part? place = some c) shape.children := by
  rw [children_eq_flatMap]
  refine (listed_all.flatMap fun f g hg => (Listed.getElem? (shape.entries g)).filterMap id).congr ?_
  rintro ⟨f, i⟩ c
  simp [part?, Option.join_eq_some_iff]

end Shape

/-! ## Paths and addresses -/

/-- The way from a node to one below it. -/
abbrev Path := List Shape.Place

/-- Paths in the order of the nodes at their ends, a node before all that is below it. -/
def Path.Before : Path → Path → Prop := List.Lex Shape.Place.Before

instance : Std.Asymm Path.Before := inferInstanceAs (Std.Asymm (List.Lex Shape.Place.Before))

namespace Node

/-- The node at the end of a path. -/
def at? : Node → Path → Option Node
  | n, [] => some n
  | n, place :: path => (n.shape.part? place).bind fun c => c.at? path

theorem at?_append (n : Node) (path path' : Path) :
    n.at? (path ++ path') = (n.at? path).bind (·.at? path') := by
  induction path generalizing n with
  | nil => rfl
  | cons place path ih =>
    rw [List.cons_append, at?, at?, Option.bind_assoc]
    simp only [ih]

/-- The node stands in the tree of another, at any depth. -/
def Within (root n : Node) : Prop := ∃ path, root.at? path = some n

theorem Within.trans {a b c : Node} (h : Within b c) (hb : Within a b) : Within a c := by
  obtain ⟨path', hpath'⟩ := h
  obtain ⟨path, hpath⟩ := hb
  exact ⟨path ++ path', by rw [at?_append, hpath, Option.bind_some, hpath']⟩

theorem within_of_mem_children {n c : Node} (h : c ∈ n.children) : n.Within c := by
  obtain ⟨place, hplace⟩ := (Shape.listed_children n.shape).mem_iff.1 h
  exact ⟨[place], by rw [at?, hplace, Option.bind_some, at?]⟩

/-- The walk lists the nodes at all paths, in the order of the paths. -/
theorem listed_preorder (n : Node) :
    Listed Path.Before (fun path m => n.at? path = some m) n.preorder := by
  induction n using induct with
  | step n ih =>
    have hbelow := (Shape.listed_children n.shape).flatMap fun place c hc =>
      ih c ((Shape.listed_children n.shape).mem_iff.2 ⟨place, hc⟩)
    have hbehind := hbelow.rekey Path.Before (fun key => key.1 :: key.2) (by
      rintro _ _ (⟨_, _, h⟩ | ⟨_, h⟩)
      · exact .rel h
      · exact .cons h)
    rw [preorder_eq]
    refine ((Listed.singleton Path.Before [] n).append hbehind ?_).congr fun path m => ?_
    · rintro _ _ _ _ ⟨rfl, -⟩ ⟨_, rfl, -⟩
      exact .nil
    · cases path with
      | nil => simp [at?, eq_comm]
      | cons place path => simp [at?, Option.bind_eq_some_iff]

/-- The walk visits a node at any depth, and nothing else. -/
theorem mem_preorder_iff {root n : Node} : n ∈ root.preorder ↔ root.Within n :=
  root.listed_preorder.mem_iff

theorem mem_preorder_of_mem_children {root n c : Node} (hn : n ∈ root.preorder)
    (hc : c ∈ n.children) : c ∈ root.preorder :=
  mem_preorder_iff.2 ((within_of_mem_children hc).trans (mem_preorder_iff.1 hn))

/-- The node declares variables or a function, and these attributes stand on it. -/
inductive Declares : Node → List Node → Prop
  | variables {attributes modifiers keyword bindings span} :
      Declares ⟨.variableDecl attributes modifiers keyword bindings, span⟩ attributes
  | function {attributes modifiers name body span} :
      Declares ⟨.functionDecl attributes modifiers name body, span⟩ attributes

theorem listed_attributes (n : Node) :
    Listed (· < ·) (fun (i : Nat) mark => ∃ marks, n.Declares marks ∧ marks[i]? = some mark)
      n.attributes := by
  refine (Listed.getElem? n.attributes).congr fun i mark => ⟨fun hmark => ?_, ?_⟩
  · obtain ⟨shape, span⟩ := n
    cases shape with
    | variableDecl => exact ⟨_, .variables, hmark⟩
    | functionDecl => exact ⟨_, .function, hmark⟩
    | _ => cases hmark
  · rintro ⟨marks, ⟨⟩ | ⟨⟩, hmark⟩
    · exact hmark
    · exact hmark

theorem macroName?_eq_some_iff {n : Node} {name : String} : n.macroName? = some name ↔
    ∃ generics arguments, n.shape = .macroUse name generics arguments := by
  obtain ⟨shape, span⟩ := n
  cases shape <;> simp [macroName?]

theorem attributeName?_eq_some_iff {n : Node} {name : String} : n.attributeName? = some name ↔
    ∃ generics arguments, n.shape = .attr name generics arguments := by
  obtain ⟨shape, span⟩ := n
  cases shape <;> simp [attributeName?]

end Node

/-- Where a node of a source stands: the number of its tree, and the path from the root. -/
abbrev Address := Nat × Path

/-- Addresses in the order of the nodes there. -/
def Address.Before : Address → Address → Prop := Prod.Lex (· < ·) Path.Before

instance : Std.Asymm Address.Before := inferInstanceAs (Std.Asymm (Prod.Lex (· < ·) Path.Before))

/-- The node at an address of a source. -/
def nodeAt? (items : List Node) (address : Address) : Option Node :=
  items[address.1]?.bind (·.at? address.2)

theorem listed_nodes (items : List Node) :
    Listed Address.Before (fun address n => nodeAt? items address = some n)
      (items.flatMap Node.preorder) := by
  refine ((Listed.getElem? items).flatMap fun _ item _ => item.listed_preorder).congr fun address n => ?_
  rw [nodeAt?, Option.bind_eq_some_iff]

/-! ## Sites by role -/

namespace Registry

variable (r : Registry) (source : Source)

/-- The first macro of the registry with a name. -/
def Finds (name : String) (entry : MacroEntry) : Prop :=
  ∃ front back, r = front ++ entry :: back ∧ entry.name = name ∧ ∀ e ∈ front, e.name ≠ name

/-- What makes a site in the role of an expression: a macro use with the name of a macro. -/
def UseAt (items : List Node) (address : Address) (site : Site) : Prop :=
  ∃ n name generics arguments, nodeAt? items address = some n ∧
    n.shape = .macroUse name generics arguments ∧ (∃ entry ∈ r, entry.name = name) ∧
    site = ⟨name, .expression, n, none, source⟩

/-- What makes a site in the role of an accessor: an attribute, by its number, of the declaration at an
address, with the name of a macro for attributes. -/
def MarkAt (items : List Node) (place : Address × Nat) (site : Site) : Prop :=
  ∃ declaration marks mark name generics arguments entry, nodeAt? items place.1 = some declaration ∧
    declaration.Declares marks ∧ marks[place.2]? = some mark ∧
    mark.shape = .attr name generics arguments ∧ r.Finds name entry ∧ entry.role = .accessor ∧
    site = ⟨name, .accessor, mark, some declaration, source⟩

variable {r} in
theorem lookup?_eq_some_iff {name : String} {entry : MacroEntry} :
    r.lookup? name = some entry ↔ r.Finds name entry := by
  simp only [lookup?, List.find?_eq_some_iff_append, Finds, beq_iff_eq, Bool.not_eq_true',
    beq_eq_false_iff_ne]
  grind

variable {r} in
theorem exists_finds_iff {name : String} :
    (∃ entry, r.Finds name entry) ↔ ∃ entry ∈ r, entry.name = name := by
  simp only [← lookup?_eq_some_iff, ← Option.isSome_iff_exists, lookup?, List.find?_isSome, beq_iff_eq]

variable {r} in
theorem contains_iff {name : String} : r.contains name = true ↔ ∃ entry ∈ r, entry.name = name := by
  simp [contains, lookup?]

variable {r} in
theorem isAttached_iff {name : String} :
    r.isAttached name = true ↔ ∃ entry, r.Finds name entry ∧ entry.role = .accessor := by
  simp only [← lookup?_eq_some_iff, isAttached]
  split
  · next entry hentry => simp [hentry]
  · next hnone => simp [hnone]

variable (n : Node)

/-- The site of a macro use, if the registry knows its name. -/
def expressionSite? : Option Site :=
  (n.macroName?.filter r.contains).map fun name => ⟨name, .expression, n, none, source⟩

/-- The site of an attribute on a declaration, if its name is that of a macro for attributes. -/
def accessorSite? (declaration mark : Node) : Option Site :=
  (mark.attributeName?.filter r.isAttached).map
    fun name => ⟨name, .accessor, mark, some declaration, source⟩

theorem sitesAt_eq : r.sitesAt source n =
    n.attributes.filterMap (r.accessorSite? source n) ++ (r.expressionSite? source n).toList := by
  unfold sitesAt
  congr 1
  · rw [List.filter_filterMap]
    congr 1
    funext mark
    unfold Site.attached? accessorSite?
    cases mark.attributeName? with
    | none => rfl
    | some name => simp [Option.filter]
  · unfold Site.freestanding? expressionSite?
    cases n.macroName? with
    | none => rfl
    | some name => cases h : r.contains name <;> simp [Option.filter, h]

theorem role_of_mem_expressionSite? {site : Site} (h : site ∈ (r.expressionSite? source n).toList) :
    site.role = .expression := by
  obtain ⟨name, -, rfl⟩ := Option.map_eq_some_iff.1 (Option.mem_toList.1 h)
  rfl

theorem role_of_mem_accessorSites {declaration : Node} {marks : List Node} {site : Site}
    (h : site ∈ marks.filterMap (r.accessorSite? source declaration)) : site.role = .accessor := by
  obtain ⟨mark, -, hmark⟩ := List.mem_filterMap.1 h
  obtain ⟨name, -, rfl⟩ := Option.map_eq_some_iff.1 hmark
  rfl

/-- Among sites in one role, all are in it and none in another. -/
theorem filter_role {sites : List Site} {role : Role} (h : ∀ site ∈ sites, site.role = role)
    (other : Role) : sites.filter (·.role == other) = if role = other then sites else [] := by
  by_cases hrole : role = other
  · rw [if_pos hrole, List.filter_eq_self]
    exact fun site hsite => beq_iff_eq.2 ((h site hsite).trans hrole)
  · rw [if_neg hrole, List.filter_eq_nil_iff]
    exact fun site hsite hother => hrole ((h site hsite).symm.trans (beq_iff_eq.1 hother))

/-- Of the sites at a node, the one in the role of an expression is that of the node itself. -/
theorem filter_expression_sitesAt : (r.sitesAt source n).filter (·.role == .expression) =
    (r.expressionSite? source n).toList := by
  rw [sitesAt_eq, List.filter_append, filter_role fun _ => r.role_of_mem_accessorSites source,
    filter_role fun _ => r.role_of_mem_expressionSite? source n, if_neg (by decide), if_pos rfl,
    List.nil_append]

theorem filter_accessor_sitesAt : (r.sitesAt source n).filter (·.role == .accessor) =
    n.attributes.filterMap (r.accessorSite? source n) := by
  rw [sitesAt_eq, List.filter_append, filter_role fun _ => r.role_of_mem_accessorSites source,
    filter_role fun _ => r.role_of_mem_expressionSite? source n, if_pos rfl, if_neg (by decide),
    List.append_nil]

theorem expressionSite?_eq_some_iff {site : Site} : r.expressionSite? source n = some site ↔
    ∃ name generics arguments, n.shape = .macroUse name generics arguments ∧
      (∃ entry ∈ r, entry.name = name) ∧ site = ⟨name, .expression, n, none, source⟩ := by
  rw [expressionSite?, Option.map_eq_some_iff]
  constructor
  · rintro ⟨name, hname, rfl⟩
    obtain ⟨hname, hcontains⟩ := Option.filter_eq_some_iff.1 hname
    obtain ⟨generics, arguments, hshape⟩ := Node.macroName?_eq_some_iff.1 hname
    exact ⟨name, generics, arguments, hshape, contains_iff.1 hcontains, rfl⟩
  · rintro ⟨name, generics, arguments, hshape, hknown, rfl⟩
    refine ⟨name, Option.filter_eq_some_iff.2 ⟨?_, contains_iff.2 hknown⟩, rfl⟩
    exact Node.macroName?_eq_some_iff.2 ⟨generics, arguments, hshape⟩

theorem accessorSite?_eq_some_iff {declaration mark : Node} {site : Site} :
    r.accessorSite? source declaration mark = some site ↔ ∃ name generics arguments entry,
      mark.shape = .attr name generics arguments ∧ r.Finds name entry ∧ entry.role = .accessor ∧
        site = ⟨name, .accessor, mark, some declaration, source⟩ := by
  rw [accessorSite?, Option.map_eq_some_iff]
  constructor
  · rintro ⟨name, hname, rfl⟩
    obtain ⟨hname, hattached⟩ := Option.filter_eq_some_iff.1 hname
    obtain ⟨generics, arguments, hshape⟩ := Node.attributeName?_eq_some_iff.1 hname
    obtain ⟨entry, hentry, hrole⟩ := isAttached_iff.1 hattached
    exact ⟨name, generics, arguments, entry, hshape, hentry, hrole, rfl⟩
  · rintro ⟨name, generics, arguments, entry, hshape, hentry, hrole, rfl⟩
    refine ⟨name, Option.filter_eq_some_iff.2 ⟨?_, isAttached_iff.2 ⟨entry, hentry, hrole⟩⟩, rfl⟩
    exact Node.attributeName?_eq_some_iff.2 ⟨generics, arguments, hshape⟩

/-- In the role of an expression, the sites are those of the macro uses at any address with the name of a
macro. In the role of an accessor, they are those of the attributes of declarations at any address with
the name of a macro for attributes. In both roles there is one site for each, and they are in order. -/
theorem sites_complete (items : List Node) :
    Listed Address.Before (r.UseAt source items)
      ((r.sites source items).filter (·.role == .expression)) ∧
    Listed (Prod.Lex Address.Before (· < ·)) (r.MarkAt source items)
      ((r.sites source items).filter (·.role == .accessor)) := by
  constructor
  · have hsites : (r.sites source items).filter (·.role == .expression) =
        (items.flatMap Node.preorder).filterMap (r.expressionSite? source) := by
      rw [sites, List.filter_flatMap]
      simp only [filter_expression_sitesAt]
      exact (List.filterMap_eq_flatMap_toList _ _).symm
    rw [hsites]
    refine ((listed_nodes items).filterMap _).congr fun address site => ?_
    simp only [expressionSite?_eq_some_iff, UseAt]
    grind
  · have hsites : (r.sites source items).filter (·.role == .accessor) =
        (items.flatMap Node.preorder).flatMap fun n =>
          n.attributes.filterMap (r.accessorSite? source n) := by
      rw [sites, List.filter_flatMap]
      simp only [filter_accessor_sitesAt]
    rw [hsites]
    refine ((listed_nodes items).flatMap fun _ n _ =>
      n.listed_attributes.filterMap (r.accessorSite? source n)).congr fun place site => ?_
    simp only [accessorSite?_eq_some_iff, MarkAt]
    grind

end Registry
end SwiftMacro
