import SwiftMacro.Macro.Extract
import SwiftMacro.Node.Build
import SwiftMacro.Services
import SwiftMacro.Url
/-!
# The standard macros

`#stringify`, `#urlFromString` and `#systemImage` become expressions; `@iCloudKeyValue` gives a
variable a getter and a setter. Everything they make carries the span of the macro use; only what is
taken over from the source keeps its own.
-/

namespace SwiftMacro

/-- `#stringify(e)` becomes `(e, "e")`. -/
def stringify (site : Site) (_ : Services) : Except Rejection Node := do
  let argument ← site.firstArgument
  let span := site.node.span
  return .tuple span [.plain argument, .plain (.string span argument.render)]

/-- `#urlFromString("https://apple.com")` becomes `URL(string: "https://apple.com")!`, once the URL
has been checked. -/
def urlFromString (site : Site) (services : Services) : Except Rejection Node := do
  let argument ← site.firstArgument
  let text ← argument.plainString
  match checkUrl services.urlPolicy text with
  | .error failure => Rejection.at failure argument
  | .ok () =>
      let span := site.node.span
      return .forceUnwrap span
        (.call span (.identifier span "URL") [.labeled "string" (.string span text)])

/-- `#systemImage("calendar")` becomes `Image(systemName: "calendar")`, once the name has been
looked up. -/
def systemImage (site : Site) (services : Services) : Except Rejection Node := do
  let argument ← site.firstArgument
  let text ← argument.plainString
  match checkSymbol services.symbols text with
  | .error failure => Rejection.at failure argument
  | .ok () =>
      let span := site.node.span
      return .call span (.identifier span "Image") [.labeled "systemName" (.string span text)]

namespace Store

variable (store : Store) (span : Span)

/-- The expression that reaches the store. -/
def receiver : Node := .memberChain span store.root store.members

/-- The key of a variable as an argument. -/
def key (binding : Binding) : Argument Node :=
  .labeled store.keyLabel (.string span binding.name)

/-- What a getter gives when the store holds no value of the type: `nil` for an optional type, else
the initial value if there is one. -/
def fallback (type : ValueType) (binding : Binding) : Option Node :=
  if type.optional then some (.nil span) else binding.initial

/-- `get { (store.read(key: "name") as? T) ?? fallback }` -/
def getter (type : ValueType) (binding : Binding) : Node :=
  let read := Node.call span (.member span (store.receiver span) store.readMethod)
    [store.key span binding]
  let typed := Node.parenthesized span (.cast span read .conditional type.type)
  let body := match fallback span type binding with
    | none => typed
    | some value => .binary span typed "??" value
  .accessor span .get [body]

/-- `set { store.write(newValue, key: "name") }` -/
def setter (binding : Binding) : Node :=
  .accessor span .set [.call span (.member span (store.receiver span) store.writeMethod)
    [.plain (.identifier span "newValue"), store.key span binding]]

end Store

/-- `@iCloudKeyValue<T>` on a variable becomes accessors that read and write the key with the
variable's name. On anything but a variable it adds nothing. -/
def keyValueAccessors (site : Site) (services : Services) : Except Rejection (List Node) := do
  let type ← site.valueType
  match site.declaration with
  | none => return []
  | some declaration =>
      match ← declaration.binding with
      | none => return []
      | some binding =>
          let span := site.node.span
          return [services.store.getter span type binding, services.store.setter span binding]

/-! ## The registry -/

/-- What a macro does, by its role. -/
inductive Handler where
  | expression (run : Site → Services → Except Rejection Node)
  | accessor (run : Site → Services → Except Rejection (List Node))

def Handler.role : Handler → Role
  | expression _ => .expression
  | accessor _ => .accessor

/-- A macro as it is declared. -/
structure MacroEntry where
  /-- The name behind `#` or `@`. -/
  name : String
  handler : Handler
  signature : String
  summary : String

def MacroEntry.role (e : MacroEntry) : Role := e.handler.role

/-- The macros that can be used, by name. -/
abbrev Registry := List MacroEntry

namespace Registry

/-- Every macro there is, in order of declaration. -/
def standard : Registry :=
  [{ name := "stringify"
     handler := .expression stringify
     signature := "#stringify<T>(_ value: T) -> (T, String)"
     summary := "Pairs an expression with its own source text." },
   { name := "urlFromString"
     handler := .expression urlFromString
     signature := "#urlFromString(_ str: String) -> URL"
     summary := "Builds a URL from a literal checked at expansion time." },
   { name := "systemImage"
     handler := .expression systemImage
     signature := "#systemImage(_ str: String) -> Image"
     summary := "Builds an image from a symbol name checked against the catalog." },
   { name := "iCloudKeyValue"
     handler := .accessor keyValueAccessors
     signature := "@iCloudKeyValue<T>"
     summary := "Backs a variable with the ubiquitous key-value store." }]

/-- The first macro with a name. -/
def lookup? (r : Registry) (name : String) : Option MacroEntry := r.find? (·.name == name)

def contains (r : Registry) (name : String) : Bool := (r.lookup? name).isSome

/-- Whether a name belongs to a macro for attributes. -/
def isAttached (r : Registry) (name : String) : Bool :=
  match r.lookup? name with
  | some entry => entry.role == .accessor
  | none => false

/-! ## Sites of a source -/

/-- The sites at one node: its attributes that are macros, then the node itself. Only names that the
registry knows make sites. -/
def sitesAt (r : Registry) (source : Source) (n : Node) : List Site :=
  (n.attributes.filterMap fun mark => Site.attached? source mark n).filter
      (fun s => r.isAttached s.macroName) ++
    (Site.freestanding? source n).toList.filter (fun s => r.contains s.macroName)

/-- The sites of a source, each node before its children. -/
def sites (r : Registry) (source : Source) (items : List Node) : List Site :=
  (items.flatMap Node.preorder).flatMap (r.sitesAt source)

end Registry
end SwiftMacro
