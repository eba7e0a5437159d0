import SwiftMacro.Config.Schema
import SwiftMacro.Files
import SwiftMacro.Services
import SwiftMacro.Text.Blank
import SwiftMacro.Yaml.Document
/-!
# Configuration

A configuration is a YAML text in which everything may be left out:

    url:
      allowed_schemes: [http, https]
    key_value_store:
      receiver: NSUbiquitousKeyValueStore.default
      read_method: object
      write_method: set
      key_label: forKey
    symbols:
      catalog: symbols.txt
    logging:
      level: warn

`Config.parse` reads it and `Config.services` makes what macros rely on.
-/

namespace SwiftMacro

/-- How much is logged. -/
inductive LogLevel where
  | error | warn | info | debug | trace
deriving DecidableEq, Repr

namespace LogLevel

instance : Inhabited LogLevel := ⟨warn⟩

def name : LogLevel → String
  | error => "error"
  | warn => "warn"
  | info => "info"
  | debug => "debug"
  | trace => "trace"

def all : List LogLevel := [error, warn, info, debug, trace]

/-- The filter that lets through what the program itself logs. -/
def directive (l : LogLevel) : String := "sigil=" ++ l.name

end LogLevel

/-- The store as a configuration describes it: nothing has been checked yet. -/
structure StoreSettings where
  /-- The path of the store, with dots. -/
  receiver : String
  readMethod : String
  writeMethod : String
  keyLabel : String
deriving DecidableEq, Repr

namespace StoreSettings

/-- The description of a store. -/
def ofStore (s : Store) : StoreSettings := ⟨s.path, s.readMethod, s.writeMethod, s.keyLabel⟩

instance : Inhabited StoreSettings := ⟨ofStore default⟩

end StoreSettings

/-- A configuration. -/
structure Config where
  url : UrlPolicy
  store : StoreSettings
  /-- The path of the symbol catalog. -/
  catalog : Option String
  level : LogLevel
  /-- The directory that the path of the catalog starts from. -/
  directory : Option String
deriving DecidableEq, Repr

namespace Config

instance : Inhabited Config := ⟨⟨default, default, none, default, none⟩⟩

/-! ## Sections -/

/-- The section `url`, which ignores fields that it does not know. -/
def urlSchema : Schema UrlPolicy where
  title := "UrlPolicy"
  fields := [⟨"allowed_schemes", fun path v => do
    let schemes ← Decoder.list (Decoder.text "a string") path v
    return fun u => { u with allowedSchemes := schemes }⟩]
  strict := false

/-- A field that is a text. -/
def textField {σ : Type} (name : String) (set : String → σ → σ) : Field σ :=
  ⟨name, fun path v => do return set (← Decoder.text "a string" path v)⟩

/-- The section `key_value_store`. -/
def storeSchema : Schema StoreSettings where
  title := "StoreConfig"
  fields :=
    [textField "receiver" fun t s => { s with receiver := t },
     textField "read_method" fun t s => { s with readMethod := t },
     textField "write_method" fun t s => { s with writeMethod := t },
     textField "key_label" fun t s => { s with keyLabel := t }]
  strict := true

/-- The section `symbols`. -/
def symbolsSchema : Schema (Option String) where
  title := "SymbolsConfig"
  fields := [⟨"catalog", fun path v => do
    let catalog ← Decoder.optionalText "path string" path v
    return fun _ => catalog⟩]
  strict := true

/-- The section `logging`. -/
def loggingSchema : Schema LogLevel where
  title := "LoggingSettings"
  fields := [⟨"level", fun path v => do
    let level ← Decoder.variant (LogLevel.all.map fun l => (l.name, l)) path v
    return fun _ => level⟩]
  strict := true

/-- A field that is a section. -/
def sectionField {σ : Type} (name : String) (s : Schema σ) (initial : σ)
    (set : σ → Config → Config) : Field Config :=
  ⟨name, fun path v => do return set (← s.decoder initial path v)⟩

/-- The whole configuration. -/
def schema : Schema Config where
  title := "EngineConfig"
  fields :=
    [sectionField "url" urlSchema default fun u c => { c with url := u },
     sectionField "key_value_store" storeSchema default fun s c => { c with store := s },
     sectionField "symbols" symbolsSchema none fun f c => { c with catalog := f },
     sectionField "logging" loggingSchema default fun l c => { c with level := l }]
  strict := true

/-! ## Errors -/

/-- Why a text is no usable configuration. -/
inductive Defect where
  | undecodable (cause : DecodeError)
  | severalDocuments
  /-- A field of the store is not made of identifiers. -/
  | notIdentifiers (field whole : String)
  /-- The receiver of the store has no segments. -/
  | emptyReceiver
deriving DecidableEq, Repr

/-- The text for the user. -/
def Defect.text : Defect → String
  | undecodable cause => cause.text
  | severalDocuments =>
      "deserializing from YAML containing more than one document is not supported"
  | notIdentifiers field whole =>
      "key_value_store." ++ field ++ ": '" ++ whole ++ "' is not a valid identifier path"
  | emptyReceiver => "key_value_store.receiver: the path is empty"

/-! ## Reading -/

/-- The configuration of a document. What is wrong inside the document comes before what is wrong
behind it. -/
def ofDocument (d : Yaml.Document) : Except Defect Config :=
  let decoded : Except DecodeError Config := match d.root with
    | none => .ok default
    | some root => schema.decoder default [] root
  match decoded, d.problem? with
  | .error e, _ => .error (.undecodable e)
  | .ok _, some problem => .error (.undecodable (.malformed problem))
  | .ok config, none => if d.more then .error .severalDocuments else .ok config

/-- Reads a configuration. A text of white space is one in which everything is left out. -/
def parse (text : String) : Except Defect Config :=
  if (Text.trim text.toList).isEmpty then .ok default else ofDocument (.ofText text)

/-- Where the symbol catalog is. -/
def catalogPath (c : Config) : Option String :=
  c.catalog.map fun catalog =>
    match c.directory with
    | some directory => PathText.join directory catalog
    | none => catalog

/-! ## The store -/

/-- Whether a text is an identifier: ASCII letters, digits and underscores, with no digit first. -/
def isIdentifier (s : List Char) : Bool :=
  match s with
  | [] => false
  | c :: cs => (c.isAlpha || c == '_') && cs.all fun d => d.isAlphanum || d == '_'

end Config

namespace StoreSettings

/-- The segments of the receiver. -/
def segments (s : StoreSettings) : List String :=
  (Text.splitOn '.' s.receiver.toList).map String.ofList

/-- The fields in the order in which they are checked, and the identifiers that each must hold. -/
def identifiers (s : StoreSettings) : List (String × String × List String) :=
  [("receiver", s.receiver, s.segments), ("read_method", s.readMethod, [s.readMethod]),
    ("write_method", s.writeMethod, [s.writeMethod]), ("key_label", s.keyLabel, [s.keyLabel])]

/-- The store that is described. Every part of it must be an identifier. -/
def toStore (s : StoreSettings) : Except Config.Defect Store :=
  match s.identifiers.find? fun (_, _, ids) => !ids.all fun i => Config.isIdentifier i.toList with
  | some (field, whole, _) => .error (.notIdentifiers field whole)
  | none =>
      match Store.ofPath? s.segments s.readMethod s.writeMethod s.keyLabel with
      | some store => .ok store
      -- A text that is split has at least one segment, so this is never reached.
      | none => .error .emptyReceiver

end StoreSettings

/-! ## Setting up -/

/-- Why a run cannot start. -/
inductive SetupError where
  | unreadable (path : String) (problem : FileProblem)
  | config (defect : Config.Defect)
  /-- A defect of a configuration that was read from a file. -/
  | configFile (path : String) (defect : Config.Defect)
deriving DecidableEq, Repr

namespace SetupError

/-- The text for the user. -/
def message : SetupError → String
  | unreadable path _ => "Cannot read '" ++ path ++ "'"
  | config defect => "Configuration error: " ++ defect.text
  | configFile path defect => "Configuration error: " ++ path ++ ": " ++ defect.text

/-- The stable code of the kind of error. -/
def code : SetupError → String
  | unreadable _ _ => "sigil::io"
  | config _ | configFile _ _ => "sigil::config"

def help? : SetupError → Option String
  | configFile _ _ => some "every section and field is optional; see `sigil --help`"
  | _ => none

end SetupError

namespace Config

variable {m : Type → Type} [Monad m]

/-- Reads a file. -/
def readFile (files : FileSystem m) (path : String) : m (Except SetupError String) := do
  return (← files.read path).mapError (.unreadable path)

/-- Reads a configuration from a file. Its paths start from the directory of that file. -/
def load (files : FileSystem m) (path : String) : m (Except SetupError Config) := do
  match ← readFile files path with
  | .error e => return .error e
  | .ok text =>
      match parse text with
      | .error defect => return .error (.configFile path defect)
      | .ok config => return .ok { config with directory := PathText.parent? path }

/-- What macros rely on: the store is checked first, then the catalog is read. -/
def services (files : FileSystem m) (c : Config) : m (Except SetupError Services) := do
  match c.store.toStore with
  | .error defect => return .error (.config defect)
  | .ok store =>
      match c.catalogPath with
      | none => return .ok ⟨c.url, store, none⟩
      | some path =>
          match ← readFile files path with
          | .error e => return .error e
          | .ok text => return .ok ⟨c.url, store, some (SymbolSet.parse text).catalog⟩

end Config
end SwiftMacro
