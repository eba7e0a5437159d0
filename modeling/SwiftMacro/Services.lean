import SwiftMacro.Json
import SwiftMacro.Node.Render
import SwiftMacro.Symbols
import SwiftMacro.Url.Policy
/-!
# What macros may rely on

The store that accessors read and write, the schemes that URLs may have, and the catalog of symbol
names, if there is one.
-/

namespace SwiftMacro

/-- A key-value store as generated code reaches it: `root.members…`, the methods that read and write
a value, and the label of the key. -/
structure Store where
  root : String
  members : List String
  readMethod : String
  writeMethod : String
  keyLabel : String
deriving DecidableEq, Repr

namespace Store

instance : Inhabited Store :=
  ⟨⟨"NSUbiquitousKeyValueStore", ["default"], "object", "set", "forKey"⟩⟩

/-- The store behind a path, which must not be empty. -/
def ofPath? (path : List String) (readMethod writeMethod keyLabel : String) : Option Store :=
  match path with
  | [] => none
  | root :: members => some ⟨root, members, readMethod, writeMethod, keyLabel⟩

/-- The path with dots between its segments. -/
def path (s : Store) : String := joinWith "." (s.root :: s.members)

def toJson (s : Store) : Json :=
  .obj [("receiver_root", .str s.root), ("receiver_members", .strings s.members),
    ("read_method", .str s.readMethod), ("write_method", .str s.writeMethod),
    ("key_label", .str s.keyLabel)]

end Store

/-- What every macro may rely on. -/
structure Services where
  urlPolicy : UrlPolicy
  store : Store
  /-- Without a catalog, symbol names are not checked. -/
  symbols : Option Catalog

instance : Inhabited Services := ⟨⟨default, default, none⟩⟩

end SwiftMacro
