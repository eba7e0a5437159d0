import SwiftMacro.Text.Blank
/-!
# Files

What the program needs of a file system: the text of a file, and the files below a directory. A file
table is a file system that is given as a value.
-/

namespace SwiftMacro

/-- Why a path cannot be read as a text. -/
inductive FileProblem where
  | missing
  | directory
  /-- A part of the path that should be a directory is none. -/
  | notDirectory
  /-- The bytes are no UTF-8. -/
  | notText
deriving DecidableEq, Repr

/-- Access to files. -/
structure FileSystem (m : Type → Type) where
  /-- The text of a file. -/
  read : String → m (Except FileProblem String)
  /-- The names on the way from a directory to each file below it, in the order of the walk; nothing
  if the path is no directory. -/
  filesBelow? : String → m (Option (List (List String)))

/-! ## Paths as texts -/

namespace PathText

/-- The parts of a path between its slashes. -/
def parts (path : String) : List String := (Text.splitOn '/' path.toList).map String.ofList

def isAbsolute (path : String) : Bool := path.toList.head? == some '/'

/-- Puts parts together again. -/
def ofParts : List String → String
  | [] => ""
  | [part] => part
  | part :: rest => part ++ "/" ++ ofParts rest

/-- A path below a directory; an absolute path stays as it is. -/
def join (base path : String) : String :=
  if isAbsolute path || base.isEmpty then path
  else if base.toList.getLast? == some '/' then base ++ path
  else base ++ "/" ++ path

/-- The directory that a path is in: the path without its last part. Empty parts and dots at the end
do not count as parts; a dot at the start does. -/
def parent? (path : String) : Option String :=
  let absolute := isAbsolute path
  let counts (part : String) (isFirst : Bool) : Bool :=
    !part.isEmpty && (part != "." || (isFirst && !absolute))
  let rec trim : List String → List String
    | [] => []
    | part :: before => if counts part before.isEmpty then part :: before else trim before
  match trim (parts path).reverse with
  | [] => none
  | _ :: before =>
      let directory := ofParts (trim before).reverse
      some (if absolute && directory.isEmpty then "/" else directory)

end PathText

/-! ## File tables -/

/-- What stands at a path. -/
inductive FileEntry where
  | file (content : ByteArray)
  | directory

/-- Files and directories by the names on the way to them; the first entry for a path counts. The
empty way leads to the current directory. -/
structure FileTable where
  entries : List (List String × FileEntry)

namespace FileTable

/-- What stands at the end of a way. -/
def entry? (t : FileTable) (way : List String) : Option FileEntry :=
  if way.isEmpty then some .directory else (t.entries.find? (·.1 == way)).map (·.2)

/-- Follows the parts of a path from a way on. Every part needs a directory to start from. -/
def follow (t : FileTable) (way : List String) : List String → Except FileProblem (List String)
  | [] => .ok way
  | part :: rest =>
      match t.entry? way with
      | none => .error .missing
      | some (.file _) => .error .notDirectory
      | some .directory =>
          if part.isEmpty || part == "." then t.follow way rest
          else if part == ".." then
            if way.isEmpty then .error .missing else t.follow way.dropLast rest
          else t.follow (way ++ [part]) rest

/-- What a path leads to. Only paths from the current directory lead anywhere. -/
def lookup (t : FileTable) (path : String) : Except FileProblem (List String × FileEntry) := do
  if path.isEmpty || PathText.isAbsolute path then throw .missing
  let way ← t.follow [] (PathText.parts path)
  match t.entry? way with
  | none => throw .missing
  | some entry => return (way, entry)

/-- The text of a file. -/
def read (t : FileTable) (path : String) : Except FileProblem String := do
  match ← t.lookup path with
  | (_, .directory) => throw .directory
  | (_, .file content) =>
      match String.fromUTF8? content with
      | some text => return text
      | none => throw .notText

/-- Whether one name comes before another in a directory: names are compared by their bytes. -/
def nameBefore : List UInt8 → List UInt8 → Bool
  | [], _ => true
  | _ :: _, [] => false
  | a :: as, b :: bs => a < b || (a == b && nameBefore as bs)

/-- Whether one way comes before another in a walk. -/
def wayBefore : List String → List String → Bool
  | [], _ => true
  | _ :: _, [] => false
  | a :: as, b :: bs =>
      if a == b then wayBefore as bs else nameBefore a.toUTF8.toList b.toUTF8.toList

/-- The rest of a way behind its start. -/
def after? : List String → List String → Option (List String)
  | [], way => some way
  | _ :: _, [] => none
  | a :: as, b :: bs => if a == b then after? as bs else none

/-- The files below a directory, each directory's entries in the order of their names. -/
def filesBelow? (t : FileTable) (path : String) : Option (List (List String)) :=
  match t.lookup path with
  | .ok (way, .directory) =>
      let below := t.entries.filterMap fun (other, entry) =>
        match entry with
        | .file _ => after? way other
        | .directory => none
      some (below.eraseDups.mergeSort wayBefore)
  | _ => none

/-- A file table as a file system. -/
def system (t : FileTable) : FileSystem Id := ⟨t.read, t.filesBelow?⟩

/-- Adds a file or a directory at a path, with the directories on the way to it. -/
def add (t : FileTable) (path : String) (entry : FileEntry) : FileTable :=
  let step (state : FileTable × List String) (part : String) : FileTable × List String :=
    let (t, way) := state
    let t := match t.entry? way with
      | some _ => t
      | none => ⟨t.entries ++ [(way, .directory)]⟩
    if part.isEmpty || part == "." then (t, way)
    else if part == ".." then (t, way.dropLast)
    else (t, way ++ [part])
  let (t, way) := (PathText.parts path).foldl step (t, [])
  ⟨t.entries.filter (·.1 != way) ++ [(way, entry)]⟩

end FileTable
end SwiftMacro
