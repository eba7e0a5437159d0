import SwiftMacro.Command.Arguments
import SwiftMacro.Config
import SwiftMacro.Node.Json
import SwiftMacro.Reader
import SwiftMacro.Report
/-!
# Running a command

A run first gathers what it needs from files; what it writes and its exit code are functions of that.
The code is 0 when every site was expanded, 1 when a site was rejected or a file could not be read,
and 2 when the run could not go on.
-/

namespace SwiftMacro.Command

/-- What a run writes, and its exit code. -/
structure Output where
  code : Nat
  text : String
deriving DecidableEq, Repr

/-- A source file: its path, and its text if it can be read. -/
structure SourceFile where
  path : String
  content : Except FileProblem String

/-! ## One file -/

/-- What becomes of a source file. -/
inductive FileOutcome where
  /-- It could not be read as a text or not be parsed. -/
  | unreadable
  /-- A site in it ends the run. -/
  | fatal (error : ExpansionError)
  | expanded (outcomes : List SiteOutcome)

/-- Expands the sites of a source file. -/
def SourceFile.outcome (services : Services) (parallel : Bool) (f : SourceFile) : FileOutcome :=
  match f.content with
  | .error _ => .unreadable
  | .ok text =>
      match readSource text with
      | .error _ => .unreadable
      | .ok items =>
          let sites := Registry.standard.sites ⟨f.path, text⟩ items
          let expand := if parallel then expandAllParallel else expandAll
          match expand .standard services sites with
          | .error e => .fatal e
          | .ok outcomes => .expanded outcomes

/-! ## All files -/

/-- How far a run has come: the files whose sites were expanded, the totals, and whether a site has
ended the run. -/
structure Progress where
  files : List (String × List SiteOutcome)
  summary : Summary
  ended : Bool

namespace Progress

/-- Goes through source files until one ends the run. -/
def through (services : Services) (parallel : Bool) (summary : Summary) :
    List SourceFile → Progress
  | [] => ⟨[], summary, false⟩
  | f :: fs =>
      match f.outcome services parallel with
      | .unreadable => through services parallel summary.recordUnreadable fs
      | .fatal _ => ⟨[], summary, true⟩
      | .expanded outcomes =>
          let rest := through services parallel (summary.record outcomes) fs
          { rest with files := (f.path, outcomes) :: rest.files }

/-- All outcomes in order. -/
def outcomes (p : Progress) : List SiteOutcome := p.files.flatMap (·.2)

/-- The exit code. -/
def code (p : Progress) : Nat := if p.ended then 2 else if p.summary.isClean then 0 else 1

/-- The totals, unless the run was ended. -/
def total (p : Progress) (palette : Palette) : String :=
  if p.ended then "" else p.summary.text palette

/-- What `expand` writes. -/
def expansions (p : Progress) (palette : Palette) : Output :=
  ⟨p.code, String.join (p.outcomes.map (·.text palette)) ++ p.total palette⟩

/-- What `expand --json` writes. -/
def json (p : Progress) : Output :=
  let reports := Json.arr (p.files.map fun (path, outcomes) => fileReport path outcomes)
  ⟨p.code, if p.ended then "" else reports.sorted.pretty ++ "\n"⟩

/-- What `check` writes. -/
def diagnostics (p : Progress) (palette : Palette) : Output :=
  let lines := (p.outcomes.flatMap (·.diagnostics)).map (·.line palette)
  ⟨p.code, String.join lines ++ p.total palette⟩

end Progress

/-! ## Commands -/

/-- What a run has gathered. -/
structure Workspace where
  config : Except SetupError Config
  services : Except SetupError Services
  files : List SourceFile

/-- A run that could not go on. -/
def failed : Output := ⟨2, ""⟩

/-- The syntax tree of a file. -/
def tree (f : SourceFile) : Output :=
  match f.content with
  | .error _ => failed
  | .ok text =>
      match readSource text with
      | .error _ => failed
      | .ok items =>
          ⟨0, (Json.obj [("items", .arr (items.map Node.toJson))]).pretty ++ "\n"⟩

/-- Whether output is coloured. It never goes to a terminal that could be asked. -/
def palette (mode : ColorMode) : Palette := ⟨mode = .always⟩

/-- Carries out a command with what has been gathered for it. -/
def perform (a : Arguments) (w : Workspace) : Output :=
  let palette := palette a.color
  let expanded (write : Progress → Output) : Output :=
    match w.services with
    | .error _ => failed
    | .ok services => write (Progress.through services a.parallel default w.files)
  match w.config with
  | .error _ => failed
  | .ok _ =>
      match a.task with
      | .expand _ json => expanded fun p => if json then p.json else p.expansions palette
      | .check _ => expanded fun p => p.diagnostics palette
      | .ast _ =>
          match w.files with
          | [] => failed
          | f :: _ => tree f
      | .listMacros => ⟨0, Registry.standard.listing palette⟩

/-! ## Gathering -/

variable {m : Type → Type} [Monad m]

/-- Whether a file in a directory is a source file: something, and then `.swift`. -/
def isSourceName (name : String) : Bool :=
  ".swift".toList.isSuffixOf name.toList && name != ".swift"

/-- The source files that a path stands for: itself, or those below it if it is a directory. -/
def sourcePaths (files : FileSystem m) (path : String) : m (List String) := do
  match ← files.filesBelow? path with
  | none => return [path]
  | some ways =>
      return (ways.filter fun way => way.getLast?.any isSourceName).map fun way =>
        way.foldl PathText.join path

/-- Reads source files. -/
def readSources (files : FileSystem m) (paths : List String) : m (List SourceFile) :=
  paths.mapM fun path => do return ⟨path, ← files.read path⟩

/-- The configuration of a run. A catalog among the arguments replaces the one of the
configuration. -/
def loadConfig (files : FileSystem m) (a : Arguments) : m (Except SetupError Config) := do
  let loaded ← match a.config with
    | some path => Config.load files path
    | none => pure (.ok default)
  match loaded, a.symbols with
  | .ok config, some catalog => return .ok { config with catalog := some catalog, directory := none }
  | result, _ => return result

/-- Gathers what a command needs. -/
def gather (files : FileSystem m) (a : Arguments) : m Workspace := do
  let config ← loadConfig files a
  let services ← match config with
    | .error e => pure (.error e)
    | .ok config => Config.services files config
  let sources ← match a.task with
    | .expand paths _ | .check paths => do
        readSources files (← paths.mapM (sourcePaths files)).flatten
    | .ast file => readSources files [file]
    | .listMacros => pure []
  return ⟨config, services, sources⟩

/-- What the program says about itself. -/
def versionText : String := "sigil 0.1.0\n"

/-- Carries out what arguments ask for. -/
def run (files : FileSystem m) (a : Arguments) : m Output := do
  return perform a (← gather files a)

end SwiftMacro.Command
