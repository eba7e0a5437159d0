import SwiftMacro.Command
/-!
# The program

Reads files and writes output. Everything else is decided by `SwiftMacro.Command`.
-/

namespace SwiftMacro.Command

/-- The files below a directory, each directory's entries in the order of their names. -/
partial def walk (path : String) (way : List String) : IO (List (List String)) := do
  let directory := (← IO.currentDir) / path
  let names : List String := (← directory.readDir).toList.map (·.fileName)
  let sorted := names.mergeSort fun a b => FileTable.wayBefore [a] [b]
  let below ← sorted.mapM fun (name : String) => do
    if ← (directory / name).isDir then walk (PathText.join path name) (way ++ [name])
    else return [way ++ [name]]
  return below.flatten

/-- The files of the machine, from the current directory on. -/
def machineFiles : FileSystem IO where
  read path := do
    let file := (← IO.currentDir) / path
    if path.isEmpty then return .error .missing
    try
      match String.fromUTF8? (← IO.FS.readBinFile file) with
      | some text => return .ok text
      | none => return .error .notText
    catch _ =>
      if ← file.isDir then return .error .directory
      else if ← file.pathExists then return .error .notDirectory
      else return .error .missing
  filesBelow? path := do
    if path.isEmpty || !(← ((← IO.currentDir) / path).isDir) then return none
    else return some (← walk path [])

/-- How the arguments are given. -/
def usage : String :=
  "Usage: sigil [OPTIONS] <COMMAND>\n\nCommands:\n" ++
  "  expand [--json] <PATHS>...  Expand every macro site and print the synthesized code\n" ++
  "  check <PATHS>...            Report macro diagnostics only\n" ++
  "  ast <FILE>                  Show the syntax tree for a source file as JSON\n" ++
  "  list-macros                 List all available macros with their signatures\n\n" ++
  "Options:\n  --config <FILE>  --symbols <FILE>  --parallel  -v, --verbose\n" ++
  "  --color <auto|always|never>  -h, --help  -V, --version\n"

end SwiftMacro.Command

open SwiftMacro Command in
def main (args : List String) : IO UInt32 := do
  match Arguments.read args with
  | .error .version => IO.print versionText; return 0
  | .error .help => IO.print usage; return 0
  | .error (.wrong _) => IO.eprint usage; return 2
  | .ok arguments =>
      let output ← run machineFiles arguments
      IO.print output.text
      return output.code.toUInt32
