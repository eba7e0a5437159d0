/-!
# Arguments of the command line

    sigil [options] expand [--json] PATH...
    sigil [options] check PATH...
    sigil [options] ast FILE
    sigil [options] list-macros

The options `--config FILE`, `--symbols FILE`, `--parallel`, `--verbose` and `--color WHEN` stand
before or behind the command; behind it they win. Each level takes an option once. A value is looked
at only when the next argument shows that it is complete, or its level ends; the level of the command
ends first.
-/

namespace SwiftMacro.Command

/-- When output is coloured. -/
inductive ColorMode where
  | auto | always | never
deriving DecidableEq, Repr

/-- The names of the modes. -/
def ColorMode.ofName? : String → Option ColorMode
  | "auto" => some .auto
  | "always" => some .always
  | "never" => some .never
  | _ => none

/-- What is wrong with the arguments. -/
inductive UsageError where
  | noArguments
  | unknownCommand
  | missingCommand
  | missingArgument
  | unknownArgument
  | invalidValue
  | givenTwice
  | valueForFlag
deriving DecidableEq, Repr

/-- Why arguments lead to no command. -/
inductive Stop where
  | help
  | version
  | wrong (error : UsageError)
deriving DecidableEq, Repr

/-- The names of the commands. -/
inductive Verb where
  | expand | check | ast | listMacros
deriving DecidableEq, Repr

namespace Verb

def ofName? : String → Option Verb
  | "expand" => some expand
  | "check" => some check
  | "ast" => some ast
  | "list-macros" => some listMacros
  | _ => none

/-- How many paths a command takes, at most; `none` if there is no limit. -/
def pathLimit : Verb → Option Nat
  | expand | check => none
  | ast => some 1
  | listMacros => some 0

end Verb

/-- An option with a value. -/
inductive Setting where
  | config | symbols | color
deriving DecidableEq, Repr

/-- An option without a value. -/
inductive Flag where
  | parallel | verbose | json | version | help
deriving DecidableEq, Repr

/-- Everything that can stand behind dashes. -/
inductive Switch where
  | setting (setting : Setting)
  | flag (flag : Flag)
deriving DecidableEq, Repr

namespace Switch

/-- The switches with a long name, in front of a command (`none`) or behind it. -/
def ofLong? (level : Option Verb) : String → Option Switch
  | "config" => some (.setting .config)
  | "symbols" => some (.setting .symbols)
  | "color" => some (.setting .color)
  | "parallel" => some (.flag .parallel)
  | "verbose" => some (.flag .verbose)
  | "help" => some (.flag .help)
  | "version" => if level.isNone then some (.flag .version) else none
  | "json" => if level = some .expand then some (.flag .json) else none
  | _ => none

/-- The switches with a short name. -/
def ofShort? (level : Option Verb) : Char → Option Flag
  | 'v' => some .verbose
  | 'h' => some .help
  | 'V' => if level.isNone then some .version else none
  | _ => none

end Switch

/-- What has been given but not looked at yet. -/
inductive Pending where
  | setting (setting : Setting) (value : Option String)
  | paths (values : List String)
deriving DecidableEq, Repr

/-- What has been given at one level. -/
structure Given where
  config : Option String
  symbols : Option String
  color : Option ColorMode
  flags : List Flag
  paths : List String
  pending : Option Pending
deriving DecidableEq, Repr

namespace Given

/-- Nothing. -/
def nothing : Given := ⟨none, none, none, [], [], none⟩

/-- Whether an option still waits for its value. -/
def isWaiting (g : Given) : Bool :=
  match g.pending with
  | some (.setting _ none) => true
  | _ => false

/-- Whether an option has been given. -/
def has (g : Given) : Setting → Bool
  | .config => g.config.isSome
  | .symbols => g.symbols.isSome
  | .color => g.color.isSome

/-- Whether nothing has been given. -/
def isNothing (g : Given) : Bool :=
  g.config.isNone && g.symbols.isNone && g.color.isNone && g.flags.isEmpty && g.paths.isEmpty

/-- Takes the value of an option. No path may be empty. -/
def set (g : Given) (s : Setting) (value : String) : Except Stop Given :=
  if g.has s then .error (.wrong .givenTwice)
  else
    match s with
    | .color =>
        match ColorMode.ofName? value with
        | some mode => .ok { g with color := some mode }
        | none => .error (.wrong .invalidValue)
    | .config =>
        if value.isEmpty then .error (.wrong .invalidValue)
        else .ok { g with config := some value }
    | .symbols =>
        if value.isEmpty then .error (.wrong .invalidValue)
        else .ok { g with symbols := some value }

/-- Looks at what is pending. -/
def settle (g : Given) : Except Stop Given :=
  let rest := { g with pending := none }
  match g.pending with
  | none => .ok rest
  | some (.setting _ none) => .error (.wrong .invalidValue)
  | some (.setting s (some value)) => rest.set s value
  | some (.paths values) =>
      if values.any String.isEmpty then .error (.wrong .invalidValue)
      else .ok { rest with paths := g.paths ++ values }

/-- Takes a flag. -/
def raise (g : Given) (f : Flag) : Except Stop Given := do
  let g ← g.settle
  match f with
  | .help => throw .help
  | .version => throw .version
  | _ =>
      if g.flags.contains f then throw (.wrong .givenTwice)
      return { g with flags := f :: g.flags }

/-- Takes the flags of an argument with one dash. -/
def raiseShort (level : Option Verb) (g : Given) : List Char → Except Stop Given
  | [] => .ok g
  | c :: cs =>
      match Switch.ofShort? level c with
      | none => .error (.wrong .unknownArgument)
      | some f => do (← g.raise f).raiseShort level cs

/-- Takes an argument with two dashes: a name, and perhaps a value behind an equals sign. -/
def takeLong (level : Option Verb) (g : Given) (text : List Char) : Except Stop Given :=
  let name := text.takeWhile (· != '=')
  let value? := if name.length < text.length then
      some (String.ofList (text.drop (name.length + 1))) else none
  match Switch.ofLong? level (String.ofList name), value? with
  | none, _ => .error (.wrong .unknownArgument)
  | some (.setting s), some value => do (← g.settle).set s value
  | some (.setting s), none => do return { ← g.settle with pending := some (.setting s none) }
  | some (.flag _), some _ => .error (.wrong .valueForFlag)
  | some (.flag f), none => g.raise f

/-- The number of paths so far. -/
def pathCount (g : Given) : Nat :=
  g.paths.length + match g.pending with
    | some (.paths values) => values.length
    | _ => 0

/-- Takes a path. -/
def takePath (verb : Verb) (g : Given) (path : String) : Except Stop Given :=
  if verb.pathLimit.any (· ≤ g.pathCount) then .error (.wrong .unknownArgument)
  else
    match g.pending with
    | some (.paths values) => .ok { g with pending := some (.paths (values ++ [path])) }
    | _ => do return { ← g.settle with pending := some (.paths [path]) }

/-- The argument that completes a pending option. -/
def complete (g : Given) (value : String) : Given :=
  match g.pending with
  | some (.setting s none) => { g with pending := some (.setting s (some value)) }
  | _ => g

end Given

/-- How an argument looks. -/
inductive Look where
  | dashes
  | long (text : List Char)
  | short (flags : List Char)
  | word
deriving DecidableEq, Repr

def Look.of (arg : String) : Look :=
  match arg.toList with
  | ['-', '-'] => dashes
  | '-' :: '-' :: text => long text
  | '-' :: c :: cs => short (c :: cs)
  | _ => word

/-- Reads the arguments behind a command. Behind `--`, every argument is a path. -/
def readVerb (verb : Verb) (onlyPaths : Bool) (g : Given) : List String → Except Stop Given
  | [] => do
      let g ← g.settle
      if g.paths.isEmpty && verb.pathLimit != some 0 then throw (.wrong .missingArgument)
      return g
  | arg :: rest =>
      if onlyPaths then do readVerb verb true (← g.takePath verb arg) rest
      else
        match Look.of arg with
        | .dashes => readVerb verb true g rest
        | .long text => do readVerb verb false (← g.takeLong (some verb) text) rest
        | .short flags => do readVerb verb false (← g.raiseShort (some verb) flags) rest
        | .word =>
            if g.isWaiting then readVerb verb false (g.complete arg) rest
            else do readVerb verb false (← g.takePath verb arg) rest

/-- What was asked for at both levels. -/
structure Request where
  front : Given
  verb : Verb
  behind : Given
deriving DecidableEq, Repr

/-- Help on commands: `help`, or `help` and the name of one command. -/
def readHelp : List String → Stop
  | [] => .help
  | [name] =>
      if name = "help" || (Verb.ofName? name).isSome then .help else .wrong .unknownCommand
  | _ => .wrong .unknownCommand

/-- Whether a word is the name of a command, or asks for help. -/
def isCommandWord (arg : String) : Bool := arg = "help" || (Verb.ofName? arg).isSome

/-- Reads the arguments from the start. There are no paths in front of a command. -/
def readFront (g : Given) : List String → Except Stop Request
  | [] => do
      let g ← g.settle
      throw (.wrong (if g.isNothing then .noArguments else .missingCommand))
  | arg :: rest =>
      if g.isWaiting then
        match Look.of arg with
        | .long text => do readFront (← g.takeLong none text) rest
        | .short flags => do readFront (← g.raiseShort none flags) rest
        | .dashes => onlyWords g rest
        | .word => readFront (g.complete arg) rest
      else if arg = "help" then .error (readHelp rest)
      else
        match Verb.ofName? arg with
        | some verb => do
            let behind ← readVerb verb false .nothing rest
            return ⟨← g.settle, verb, behind⟩
        | none =>
            match Look.of arg with
            | .long text => do readFront (← g.takeLong none text) rest
            | .short flags => do readFront (← g.raiseShort none flags) rest
            | .dashes => onlyWords g rest
            | .word => .error (.wrong .unknownCommand)
where
  /-- Behind `--` no command can follow. -/
  onlyWords (g : Given) : List String → Except Stop Request
    | [] => do
        let g ← g.settle
        throw (.wrong (if g.isNothing then .noArguments else .missingCommand))
    | arg :: _ =>
        .error (.wrong (if isCommandWord arg then .unknownArgument else .unknownCommand))

/-- A command with what it works on. -/
inductive Task where
  | expand (paths : List String) (json : Bool)
  | check (paths : List String)
  | ast (file : String)
  | listMacros
deriving DecidableEq, Repr

/-- The arguments of a run. -/
structure Arguments where
  config : Option String
  symbols : Option String
  parallel : Bool
  verbose : Bool
  color : ColorMode
  task : Task
deriving DecidableEq, Repr

namespace Request

def task (r : Request) : Task :=
  match r.verb with
  | .expand => .expand r.behind.paths (r.behind.flags.contains .json)
  | .check => .check r.behind.paths
  | .ast => .ast (r.behind.paths.headD "")
  | .listMacros => .listMacros

/-- Puts both levels together. -/
def arguments (r : Request) : Arguments where
  config := r.behind.config <|> r.front.config
  symbols := r.behind.symbols <|> r.front.symbols
  parallel := r.front.flags.contains .parallel || r.behind.flags.contains .parallel
  verbose := r.front.flags.contains .verbose || r.behind.flags.contains .verbose
  color := (r.behind.color <|> r.front.color).getD .auto
  task := r.task

end Request

/-- Reads the arguments of the command line. -/
def Arguments.read (args : List String) : Except Stop Arguments := do
  return (← readFront .nothing args).arguments

end SwiftMacro.Command
