import ClassAtlas.Command.Report

/-!
# Command lines

A command line has options for all commands, the name of a command, and the options and operands of
that command. Options for all commands may also stand behind the name of the command, and count more
there.

## Main definitions

* `ClassAtlas.UsageError` — why a command line is refused, or what it asks for instead of a command.
* `ClassAtlas.Invocation`, `ClassAtlas.CommandLine` — what a command line says.
* `ClassAtlas.Grammar`, `ClassAtlas.Parsed` — the options and operands of one level, as allowed and
  as found.
* `ClassAtlas.CommandLine.parse` — the reader.

## Design

An option with a value is recorded when the next argument has been looked at, so a wrong value is
reported only if nothing is wrong with that argument. A level of the command line is complete when
all of its arguments are read; the level of the command is completed before the one around it.
-/

set_option autoImplicit false

namespace ClassAtlas

/-- Why a command line is refused, or what it asks for instead of a command. -/
inductive UsageError where
  /-- There is no argument at all. -/
  | noArguments
  /-- There are options and no command. -/
  | noCommand
  /-- There is no such command. -/
  | unknownCommand
  /-- An operand is missing. -/
  | missingOperand
  /-- There is no such option, or no place for the operand. -/
  | unknownArgument
  /-- An option has no value, or one that it cannot have. -/
  | badValue
  /-- An option is given twice. -/
  | repeatedOption
  /-- An option without a value is given one. -/
  | unwantedValue
  /-- Help is asked for. -/
  | help
  /-- The version is asked for. -/
  | version
  deriving DecidableEq, Repr

/-- A command with its operands and options. -/
inductive Invocation where
  /-- Imports files and directories, and maps them unless told not to. -/
  | importPaths (paths : List String) (noMap : Bool)
  /-- Maps every file. -/
  | map
  /-- Lists symbols. -/
  | symbols (kind file : Option String) (declaredOnly : Bool)
  /-- Lists the uses of a symbol. -/
  | references (identity : String)
  /-- Renames a symbol. -/
  | rename (identity newName : String)
  /-- Writes the files to a directory. -/
  | exportTo (destination : String)
  /-- Counts what is in the workspace. -/
  | summary
  deriving DecidableEq, Repr

/-- What a command line says. -/
structure CommandLine where
  /-- The directory of the workspace. -/
  workspace : String
  /-- The file with the settings, if it is named. -/
  config : Option String
  /-- The form of the output. -/
  format : OutputFormat
  /-- How much is logged, if it is said. -/
  logLevel : Option String
  /-- The command. -/
  command : Invocation
  deriving DecidableEq, Repr

/-! ### One level -/

/-- What may stand on one level of a command line. -/
structure Grammar where
  /-- The options without a value. -/
  flags : List String
  /-- The options with a value. -/
  options : List String
  /-- How many operands have to be there. -/
  leastOperands : Nat
  /-- How many operands may be there; nothing if there is no limit. -/
  mostOperands : Option Nat
  /-- The commands that may follow; only the outer level has some. -/
  commands : List String
  deriving DecidableEq, Repr

/-- What stands on one level of a command line. -/
structure Parsed where
  /-- The options without a value. -/
  flags : List String
  /-- The options with their values. -/
  options : List (String × String)
  /-- The operands. -/
  operands : List String
  /-- The latest option, with its value once that is read, which is not recorded yet. -/
  pending : Option (String × Option String)
  deriving DecidableEq, Repr

namespace Parsed

/-- Nothing. -/
def empty : Parsed := ⟨[], [], [], none⟩

/-- Records an option: it needs a value that it can have, and is given once. -/
def record (p : Parsed) (name value : String) : Except UsageError Parsed :=
  if p.options.any (·.1 == name) then .error .repeatedOption
  else if name = "format" ∧ (OutputFormat.ofWord? value).isNone then .error .badValue
  else .ok { p with options := p.options ++ [(name, value)], pending := none }

/-- Records the pending option. -/
def settle (p : Parsed) : Except UsageError Parsed :=
  match p.pending with
  | none => .ok p
  | some (_, none) => .error .badValue
  | some (name, some value) => p.record name value

/-- Whether the latest option waits for its value. -/
def isWaiting (p : Parsed) : Bool :=
  p.pending.any (·.2.isNone)

/-- Sets an option without a value. -/
def setFlag (p : Parsed) (name : String) : Except UsageError Parsed := do
  let p ← p.settle
  if p.flags.contains name then throw .repeatedOption
  return { p with flags := p.flags ++ [name] }

/-- Takes an operand, if there is place for it. -/
def takeOperand (g : Grammar) (p : Parsed) (text : String) : Except UsageError Parsed :=
  if g.mostOperands.all (p.operands.length < ·) then do
    let p ← p.settle
    return { p with operands := p.operands ++ [text] }
  else if g.commands.isEmpty then .error .unknownArgument
  else .error .unknownCommand

/-- Takes an option with two dashes, and the value behind its equals sign if there is one. -/
def takeOption (g : Grammar) (p : Parsed) (name : String) (value : Option String) :
    Except UsageError Parsed :=
  let isHelp := name == "help"
  let isVersion := name == "version" && !g.commands.isEmpty
  if g.options.contains name then do
    let p ← p.settle
    match value with
    | some value => p.record name value
    | none => return { p with pending := some (name, none) }
  else if g.flags.contains name || isHelp || isVersion then
    if value.isSome then .error .unwantedValue
    else if isHelp then do let _ ← p.settle; throw .help
    else if isVersion then do let _ ← p.settle; throw .version
    else p.setFlag name
  else .error .unknownArgument

/-- Takes an option with one dash: these only ask for help or for the version. -/
def takeShort (g : Grammar) (p : Parsed) : Char → Except UsageError Parsed
  | 'h' => do let _ ← p.settle; throw .help
  | 'V' =>
    if g.commands.isEmpty then .error .unknownArgument
    else do let _ ← p.settle; throw .version
  | _ => .error .unknownArgument

/-- The name of an option and its value, from the text behind the two dashes. -/
def splitOption (cs : List Char) : String × Option String :=
  (String.ofList (cs.takeWhile (· != '=')),
    match cs.dropWhile (· != '=') with
    | [] => none
    | _ :: value => some (String.ofList value))

/-- Takes an argument that does not stand behind two lone dashes. -/
def take (g : Grammar) (p : Parsed) (argument : String) : Except UsageError Parsed :=
  match argument.toList with
  | '-' :: '-' :: c :: cs =>
    let (name, value) := splitOption (c :: cs)
    p.takeOption g name value
  | '-' :: c :: _ => p.takeShort g c
  | _ =>
    match p.pending with
    | some (name, none) => .ok { p with pending := some (name, some argument) }
    | _ => p.takeOperand g argument

/-- Takes an argument that stands behind two lone dashes. The name of a command is out of place
there. -/
def takeTrailing (g : Grammar) (p : Parsed) (argument : String) : Except UsageError Parsed :=
  if g.commands.contains argument then .error .unknownArgument
  else p.takeOperand g argument

/-- Completes a level. -/
def finish (g : Grammar) (p : Parsed) : Except UsageError Parsed := do
  let p ← p.settle
  if p.operands.length < g.leastOperands then throw .missingOperand
  return p

/-- Takes the arguments behind two lone dashes. -/
def takeAllTrailing (g : Grammar) (p : Parsed) : List String → Except UsageError Parsed
  | [] => .ok p
  | argument :: rest => do takeAllTrailing g (← p.takeTrailing g argument) rest

/-- Takes arguments up to the name of a command, and returns the name with the arguments behind
it. -/
def takeAll (g : Grammar) (p : Parsed) :
    List String → Except UsageError (Parsed × Option (String × List String))
  | [] => .ok (p, none)
  | "--" :: rest => do return (← p.takeAllTrailing g rest, none)
  | argument :: rest =>
    if !p.isWaiting && g.commands.contains argument then .ok (p, some (argument, rest))
    else do takeAll g (← p.take g argument) rest

end Parsed

/-! ### The whole command line -/

namespace CommandLine

/-- The options for all commands. -/
def commonOptions : List String := ["workspace", "config", "format", "log-level"]

/-- What may stand behind the name of a command. -/
def grammarOf? : String → Option Grammar
  | "import" => some ⟨["no-map"], commonOptions, 1, none, []⟩
  | "map" | "summary" => some ⟨[], commonOptions, 0, some 0, []⟩
  | "symbols" => some ⟨["declared"], ["kind", "file"] ++ commonOptions, 0, some 0, []⟩
  | "references" | "export" => some ⟨[], commonOptions, 1, some 1, []⟩
  | "rename" => some ⟨[], commonOptions, 2, some 2, []⟩
  | _ => none

/-- The names of the commands, with that of the help. -/
def commandNames : List String :=
  ["import", "map", "symbols", "references", "rename", "export", "summary", "help"]

/-- What may stand before the name of a command. -/
def outerGrammar : Grammar := ⟨[], commonOptions, 0, some 0, commandNames⟩

/-- What help is asked for: about everything or about one command. -/
def helpOn : List String → UsageError
  | [] => .help
  | [name] => if commandNames.contains name then .help else .unknownCommand
  | _ => .unknownCommand

/-- The command with a name, and what stands behind it. -/
def invocation (name : String) (p : Parsed) : Invocation :=
  match name, p.operands with
  | "import", paths => .importPaths paths (p.flags.contains "no-map")
  | "symbols", _ =>
    .symbols (p.options.lookup "kind") (p.options.lookup "file") (p.flags.contains "declared")
  | "references", [identity] => .references identity
  | "rename", [identity, newName] => .rename identity newName
  | "export", [destination] => .exportTo destination
  | "map", _ => .map
  | _, _ => .summary

/-- What is said by the outer level and the level of the command with a name. -/
def assemble (outer : Parsed) (name : String) (inner : Parsed) : CommandLine :=
  let option (key : String) : Option String :=
    (inner.options.lookup key).or (outer.options.lookup key)
  { workspace := (option "workspace").getD "."
    config := option "config"
    format := ((option "format").bind OutputFormat.ofWord?).getD .text
    logLevel := option "log-level"
    command := invocation name inner }

/-- Completes a command line without a command. -/
def withoutCommand (outer : Parsed) : UsageError :=
  match outer.settle with
  | .error e => e
  | .ok outer => if outer.options.isEmpty then .noArguments else .noCommand

/-- What a command line says. -/
def parse (arguments : List String) : Except UsageError CommandLine := do
  match ← Parsed.empty.takeAll outerGrammar arguments with
  | (outer, none) => throw (withoutCommand outer)
  | (outer, some (name, rest)) =>
    match grammarOf? name with
    | none => throw (helpOn rest)
    | some g =>
      let (inner, _) ← Parsed.empty.takeAll g rest
      let inner ← inner.finish g
      return assemble (← outer.settle) name inner

end CommandLine

end ClassAtlas
