import Assembly8085.CommandLine.Command
import Assembly8085.Table

/-!
# Arguments of the command line

The tools that the executable works with. What a list of arguments asks for is read from left to
right. The help and the version are given as soon as they are asked for; what else is wrong with the
arguments counts only where it is met before, and what is missing or repeated counts only at the
end. What the command says about itself comes from its package.
-/
namespace Assembly8085.CommandLine

/-- What one switch means. -/
inductive Switch
  /-- A flag. -/
  | flag (flag : Flag)
  /-- More in the log. -/
  | verbose
  /-- Print the help and nothing else. -/
  | help
  /-- Print the version and nothing else. -/
  | version
  deriving DecidableEq

namespace Switch

/-- The switch behind a single hyphen. -/
def ofChar? : Char → Option Switch
  | 'g' => some (.flag .debug)
  | 't' => some (.flag .tokens)
  | 'd' => some (.flag .tree)
  | 'p' => some (.flag .print)
  | 'v' => some .verbose
  | 'h' => some .help
  | 'V' => some .version
  | _ => none

/-- The switch behind two hyphens. -/
def ofName? (name : List Char) : Option Switch :=
  if name = "debug".toList then some (.flag .debug)
  else if name = "trivia".toList then some (.flag .trivia)
  else if name = "help".toList then some .help
  else if name = "version".toList then some .version
  else none

end Switch

/-- What the arguments read so far ask for. -/
structure Arguments where
  /-- The files named. -/
  inputs : List String
  /-- The flags given, with repetitions. -/
  flags : List Flag
  /-- How often more is asked to be in the log. -/
  verbosity : Nat
  deriving DecidableEq

namespace Arguments

/-- No arguments. -/
def none : Arguments := ⟨[], [], 0⟩

/-- One more file. There is room for one only. -/
def addInput (arguments : Arguments) (input : String) : Except Request Arguments :=
  if arguments.inputs.isEmpty then .ok { arguments with inputs := [input] } else .error .unknown

/-- One more switch, if there is such a switch. -/
def addSwitch (arguments : Arguments) : Option Switch → Except Request Arguments
  | some (.flag flag) => .ok { arguments with flags := arguments.flags ++ [flag] }
  | some .verbose => .ok { arguments with verbosity := arguments.verbosity + 1 }
  | some .help => .error .help
  | some .version => .error .version
  | Option.none => .error .unknown

/-- One more argument that is none behind a bare `--`. The name of a switch ends in front of an
equals sign. -/
def add (arguments : Arguments) (argument : String) : Except Request Arguments :=
  let text := argument.toList
  let name := text.dropWhile (· = '-')
  if text.take 2 = ['-', '-'] then
    arguments.addSwitch (Switch.ofName? (name.takeWhile (· ≠ '=')))
  else if text.head? = some '-' && text ≠ ['-'] then
    name.foldlM (fun arguments c => arguments.addSwitch (Switch.ofChar? c)) arguments
  else arguments.addInput argument

/-- Reads the remaining arguments. Behind a bare `--` there are files only. -/
def read (arguments : Arguments) : List String → Except Request Arguments
  | [] => .ok arguments
  | argument :: rest =>
    if argument = "--" then rest.foldlM addInput arguments
    else do
      let arguments ← arguments.add argument
      read arguments rest

/-- What complete arguments ask for: exactly one file, no flag twice, and layout only among
tokens. -/
def request (arguments : Arguments) : Request :=
  match arguments.inputs with
  | [input] =>
    if arguments.flags.Nodup ∧ (.trivia ∈ arguments.flags → .tokens ∈ arguments.flags) then
      .run ⟨input, arguments.flags, arguments.verbosity⟩
    else .unknown
  | _ => .unknown

end Arguments

/-- What a list of arguments asks for. -/
def Request.ofArguments (arguments : List String) : Request :=
  match Arguments.none.read arguments with
  | .ok arguments => arguments.request
  | .error request => request

/-- What a package says about itself. -/
structure Package where
  /-- The name of its command. -/
  name : String
  /-- Which of its versions it is. -/
  version : String
  /-- Who has written it. -/
  authors : Option String
  /-- What it is for. -/
  description : String

namespace Package

/-- The version, as the command prints it. -/
def versionText (package : Package) : String := package.name ++ " " ++ package.version ++ "\n"

/-- The help, as the command prints it. -/
def helpText (package : Package) : String :=
  package.versionText ++ package.authors.elim "" (· ++ "\n") ++ package.description ++
"

USAGE:
    " ++ package.name ++ " [FLAGS] <INPUT>

FLAGS:
    -g, --debug      collects every diagnostic with its location instead of stopping at the first error
    -h, --help       Prints help information
    -p               prints the normalized source to STDOUT
    -d               prints the syntax tree nodes to STDOUT
    -t               prints the token stream to STDOUT
        --trivia     includes spaces, terminators and comments in the token stream
    -V, --version    Prints version information
    -v               Sets the level of verbosity

ARGS:
    <INPUT>    Sets the input file to use
"

end Package

/-- The tools of the command of a package. -/
def Tools.ofPackage (package : Package) : Tools where
  ask := .ofArguments
  grid := Table.render
  help := package.helpText
  version := package.versionText

end Assembly8085.CommandLine
