import Assembly8085.Session.Open
import Assembly8085.SyntaxTree.Print

/-!
# The command

The command reads one file and shows what is asked for: its tokens, its diagnostics, the nodes
of its tree, the source anew. Its exit status tells whether the source is well formed. How its
arguments are understood and how a table is laid out is not its own business: it does with any
tools for that.
-/
namespace Assembly8085.CommandLine

/-- A switch that may be given once. -/
inductive Flag
  /-- Keep every notice with its place. -/
  | debug
  /-- Print the tokens. -/
  | tokens
  /-- Print layout among the tokens. -/
  | trivia
  /-- Print the nodes of the tree. -/
  | tree
  /-- Print the source anew. -/
  | print
  deriving DecidableEq

/-- A run of the command. -/
structure Settings where
  /-- The file to read. -/
  input : String
  /-- The flags given. -/
  flags : List Flag
  /-- How often more is asked to be in the log. -/
  verbosity : Nat
  deriving DecidableEq

/-- Whether a flag is given. -/
def Settings.has (settings : Settings) (flag : Flag) : Bool := settings.flags.contains flag

/-- What the command is asked to do. -/
inductive Request
  /-- Read a file. -/
  | run (settings : Settings)
  /-- Print the help. -/
  | help
  /-- Print the version. -/
  | version
  /-- Nothing that it understands. -/
  | unknown
  deriving DecidableEq

/-- What the command leaves to others. -/
structure Tools where
  /-- What a list of arguments asks for. -/
  ask : List String → Request
  /-- Rows of cells as the text of a table. -/
  grid : List (List String) → String
  /-- The help. -/
  help : String
  /-- The version. -/
  version : String

/-- Something that the command writes. -/
inductive Output
  /-- An entry of the log. -/
  | record (record : Log.Record)
  /-- A text as it is. -/
  | text (text : String)
  deriving DecidableEq

namespace Output

/-- The entry of an event. -/
def event (event : Log.Event) : Output := .record event.record

/-- The entry that says why the command gives up. -/
def fatal (message : String) : Output := .record ⟨.error, .command, "fatal: " ++ message⟩

/-- Whether the log takes an entry, given the least level that it takes. -/
def isShown (least : Log.Level) : Output → Bool
  | .record entry => entry.level.rank ≤ least.rank
  | .text _ => true

/-- What is written, given the time in front of an entry of the log. -/
def render (time : String) : Output → String
  | .record entry =>
    time ++ "[" ++ entry.origin.name ++ "][" ++ entry.level.name ++ "] " ++ entry.text ++ "\n"
  | .text written => written

end Output

/-- What the command comes to. -/
structure Outcome where
  /-- The exit status. -/
  exit : Nat
  /-- What is written, in order. -/
  outputs : List Output
  deriving DecidableEq

/-- The least level that the log takes. -/
def Settings.least (settings : Settings) : Log.Level :=
  match settings.verbosity with
  | 0 => .error
  | 1 => .warn
  | 2 => .info
  | _ => .debug

/-- The entry that lists what was asked for. -/
def Settings.record (settings : Settings) : Log.Record :=
  ⟨.debug, .command,
    "Arguments:\n\tVerbosity: " ++ settings.least.name ++
      "\n\tDebug: " ++ toString (settings.has .debug) ++
      "\n\tTokens: " ++ toString (settings.has .tokens) ++
      "\n\tInfile: " ++ settings.input⟩

/-- An offset in hexadecimal. -/
def offset (position : Nat) : String := "0x" ++ String.ofList (Numeral.hexUpper 4 position)

/-- The row of a token. -/
def tokenRow (scanned : Session.Scanned) : List String :=
  [offset scanned.token.position ++ ":",
    scanned.token.kind.group,
    scanned.token.kind.name,
    String.ofList (Text.quote scanned.token.text),
    scanned.identifierClass.elim "" IdentifierClass.name]

/-- The characters or the value of a leaf. -/
def detail : NodeData NodeId → String
  | .identifier text => String.ofList text
  | .integer value => "0x" ++ String.ofList (Numeral.hexUpper 1 value.toNat)
  | _ => ""

/-- The row of a node. -/
def nodeRow (id : NodeId) (node : Node) : List String :=
  ["#" ++ toString id,
    offset node.position ++ "+" ++ toString node.length,
    node.kind.name,
    node.parent.elim "root" fun parent => "^#" ++ toString parent,
    detail node.data]

/-- The rows of the nodes of a tree. -/
def nodeRows (tree : SyntaxTree) : List (List String) := tree.nodes.toList.mapIdx nodeRow

/-- The level of the entry for a diagnostic. -/
def level : Severity → Log.Level
  | .error => .error
  | .warning => .warn
  | .note => .info

/-- The entry for a diagnostic. -/
def diagnosticRecord (session : Session) (diagnostic : Diagnostic) : Log.Record :=
  ⟨level diagnostic.notice.severity, .command, session.format diagnostic⟩

section

variable (tools : Tools)

/-- Scans a source in a session of its own. What is written is the log of that session and then
the table of the tokens, unless the scan fails. -/
def showTokens (settings : Settings) (session : Session) : List Output × Option Failure :=
  let fresh := Session.ofSource settings.input session.source session.mode
  let ((tokens, failure), scanner) :=
    (fresh.setSkipTrivia !(settings.has .trivia)).scanAll
  let log := scanner.log.toList.map Output.event
  match failure with
  | some failure => (log, some failure)
  | none => (log ++ [.text (tools.grid (tokens.map tokenRow))], none)

/-- What is written about a source whose tree was read. -/
def showTree (settings : Settings) (session : Session) (tree : SyntaxTree) : List Output :=
  session.diagnostics.toList.map (.record ∘ diagnosticRecord session) ++
    (if settings.has .tree then [.text (tools.grid (nodeRows tree))] else []) ++
    (if settings.has .print then
      match tree.print with
      | .ok text => [.text (String.ofList text)]
      | .error _ => []
    else [])

/-- The number of errors kept. -/
def errorCount (session : Session) : Nat := session.diagnostics.toList.countP Diagnostic.isError

/-- Reads the tree of a session and shows it. -/
def showProgram (settings : Settings) (session : Session) : Outcome :=
  let (result, parsed) := session.parse
  let log := (parsed.log.toList.drop session.log.size).map Output.event
  match result with
  | .error failure => ⟨1, log ++ [.fatal failure.message]⟩
  | .ok tree =>
    let shown := log ++ showTree tools settings parsed tree
    let errors := errorCount parsed
    if 0 < errors then
      ⟨1, shown ++ [.record ⟨.error, .command,
        "Stopped assembly due to " ++ toString errors ++ " error(s)."⟩]⟩
    else ⟨0, shown⟩

/-- Shows what is asked for of a session. -/
def showSession (settings : Settings) (session : Session) : Outcome :=
  let (tokens, failure) :=
    if settings.has .tokens then showTokens tools settings session else ([], none)
  match failure with
  | some failure => ⟨1, tokens ++ [.fatal failure.message]⟩
  | none =>
    let outcome := showProgram tools settings session
    ⟨outcome.exit, tokens ++ outcome.outputs⟩

/-- Runs the command, given how files are read. -/
def run (settings : Settings) (read : String → Except ReadFailure (List Char)) : Outcome :=
  let options : Options := { debug := settings.has .debug }
  let outcome : Outcome :=
    match Session.openWith settings.input options read with
    | .error failure => ⟨1, [.fatal failure.message]⟩
    | .ok session =>
      let outcome := showSession tools settings session
      ⟨outcome.exit, session.log.toList.map Output.event ++ outcome.outputs⟩
  ⟨outcome.exit,
    (.record settings.record :: outcome.outputs).filter (Output.isShown settings.least)⟩

/-- Does what a list of arguments asks for. Nothing comes of arguments that are not understood; what
to say about them is left to the caller. -/
def perform (arguments : List String) (read : String → Except ReadFailure (List Char)) :
    Option Outcome :=
  match tools.ask arguments with
  | .run settings => some (run tools settings read)
  | .help => some ⟨0, [.text tools.help]⟩
  | .version => some ⟨0, [.text tools.version]⟩
  | .unknown => none

end

end Assembly8085.CommandLine
