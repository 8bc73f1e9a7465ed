import Assembly8085.Numeral
import Assembly8085.Text.Escape
import Assembly8085.Token

/-!
# The log

A session writes down what it does. An event is one entry by its meaning; its record is the
entry as it is shown, with a level and the part of the program that it comes from.
-/
namespace Assembly8085

/-- How a session treats notices. -/
inductive Mode
  /-- Every notice is kept with its place. -/
  | debug
  /-- The first error ends the work, and nothing is kept. -/
  | failFast
  deriving DecidableEq

/-- The name of a mode. -/
def Mode.name : Mode → String
  | .debug => "Debug"
  | .failFast => "FailFast"

namespace Log

/-- How much a record matters. -/
inductive Level
  /-- The work is over. -/
  | error
  /-- Something is probably not meant. -/
  | warn
  /-- Something is worth knowing. -/
  | info
  /-- For someone who looks for a fault. -/
  | debug
  /-- Each single step. -/
  | trace
  deriving DecidableEq

namespace Level

/-- The name of a level. -/
def name : Level → String
  | .error => "ERROR"
  | .warn => "WARN"
  | .info => "INFO"
  | .debug => "DEBUG"
  | .trace => "TRACE"

/-- The place of a level in order; what matters most comes first. -/
def rank : Level → Nat
  | .error => 0
  | .warn => 1
  | .info => 2
  | .debug => 3
  | .trace => 4

end Level

/-- The part of the program that a record comes from. -/
inductive Origin
  /-- The command line. -/
  | command
  /-- The keeper of a source and its diagnostics. -/
  | session
  /-- The reader of tokens. -/
  | scanner
  /-- The reader of statements. -/
  | parser
  deriving DecidableEq

/-- The name under which a part of the program appears in the log. -/
def Origin.name : Origin → String
  | .command => "asm85"
  | .session => "asm85::assembler::session"
  | .scanner => "asm85::assembler::lexer"
  | .parser => "asm85::assembler::parser"

/-- An entry as it is shown. -/
structure Record where
  /-- How much it matters. -/
  level : Level
  /-- Where it comes from. -/
  origin : Origin
  /-- What it says. -/
  text : String
  deriving DecidableEq

/-- What a session writes down. -/
inductive Event
  /-- A session was opened on a source. -/
  | opened (file : String) (bytes : Nat) (mode : Mode)
  /-- A diagnostic came up; the text is the one shown to the reader. -/
  | reported (text : String)
  /-- A token was handed out. -/
  | surfaced (token : Token)
  /-- The statements of a source were read, and some lines were discarded. -/
  | parsed (file : String) (errors : Nat)
  deriving DecidableEq

namespace Event

/-- The record of an event. -/
def record : Event → Record
  | .opened file bytes mode =>
    ⟨.debug, .session,
      "session for `" ++ file ++ "`: " ++ toString bytes ++ " bytes, " ++ mode.name ++ " mode"⟩
  | .reported text => ⟨.debug, .session, text⟩
  | .surfaced token =>
    ⟨.trace, .scanner,
      token.kind.name ++ " " ++ String.ofList (Text.quote token.text) ++ " at " ++
        toString token.position⟩
  | .parsed file errors =>
    ⟨.debug, .parser,
      "parsed `" ++ file ++ "` with " ++ toString errors ++ " parsing error(s)"⟩

end Event

end Log

end Assembly8085
