import Assembly8085.Text.Escape
import Assembly8085.Token

/-!
# Diagnostics

A notice is what is wrong with a source, by its cause; its severity and wording follow from
that. A diagnostic is a notice at the place of the source that it is about. Neither stops
anything by itself.
-/
namespace Assembly8085

/-- How grave a notice is. -/
inductive Severity
  /-- Worth knowing. -/
  | note
  /-- Probably not meant. -/
  | warning
  /-- The source is malformed. -/
  | error
  deriving DecidableEq

/-- The word for a severity. -/
def Severity.name : Severity → String
  | .note => "note"
  | .warning => "warning"
  | .error => "error"

/-- What there is to say about a source. -/
inductive Notice
  /-- A carriage return has no line feed behind it. -/
  | expectedLineFeed
  /-- The last line has no end. -/
  | expectedFinalNewline
  /-- A character starts no token. -/
  | unexpectedCharacter (c : Char)
  /-- A token starts with a digit and has no value. -/
  | malformedInteger (text : List Char)
  /-- A line goes on with a token that starts no statement. -/
  | expectedStatement (found : TokenKind)
  /-- A token stands where an operand belongs. -/
  | expectedExpression (found : TokenKind)
  /-- A token stands where the line of an instruction should end. -/
  | expectedTerminator (found : TokenKind)
  /-- Anything else that a caller wants said. -/
  | other (severity : Severity) (message : String)
  deriving DecidableEq

namespace Notice

/-- The severity of a notice. -/
def severity : Notice → Severity
  | .expectedLineFeed | .expectedFinalNewline => .note
  | .unexpectedCharacter _ | .malformedInteger _ => .error
  | .expectedStatement _ | .expectedExpression _ | .expectedTerminator _ => .error
  | .other severity _ => severity

/-- The wording of a notice. -/
def message : Notice → String
  | .expectedLineFeed => "expected LF (\\n) after CR (\\r)"
  | .expectedFinalNewline => "expected final newline"
  | .unexpectedCharacter c =>
    "unexpected character '" ++ String.ofList (Text.escapeChar c) ++ "'"
  | .malformedInteger text =>
    "malformed integer '" ++ String.ofList (Text.escape text) ++ "'"
  | .expectedStatement found => "expected statement, found " ++ found.description
  | .expectedExpression found => "expected expression, found " ++ found.description
  | .expectedTerminator found =>
    "expected terminator after instruction, found " ++ found.description
  | .other _ message => message

/-- Whether a notice says that the source is malformed. -/
def isError (notice : Notice) : Bool := notice.severity = .error

/-- Whether a notice is about the order of tokens, and not about a single one. -/
def isParsing : Notice → Bool
  | .expectedStatement _ | .expectedExpression _ | .expectedTerminator _ => true
  | _ => false

/-- A notice without its place. -/
def text (notice : Notice) : String := notice.severity.name ++ ": " ++ notice.message

end Notice

/-- A stretch of a source. -/
structure Location where
  /-- The name of the source. -/
  file : String
  /-- The offset of its first byte. -/
  position : Nat
  /-- The number of its bytes. -/
  length : Nat
  deriving DecidableEq

/-- A notice, mostly at a place. -/
structure Diagnostic where
  /-- What it says. -/
  notice : Notice
  /-- What it is about; absent if it is about no source in particular. -/
  location : Option Location
  deriving DecidableEq

namespace Diagnostic

/-- Whether a diagnostic says that the source is malformed. -/
def isError (diagnostic : Diagnostic) : Bool := diagnostic.notice.isError

/-- A diagnostic without its place. -/
def text (diagnostic : Diagnostic) : String := diagnostic.notice.text

end Diagnostic

end Assembly8085
