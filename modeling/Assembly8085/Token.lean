import Assembly8085.InstructionSet
import Assembly8085.Text

/-!
# Tokens

The kinds of token that a source is read as, and what an identifier names as far as the
instruction set can tell.
-/
namespace Assembly8085

/-- What a token is. -/
inductive TokenKind
  /-- The end of the source; it holds no text. -/
  | endOfFile
  /-- Blanks and tabs. -/
  | space
  /-- The end of a line. -/
  | terminator
  /-- A semicolon and the rest of its line. -/
  | comment
  /-- A name. -/
  | identifier
  /-- Whatever starts with a digit. -/
  | integer
  /-- A comma. -/
  | delimiter
  /-- A colon. -/
  | colon
  deriving DecidableEq

namespace TokenKind

/-- All kinds in the order of their declaration. -/
def all : List TokenKind :=
  [.endOfFile, .space, .terminator, .comment, .identifier, .integer, .delimiter, .colon]

/-- The name of a kind. -/
def name : TokenKind → String
  | .endOfFile => "EndOfFile"
  | .space => "Space"
  | .terminator => "Terminator"
  | .comment => "Comment"
  | .identifier => "Identifier"
  | .integer => "Integer"
  | .delimiter => "Delimiter"
  | .colon => "Colon"

/-- How a message refers to a token of a kind. -/
def description : TokenKind → String
  | .endOfFile => "end of file"
  | .space => "space"
  | .terminator => "line terminator"
  | .comment => "comment"
  | .identifier => "identifier"
  | .integer => "integer"
  | .delimiter => "','"
  | .colon => "':'"

/-- Layout: tokens that are no part of a statement's meaning. -/
def isTrivia : TokenKind → Bool
  | .space | .terminator | .comment => true
  | _ => false

/-- Names and numbers: the tokens that become leaves of the tree. -/
def isLiteral : TokenKind → Bool
  | .identifier | .integer => true
  | _ => false

/-- Marks between the parts of a statement. -/
def isPunctuator : TokenKind → Bool
  | .delimiter | .colon => true
  | _ => false

/-- The group of a kind; the end of the source is in none. -/
def group : TokenKind → String
  | .space | .terminator | .comment => "trivia"
  | .identifier | .integer => "literal"
  | .delimiter | .colon => "punctuator"
  | .endOfFile => ""

end TokenKind

/-- What an identifier names. -/
inductive IdentifierClass
  /-- A mnemonic. -/
  | opcode
  /-- A register, the stack pointer or the program status word. -/
  | register
  /-- Anything else. -/
  | plain
  deriving DecidableEq

namespace IdentifierClass

/-- The name of a class. -/
def name : IdentifierClass → String
  | .opcode => "Opcode"
  | .register => "Register"
  | .plain => "Plain"

/-- The class of an identifier; small ASCII letters count as their capitals. -/
def ofText (text : List Char) : IdentifierClass :=
  let capitals := String.ofList (text.map Char.toUpper)
  if InstructionSet.isOpcode capitals then .opcode
  else if InstructionSet.isRegister capitals then .register
  else .plain

end IdentifierClass

/-- A token where it stands in its source. -/
structure Token where
  /-- What it is. -/
  kind : TokenKind
  /-- The characters it covers. -/
  text : List Char
  /-- The offset of its first byte. -/
  position : Nat
  deriving DecidableEq

namespace Token

/-- The number of bytes that a token covers. -/
def length (token : Token) : Nat := Text.byteLength token.text

/-- The offset just behind a token. -/
def stop (token : Token) : Nat := token.position + token.length

end Token

end Assembly8085
