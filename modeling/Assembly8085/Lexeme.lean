import Assembly8085.Diagnostic
import Assembly8085.Literal

/-!
# Lexemes

A source is cut into lexemes from the front, each as long as its kind allows. A lexeme is the
text of a token, or a stray character, one that no token starts with. Nothing is left out: the
lexemes of a source in a row are the source.
-/
namespace Assembly8085

/-- A blank or a tab. -/
def isBlank (c : Char) : Bool := c = ' ' || c = '\t'

/-- A line feed or a carriage return. -/
def isLineBreak (c : Char) : Bool := c = '\n' || c = '\r'

/-- A character that an identifier may start with. -/
def startsIdentifier (c : Char) : Bool := c.isAlpha || c = '_' || c = '.'

namespace TokenKind

/-- The kind of token that a character starts, if any. -/
def startedBy? (c : Char) : Option TokenKind :=
  if isBlank c then some .space
  else if isLineBreak c then some .terminator
  else if c = ';' then some .comment
  else if c = ',' then some .delimiter
  else if c = ':' then some .colon
  else if c.isDigit then some .integer
  else if startsIdentifier c then some .identifier
  else none

/-- Whether a token of a kind goes on with a character. -/
def continuesWith : TokenKind → Char → Bool
  | .space, c => isBlank c
  | .comment, c => !isLineBreak c
  | .integer, c => c.isAlphanum || c = '_'
  | .identifier, c => c.isAlphanum || c = '_' || c = '.'
  | _, _ => false

/-- Cuts the remainder of a token from the text behind its first character. A line feed belongs
to the carriage return in front of it; all else goes by the kind. -/
def remainder (kind : TokenKind) (first : Char) (text : List Char) : List Char × List Char :=
  match first, text with
  | '\r', '\n' :: rest => (['\n'], rest)
  | _, _ => (text.takeWhile kind.continuesWith, text.dropWhile kind.continuesWith)

end TokenKind

/-- A piece of a source. -/
inductive Lexeme
  /-- A token. -/
  | token (kind : TokenKind) (text : List Char)
  /-- A character that starts no token. -/
  | stray (c : Char)
  deriving DecidableEq

namespace Lexeme

/-- The characters of a lexeme. -/
def text : Lexeme → List Char
  | .token _ text => text
  | .stray c => [c]

/-- The kind of the token; a stray character is none. -/
def kind? : Lexeme → Option TokenKind
  | .token kind _ => some kind
  | .stray _ => none

/-- What the lexeme alone gives rise to say. A line break is two characters or a line feed
unless it is a carriage return that stands alone. -/
def notice? : Lexeme → Option Notice
  | .stray c => some (.unexpectedCharacter c)
  | .token .terminator ['\r'] => some .expectedLineFeed
  | .token .integer text =>
    if (Literal.decode text).isNone then some (.malformedInteger text) else none
  | .token _ _ => none

/-- The first lexeme of a text, given by its first character and the others, and what is
behind it. -/
def first (c : Char) (others : List Char) : Lexeme × List Char :=
  match TokenKind.startedBy? c with
  | some kind =>
    let (more, rest) := kind.remainder c others
    (.token kind (c :: more), rest)
  | none => (.stray c, others)

/-- The two parts of the text behind a first character make it up. -/
theorem remainder_append (kind : TokenKind) (c : Char) (text : List Char) :
    (kind.remainder c text).1 ++ (kind.remainder c text).2 = text := by
  unfold TokenKind.remainder
  split
  · rfl
  · exact List.takeWhile_append_dropWhile

/-- The first lexeme and what is behind it make up the text. -/
theorem first_append (c : Char) (others : List Char) :
    (first c others).1.text ++ (first c others).2 = c :: others := by
  unfold first
  split
  · exact congrArg (c :: ·) (remainder_append ..)
  · rfl

/-- A lexeme holds at least the first character. -/
theorem first_text_ne_nil (c : Char) (others : List Char) : (first c others).1.text ≠ [] := by
  unfold first
  split <;> simp [text]

/-- What is behind the first lexeme is shorter than the text. -/
theorem length_first_lt (c : Char) (others : List Char) :
    (first c others).2.length < (c :: others).length := by
  have whole := congrArg List.length (first_append c others)
  have some := List.length_pos_iff.2 (first_text_ne_nil c others)
  rw [List.length_append] at whole
  omega

/-- The lexemes of a text in order. -/
def ofText : List Char → List Lexeme
  | [] => []
  | c :: others => (first c others).1 :: ofText (first c others).2
termination_by text => text.length
decreasing_by exact length_first_lt c others

/-- The lexemes of a text in a row are the text. -/
theorem flatMap_text_ofText (source : List Char) : (ofText source).flatMap text = source := by
  fun_induction ofText source with
  | case1 => rfl
  | case2 c others hypothesis => rw [List.flatMap_cons, hypothesis, first_append]

/-- The tokens among lexemes that start at an offset. -/
def tokensFrom (position : Nat) : List Lexeme → List Token
  | [] => []
  | lexeme :: ahead =>
    let others := tokensFrom (position + Text.byteLength lexeme.text) ahead
    match lexeme.kind? with
    | some kind => ⟨kind, lexeme.text, position⟩ :: others
    | none => others

/-- The number of bytes of lexemes in a row. -/
def totalLength (lexemes : List Lexeme) : Nat :=
  Text.byteLength (lexemes.flatMap text)

/-- The lexemes of a text take as many bytes as the text. -/
@[simp] theorem totalLength_ofText (source : List Char) :
    totalLength (ofText source) = Text.byteLength source := by
  rw [totalLength, flatMap_text_ofText]

end Lexeme

end Assembly8085
