import Assembly8085.Reading

/-!
# Moves

What happens while a source is read is a list of moves, which depends on the lexemes alone. A
session lives through them from the first on, and may stop at one.
-/
namespace Assembly8085

/-- Something that happens while a source is read. -/
inductive Move
  /-- The next lexeme is taken. -/
  | take (lexeme : Lexeme)
  /-- A notice about the last lexeme comes up. -/
  | report (notice : Notice)
  /-- The last lexeme is handed out as a token. -/
  | surface (kind : TokenKind)
  /-- The end of the source is met. -/
  | meetEnd
  /-- The number of errors in the order of tokens is told. -/
  | summarize (errors : Nat)
  deriving DecidableEq

namespace Move

/-- The error that a move brings up, if any. -/
def error? : Move → Option Notice
  | .report notice => if notice.isError then some notice else none
  | _ => none

/-- Whether a move brings up an error in the order of tokens. -/
def isParsingError : Move → Bool
  | .report notice => notice.isParsing
  | _ => false

/-- The moves that bring up a notice, if there is one. -/
def reports (notice : Option Notice) : List Move := notice.toList.map .report

/-- The moves that hand out the end of the source. -/
def ending : List Move := [.meetEnd, .surface .endOfFile]

/-- The moves that take a lexeme. What is to be said about it comes up at once. -/
def taking (lexeme : Lexeme) : List Move := .take lexeme :: reports lexeme.notice?

/-- The moves of a scan: lexemes are taken until one is handed out. -/
def scanning (skipTrivia : Bool) : (ahead : List Lexeme) → List Move
  | [] => ending
  | lexeme :: ahead =>
    taking lexeme ++
      match lexeme.kind? with
      | some kind =>
        if skipTrivia && kind.isTrivia then scanning skipTrivia ahead else [.surface kind]
      | none => scanning skipTrivia ahead

/-- The moves that read statements from lexemes, the first one standing at an offset. Every
token is handed out before it is looked at. A line that is discarded at the end of the source
is discarded up to that end, so that the end is handed out twice. -/
def readingFrom (reading : Reading) (position : Nat) : (ahead : List Lexeme) → List Move
  | [] =>
    let finish := reading.finish
    ending ++ reports finish.notice ++ if finish.discards then ending else []
  | lexeme :: ahead =>
    let next := position + Text.byteLength lexeme.text
    taking lexeme ++
      match lexeme.kind? with
      | some kind =>
        let step := reading.step ⟨kind, lexeme.text, position⟩
        .surface kind :: reports step.notice ++ readingFrom step.reading next ahead
      | none => readingFrom reading next ahead

/-- The moves of a parse. The errors in the order of tokens are told at the end, if there are
any. -/
def parsing (position : Nat) (ahead : List Lexeme) : List Move :=
  let moves := readingFrom .betweenStatements position ahead
  let errors := moves.countP isParsingError
  moves ++ if 0 < errors then [.summarize errors] else []

end Move

end Assembly8085
