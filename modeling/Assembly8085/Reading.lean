import Assembly8085.Lexeme
import Assembly8085.Program

/-!
# Reading statements

Statements are read from tokens one at a time, without looking ahead. A reading tells what has
been seen of the present line; a token takes it to the next one and may complete a statement or
give rise to a notice, never more than one of each. After a notice the remainder of the line is
discarded, and an instruction keeps what was read of it before.
-/
namespace Assembly8085

/-- An instruction whose line is not at its end yet. -/
structure Draft where
  /-- The first token of the line. -/
  target : Token
  /-- The operands read so far. -/
  operands : List Token
  /-- The offset just behind the last token of the line so far. -/
  reach : Nat
  deriving DecidableEq

namespace Draft

/-- The draft that starts with a token. -/
def start (target : Token) : Draft := ⟨target, [], target.stop⟩

/-- A token of the line that the instruction does not keep. -/
def pass (draft : Draft) (token : Token) : Draft := { draft with reach := token.stop }

/-- One more operand. -/
def add (draft : Draft) (token : Token) : Draft :=
  { draft with operands := draft.operands ++ [token], reach := token.stop }

/-- The instruction when its line ends as it should, at an offset. -/
def close (draft : Draft) (stop : Nat) : Statement :=
  .instruction draft.target draft.operands stop

/-- The instruction when the remainder of its line is discarded: it ends with its last operand,
or with its target. -/
def keep (draft : Draft) : Statement :=
  draft.close (draft.operands.getLastD draft.target).stop

end Draft

/-- What has been seen of the present line. -/
inductive Reading
  /-- Nothing, or complete statements only. -/
  | betweenStatements
  /-- An identifier. -/
  | afterTarget (draft : Draft)
  /-- A target and one operand or more. -/
  | afterOperand (draft : Draft)
  /-- A comma behind an operand. -/
  | afterDelimiter (draft : Draft)
  /-- A comment behind an instruction. -/
  | afterComment (draft : Draft)
  /-- A token that does not belong there, perhaps behind the start of an instruction. -/
  | discarding (draft : Option Draft)
  deriving DecidableEq

/-- What a token does to a reading. -/
structure Step where
  /-- The reading behind the token. -/
  reading : Reading
  /-- The statement that the token completes, if any. -/
  statement : Option Statement
  /-- What is to be said about the token, if anything. -/
  notice : Option Notice
  deriving DecidableEq

namespace Step

/-- Reads on. -/
def onward (reading : Reading) : Step := ⟨reading, none, none⟩

/-- Completes a statement. -/
def complete (statement : Statement) : Step := ⟨.betweenStatements, some statement, none⟩

/-- Refuses a token. The line is discarded from that token on; if it is a terminator, the line
ends with it. -/
def refuse (notice : Notice) (draft : Option Draft) (kind : TokenKind) : Step :=
  if kind = .terminator then ⟨.betweenStatements, draft.map Draft.keep, some notice⟩
  else ⟨.discarding draft, none, some notice⟩

end Step

/-- What the end of the source does to a reading. -/
structure Ending where
  /-- The statement that it completes, if any. -/
  statement : Option Statement
  /-- What is to be said about the missing remainder, if anything. -/
  notice : Option Notice
  /-- Whether the end stands in a line that is discarded. -/
  discards : Bool
  deriving DecidableEq

namespace Reading

/-- Takes a reading on by a token. -/
def step (reading : Reading) (token : Token) : Step :=
  match reading, token.kind with
  | .betweenStatements, .identifier => .onward (.afterTarget (.start token))
  | .betweenStatements, kind =>
    if kind.isTrivia then .onward .betweenStatements
    else .refuse (.expectedStatement kind) none kind
  | .afterTarget draft, .colon => .complete (.label draft.target token.stop)
  | .afterTarget draft, .identifier | .afterTarget draft, .integer =>
    .onward (.afterOperand (draft.add token))
  | .afterTarget draft, .space => .onward (.afterTarget (draft.pass token))
  | .afterTarget draft, .comment => .onward (.afterComment (draft.pass token))
  | .afterTarget draft, .terminator => .complete (draft.close token.stop)
  | .afterTarget draft, kind => .refuse (.expectedExpression kind) (some draft) kind
  | .afterOperand draft, .delimiter => .onward (.afterDelimiter (draft.pass token))
  | .afterOperand draft, .space => .onward (.afterOperand (draft.pass token))
  | .afterOperand draft, .comment => .onward (.afterComment (draft.pass token))
  | .afterOperand draft, .terminator => .complete (draft.close token.stop)
  | .afterOperand draft, kind => .refuse (.expectedTerminator kind) (some draft) kind
  | .afterDelimiter draft, .identifier | .afterDelimiter draft, .integer =>
    .onward (.afterOperand (draft.add token))
  | .afterDelimiter draft, .space => .onward (.afterDelimiter (draft.pass token))
  | .afterDelimiter draft, kind => .refuse (.expectedExpression kind) (some draft) kind
  | .afterComment draft, .terminator => .complete (draft.close token.stop)
  | .afterComment draft, kind => .refuse (.expectedTerminator kind) (some draft) kind
  | .discarding draft, .terminator => ⟨.betweenStatements, draft.map Draft.keep, none⟩
  | .discarding draft, _ => .onward (.discarding draft)

/-- Ends a reading with the source. An instruction may do without a terminator there. -/
def finish : Reading → Ending
  | .betweenStatements => ⟨none, none, false⟩
  | .afterTarget draft | .afterOperand draft | .afterComment draft =>
    ⟨some (draft.close draft.reach), none, false⟩
  | .afterDelimiter draft => ⟨some draft.keep, some (.expectedExpression .endOfFile), true⟩
  | .discarding draft => ⟨draft.map Draft.keep, none, true⟩

/-- The statements that tokens complete, up to the end of the source behind them. -/
def statements (reading : Reading) : List Token → List Statement
  | [] => reading.finish.statement.toList
  | token :: others =>
    let step := reading.step token
    step.statement.toList ++ step.reading.statements others

end Reading

/-- The program that lexemes make up, the first one standing at an offset. -/
def Program.ofLexemes (position : Nat) (lexemes : List Lexeme) : Program where
  statements := Reading.betweenStatements.statements (Lexeme.tokensFrom position lexemes)
  stop := position + Lexeme.totalLength lexemes

end Assembly8085
