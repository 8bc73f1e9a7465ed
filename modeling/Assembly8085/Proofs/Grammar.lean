import Assembly8085.Proofs.Term

/-!
# The grammar

A derivation is a concrete syntax tree: it keeps every token of the source, each where the grammar
has a place for its kind. A source derives a list of tokens if these are the ones it keeps, and if
each instruction without a terminator is followed by the end of the source.
-/
namespace Assembly8085.Grammar

/-- A token of a family of kinds. -/
abbrev TokenOf (family : TokenKind → Bool) := { token : Token // family token.kind = true }

abbrev Name := TokenOf (· == .identifier)
abbrev Space := TokenOf (· == .space)
abbrev Delimiter := TokenOf (· == .delimiter)
abbrev Colon := TokenOf (· == .colon)
abbrev Comment := TokenOf (· == .comment)
abbrev Terminator := TokenOf (· == .terminator)
abbrev EndOfFile := TokenOf (· == .endOfFile)

/-- The token of a name or a number. -/
abbrev Leaf := TokenOf TokenKind.isLiteral

/-- A token that is layout. -/
abbrev Trivia := TokenOf TokenKind.isTrivia

/-- A name or a number, and the space behind it. -/
structure Operand where
  /-- The name or the number. -/
  leaf : Leaf
  /-- The space behind it. -/
  spaces : List Space

/-- An operand behind another one. -/
structure NextOperand where
  /-- The comma between the two. -/
  delimiter : Delimiter
  /-- The space behind the comma. -/
  spaces : List Space
  /-- The operand. -/
  operand : Operand

/-- A statement with all its tokens. -/
inductive Statement
  /-- A label. -/
  | label (name : Name) (spaces : List Space) (colon : Colon)
  /-- An instruction. The end of the source may stand in for the terminator. -/
  | instruction (target : Name) (spaces : List Space)
      (operands : Option (Operand × List NextOperand)) (comment : Option Comment)
      (terminator : Option Terminator)

/-- A source with all its tokens. -/
structure Source where
  /-- The layout in front of the first statement. -/
  leading : List Trivia
  /-- The statements, each with the layout behind it. -/
  lines : List (Statement × List Trivia)
  /-- The end. -/
  endOfFile : EndOfFile

/-- Tokens of a family as tokens. -/
def row {family : TokenKind → Bool} (tokens : List (TokenOf family)) : List Token :=
  tokens.map (·.val)

/-- The tokens of an operand. -/
def Operand.tokens (operand : Operand) : List Token := operand.leaf.val :: row operand.spaces

/-- The tokens of an operand behind another one. -/
def NextOperand.tokens (next : NextOperand) : List Token :=
  next.delimiter.val :: (row next.spaces ++ next.operand.tokens)

/-- The tokens of operands. -/
def operandTokens : Option (Operand × List NextOperand) → List Token
  | none => []
  | some (first, others) => first.tokens ++ others.flatMap (·.tokens)

/-- The names and numbers of operands. -/
def operandLeaves : Option (Operand × List NextOperand) → List Token
  | none => []
  | some (first, others) => first.leaf.val :: others.map (·.operand.leaf.val)

namespace Statement

/-- The tokens of a statement. -/
def tokens : Statement → List Token
  | .label name spaces colon => name.val :: (row spaces ++ [colon.val])
  | .instruction target spaces operands comment terminator =>
    target.val :: (row spaces ++ operandTokens operands ++ row comment.toList ++
      row terminator.toList)

/-- Whether a statement is an instruction without a terminator. -/
def isOpen : Statement → Bool
  | .label _ _ _ => false
  | .instruction _ _ _ _ terminator => terminator.isNone

/-- What a statement says, without its layout. -/
def term : Statement → Term
  | .label name _ _ => .node (.label (name.val.build Term.node))
  | .instruction target _ operands _ _ =>
    .node (.instruction (target.val.build Term.node)
      ((operandLeaves operands).map (·.build Term.node)))

end Statement

/-- The tokens of statements with the layout behind each, and of the end of the source. -/
def tokensOf (lines : List (Statement × List Trivia)) (endOfFile : EndOfFile) : List Token :=
  lines.flatMap (fun (statement, trivia) => statement.tokens ++ row trivia) ++ [endOfFile.val]

/-- Behind each instruction without a terminator the next token is the end of the source. -/
def LooksAhead (endOfFile : EndOfFile) : List (Statement × List Trivia) → Prop
  | [] => True
  | (statement, trivia) :: others =>
    (statement.isOpen = true →
      (row trivia ++ tokensOf others endOfFile).head?.map (·.kind) = some .endOfFile) ∧
    LooksAhead endOfFile others

namespace Source

/-- The tokens of a source. -/
def tokens (source : Source) : List Token :=
  row source.leading ++ tokensOf source.lines source.endOfFile

/-- A source is a derivation of tokens. -/
structure Derives (source : Source) (tokens : List Token) : Prop where
  /-- The tokens are those of the source. -/
  tokens : source.tokens = tokens
  /-- Only the last line can do without its terminator. -/
  looksAhead : LooksAhead source.endOfFile source.lines

/-- What a source says, without its layout. -/
def term (source : Source) : Term := .node (.source (source.lines.map (·.1.term)))

end Source

end Assembly8085.Grammar
