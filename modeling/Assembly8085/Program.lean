import Assembly8085.Literal
import Assembly8085.SyntaxTree.Forest
import Assembly8085.Token

/-!
# Programs

A program is the list of its statements, each with the tokens that it was read from. Its tree
is grown statement by statement: the leaves in source order, then the statement, and at the
very end the source that holds them all. So the number of each node is known beforehand.
-/
namespace Assembly8085

/-- What the leaf of a token holds. A number that cannot be read counts as zero. -/
def Token.leaf (token : Token) : NodeData NodeId :=
  if token.kind = .identifier then .identifier token.text
  else .integer ((Literal.decode token.text).getD 0)

/-- What the leaf of a token is created from. -/
def Token.seed (token : Token) : Seed := ⟨token.leaf, token.position, token.length⟩

/-- A statement of a program, with the offset just behind it. It starts where its first token
does. -/
inductive Statement
  /-- A name for the place where it stands. -/
  | label (name : Token) (stop : Nat)
  /-- A target and its operands. -/
  | instruction (target : Token) (operands : List Token) (stop : Nat)
  deriving DecidableEq

namespace Statement

/-- The tokens of a statement that its tree keeps. -/
def leaves : Statement → List Token
  | .label name _ => [name]
  | .instruction target operands _ => target :: operands

/-- The offset of the first byte of a statement. -/
def start : Statement → Nat
  | .label name _ => name.position
  | .instruction target _ _ => target.position

/-- The offset just behind a statement. -/
def stop : Statement → Nat
  | .label _ stop => stop
  | .instruction _ _ stop => stop

/-- The number of bytes of a statement. -/
def length (statement : Statement) : Nat := statement.stop - statement.start

/-- What the node of a statement holds if its first leaf has the given number. -/
def data (base : NodeId) : Statement → NodeData NodeId
  | .label _ _ => .label base
  | .instruction _ operands _ => .instruction base (List.range' (base + 1) operands.length)

/-- The number of a statement whose first leaf has the given number. -/
def id (base : NodeId) (statement : Statement) : NodeId := base + statement.leaves.length

/-- What the leaves of a statement and the statement itself are created from. -/
def seeds (base : NodeId) (statement : Statement) : List Seed :=
  statement.leaves.map Token.seed ++
    [⟨statement.data base, statement.start, statement.length⟩]

end Statement

/-- The statements of a source. -/
structure Program where
  /-- The statements in source order. -/
  statements : List Statement
  /-- The offset just behind the last byte of the source. -/
  stop : Nat
  deriving DecidableEq

namespace Program

/-- What the nodes of statements are created from, the first one having the given number. -/
def seedsFrom (base : NodeId) : List Statement → List Seed
  | [] => []
  | statement :: others =>
    statement.seeds base ++ seedsFrom (statement.id base + 1) others

/-- The numbers of statements, the first leaf having the given number. -/
def idsFrom (base : NodeId) : List Statement → List NodeId
  | [] => []
  | statement :: others => statement.id base :: idsFrom (statement.id base + 1) others

/-- What all nodes of a program are created from. -/
def seeds (program : Program) : List Seed :=
  seedsFrom 0 program.statements ++
    [⟨.source (idsFrom 0 program.statements), 0, program.stop⟩]

/-- The tree of a program. -/
def tree (program : Program) : Except TreeFault SyntaxTree :=
  match Forest.empty.plantAll program.seeds with
  | .ok forest => forest.finish (forest.nodes.size - 1)
  | .error fault => .error fault

end Program

end Assembly8085
