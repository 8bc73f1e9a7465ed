/-!
# Nodes of a syntax tree

A source holds statements. A statement is a label or an instruction; an instruction has a
target and operands, which are identifiers and integers. Nodes refer to each other by number,
so what a node holds is described over whatever stands for its children.
-/
namespace Assembly8085

/-- The number of a node in the order of creation. -/
abbrev NodeId := Nat

/-- What a node is. -/
inductive NodeKind
  /-- A whole source. -/
  | source
  /-- A target with its operands. -/
  | instruction
  /-- A name for a place in the program. -/
  | label
  /-- A name. -/
  | identifier
  /-- A number. -/
  | integer
  deriving DecidableEq

namespace NodeKind

/-- All kinds in the order of their declaration. -/
def all : List NodeKind := [.source, .instruction, .label, .identifier, .integer]

/-- The name of a kind. -/
def name : NodeKind → String
  | .source => "Source"
  | .instruction => "Instruction"
  | .label => "Label"
  | .identifier => "Identifier"
  | .integer => "Integer"

/-- The kinds that a source consists of. -/
def isStatement : NodeKind → Bool
  | .instruction | .label => true
  | _ => false

/-- The kinds that an operand may have. -/
def isExpression : NodeKind → Bool
  | .identifier | .integer => true
  | _ => false

end NodeKind

/-- What a node holds, over the type of what stands for its children. -/
inductive NodeData (γ : Type)
  /-- Statements in order. -/
  | source (statements : List γ)
  /-- What to do, and to what. -/
  | instruction (target : γ) (operands : List γ)
  /-- The name, without the colon. -/
  | label (name : γ)
  /-- The characters of a name. -/
  | identifier (text : List Char)
  /-- The value of a number. -/
  | integer (value : UInt64)
  deriving DecidableEq

namespace NodeData

variable {γ δ ε : Type}

/-- The kind of node that holds the data. -/
def kind : NodeData γ → NodeKind
  | .source _ => .source
  | .instruction _ _ => .instruction
  | .label _ => .label
  | .identifier _ => .identifier
  | .integer _ => .integer

/-- The children in source order: a target stands in front of its operands. -/
def children : NodeData γ → List γ
  | .source statements => statements
  | .instruction target operands => target :: operands
  | .label name => [name]
  | .identifier _ | .integer _ => []

/-- Replaces each child in source order by what a function finds for it; the first failure is
that of the whole. -/
def traverse (find : γ → Except ε δ) : NodeData γ → Except ε (NodeData δ)
  | .source statements => do
    return .source (← statements.mapM find)
  | .instruction target operands => do
    let target ← find target
    return .instruction target (← operands.mapM find)
  | .label name => do
    return .label (← find name)
  | .identifier text => .ok (.identifier text)
  | .integer value => .ok (.integer value)

end NodeData

/-- What a node is created from. -/
structure Seed where
  /-- What the node holds. -/
  data : NodeData NodeId
  /-- The offset of its first byte. -/
  position : Nat
  /-- The number of its bytes. -/
  length : Nat
  deriving DecidableEq

/-- A node of a tree. -/
structure Node extends Seed where
  /-- The node that it is a child of; a root has none. -/
  parent : Option NodeId
  deriving DecidableEq

namespace Node

/-- The kind of a node. -/
def kind (node : Node) : NodeKind := node.data.kind

/-- The offset just behind a node. -/
def stop (node : Node) : Nat := node.position + node.length

end Node

/-- Why trees and their parts cannot be put together or looked up. -/
inductive TreeFault
  /-- There are fewer nodes than the number asked for. -/
  | outOfRange (size : Nat) (id : NodeId)
  /-- A node that is to become a child is one already. -/
  | hasParent (child : NodeId)
  /-- A node of this kind cannot be part of a source. -/
  | notStatement (kind : NodeKind)
  /-- A node of this kind cannot be an operand. -/
  | notExpression (kind : NodeKind)
  /-- A node of this kind can be neither a target nor the name of a label. -/
  | notIdentifier (kind : NodeKind)
  /-- A node that is to be the root is a child. -/
  | rootHasParent
  /-- A walk goes on for longer than there are nodes. -/
  | endless
  deriving DecidableEq

/-- The wording of a fault. -/
def TreeFault.message : TreeFault → String
  | .outOfRange size id =>
    "index out of bounds: the len is " ++ toString size ++ " but the index is " ++ toString id
  | .hasParent child => "node NodeId(" ++ toString child ++ ") already has a parent"
  | .notStatement kind => kind.name ++ " is not a statement"
  | .notExpression kind => kind.name ++ " is not an expression"
  | .notIdentifier kind =>
    "assertion `left == right` failed\n  left: " ++ kind.name ++ "\n right: " ++
      NodeKind.identifier.name
  | .rootHasParent => "assertion failed: self.nodes[root.0].parent.is_none()"
  | .endless => "endless walk"

end Assembly8085
