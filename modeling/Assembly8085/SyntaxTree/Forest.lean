import Assembly8085.SyntaxTree.Node

/-!
# Forests

Trees grow from their leaves: a forest gains nodes one by one, and a new node becomes the
parent of its children, which have to be there already and must have no parent yet. A finished
tree is a forest together with one node without a parent, its root.
-/
namespace Assembly8085

/-- Nodes in the order of creation. -/
structure Forest where
  /-- The nodes; each is at the place that is its number. -/
  nodes : Array Node
  deriving DecidableEq

/-- A forest with one of its nodes as the root. -/
structure SyntaxTree extends Forest where
  /-- The node from which the others hang. -/
  root : NodeId
  deriving DecidableEq

namespace Forest

/-- The forest without nodes. -/
def empty : Forest := ⟨#[]⟩

/-- The node of a number. -/
def node (forest : Forest) (id : NodeId) : Except TreeFault Node :=
  match forest.nodes[id]? with
  | some node => .ok node
  | none => .error (.outOfRange forest.nodes.size id)

/-- Why the node of a number does not fit where only a family of kinds does. -/
def misfit? (forest : Forest) (family : NodeKind → Bool) (fault : NodeKind → TreeFault)
    (id : NodeId) : Option TreeFault :=
  match forest.node id with
  | .ok node => if family node.kind then none else some (fault node.kind)
  | .error fault => some fault

/-- Why the children that a node is to have do not all fit their slots: the first that does
not counts. -/
def misfitIn? (forest : Forest) : NodeData NodeId → Option TreeFault
  | .source statements =>
    statements.findSome? (forest.misfit? NodeKind.isStatement .notStatement)
  | .instruction target operands =>
    (forest.misfit? (· = .identifier) .notIdentifier target).or
      (operands.findSome? (forest.misfit? NodeKind.isExpression .notExpression))
  | .label name => forest.misfit? (· = .identifier) .notIdentifier name
  | .identifier _ | .integer _ => none

/-- The forest with a node made the child of another. -/
def link (forest : Forest) (parent child : NodeId) : Forest :=
  { nodes := forest.nodes.modify child fun node => { node with parent := some parent } }

/-- A link adds no node. -/
@[simp] theorem size_nodes_link (forest : Forest) (parent child : NodeId) :
    (forest.link parent child).nodes.size = forest.nodes.size := by
  simp [link]

/-- Makes nodes the children of another, one after the other, up to the first that is a child
already. -/
def adopt (forest : Forest) (parent : NodeId) :
    (children : List NodeId) → Except TreeFault Unit × Forest
  | [] => (.ok (), forest)
  | child :: others =>
    match forest.node child with
    | .error fault => (.error fault, forest)
    | .ok node =>
      if node.parent.isSome then (.error (.hasParent child), forest)
      else (forest.link parent child).adopt parent others

/-- The forest with one more node, which has no parent. -/
def push (forest : Forest) (seed : Seed) : Forest :=
  { nodes := forest.nodes.push { toSeed := seed, parent := none } }

/-- One more node is one more node. -/
@[simp] theorem size_nodes_push (forest : Forest) (seed : Seed) :
    (forest.push seed).nodes.size = forest.nodes.size + 1 := by
  simp [push]

/-- Adds a node and makes it the parent of its children. The kinds of all children are looked
at before the first one gets its parent. If this fails, the forest stays as far as it came. -/
def plant (forest : Forest) (seed : Seed) : Except TreeFault NodeId × Forest :=
  match forest.misfitIn? seed.data with
  | some fault => (.error fault, forest)
  | none =>
    match forest.adopt forest.nodes.size seed.data.children with
    | (.error fault, after) => (.error fault, after)
    | (.ok (), after) => (.ok forest.nodes.size, after.push seed)

/-- Adds nodes one after the other, up to the first that cannot be added. -/
def plantAll (forest : Forest) : List Seed → Except TreeFault Forest
  | [] => .ok forest
  | seed :: others =>
    match forest.plant seed with
    | (.error fault, _) => .error fault
    | (.ok _, after) => after.plantAll others

/-- Makes a forest a tree with a node as the root. -/
def finish (forest : Forest) (root : NodeId) : Except TreeFault SyntaxTree :=
  match forest.node root with
  | .error fault => .error fault
  | .ok node => if node.parent.isSome then .error .rootHasParent else .ok { forest with root }

end Forest

end Assembly8085
