import Assembly8085.SyntaxTree.Forest

/-!
# Walks over a tree

A walk downwards makes what it finds for a node out of what it finds for its children. A walk
upwards goes from a node to its parent. Both are bounded by the number of nodes, since a child
is always older than its parent.
-/
namespace Assembly8085.SyntaxTree

variable {α : Type}

/-- Walks down from a node for a number of levels. -/
def foldWithin (tree : SyntaxTree) (combine : NodeId → NodeData α → α) :
    (levels : Nat) → NodeId → Except TreeFault α
  | 0, _ => .error .endless
  | levels + 1, id => do
    let node ← tree.node id
    let data ← node.data.traverse (foldWithin tree combine levels)
    return combine id data

/-- Combines the results for the children of each node below a node, and at last those for the
children of the node itself. The children are older, so there are no more levels than nodes
up to it. -/
def fold (tree : SyntaxTree) (combine : NodeId → NodeData α → α) (id : NodeId) :
    Except TreeFault α :=
  tree.foldWithin combine (id + 1) id

/-- The nodes at and below a node, each in front of its children, with their kinds. -/
def preorder (tree : SyntaxTree) (id : NodeId) : Except TreeFault (List (NodeId × NodeKind)) :=
  tree.fold (fun id data => (id, data.kind) :: data.children.flatten) id

/-- The children of a node in source order. -/
def children (tree : SyntaxTree) (id : NodeId) : Except TreeFault (List NodeId) :=
  (tree.node id).map fun node => node.data.children

/-- Walks up from a node for a number of steps. -/
def ancestorWithin (tree : SyntaxTree) (wanted : Node → Bool) :
    (steps : Nat) → NodeId → Except TreeFault (Option NodeId)
  | 0, _ => .error .endless
  | steps + 1, id =>
    match tree.node id with
    | .error fault => .error fault
    | .ok node =>
      if wanted node then .ok (some id)
      else match node.parent with
        | some parent => ancestorWithin tree wanted steps parent
        | none => .ok none

/-- The first of a node, its parent, the parent of that and so on which is wanted. A parent is
younger than its child, so each step but the last meets another node. -/
def ancestor (tree : SyntaxTree) (wanted : Node → Bool) (id : NodeId) :
    Except TreeFault (Option NodeId) :=
  tree.ancestorWithin wanted (tree.nodes.size + 1) id

/-- The statements of the root; a root that is no source has none. -/
def statements (tree : SyntaxTree) : List NodeId :=
  match tree.node tree.root with
  | .ok node =>
    match node.data with
    | .source statements => statements
    | _ => []
  | .error _ => []

/-- The characters of a node that is an identifier. -/
def text (tree : SyntaxTree) (id : NodeId) : Except TreeFault (Option (List Char)) :=
  (tree.node id).map fun node =>
    match node.data with
    | .identifier text => some text
    | _ => none

/-- The value of a node that is an integer. -/
def value (tree : SyntaxTree) (id : NodeId) : Except TreeFault (Option UInt64) :=
  (tree.node id).map fun node =>
    match node.data with
    | .integer value => some value
    | _ => none

end Assembly8085.SyntaxTree
