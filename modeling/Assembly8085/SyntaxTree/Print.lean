import Assembly8085.Literal
import Assembly8085.SyntaxTree.Walk

/-!
# The printed form of a tree

A printed source has one statement on a line, operands behind a comma and a space, and integers
in hexadecimal. Reading it gives a tree of the same form.
-/
namespace Assembly8085.SyntaxTree

/-- The printed form of a node, given those of its children. -/
def printNode : NodeData (List Char) → List Char
  | .source statements => statements.flatMap (· ++ ['\n'])
  | .instruction target [] => target
  | .instruction target operands => target ++ ' ' :: [',', ' '].intercalate operands
  | .label name => name ++ [':']
  | .identifier text => text
  | .integer value => Literal.render value

/-- The printed form of a node. -/
def printFrom (tree : SyntaxTree) (id : NodeId) : Except TreeFault (List Char) :=
  tree.fold (fun _ data => printNode data) id

/-- The printed form of a tree. -/
def print (tree : SyntaxTree) : Except TreeFault (List Char) :=
  tree.printFrom tree.root

end Assembly8085.SyntaxTree
