import Assembly8085.Proofs.Term

/-!
# Outlines

The outline of a tree lists the nodes that a walk from the root meets, each in front of its
children: its kind, the number of its children, and its text or its value. Numbers and places are
left out. All else is there: the numbers of children tell where the entries of one statement end
and those of the next begin, so an outline determines the terms of the statements.
-/
namespace Assembly8085

/-- What an outline tells about a node. -/
structure Entry where
  /-- What the node is. -/
  kind : NodeKind
  /-- The number of its children. -/
  children : Nat
  /-- The characters of an identifier. -/
  text : Option (List Char)
  /-- The value of an integer. -/
  value : Option UInt64
  deriving DecidableEq

/-- The entry of a node that holds the data. -/
def NodeData.entry {γ : Type} (data : NodeData γ) : Entry where
  kind := data.kind
  children := data.children.length
  text :=
    match data with
    | .identifier text => some text
    | _ => none
  value :=
    match data with
    | .integer value => some value
    | _ => none

namespace SyntaxTree

/-- The entry of a node in front of the outlines of its children. -/
def outlineNode (data : NodeData (List Entry)) : List Entry := data.entry :: data.children.flatten

/-- The entries of the nodes at and below the root, each in front of those of its children. -/
def outline (tree : SyntaxTree) : Except TreeFault (List Entry) :=
  tree.fold (fun _ => outlineNode) tree.root

end SyntaxTree

open SyntaxTree (outlineNode)

namespace Token

/-- The entry of the leaf of a token. -/
def entry (token : Token) : Entry := (token.content : NodeData (List Entry)).entry

/-- The outline of a leaf is its entry. -/
theorem build_outlineNode (token : Token) : token.build outlineNode = [token.entry] := by
  simp [build, outlineNode, entry]

/-- The entry of a leaf determines its term. -/
theorem build_eq_of_entry_eq (first second : Token) (same : first.entry = second.entry) :
    first.build Term.node = second.build Term.node := by
  unfold entry content at same
  unfold build content
  split at same <;> split at same <;> simp_all [NodeData.entry, NodeData.kind]

end Token

namespace Statement

/-- The outline of a statement is its own entry and then those of its leaves. -/
theorem build_outlineNode (statement : Statement) :
    statement.build outlineNode = (statement.data 0).entry :: statement.leaves.map Token.entry := by
  cases statement with
  | label name stop =>
    simp [build, outlineNode, data, leaves, NodeData.entry, NodeData.kind, NodeData.children,
      Token.build_outlineNode]
  | instruction target operands stop =>
    have each : (operands.map fun operand => [operand.entry]).flatten =
        operands.map Token.entry := by
      rw [← List.flatMap_def, List.map_eq_flatMap]
    simp [build, outlineNode, data, leaves, NodeData.entry, NodeData.kind, NodeData.children,
      Token.build_outlineNode, each]

/-- Statements of one kind whose leaves have the same terms have the same term. -/
theorem build_eq_of_leaves {first second : Statement}
    (kind : (first.data 0).kind = (second.data 0).kind)
    (leaves : first.leaves.map (·.build Term.node) = second.leaves.map (·.build Term.node)) :
    first.build Term.node = second.build Term.node := by
  cases first <;> cases second <;>
    simp_all [data, NodeData.kind, Statement.leaves, build]

/-- Where the outline of a statement ends is told by the outline, so two statements with anything
behind them have the same term if all of it is the same. -/
theorem outline_append_inj {first second : Statement} {rest other : List Entry}
    (same : first.build outlineNode ++ rest = second.build outlineNode ++ other) :
    first.build Term.node = second.build Term.node ∧ rest = other := by
  rw [build_outlineNode, build_outlineNode, List.cons_append, List.cons_append,
    List.cons.injEq] at same
  obtain ⟨entry, behind⟩ := same
  have kind : (first.data 0).kind = (second.data 0).kind := congrArg Entry.kind entry
  have length : first.leaves.length = second.leaves.length := by
    have children := congrArg Entry.children entry
    simpa [NodeData.entry, children_data] using children
  obtain ⟨entries, rest⟩ := List.append_inj behind (by simpa using length)
  have leaves := map_eq_of_map_eq Token.build_eq_of_entry_eq entries
  exact ⟨build_eq_of_leaves kind leaves, rest⟩

/-- The outlines of statements in a row determine their terms. -/
theorem terms_eq_of_outlines_eq {first second : List Statement}
    (same : first.flatMap (·.build outlineNode) = second.flatMap (·.build outlineNode)) :
    first.map (·.build Term.node) = second.map (·.build Term.node) := by
  induction first generalizing second with
  | nil =>
    cases second with
    | nil => rfl
    | cons other more => simp [build_outlineNode] at same
  | cons statement others ih =>
    cases second with
    | nil => simp [build_outlineNode] at same
    | cons other more =>
      rw [List.flatMap_cons, List.flatMap_cons] at same
      obtain ⟨here, behind⟩ := outline_append_inj same
      rw [List.map_cons, List.map_cons, here, ih behind]

end Statement

/-- The outline of a program determines the terms of its statements. -/
theorem Program.terms_eq_of_outline_eq {first second : Program}
    (same : first.build outlineNode = second.build outlineNode) :
    first.statements.map (·.build Term.node) = second.statements.map (·.build Term.node) := by
  have behind := (List.cons.inj same).2
  apply Statement.terms_eq_of_outlines_eq
  rw [List.flatMap_def, List.flatMap_def]
  exact behind

end Assembly8085
