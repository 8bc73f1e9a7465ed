import Assembly8085.Proofs.Composition
import Assembly8085.Proofs.Growth
import Assembly8085.Proofs.Term

/-!
# The order of the nodes

The nodes of a tree that was read are numbered as a walk from the root meets them that looks at
children before it looks at their parent. So each node is met once, the root is the last one, and
no node hangs loose. That parents and children agree comes from how the tree was grown.
-/
namespace Assembly8085

namespace SyntaxTree

/-- The number of a node behind what a walk has found for its children. -/
def postorderNode (id : NodeId) (data : NodeData (List NodeId)) : List NodeId :=
  data.children.flatten ++ [id]

/-- The numbers of the nodes at and below a node, each behind those of its children. -/
def postorder (tree : SyntaxTree) (id : NodeId) : Except TreeFault (List NodeId) :=
  tree.fold postorderNode id

/-- A tree whose nodes are numbered in post-order, in which parents and children agree, and which
is a source of statements with their parts. -/
structure Proper (tree : SyntaxTree) : Prop where
  /-- A walk from the root that looks at children first meets all nodes in the order of their
  numbers. -/
  postorder : tree.postorder tree.root = .ok (List.range tree.nodes.size)
  /-- Children are older than their parents. -/
  older : ∀ (parent child : Nat), child ∈ tree.childrenOf parent → child < parent
  /-- The root is the last node. -/
  last : tree.nodes.size = tree.root + 1
  /-- Of all nodes, the root alone has no parent. -/
  parentless : ∀ id : Nat, id < tree.nodes.size → (tree.parent? id = none ↔ id = tree.root)
  /-- A node is the parent of exactly its children. -/
  linked : ∀ child parent, tree.parent? child = some parent ↔ child ∈ tree.childrenOf parent
  /-- A child is a child once. -/
  once : ∀ child parent, child ∈ tree.childrenOf parent →
    (tree.childrenOf parent).count child = 1
  /-- The root is a source. -/
  source : tree.kind? tree.root = some .source
  /-- The statements of a source are instructions and labels. -/
  statements : ∀ id node statements, tree.node id = .ok node → node.data = .source statements →
    ∀ statement ∈ statements,
      tree.kind? statement = some .instruction ∨ tree.kind? statement = some .label
  /-- The target of an instruction is an identifier, and its operands are identifiers and
  integers. -/
  instructions : ∀ id node target operands, tree.node id = .ok node →
    node.data = .instruction target operands →
      tree.kind? target = some .identifier ∧
        ∀ operand ∈ operands,
          tree.kind? operand = some .identifier ∨ tree.kind? operand = some .integer
  /-- The name of a label is an identifier. -/
  labels : ∀ id node name, tree.node id = .ok node → node.data = .label name →
    tree.kind? name = some .identifier

end SyntaxTree

namespace NodeKind

/-- Statements are instructions and labels. -/
theorem isStatement_iff {kind : NodeKind} :
    kind.isStatement = true ↔ kind = .instruction ∨ kind = .label := by
  cases kind <;> simp [isStatement]

/-- Operands are identifiers and integers. -/
theorem isExpression_iff {kind : NodeKind} :
    kind.isExpression = true ↔ kind = .identifier ∨ kind = .integer := by
  cases kind <;> simp [isExpression]

/-- An operand is no statement. -/
theorem isStatement_eq_false {kind : NodeKind} (expression : kind.isExpression = true) :
    kind.isStatement = false := by
  rcases isExpression_iff.mp expression with rfl | rfl <;> rfl

end NodeKind

/-- A walk that looks at children first meets a leaf alone. -/
theorem Token.postorderNode_content (id : NodeId) (token : Token) :
    SyntaxTree.postorderNode id token.content = [id] := by
  simp [SyntaxTree.postorderNode]

/-- A walk that looks at children first meets the leaves of a statement and then the
statement. -/
theorem Statement.fold_postorderNode (base : NodeId) (statement : Statement) :
    statement.fold SyntaxTree.postorderNode base =
      List.range' base (statement.leaves.length + 1) := by
  cases statement with
  | label name stop =>
    simp only [fold, Token.postorderNode_content]
    rfl
  | instruction target operands stop =>
    have each : ((operands.zipIdx (base + 1)).map fun placed =>
        SyntaxTree.postorderNode placed.2 placed.1.content).flatten =
        List.range' (base + 1) operands.length := by
      simp only [Token.postorderNode_content]
      rw [← List.flatMap_def, ← List.map_eq_flatMap]
      exact List.zipIdx_map_snd (base + 1) operands
    rw [fold, Token.postorderNode_content, SyntaxTree.postorderNode, NodeData.children,
      List.flatten_cons, each, List.range'_concat]
    simp [id, leaves, List.range'_succ]

namespace Program

/-- A walk that looks at children first meets the nodes of statements in order. -/
theorem foldFrom_postorderNode (base : NodeId) (statements : List Statement) :
    (foldFrom SyntaxTree.postorderNode base statements).flatten =
      List.range' base (count statements) := by
  induction statements generalizing base with
  | nil => rfl
  | cons statement others ih =>
    rw [foldFrom, List.flatten_cons, Statement.fold_postorderNode, ih, count, Statement.id,
      Nat.add_assoc base, List.range'_append_1]

/-- The nodes of the tree of a program are numbered in post-order. -/
theorem postorder_grown (program : Program) :
    program.grown.postorder program.grown.root = .ok (List.range program.grown.nodes.size) := by
  rw [SyntaxTree.postorder, fold_grown, fold, size_nodes_grown]
  change Except.ok (List.flatten _ ++ [program.root]) = .ok (List.range (program.root + 1))
  rw [NodeData.children, foldFrom_postorderNode, List.range_succ, List.range_eq_range']
  rfl

/-- The nodes of statements have a parent. -/
theorem parent_of_mem_nodesFrom {base parent : NodeId} {statements : List Statement} {node : Node}
    (member : node ∈ nodesFrom base (some parent) statements) : node.parent ≠ none := by
  induction statements generalizing base with
  | nil => contradiction
  | cons statement others ih =>
    simp only [nodesFrom, Statement.nodes, List.mem_append, List.mem_map, List.mem_singleton]
      at member
    rcases member with (⟨leaf, _, rfl⟩ | rfl) | behind
    · simp [Token.node]
    · simp [Statement.node]
    · exact ih behind

/-- Of all nodes of the tree of a program, the root alone has no parent. -/
theorem parent?_grown_eq_none_iff (program : Program) {id : Nat}
    (there : id < program.grown.nodes.size) :
    program.grown.parent? id = none ↔ id = program.grown.root := by
  have root : program.grown.root = program.root := rfl
  rw [size_nodes_grown, root] at there
  rw [root]
  rcases Nat.lt_succ_iff_lt_or_eq.mp there with below | rfl
  · have inside : id < (nodesFrom 0 (some program.root) program.statements).length := by
      rw [length_nodesFrom]
      exact below
    have branch : program.grown.nodes[id]? =
        (nodesFrom 0 (some program.root) program.statements)[id]? := by
      simp only [grown, Forest.ofList, nodes, List.getElem?_toArray]
      exact List.getElem?_append_left inside
    have parent := parent_of_mem_nodesFrom (List.getElem_mem inside)
    simp only [Forest.parent?, branch, List.getElem?_eq_getElem inside, Option.bind_some]
    exact iff_of_false parent (Nat.ne_of_lt below)
  · have last := Forest.node_eq_ok_iff.mp program.node_root_grown
    rw [root] at last
    simp [Forest.parent?, last, node]

/-- Parents and children agree in the tree of a program. -/
theorem consistent_of_tree {program : Program} {tree : SyntaxTree}
    (found : program.tree = .ok tree) : tree.Consistent := by
  rw [Program.tree] at found
  split at found
  · rename_i forest planted
    exact Forest.consistent_of_finish planted found
  · simp at found

end Program

/-- A tree that is read is that of the program ahead. -/
theorem Session.eq_grown_of_readTree {session : Session} {tree : SyntaxTree}
    (found : session.readTree.1 = .ok tree) : session.program.grown = tree := by
  rw [readTree_eq] at found
  cases lived : (session.live (Move.parsing session.cursor session.ahead)).1 with
  | error failure => simp [lived, Except.map] at found
  | ok done => simpa [lived, Except.map] using found

/-- Whatever was asked of a session before, a tree that is read of what is ahead is numbered in
post-order, its parents and children agree, and it is a source of statements with their parts. -/
theorem proper_of_read (session : Session) (tree : SyntaxTree)
    (found : session.readTree.1 = .ok tree ∨ session.parse.1 = .ok tree) : tree.Proper := by
  rw [Session.fst_parse, or_self] at found
  obtain rfl := Session.eq_grown_of_readTree found
  have grown := Program.tree_eq (Program.wellFormed_ofLexemes session.cursor session.ahead)
  have consistent : session.program.grown.Consistent := Program.consistent_of_tree grown
  have fits (id : NodeId) (node : Node) (there : session.program.grown.node id = .ok node) :
      session.program.grown.Fits node.data :=
    consistent.fits id node (Forest.node_eq_ok_iff.mp there)
  refine
    { postorder := session.program.postorder_grown
      older := consistent.older
      last := session.program.size_nodes_grown
      parentless := fun id there => session.program.parent?_grown_eq_none_iff there
      linked := consistent.linked
      once := fun child parent member => (consistent.nodup parent).count.trans (if_pos member)
      source := ?_
      statements := ?_
      instructions := ?_
      labels := ?_ }
  · simp [Forest.kind?, Forest.node_eq_ok_iff.mp session.program.node_root_grown, Program.node,
      Node.kind, NodeData.kind]
  · intro id node statements there source statement member
    have belongs := fits id node there
    rw [source] at belongs
    obtain ⟨kind, here, right⟩ := belongs statement member
    rcases NodeKind.isStatement_iff.mp right with rfl | rfl
    · exact .inl here
    · exact .inr here
  · intro id node target operands there instruction
    have belongs := fits id node there
    rw [instruction] at belongs
    obtain ⟨⟨kind, here, right⟩, each⟩ := belongs
    obtain rfl := of_decide_eq_true right
    refine ⟨here, fun operand member => ?_⟩
    obtain ⟨kind, there, expression⟩ := each operand member
    rcases NodeKind.isExpression_iff.mp expression with rfl | rfl
    · exact .inl there
    · exact .inr there
  · intro id node name there label
    have belongs := fits id node there
    rw [label] at belongs
    obtain ⟨kind, here, right⟩ := belongs
    obtain rfl := of_decide_eq_true right
    exact here

/-- A label and an instruction on one line, which breaks off behind a comma. -/
theorem proper_of_read_recovered :
    let tree : SyntaxTree :=
      { nodes := #[
          { data := .identifier ['a'], position := 0, length := 1, parent := some 1 },
          { data := .label 0, position := 0, length := 2, parent := some 5 },
          { data := .identifier ['b'], position := 2, length := 1, parent := some 4 },
          { data := .integer 1, position := 4, length := 1, parent := some 4 },
          { data := .instruction 2 [3], position := 2, length := 3, parent := some 5 },
          { data := .source [1, 4], position := 0, length := 7, parent := none }],
        root := 5 }
    (parseSource "a" "a:b 1,\n".toList .debug).1 = .ok tree ∧ tree.Proper := by
  intro tree
  let lexemes : List Lexeme :=
    [.token .identifier ['a'], .token .colon [':'], .token .identifier ['b'], .token .space [' '],
      .token .integer ['1'], .token .delimiter [','], .token .terminator ['\n']]
  have munched : Lexeme.Munched lexemes := by decide
  have cut : Lexeme.ofText "a:b 1,\n".toList = lexemes := Lexeme.ofText_flatMap munched
  have found : (parseSource "a" "a:b 1,\n".toList .debug).1 = .ok tree := by
    rw [fst_parseSource_debug, cut]
    exact congrArg Except.ok (by decide)
  exact ⟨found, proper_of_read _ tree (.inr found)⟩

end Assembly8085
