import Assembly8085.Program
import Assembly8085.Proofs.Forest

/-!
# The tree of a program

Growing the tree of a program cannot fail as long as each statement starts with an identifier.
The nodes it ends up with are listed here outright: the leaves of a statement, each under the
statement, then the statement, under the source, and at last the source.
-/
namespace Assembly8085

variable {γ δ α : Type}

namespace Token

/-- What the leaf of a token holds, over any type of children, since it has none. -/
def content (token : Token) : NodeData γ :=
  if token.kind = .identifier then .identifier token.text
  else .integer ((Literal.decode token.text).getD 0)

/-- A leaf holds the content of its token. -/
theorem leaf_eq_content (token : Token) : token.leaf = token.content := rfl

/-- There are no children in the content of a token to be replaced. -/
@[simp] theorem map_content (token : Token) (f : γ → δ) :
    (token.content : NodeData γ).map f = token.content := by
  unfold content
  split <;> rfl

/-- The content of a token has no children. -/
@[simp] theorem children_content (token : Token) : (token.content : NodeData γ).children = [] := by
  unfold content
  split <;> rfl

/-- The content of a token can be an operand. -/
theorem isExpression_kind_content (token : Token) :
    (token.content : NodeData γ).kind.isExpression = true := by
  unfold content
  split <;> rfl

/-- The leaf of a token. -/
def node (token : Token) (parent : Option NodeId) : Node := { toSeed := token.seed, parent }

/-- The leaf of an identifier is an identifier. -/
theorem kind_node_of_identifier {token : Token} (identifier : token.kind = .identifier)
    (parent : Option NodeId) : (token.node parent).kind = .identifier := by
  simp [node, seed, leaf, Node.kind, identifier, NodeData.kind]

end Token

namespace Statement

/-- The token that a statement starts with. -/
def head : Statement → Token
  | .label name _ => name
  | .instruction target _ _ => target

/-- The tokens behind the first that its tree keeps. -/
def operands : Statement → List Token
  | .label _ _ => []
  | .instruction _ operands _ => operands

/-- A statement starts with an identifier, and its operands are identifiers and integers. -/
structure WellFormed (statement : Statement) : Prop where
  /-- The name or the target is an identifier. -/
  head : statement.head.kind = .identifier
  /-- Each operand is an identifier or an integer. -/
  operands : ∀ operand ∈ statement.operands, operand.kind.isLiteral = true

/-- The leaves are the first token and the operands. -/
theorem leaves_eq (statement : Statement) :
    statement.leaves = statement.head :: statement.operands := by
  cases statement <;> rfl

/-- A statement starts with its first token. -/
theorem start_eq (statement : Statement) : statement.start = statement.head.position := by
  cases statement <;> rfl

/-- The node of a statement whose first leaf has the given number. -/
def node (base : NodeId) (parent : Option NodeId) (statement : Statement) : Node :=
  { data := statement.data base, position := statement.start, length := statement.length, parent }

/-- The node of a statement that does not end in front of its start ends with the statement. -/
theorem stop_node {statement : Statement} (forward : statement.start ≤ statement.stop)
    (base : NodeId) (parent : Option NodeId) :
    (statement.node base parent).stop = statement.stop :=
  Nat.add_sub_cancel' forward

/-- The nodes of a statement, the first leaf having the given number. -/
def nodes (base : NodeId) (parent : Option NodeId) (statement : Statement) : List Node :=
  statement.leaves.map (·.node (some (statement.id base))) ++ [statement.node base parent]

/-- A statement has a node for each leaf and one for itself. -/
@[simp] theorem length_nodes (base : NodeId) (parent : Option NodeId) (statement : Statement) :
    (statement.nodes base parent).length = statement.leaves.length + 1 := by
  simp [nodes]

/-- The children of a statement are its leaves. -/
theorem children_data (base : NodeId) (statement : Statement) :
    (statement.data base).children = List.range' base statement.leaves.length := by
  cases statement with
  | label name stop => rfl
  | instruction target operands stop => simp [data, NodeData.children, leaves, List.range'_succ]

/-- The node of a statement is a statement. -/
theorem isStatement_kind_node (base : NodeId) (parent : Option NodeId) (statement : Statement) :
    (statement.node base parent).kind.isStatement = true := by
  cases statement <;> rfl

end Statement

namespace Program

/-- The number of nodes of statements. -/
def count : List Statement → Nat
  | [] => 0
  | statement :: others => statement.leaves.length + 1 + count others

/-- The nodes of statements, the first leaf having the given number. -/
def nodesFrom (base : NodeId) (parent : Option NodeId) : List Statement → List Node
  | [] => []
  | statement :: others =>
    statement.nodes base parent ++ nodesFrom (statement.id base + 1) parent others

/-- Statements have as many nodes as are counted. -/
@[simp] theorem length_nodesFrom (base : NodeId) (parent : Option NodeId)
    (statements : List Statement) :
    (nodesFrom base parent statements).length = count statements := by
  induction statements generalizing base with
  | nil => rfl
  | cons statement others ih => simp [nodesFrom, count, ih]

/-- The number of the source, which is the last node. -/
def root (program : Program) : NodeId := count program.statements

/-- The node of the source. -/
def node (program : Program) : Node :=
  { data := .source (idsFrom 0 program.statements), position := 0, length := program.stop,
    parent := none }

/-- The nodes of a program. -/
def nodes (program : Program) : List Node :=
  nodesFrom 0 (some program.root) program.statements ++ [program.node]

/-- The tree that has the nodes of a program. -/
def grown (program : Program) : SyntaxTree :=
  { toForest := .ofList program.nodes, root := program.root }

end Program

namespace Forest

/-- Leaves are planted behind what is there. -/
theorem plantAll_leaves (before : List Node) (tokens : List Token) (others : List Seed) :
    (ofList before).plantAll (tokens.map Token.seed ++ others) =
      (ofList (before ++ tokens.map (·.node none))).plantAll others := by
  induction tokens generalizing before with
  | nil => simp
  | cons token rest ih =>
    have fits : (ofList before).misfitIn? token.seed.data = none := by
      simp only [Token.seed, Token.leaf]
      split <;> rfl
    have childless : token.seed.data.children = [] := token.children_content
    have later := ih (before ++ [token.node none])
    simp only [List.map_cons, List.cons_append, plantAll, plant, fits, childless, adopt,
      push_ofList]
    simpa [Token.node] using later

/-- The children of a statement fit once its leaves are there. -/
theorem misfitIn?_data {forest : Forest} {base : NodeId} {statement : Statement}
    (wellFormed : statement.WellFormed)
    (row : forest.HoldsAt base (statement.leaves.map (·.node none))) :
    forest.misfitIn? (statement.data base) = none := by
  rw [Statement.leaves_eq] at row
  have headFits : forest.misfit? (· = .identifier) .notIdentifier base = none :=
    misfit?_eq_none row.1 (by simpa using Token.kind_node_of_identifier wellFormed.head none)
  have expressions : ∀ node ∈ statement.operands.map (Token.node · none),
      NodeKind.isExpression node.kind = true := by
    intro node member
    obtain ⟨operand, _, rfl⟩ := List.mem_map.mp member
    exact operand.isExpression_kind_content
  have operandsFit := findSome?_misfit?_range' .notExpression row.2 expressions
  cases statement with
  | label name stop => exact headFits
  | instruction target operands stop =>
    simp only [Statement.data, misfitIn?, headFits, Option.none_or]
    simpa [Statement.operands] using operandsFit

/-- A statement is planted behind what is there. -/
theorem plantAll_statement (before : List Node) {statement : Statement}
    (wellFormed : statement.WellFormed) (others : List Seed) :
    (ofList before).plantAll (statement.seeds before.length ++ others) =
      (ofList (before ++ statement.nodes before.length none)).plantAll others := by
  rw [Statement.seeds, List.append_assoc, plantAll_leaves, List.singleton_append, plantAll]
  have fits := misfitIn?_data wellFormed
    (by simpa using holdsAt_ofList before (statement.leaves.map (·.node none)) [])
  have adopted := adopt_range' before (statement.leaves.map (·.node none)) []
    (by simp [Token.node]) (statement.id before.length) []
  simp only [List.append_nil, List.length_map, adopt] at adopted
  simp only [plant, fits, Statement.children_data, size_nodes_ofList, List.length_append,
    List.length_map]
  rw [show before.length + statement.leaves.length = statement.id before.length from rfl, adopted]
  simp [push_ofList, Statement.nodes, Statement.node, Token.node, Node.under, Function.comp_def]

/-- Statements are planted behind what is there. -/
theorem plantAll_seedsFrom (before : List Node) {statements : List Statement}
    (wellFormed : ∀ statement ∈ statements, statement.WellFormed) (others : List Seed) :
    (ofList before).plantAll (Program.seedsFrom before.length statements ++ others) =
      (ofList (before ++ Program.nodesFrom before.length none statements)).plantAll others := by
  induction statements generalizing before with
  | nil => simp [Program.seedsFrom, Program.nodesFrom]
  | cons statement rest ih =>
    have first := plantAll_statement before (wellFormed statement (List.mem_cons_self ..))
      (Program.seedsFrom (statement.id before.length + 1) rest ++ others)
    have later := ih (before ++ statement.nodes before.length none)
      fun other member => wellFormed other (List.mem_cons_of_mem _ member)
    simp only [List.length_append, Statement.length_nodes] at later
    rw [Program.seedsFrom, List.append_assoc, first, Program.nodesFrom, ← List.append_assoc]
    exact later

/-- The statements of a source fit into it. -/
theorem findSome?_misfit?_idsFrom {forest : Forest} {base : NodeId} {parent : Option NodeId}
    {statements : List Statement}
    (row : forest.HoldsAt base (Program.nodesFrom base parent statements)) :
    (Program.idsFrom base statements).findSome?
      (forest.misfit? NodeKind.isStatement .notStatement) = none := by
  induction statements generalizing base with
  | nil => rfl
  | cons statement others ih =>
    obtain ⟨here, behind⟩ := holdsAt_append.mp row
    obtain ⟨_, itself, _⟩ := holdsAt_append.mp here
    rw [List.length_map, show base + statement.leaves.length = statement.id base from rfl] at itself
    rw [Program.idsFrom, List.findSome?_cons,
      misfit?_eq_none itself (statement.isStatement_kind_node base parent)]
    rw [Statement.length_nodes] at behind
    exact ih behind

/-- The statements of a source become its children. -/
theorem adopt_idsFrom (before : List Node) (statements : List Statement) (parent : NodeId) :
    (ofList (before ++ Program.nodesFrom before.length none statements)).adopt parent
        (Program.idsFrom before.length statements) =
      (.ok (), ofList (before ++ Program.nodesFrom before.length (some parent) statements)) := by
  induction statements generalizing before with
  | nil => rfl
  | cons statement others ih =>
    -- The links are set one by one, so what stands behind a statement still has none.
    have first := adopt_cons
      (before ++ statement.leaves.map (·.node (some (statement.id before.length))))
      (Program.nodesFrom (statement.id before.length + 1) none others)
      (statement.node before.length none) rfl parent
      (Program.idsFrom (statement.id before.length + 1) others)
    have later := ih (before ++ statement.nodes before.length (some parent))
    simp only [List.length_append, List.length_map, Statement.length_nodes, ← Nat.add_assoc]
      at first later
    rw [show before.length + statement.leaves.length = statement.id before.length from rfl]
      at first later
    simp only [Program.nodesFrom, Program.idsFrom, Statement.nodes, List.append_assoc,
      List.singleton_append] at first later ⊢
    rw [first]
    exact later

end Forest

namespace Program

/-- Each statement of a program is well formed. -/
def WellFormed (program : Program) : Prop :=
  ∀ statement ∈ program.statements, statement.WellFormed

/-- The tree of a program can be grown, and it has the nodes of the program. -/
theorem tree_eq {program : Program} (wellFormed : program.WellFormed) :
    program.tree = .ok program.grown := by
  have statements := Forest.plantAll_seedsFrom [] wellFormed
    [⟨.source (idsFrom 0 program.statements), 0, program.stop⟩]
  have fits := Forest.findSome?_misfit?_idsFrom
    (Forest.holdsAt_zero (nodesFrom 0 none program.statements))
  have adopted := Forest.adopt_idsFrom [] program.statements program.root
  simp only [List.length_nil, List.nil_append] at statements adopted
  have planted : Forest.empty.plantAll program.seeds = .ok (.ofList program.nodes) := by
    rw [seeds, show Forest.empty = Forest.ofList [] from rfl, statements]
    simp only [Forest.plantAll, Forest.plant, Forest.misfitIn?, fits, Forest.size_nodes_ofList,
      length_nodesFrom, NodeData.children]
    rw [show count program.statements = program.root from rfl, adopted]
    simp [Forest.push_ofList, nodes, node]
  have last : (Forest.ofList program.nodes).node program.root = .ok program.node := by
    have found := Forest.node_ofList (nodesFrom 0 (some program.root) program.statements) []
      program.node
    rw [length_nodesFrom] at found
    exact found
  have size : program.nodes.length - 1 = program.root := by simp [nodes, root]
  simp only [tree, planted, Forest.size_nodes_ofList, size, Forest.finish, last]
  rfl

/-- The numbers of statements are below that of what comes behind them. -/
theorem lt_of_mem_idsFrom {base : Nat} {statements : List Statement} {id : Nat}
    (member : id ∈ idsFrom base statements) : id < base + count statements := by
  induction statements generalizing base with
  | nil => simp [idsFrom] at member
  | cons statement others ih =>
    simp only [idsFrom, List.mem_cons, Statement.id] at member
    simp only [count]
    rcases member with rfl | behind
    · omega
    · have bound := ih behind
      omega

/-- Children are older than their parents among the nodes of statements. -/
theorem ordered_nodesFrom (base : Nat) (parent : Option NodeId) (statements : List Statement)
    (placed : Node × Nat) (member : placed ∈ (nodesFrom base parent statements).zipIdx base)
    (child : Nat) (isChild : child ∈ placed.1.data.children) : child < placed.2 := by
  induction statements generalizing base with
  | nil => simp [nodesFrom] at member
  | cons statement others ih =>
    rw [nodesFrom, List.zipIdx_append, List.mem_append] at member
    rcases member with here | behind
    · rw [Statement.nodes, List.zipIdx_append, List.mem_append] at here
      rcases here with leaf | itself
      · obtain ⟨token, _, same⟩ := List.mem_map.mp (List.fst_mem_of_mem_zipIdx leaf)
        simp [← same, Token.node, Token.seed, Token.leaf_eq_content] at isChild
      · simp only [List.length_map, List.zipIdx_singleton, List.mem_singleton] at itself
        subst itself
        simp only [Statement.node, Statement.children_data, List.mem_range'_1] at isChild
        exact isChild.2
    · exact ih _ (by simpa [Statement.id, Nat.add_assoc] using behind)

/-- Children are older than their parents in the tree of a program. -/
theorem ordered_grown (program : Program) : program.grown.Ordered := by
  apply Forest.ordered_ofList
  intro placed member child isChild
  rw [nodes, List.zipIdx_append, List.mem_append] at member
  rcases member with here | root
  · exact ordered_nodesFrom 0 _ _ placed here child isChild
  · simp only [length_nodesFrom, List.zipIdx_singleton, List.mem_singleton] at root
    subst root
    exact lt_of_mem_idsFrom isChild

end Program

end Assembly8085
