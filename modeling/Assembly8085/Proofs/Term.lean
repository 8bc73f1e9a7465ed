import Assembly8085.SyntaxTree.Print
import Assembly8085.Proofs.ProgramTree

/-!
# Terms

A term is a tree without its numbers and places: what a node holds, with terms for children.
A walk over the tree of a program can be read off the statements; here it is done for any walk,
and then for the term and for the printed form.
-/
namespace Assembly8085

variable {α : Type}

namespace Statement

/-- What a walk finds for a statement whose first leaf has the given number. -/
def fold (combine : NodeId → NodeData α → α) (base : NodeId) (statement : Statement) : α :=
  combine (statement.id base) <|
    match statement with
    | .label name _ => .label (combine base name.content)
    | .instruction target operands _ =>
      .instruction (combine base target.content)
        ((operands.zipIdx (base + 1)).map fun placed => combine placed.2 placed.1.content)

end Statement

namespace Program

/-- What a walk finds for statements, the first leaf having the given number. -/
def foldFrom (combine : NodeId → NodeData α → α) (base : NodeId) : List Statement → List α
  | [] => []
  | statement :: others =>
    statement.fold combine base :: foldFrom combine (statement.id base + 1) others

/-- What a walk finds for a program. -/
def fold (combine : NodeId → NodeData α → α) (program : Program) : α :=
  combine program.root (.source (foldFrom combine 0 program.statements))

end Program

namespace SyntaxTree

variable {tree : SyntaxTree} (ordered : tree.Ordered) (combine : NodeId → NodeData α → α)

include ordered

/-- A walk finds for a leaf what it makes of the content of its token. -/
theorem fold_leaf {id : NodeId} {token : Token} {parent : Option NodeId}
    (there : tree.node id = .ok (token.node parent)) :
    tree.fold combine id = .ok (combine id token.content) := by
  apply fold_eq ordered there
  simp only [Token.node, Token.seed, Token.leaf, Token.content]
  split <;> rfl

/-- A walk finds for leaves in a row what it makes of their contents. -/
theorem mapM_fold_leaves {base : NodeId} {tokens : List Token} {parent : Option NodeId}
    (row : tree.HoldsAt base (tokens.map (·.node parent))) :
    (List.range' base tokens.length).mapM (tree.fold combine) =
      .ok ((tokens.zipIdx base).map fun placed => combine placed.2 placed.1.content) := by
  induction tokens generalizing base with
  | nil => rfl
  | cons token others ih =>
    rw [List.length_cons, List.range'_succ, List.mapM_cons, fold_leaf ordered combine row.1,
      ih row.2]
    rfl

/-- A walk finds for a statement in a tree what can be read off the statement. -/
theorem fold_statement {base : NodeId} {statement : Statement} {parent : Option NodeId}
    (row : tree.HoldsAt base (statement.nodes base parent)) :
    tree.fold combine (statement.id base) = .ok (statement.fold combine base) := by
  obtain ⟨leaves, itself, _⟩ := Forest.holdsAt_append.mp row
  rw [List.length_map] at itself
  rw [Statement.leaves_eq] at leaves
  have head := fold_leaf ordered combine leaves.1
  have operands := mapM_fold_leaves ordered combine leaves.2
  apply fold_eq ordered itself
  cases statement with
  | label name stop =>
    simp only [Statement.head] at head
    simp only [Statement.node, Statement.data, NodeData.traverse, head]
    rfl
  | instruction target tokens stop =>
    simp only [Statement.head] at head
    simp only [Statement.operands] at operands
    simp only [Statement.node, Statement.data, NodeData.traverse, head, operands]
    rfl

/-- A walk finds for statements in a tree what can be read off them. -/
theorem mapM_fold_statements {base : NodeId} {statements : List Statement}
    {parent : Option NodeId} (row : tree.HoldsAt base (Program.nodesFrom base parent statements)) :
    (Program.idsFrom base statements).mapM (tree.fold combine) =
      .ok (Program.foldFrom combine base statements) := by
  induction statements generalizing base with
  | nil => rfl
  | cons statement others ih =>
    obtain ⟨here, behind⟩ := Forest.holdsAt_append.mp row
    rw [Statement.length_nodes, ← Nat.add_assoc,
      show base + statement.leaves.length = statement.id base from rfl] at behind
    rw [Program.idsFrom, List.mapM_cons, fold_statement ordered combine here, ih behind]
    rfl

end SyntaxTree

/-- A walk over the tree of a program finds what can be read off the program. -/
theorem Program.fold_grown (program : Program) (combine : NodeId → NodeData α → α) :
    program.grown.fold combine program.grown.root = .ok (program.fold combine) := by
  have ordered := program.ordered_grown
  obtain ⟨statements, root, _⟩ := Forest.holdsAt_append.mp (Forest.holdsAt_zero program.nodes)
  rw [length_nodesFrom, Nat.zero_add] at root
  have found := SyntaxTree.mapM_fold_statements ordered combine statements
  apply SyntaxTree.fold_eq ordered root
  simp only [node, NodeData.traverse, found]
  rfl

section Build

variable (make : NodeData α → α)

/-- What is made of the leaf of a token by what is made of data, whatever the numbers. -/
def Token.build (token : Token) : α := make token.content

/-- What is made of a statement. -/
def Statement.build : Statement → α
  | .label name _ => make (.label (name.build make))
  | .instruction target operands _ =>
    make (.instruction (target.build make) (operands.map (·.build make)))

/-- What is made of a program. -/
def Program.build (program : Program) : α :=
  make (.source (program.statements.map (·.build make)))

/-- A walk that pays no heed to numbers finds the same for a statement anywhere. -/
theorem Statement.fold_eq_build (base : NodeId) (statement : Statement) :
    statement.fold (fun _ => make) base = statement.build make := by
  cases statement with
  | label name stop => rfl
  | instruction target operands stop =>
    have each : ((operands.zipIdx (base + 1)).map fun placed => make placed.1.content) =
        operands.map (·.build make) := by
      rw [← List.zipIdx_map_fst (base + 1) operands, List.map_map]
      simp [Function.comp_def, Token.build]
    simp only [fold, build, each]
    rfl

/-- A walk that pays no heed to numbers finds for a program what is made of it. -/
theorem Program.fold_grown_build (program : Program) :
    program.grown.fold (fun _ => make) program.grown.root = .ok (program.build make) := by
  have each (base : NodeId) (statements : List Statement) :
      foldFrom (fun _ => make) base statements = statements.map (·.build make) := by
    induction statements generalizing base with
    | nil => rfl
    | cons statement others ih =>
      simp only [foldFrom, List.map_cons, Statement.fold_eq_build, ih]
  rw [fold_grown, fold, each]
  rfl

end Build

/-- A tree without its numbers and places. -/
inductive Term
  /-- What a node holds, with terms for its children. -/
  | node (data : NodeData Term)

/-- The term of a tree. -/
def SyntaxTree.term (tree : SyntaxTree) : Except TreeFault Term :=
  tree.fold (fun _ => .node) tree.root

/-- The tree of a program has the term of the program. -/
theorem Program.term_grown (program : Program) :
    program.grown.term = .ok (program.build Term.node) :=
  program.fold_grown_build Term.node

/-- The tree of a program prints as the program does. -/
theorem Program.print_grown (program : Program) :
    program.grown.print = .ok (program.build SyntaxTree.printNode) :=
  program.fold_grown_build SyntaxTree.printNode

/-- Lists with the same images have the same images under what the first images determine. -/
theorem map_eq_of_map_eq {β γ δ : Type} {f : β → γ} {g : β → δ}
    (determines : ∀ first second, f first = f second → g first = g second)
    {first second : List β} (same : first.map f = second.map f) : first.map g = second.map g := by
  induction first generalizing second with
  | nil => simpa using same
  | cons item others ih =>
    cases second with
    | nil => simp at same
    | cons other more =>
      rw [List.map_cons, List.map_cons, List.cons.injEq] at same
      rw [List.map_cons, List.map_cons, determines item other same.1, ih same.2]

/-- The term of a leaf determines its content. -/
theorem Token.content_eq_of_build_eq {γ : Type} (first second : Token)
    (same : first.build Term.node = second.build Term.node) :
    (first.content : NodeData γ) = second.content := by
  have equal : (first.content : NodeData Term) = second.content := Term.node.inj same
  unfold content at equal ⊢
  split at equal <;> split at equal <;> simp_all

/-- The term of a statement determines what is made of it. -/
theorem Statement.build_eq_of_build_eq (make : NodeData α → α) (first second : Statement)
    (same : first.build Term.node = second.build Term.node) :
    first.build make = second.build make := by
  have leaf (first second : Token) (same : first.build Term.node = second.build Term.node) :
      first.build make = second.build make :=
    congrArg make (Token.content_eq_of_build_eq first second same)
  cases first <;> cases second <;>
    simp only [build, Term.node.injEq, NodeData.label.injEq, NodeData.instruction.injEq,
      reduceCtorEq] at same
  · simp only [build, leaf _ _ same]
  · simp only [build, leaf _ _ same.1, map_eq_of_map_eq leaf same.2]

/-- The terms of the statements determine what is made of a program. -/
theorem Program.build_eq_of_terms_eq {first second : Program}
    (same : first.statements.map (·.build Term.node) = second.statements.map (·.build Term.node))
    (make : NodeData α → α) : first.build make = second.build make := by
  have each := map_eq_of_map_eq (Statement.build_eq_of_build_eq make) same
  exact congrArg (fun statements => make (.source statements)) each

/-- What a node holds and which node holds it, wherever it stands. -/
def Node.form (node : Node) : NodeData NodeId × Option NodeId := (node.data, node.parent)

/-- The term of a statement determines the number of its leaves and the forms of its nodes. -/
theorem Statement.forms_eq_of_build_eq {first second : Statement}
    (same : first.build Term.node = second.build Term.node) :
    first.leaves.length = second.leaves.length ∧
      ∀ base parent, (first.nodes base parent).map Node.form =
        (second.nodes base parent).map Node.form := by
  have leaves : first.leaves.map (·.build Term.node) = second.leaves.map (·.build Term.node) ∧
      ∀ base, first.data base = second.data base := by
    cases first <;> cases second <;>
      simp only [build, Term.node.injEq, NodeData.label.injEq, NodeData.instruction.injEq,
        reduceCtorEq] at same
    · exact ⟨by simp [Statement.leaves, same], fun base => rfl⟩
    · have length := congrArg List.length same.2
      simp only [List.length_map] at length
      exact ⟨by simp [Statement.leaves, same.1, same.2], fun base => by simp [data, length]⟩
  have length := congrArg List.length leaves.1
  simp only [List.length_map] at length
  refine ⟨length, fun base parent => ?_⟩
  have forms (parent : Option NodeId) := map_eq_of_map_eq
    (g := fun token : Token => (token.node parent).form)
    (fun first second same => by
      simp [Node.form, Token.node, Token.seed, Token.leaf_eq_content,
        Token.content_eq_of_build_eq first second same]) leaves.1
  have id : first.id base = second.id base := by simp [Statement.id, length]
  simp only [nodes, List.map_append, List.map_map, Function.comp_def, List.map_cons, List.map_nil,
    id, forms]
  simp [Node.form, node, leaves.2 base]

namespace Program

/-- The terms of statements determine the forms of their nodes, how many there are and their
numbers. -/
theorem forms_nodesFrom_eq {first second : List Statement}
    (same : first.map (·.build Term.node) = second.map (·.build Term.node)) (base : NodeId)
    (parent : Option NodeId) :
    (nodesFrom base parent first).map Node.form = (nodesFrom base parent second).map Node.form ∧
      count first = count second ∧ idsFrom base first = idsFrom base second := by
  induction first generalizing second base with
  | nil =>
    cases second with
    | nil => exact ⟨rfl, rfl, rfl⟩
    | cons other more => simp at same
  | cons statement others ih =>
    cases second with
    | nil => simp at same
    | cons other more =>
      rw [List.map_cons, List.map_cons, List.cons.injEq] at same
      obtain ⟨length, forms⟩ := Statement.forms_eq_of_build_eq same.1
      have id : statement.id base = other.id base := by simp [Statement.id, length]
      obtain ⟨formsBehind, countBehind, idsBehind⟩ := ih same.2 (other.id base + 1)
      refine ⟨?_, ?_, ?_⟩
      · simp only [nodesFrom, List.map_append, forms, formsBehind, id]
      · simp only [count, length, countBehind]
      · simp only [idsFrom, idsBehind, id]

/-- The term of a program determines the tree but for the places. -/
theorem grown_eq_of_build_eq {first second : Program}
    (same : first.statements.map (·.build Term.node) =
      second.statements.map (·.build Term.node)) :
    first.grown.nodes.size = second.grown.nodes.size ∧ first.grown.root = second.grown.root ∧
      ∀ id, (first.grown.node id).map Node.form = (second.grown.node id).map Node.form := by
  have root : first.root = second.root := (forms_nodesFrom_eq same 0 none).2.1
  obtain ⟨forms, _, ids⟩ := forms_nodesFrom_eq same 0 (some first.root)
  have whole : first.nodes.map Node.form = second.nodes.map Node.form := by
    rw [nodes, nodes, List.map_append, List.map_append, forms, ← root]
    simp [node, Node.form, ids]
  refine ⟨?_, root, Forest.map_node_ofList whole⟩
  simpa [grown] using congrArg List.length whole

end Program

end Assembly8085
