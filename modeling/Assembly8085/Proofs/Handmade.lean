import Mathlib.Logic.Relation
import Assembly8085.Proofs.Growth
import Assembly8085.Proofs.Outline
import Assembly8085.Proofs.RoundTrip
import Assembly8085.Proofs.Tiling

/-!
# Trees made by hand

A tree may be grown of any nodes in any order, with places that mean nothing and with nodes that
hang loose. Below a source such a tree is still one of statements with their leaves, found along
the links from parents to children and not by numbers. So it has the walks of a program, it prints
as that program does, and what it prints is read as a tree of the same outline.
-/
namespace Assembly8085

/-- A token that may be an operand: a name or a number with the text of one. -/
structure Token.IsOperand (token : Token) : Prop where
  /-- The token is a name or a number. -/
  literal : token.kind.isLiteral = true
  /-- Its text is one of its kind. -/
  lawful : (Lexeme.token token.kind token.text).isLawful = true

namespace SyntaxTree

/-- Links from parents to children lead from the root to a node. -/
def Reaches (tree : SyntaxTree) : NodeId → Prop :=
  Relation.ReflTransGen (fun parent child => child ∈ tree.childrenOf parent) tree.root

/-- A tree that was grown without a fault of nodes in some order, with a source as its root. The
identifiers that belong to it have the texts of names; what hangs loose does not matter. -/
structure Handmade (tree : SyntaxTree) : Prop where
  /-- The tree was grown. -/
  planted : ∃ seeds forest, Forest.empty.plantAll seeds = .ok forest ∧
    forest.finish tree.root = .ok tree
  /-- The root is a source. -/
  source : tree.kind? tree.root = some .source
  /-- An identifier below the root has the text of a name. -/
  names : ∀ id text, tree.Reaches id → tree.text id = .ok (some text) →
    TokenKind.identifier.Admits text

variable {tree : SyntaxTree}

/-- Parents and children agree in a tree made by hand. -/
theorem Handmade.consistent (handmade : tree.Handmade) : tree.Consistent := by
  obtain ⟨seeds, forest, planted, finished⟩ := handmade.planted
  exact Forest.consistent_of_finish planted finished

/-- Children are older than their parents where the two agree. -/
theorem ordered_of_consistent (consistent : tree.Consistent) : tree.Ordered := by
  intro id node there child member
  rw [← childrenOf_of_node there] at member
  exact consistent.older id child member

/-- A node of a known kind is there. -/
theorem exists_node_of_kind? {id : NodeId} {kind : NodeKind} (known : tree.kind? id = some kind) :
    ∃ node, tree.node id = .ok node ∧ node.kind = kind := by
  obtain ⟨node, there, same⟩ := Option.map_eq_some_iff.mp known
  exact ⟨node, Forest.node_eq_ok_iff.mpr there, same⟩

/-- Where a walk finds for each of some nodes what is made of an item, it finds for all of them in
a row what is made of items. -/
theorem exists_items {β : Type} (good : β → Prop)
    (build : ∀ {α : Type}, (NodeData α → α) → β → α) {ids : List NodeId}
    (each : ∀ id ∈ ids, ∃ item, good item ∧ ∀ {α : Type} (make : NodeData α → α),
      tree.fold (fun _ => make) id = .ok (build make item)) :
    ∃ items : List β, (∀ item ∈ items, good item) ∧ ∀ {α : Type} (make : NodeData α → α),
      ids.mapM (tree.fold fun _ => make) = .ok (items.map (build make)) := by
  induction ids with
  | nil => exact ⟨[], by simp, fun make => rfl⟩
  | cons id others ih =>
    obtain ⟨item, right, found⟩ := each id (List.mem_cons_self ..)
    obtain ⟨items, rights, row⟩ := ih fun other member => each other (List.mem_cons_of_mem _ member)
    refine ⟨item :: items, ?_, ?_⟩
    · intro other member
      rcases List.mem_cons.mp member with rfl | behind
      · exact right
      · exact rights other behind
    · intro α make
      rw [List.mapM_cons, found make, row make]
      rfl

/-- A walk finds for an identifier or an integer what is made of a name or a number. -/
theorem exists_leaf (ordered : tree.Ordered) {id : NodeId} {kind : NodeKind}
    (known : tree.kind? id = some kind) (expression : kind.isExpression = true)
    (name : ∀ text, tree.text id = .ok (some text) → TokenKind.identifier.Admits text) :
    ∃ token : Token, (token.IsOperand ∧ (kind = .identifier → token.kind = .identifier)) ∧
      ∀ {α : Type} (make : NodeData α → α),
        tree.fold (fun _ => make) id = .ok (token.build make) := by
  obtain ⟨node, there, rfl⟩ := exists_node_of_kind? known
  cases holds : node.data with
  | identifier text =>
    have admits : TokenKind.identifier.Admits text := by
      apply name
      simp [SyntaxTree.text, there, Except.map, holds]
    refine ⟨⟨.identifier, text, 0⟩, ⟨⟨rfl, TokenKind.admits_iff_isLawful.mp admits⟩,
      fun _ => rfl⟩, fun make => ?_⟩
    exact fold_eq ordered there (by rw [holds]; rfl)
  | integer value =>
    refine ⟨⟨.integer, Literal.render value, 0⟩, ⟨⟨rfl, Lexeme.isLawful_render value⟩, ?_⟩,
      fun {α} make => ?_⟩
    · intro wrong
      rw [Node.kind, holds] at wrong
      contradiction
    · have content : (⟨.integer, Literal.render value, 0⟩ : Token).content =
          (.integer value : NodeData α) := by
        simp [Token.content, Literal.decode_render]
      rw [Token.build, content]
      exact fold_eq ordered there (by rw [holds]; rfl)
  | _ => simp [Node.kind, holds, NodeData.kind, NodeKind.isExpression] at expression

/-- A walk finds for an identifier what is made of a name. -/
theorem exists_name (ordered : tree.Ordered) {id : NodeId}
    (belongs : tree.Belongs (· = .identifier) id)
    (name : ∀ text, tree.text id = .ok (some text) → TokenKind.identifier.Admits text) :
    ∃ token : Token, token.kind = .identifier ∧
      (Lexeme.token token.kind token.text).isLawful = true ∧
      ∀ {α : Type} (make : NodeData α → α),
        tree.fold (fun _ => make) id = .ok (token.build make) := by
  obtain ⟨kind, known, right⟩ := belongs
  obtain rfl : kind = .identifier := of_decide_eq_true right
  obtain ⟨token, ⟨operand, identifier⟩, found⟩ := exists_leaf ordered known rfl name
  exact ⟨token, identifier rfl, operand.lawful, found⟩

/-- A walk finds for a statement what is made of a well-formed one. -/
theorem exists_statement (consistent : tree.Consistent) {id : NodeId} {node : Node}
    (there : tree.node id = .ok node) (isStatement : node.kind.isStatement = true)
    (names : ∀ child ∈ node.data.children, ∀ text, tree.text child = .ok (some text) →
      TokenKind.identifier.Admits text) :
    ∃ statement : Statement, (statement.WellFormed ∧ statement.Lawful) ∧
      ∀ {α : Type} (make : NodeData α → α),
        tree.fold (fun _ => make) id = .ok (statement.build make) := by
  have ordered := ordered_of_consistent consistent
  have fits := consistent.fits id node (Forest.node_eq_ok_iff.mp there)
  cases holds : node.data with
  | label name =>
    rw [holds] at fits names
    obtain ⟨token, identifier, lawful, found⟩ :=
      exists_name ordered fits (names name (List.mem_cons_self ..))
    refine ⟨.label token 0, ⟨⟨identifier, by simp [Statement.operands]⟩, ?_⟩, fun make => ?_⟩
    · intro leaf member
      obtain rfl := List.mem_singleton.mp member
      exact lawful
    · exact fold_eq ordered there (by rw [holds, NodeData.traverse, found make]; rfl)
  | instruction target operands =>
    rw [holds] at fits names
    obtain ⟨token, identifier, lawful, found⟩ :=
      exists_name ordered fits.1 (names target (List.mem_cons_self ..))
    have leaves : ∀ operand ∈ operands, ∃ token : Token, token.IsOperand ∧
        ∀ {α : Type} (make : NodeData α → α),
          tree.fold (fun _ => make) operand = .ok (token.build make) := by
      intro operand member
      obtain ⟨kind, known, expression⟩ := fits.2 operand member
      obtain ⟨token, ⟨right, _⟩, found⟩ :=
        exists_leaf ordered known expression (names operand (List.mem_cons_of_mem _ member))
      exact ⟨token, right, found⟩
    obtain ⟨tokens, each, row⟩ :=
      exists_items _ (fun make (token : Token) => token.build make) leaves
    refine ⟨.instruction token tokens 0,
      ⟨⟨identifier, fun other member => (each other member).literal⟩, ?_⟩, fun make => ?_⟩
    · intro leaf member
      rcases List.mem_cons.mp member with rfl | behind
      · exact lawful
      · exact (each leaf behind).lawful
    · exact fold_eq ordered there (by rw [holds, NodeData.traverse, found make, row make]; rfl)
  | _ => simp [Node.kind, holds, NodeData.kind, NodeKind.isStatement] at isStatement

/-- A tree made by hand has the walks of a program. -/
theorem Handmade.exists_program (handmade : tree.Handmade) :
    ∃ program : Program, program.WellFormed ∧ program.Lawful ∧
      ∀ {α : Type} (make : NodeData α → α),
        tree.fold (fun _ => make) tree.root = .ok (program.build make) := by
  have consistent := handmade.consistent
  have ordered := ordered_of_consistent consistent
  obtain ⟨root, there, isSource⟩ := exists_node_of_kind? handmade.source
  have fits := consistent.fits tree.root root (Forest.node_eq_ok_iff.mp there)
  have children := childrenOf_of_node there
  cases holds : root.data with
  | source ids =>
    rw [holds] at fits children
    have below : ∀ id ∈ ids, ∃ statement : Statement,
        (statement.WellFormed ∧ statement.Lawful) ∧ ∀ {α : Type} (make : NodeData α → α),
          tree.fold (fun _ => make) id = .ok (statement.build make) := by
      intro id member
      obtain ⟨kind, known, right⟩ := fits id member
      obtain ⟨node, found, rfl⟩ := exists_node_of_kind? known
      -- The names of a statement are two links away from the root.
      have first : tree.Reaches id := Relation.ReflTransGen.single (by rw [children]; exact member)
      apply exists_statement consistent found right
      intro child isChild text named
      rw [← childrenOf_of_node found] at isChild
      exact handmade.names child text (first.tail isChild) named
    obtain ⟨statements, each, row⟩ :=
      exists_items _ (fun make (statement : Statement) => statement.build make) below
    refine ⟨⟨statements, 0⟩, fun statement member => (each statement member).1,
      fun statement member => (each statement member).2, fun make => ?_⟩
    exact fold_eq ordered there (by rw [holds, NodeData.traverse, row make]; rfl)
  | _ => simp [Node.kind, holds, NodeData.kind] at isSource

/-- A tree that can be grown again of its nodes was made by hand if, among some numbers that hold
the root and the children of each of them, the identifiers have the texts of names. -/
theorem handmade_of_closed {tree : SyntaxTree}
    (planted : Forest.empty.plantAll (tree.nodes.toList.map Node.toSeed) = .ok tree.toForest)
    (finished : tree.toForest.finish tree.root = .ok tree)
    (source : tree.kind? tree.root = some .source)
    (ids : List Nat) (root : tree.root ∈ ids)
    (closed : ∀ parent ∈ ids, ∀ child ∈ tree.childrenOf parent, child ∈ ids)
    (names : ∀ id ∈ ids, ∀ text ∈ (tree.text id).toOption.join,
      (Lexeme.token .identifier text).isLawful = true) : tree.Handmade := by
  have reached {id : NodeId} (reaches : tree.Reaches id) : id ∈ ids := by
    induction reaches with
    | refl => exact root
    | tail _ link ih => exact closed _ ih _ link
  refine ⟨⟨_, _, planted, finished⟩, source, ?_⟩
  intro id text reaches named
  have member := reached reaches
  exact TokenKind.admits_iff_isLawful.mpr (names id member text (by rw [named]; rfl))

end SyntaxTree

/-- What a tree made by hand prints is read without a notice as a tree of the same outline. Two such
trees print the same exactly if they have the same outline. -/
theorem parseSource_print_handmade (file : String) (tree : SyntaxTree)
    (handmade : tree.Handmade) :
    (∃ printed outline again, tree.print = .ok printed ∧ tree.outline = .ok outline ∧
      (parseSource file printed .debug).1 = .ok again ∧ again.outline = .ok outline ∧
      (parseSource file printed .debug).2.diagnostics = #[]) ∧
    ∀ other : SyntaxTree, other.Handmade →
      (tree.print = other.print ↔ tree.outline = other.outline) := by
  obtain ⟨program, wellFormed, lawful, walks⟩ := handmade.exists_program
  have printed : tree.print = .ok (program.build SyntaxTree.printNode) := walks _
  have outlined : tree.outline = .ok (program.build SyntaxTree.outlineNode) := walks _
  obtain ⟨same, silent⟩ := Program.ofText_printed_of_lawful wellFormed lawful
  constructor
  · let again := Program.ofLexemes 0 (Lexeme.ofText (program.build SyntaxTree.printNode))
    have diagnostics : (parseSource file (program.build SyntaxTree.printNode)
        .debug).2.diagnostics.toList = [] := by
      rw [diagnostics_parseSource, silent]
      rfl
    have outline : again.grown.outline = .ok (again.build SyntaxTree.outlineNode) :=
      again.fold_grown_build _
    rw [Program.build_eq_of_terms_eq same] at outline
    exact ⟨_, _, again.grown, printed, outlined, fst_parseSource_debug file _, outline,
      Array.toList_eq_nil_iff.mp diagnostics⟩
  · intro other otherHandmade
    obtain ⟨second, secondWellFormed, secondLawful, secondWalks⟩ := otherHandmade.exists_program
    have secondPrinted : other.print = .ok (second.build SyntaxTree.printNode) := secondWalks _
    have secondOutlined : other.outline = .ok (second.build SyntaxTree.outlineNode) :=
      secondWalks _
    obtain ⟨secondSame, _⟩ := Program.ofText_printed_of_lawful secondWellFormed secondLawful
    rw [printed, secondPrinted, outlined, secondOutlined, Except.ok.injEq, Except.ok.injEq]
    constructor
    · -- The same text is read as the same statements.
      intro text
      rw [text, secondSame] at same
      exact (Program.build_eq_of_terms_eq same _).symm
    · intro outline
      exact Program.build_eq_of_terms_eq (Program.terms_eq_of_outline_eq outline) _

/-- A label in front of an instruction, grown in another order and with nodes that hang loose, and
the same source grown in the order of its text. -/
theorem parseSource_print_handmade_scattered :
    let tree : SyntaxTree :=
      { nodes := #[
          { data := .integer 177, position := 9, length := 0, parent := some 4 },
          { data := .identifier ['9'], position := 5, length := 5, parent := none },
          { data := .identifier ['b'], position := 3, length := 8, parent := some 4 },
          { data := .identifier ['.'], position := 1, length := 1, parent := some 5 },
          { data := .instruction 2 [0], position := 0, length := 2, parent := some 6 },
          { data := .label 3, position := 2, length := 0, parent := some 6 },
          { data := .source [5, 4], position := 7, length := 1, parent := none },
          { data := .source [], position := 0, length := 0, parent := none }],
        root := 6 }
    let other : SyntaxTree :=
      { nodes := #[
          { data := .identifier ['.'], position := 0, length := 1, parent := some 1 },
          { data := .label 0, position := 0, length := 2, parent := some 5 },
          { data := .identifier ['b'], position := 3, length := 1, parent := some 4 },
          { data := .integer 177, position := 5, length := 4, parent := some 4 },
          { data := .instruction 2 [3], position := 3, length := 6, parent := some 5 },
          { data := .source [1, 4], position := 0, length := 9, parent := none }],
        root := 5 }
    tree.Handmade ∧ other.Handmade ∧
    (∃ printed outline again, tree.print = .ok printed ∧ tree.outline = .ok outline ∧
      (parseSource "a" printed .debug).1 = .ok again ∧ again.outline = .ok outline ∧
      (parseSource "a" printed .debug).2.diagnostics = #[]) ∧
    (tree.print = other.print ↔ tree.outline = other.outline) := by
  intro tree other
  have handmade : tree.Handmade := SyntaxTree.handmade_of_closed rfl rfl rfl
    [6, 5, 4, 3, 2, 0] (by decide) (by decide) (by decide)
  have otherHandmade : other.Handmade := SyntaxTree.handmade_of_closed rfl rfl rfl
    [5, 4, 3, 2, 1, 0] (by decide) (by decide) (by decide)
  obtain ⟨read, same⟩ := parseSource_print_handmade "a" tree handmade
  exact ⟨handmade, otherHandmade, read, same other otherHandmade⟩

end Assembly8085
