import Assembly8085.Proofs.Extents
import Assembly8085.Proofs.Leaves
import Assembly8085.Proofs.Postorder
import Assembly8085.Proofs.Tiling

/-!
# What nodes cover

A node covers the tokens that it was read from, and the nodes below it lie side by side within it.
A statement starts with its first leaf; a label ends with its colon, and an instruction with its
line or, if an error is told on its line, with its last leaf.
-/
namespace Assembly8085

namespace Forest

variable {forest : Forest} {base : NodeId}

/-- Nodes in a row are found by their numbers. -/
theorem mapM_node_range' {nodes : List Node} (row : forest.HoldsAt base nodes) :
    (List.range' base nodes.length).mapM forest.node = .ok nodes := by
  induction nodes generalizing base with
  | nil => rfl
  | cons node others ih =>
    rw [List.length_cons, List.range'_succ, List.mapM_cons, row.1, ih row.2]
    rfl

/-- The nodes of statements in a row are found by their numbers; they start and end where the
statements do. -/
theorem mapM_node_idsFrom {parent : Option NodeId} {statements : List Statement}
    (forward : ∀ statement ∈ statements, statement.start ≤ statement.stop)
    (row : forest.HoldsAt base (Program.nodesFrom base parent statements)) :
    ∃ nodes, (Program.idsFrom base statements).mapM forest.node = .ok nodes ∧
      nodes.map (fun node => (node.position, node.stop)) =
        statements.map fun statement => (statement.start, statement.stop) := by
  induction statements generalizing base with
  | nil => exact ⟨[], rfl, rfl⟩
  | cons statement others ih =>
    obtain ⟨here, behind⟩ := holdsAt_append.mp row
    obtain ⟨_, itself, _⟩ := holdsAt_append.mp here
    rw [List.length_map] at itself
    rw [Statement.length_nodes] at behind
    obtain ⟨nodes, found, places⟩ :=
      ih (fun other member => forward other (List.mem_cons_of_mem _ member)) behind
    have stop := Statement.stop_node (forward statement (List.mem_cons_self ..)) base parent
    have itself : forest.node (statement.id base) = .ok (statement.node base parent) := itself
    have found : (Program.idsFrom (statement.id base + 1) others).mapM forest.node = .ok nodes :=
      found
    refine ⟨statement.node base parent :: nodes, ?_, ?_⟩
    · rw [Program.idsFrom, List.mapM_cons, itself, found]
      rfl
    · rw [List.map_cons, List.map_cons, places, stop]
      rfl

/-- A node of statements in a row belongs to one of them, whose nodes are a row. -/
theorem exists_statement_of_mem {parent : Option NodeId} {statements : List Statement} {node : Node}
    (row : forest.HoldsAt base (Program.nodesFrom base parent statements))
    (member : node ∈ Program.nodesFrom base parent statements) :
    ∃ statement ∈ statements, ∃ first : NodeId,
      forest.HoldsAt first (statement.nodes first parent) ∧
        node ∈ statement.nodes first parent := by
  induction statements generalizing base with
  | nil => contradiction
  | cons statement others ih =>
    obtain ⟨here, behind⟩ := holdsAt_append.mp row
    rw [Statement.length_nodes] at behind
    rcases List.mem_append.mp member with inside | later
    · exact ⟨statement, List.mem_cons_self .., base, here, inside⟩
    · obtain ⟨found, among, rest⟩ := ih behind later
      exact ⟨found, List.mem_cons_of_mem _ among, rest⟩

end Forest

/-- A node covers what it was read from, given the nodes below it. -/
structure Node.Covers (tokens : List Token) (diagnostics : List Diagnostic) (node : Node)
    (under : List Node) : Prop where
  /-- The nodes below it lie within it. -/
  nested : ∀ child ∈ under, node.position ≤ child.position ∧ child.stop ≤ node.stop
  /-- Each of them ends in front of the next one. -/
  ordered : under.Pairwise (·.stop ≤ ·.position)
  /-- A label starts with its name and ends with its colon, which is the next token but for
  space. -/
  label : node.kind = .label → ∃ name before spaces after head colon,
    under = [name] ∧ node.position = name.position ∧
      tokens = before ++ (head :: spaces ++ colon :: after) ∧
      head.span = ⟨name.position, name.length⟩ ∧ (∀ token ∈ spaces, token.kind = .space) ∧
      colon.kind = .colon ∧ node.stop = colon.stop
  /-- An instruction starts with its target. If an error in the order of tokens is told on its line
  from there on, it ends with the last node below it, and otherwise with the terminator of the line
  or, if there is none, with the last token of the source. -/
  instruction : node.kind = .instruction → ∃ target operands,
    under = target :: operands ∧ node.position = target.position ∧
      ((∃ diagnostic ∈ diagnostics, diagnostic.notice.isParsing = true ∧
          ∃ location, diagnostic.location = some location ∧
            OnLineFrom tokens node.position location.position) →
        node.stop = (operands.getLastD target).stop) ∧
      ((¬ ∃ diagnostic ∈ diagnostics, diagnostic.notice.isParsing = true ∧
          ∃ location, diagnostic.location = some location ∧
            OnLineFrom tokens node.position location.position) →
        match lineEnd? tokens node.position with
        | some terminator => node.stop = terminator.stop
        | none => ∃ last, (tokens.filter (·.kind ≠ .endOfFile)).getLast? = some last ∧
            node.stop = last.stop)

/-- The last of leaves ends where the last of their tokens does. -/
theorem Token.stop_getLastD_node (tokens : List Token) (first : Token) (parent : Option NodeId) :
    ((tokens.map (·.node parent)).getLastD (first.node parent)).stop =
      (tokens.getLastD first).stop := by
  rw [List.getLastD_eq_getLast?, List.getLast?_map, Option.getD_map (Token.node · parent),
    ← List.getLastD_eq_getLast?]
  rfl

/-- An error in the order of tokens is told on the line from an offset on exactly if some token
there is out of order. -/
theorem exists_isParsing_iff_faultFrom (file : String) (source : List Char) (offset : Nat) :
    (∃ diagnostic ∈ (parseSource file source .debug).2.diagnostics.toList,
      diagnostic.notice.isParsing = true ∧ ∃ location, diagnostic.location = some location ∧
        OnLineFrom (surfacedTokens file source) offset location.position) ↔
      FaultFrom ⟨.endOfFile, [], Text.byteLength source⟩
        (Lexeme.tokensFrom 0 (Lexeme.ofText source)) offset := by
  have told (wanted : Nat → Prop) :
      (∃ remark ∈ remarksOn source, remark.notice.isParsing = true ∧ wanted remark.position) ↔
        ∃ token ∈ Reading.betweenStatements.refused ⟨.endOfFile, [], Text.byteLength source⟩
          (Lexeme.tokensFrom 0 (Lexeme.ofText source)), wanted token.position := by
    have left : (∃ remark ∈ remarksOn source, remark.notice.isParsing = true ∧
          wanted remark.position) ↔
        ∃ span ∈ ((remarksOn source).filter (·.notice.isParsing)).map Remark.span,
          wanted span.position := by
      simp [Remark.span, and_assoc]
    rw [left, span_filter_isParsing_remarksOn]
    simp [Token.span]
  rw [diagnostics_parseSource, FaultFrom, ← told, ← surfacedTokens_eq file source]
  simp [Remark.inFile]

namespace Program

variable {source : List Char} {statement : Statement}

/-- A statement of lexemes has an origin among their tokens. -/
theorem origin_of_mem {position : Nat} {lexemes : List Lexeme}
    (member : statement ∈ (ofLexemes position lexemes).statements) :
    Reading.Origin (Lexeme.tokensFrom position lexemes) statement :=
  Reading.origin_of_mem_statements member

/-- The leaves of a statement lie side by side from its start to its stop. -/
theorem leaves_within {position : Nat} {lexemes : List Lexeme}
    (member : statement ∈ (ofLexemes position lexemes).statements) :
    statement.leaves.Pairwise (·.stop ≤ ·.position) ∧
      ∀ leaf ∈ statement.leaves,
        statement.start ≤ leaf.position ∧ leaf.stop ≤ statement.stop := by
  have origin := origin_of_mem member
  have ordered := Lexeme.pairwise_tokensFrom position lexemes
  have inOrder := ordered.sublist origin.leaves_sublist
  obtain ⟨last, _, stop, reached⟩ := origin.exists_stop ordered
  refine ⟨inOrder, fun leaf among => ⟨?_, stop ▸ reached leaf among⟩⟩
  have start := statement.start_eq
  rw [statement.leaves_eq] at inOrder among
  rcases List.mem_cons.mp among with rfl | operand
  · exact Nat.le_of_eq start
  · have apart := (List.pairwise_cons.mp inOrder).1 leaf operand
    have length : statement.head.position ≤ statement.head.stop := Nat.le_add_right ..
    omega

/-- The tokens of a source and its end start one behind the other. -/
theorem pairwise_position_tokens (source : List Char) :
    (Lexeme.tokensFrom 0 (Lexeme.ofText source) ++
      [(⟨.endOfFile, [], Text.byteLength source⟩ : Token)]).Pairwise
        (·.position < ·.position) := by
  have ordered := pairwise_position_surfacedTokens "" source
  rwa [surfacedTokens_eq, List.pairwise_map] at ordered

/-- Of the tokens of a source and its end, all but the last are no end. -/
theorem filter_kind_surfacedTokens (file : String) (source : List Char) :
    (surfacedTokens file source).filter (·.kind ≠ .endOfFile) =
      Lexeme.tokensFrom 0 (Lexeme.ofText source) := by
  have inside : (Lexeme.tokensFrom 0 (Lexeme.ofText source)).filter (·.kind ≠ .endOfFile) =
      Lexeme.tokensFrom 0 (Lexeme.ofText source) := by
    rw [List.filter_eq_self]
    intro token member
    have lawful := Lexeme.isLawful_of_mem (Lexeme.munched_ofText source)
      (Lexeme.mem_of_mem_tokensFrom member)
    simpa using Lexeme.kind_ne_endOfFile lawful
  rw [surfacedTokens_eq, List.filter_append, inside]
  exact List.append_nil _

/-- The node of a statement of a source covers what it was read from. -/
theorem covers_statement (file : String)
    (member : statement ∈ (ofLexemes 0 (Lexeme.ofText source)).statements) (base : NodeId)
    (parent : Option NodeId) :
    (statement.node base parent).Covers (surfacedTokens file source)
      (parseSource file source .debug).2.diagnostics.toList
      (statement.leaves.map (·.node (some (statement.id base)))) := by
  have origin := origin_of_mem member
  obtain ⟨inOrder, within⟩ := leaves_within member
  have stop := Statement.stop_node (start_le_stop_of_mem_ofLexemes member) base parent
  refine ⟨?_, ?_, ?_, ?_⟩
  · intro child under
    obtain ⟨leaf, among, rfl⟩ := List.mem_map.mp under
    rw [stop]
    exact within leaf among
  · rw [List.pairwise_map]
    exact inOrder
  · intro label
    rw [stop]
    cases origin with
    | @label before spaces after colon draft whole start opened each mark =>
      refine ⟨_, before, spaces, after ++ [⟨.endOfFile, [], Text.byteLength source⟩], draft.target,
        colon, rfl, rfl, ?_, rfl, each, mark, rfl⟩
      rw [surfacedTokens_eq, whole]
      simp
    | ended =>
      rw [Draft.ended_eq] at label
      contradiction
    | unended =>
      rw [Draft.ended_eq] at label
      contradiction
  · intro instruction
    rw [stop]
    cases statement with
    | label name reach => contradiction
    | instruction target operands reach =>
      obtain ⟨faulty, sound⟩ := origin.stop_eq (by simp) (pairwise_position_tokens source)
      have told := exists_isParsing_iff_faultFrom file source target.position
      let parent := some (Statement.id base (.instruction target operands reach))
      refine ⟨target.node parent, operands.map (·.node parent), rfl, rfl, ?_, ?_⟩
      · intro error
        rw [Token.stop_getLastD_node]
        exact faulty (told.mp error)
      · intro silent
        rw [filter_kind_surfacedTokens, surfacedTokens_eq]
        exact sound fun fault => silent (told.mpr fault)

end Program

/-- A tree in which each node covers what it was read from, from a character of the source to
another one. -/
structure SyntaxTree.Covers (tree : SyntaxTree) (source : List Char) (tokens : List Token)
    (diagnostics : List Diagnostic) : Prop where
  /-- The root covers the whole source. -/
  root : ∃ node, tree.node tree.root = .ok node ∧ node.position = 0 ∧
    node.length = Text.byteLength source
  /-- Each node covers what it was read from. -/
  nodes : ∀ id node, tree.node id = .ok node →
    ∃ under, node.data.children.mapM tree.node = .ok under ∧ node.Covers tokens diagnostics under
  /-- Each node starts at a character or at the end of the source. -/
  start : ∀ id node, tree.node id = .ok node →
    String.Pos.Raw.IsValid (String.ofList source) ⟨node.position⟩
  /-- Each node ends at a character or at the end of the source. -/
  stop : ∀ id node, tree.node id = .ok node →
    String.Pos.Raw.IsValid (String.ofList source) ⟨node.stop⟩

/-- A token of a source stands from one of its characters to another one, or to the end. -/
theorem isValid_of_mem_tokensFrom {source : List Char} {token : Token}
    (member : token ∈ Lexeme.tokensFrom 0 (Lexeme.ofText source)) :
    String.Pos.Raw.IsValid (String.ofList source) ⟨token.position⟩ ∧
      String.Pos.Raw.IsValid (String.ofList source) ⟨token.stop⟩ := by
  obtain ⟨_, before, behind, whole, place, _⟩ := Lexeme.maximal_of_mem_tokensFrom member
  have stop : token.stop = Text.byteLength (before ++ token.text) := by
    rw [Text.byteLength_append, place]
    rfl
  constructor
  · rw [← place, whole, List.append_assoc]
    exact Text.isValid_byteLength before (token.text ++ behind)
  · rw [stop, whole]
    exact Text.isValid_byteLength (before ++ token.text) behind

namespace Program

variable (file : String) (source : List Char)

/-- The root of the tree of a source covers all statements. -/
theorem covers_root :
    let program := ofLexemes 0 (Lexeme.ofText source)
    ∃ under, program.node.data.children.mapM program.grown.node = .ok under ∧
      program.node.Covers (surfacedTokens file source)
        (parseSource file source .debug).2.diagnostics.toList under := by
  intro program
  have ordered := Lexeme.pairwise_tokensFrom 0 (Lexeme.ofText source)
  have forward : ∀ statement ∈ program.statements, statement.start ≤ statement.stop :=
    fun statement member => start_le_stop_of_mem_ofLexemes member
  obtain ⟨row, _⟩ := Forest.holdsAt_append.mp (Forest.holdsAt_zero program.nodes)
  obtain ⟨under, found, places⟩ := Forest.mapM_node_idsFrom forward row
  have fresh : Reading.betweenStatements.Behind (Lexeme.tokensFrom 0 (Lexeme.ofText source)) := by
    simp [Reading.Behind, Reading.draft?]
  have apart : (under.map fun node => (node.position, node.stop)).Pairwise (·.2 ≤ ·.1) := by
    rw [places, List.pairwise_map]
    exact fresh.pairwise ordered
  refine ⟨under, found, ?_, List.pairwise_map.mp apart, fun label => ?_, fun instruction => ?_⟩
  · intro child among
    have place : (child.position, child.stop) ∈
        program.statements.map fun statement => (statement.start, statement.stop) := by
      rw [← places]
      exact List.mem_map_of_mem among
    obtain ⟨statement, member, same⟩ := List.mem_map.mp place
    obtain ⟨last, there, stop, _⟩ := (origin_of_mem member).exists_stop ordered
    have inside := (Lexeme.position_le_of_mem_tokensFrom there).2
    have whole : program.node.stop = 0 + (0 + Lexeme.totalLength (Lexeme.ofText source)) := rfl
    have start : program.node.position = 0 := rfl
    have stops : statement.stop = child.stop := (Prod.mk.inj same).2
    omega
  · contradiction
  · contradiction

/-- A node of the tree of a text, or of one that stands behind another, is the root, a statement
or a leaf of one. -/
theorem cases_of_node {position : Nat} {id : NodeId} {node : Node}
    (there : (ofLexemes position (Lexeme.ofText source)).grown.node id = .ok node) :
    let program := ofLexemes position (Lexeme.ofText source)
    node = program.node ∨
      ∃ statement ∈ program.statements, ∃ first : NodeId,
        program.grown.HoldsAt first (statement.nodes first (some program.root)) ∧
        (node = statement.node first (some program.root) ∨
          ∃ leaf ∈ statement.leaves, node = leaf.node (some (statement.id first))) := by
  intro program
  obtain ⟨row, _⟩ := Forest.holdsAt_append.mp (Forest.holdsAt_zero program.nodes)
  have member : node ∈ program.nodes := by
    have found := Forest.node_eq_ok_iff.mp there
    simp only [grown, Forest.ofList, List.getElem?_toArray] at found
    exact List.mem_of_getElem? found
  rcases List.mem_append.mp member with inside | root
  · obtain ⟨statement, among, first, nodes, here⟩ := Forest.exists_statement_of_mem row inside
    refine .inr ⟨statement, among, first, nodes, ?_⟩
    rcases List.mem_append.mp here with leaf | itself
    · obtain ⟨token, held, same⟩ := List.mem_map.mp leaf
      exact .inr ⟨token, held, same.symm⟩
    · exact .inl (List.mem_singleton.mp itself)
  · exact .inl (List.mem_singleton.mp root)

/-- A node of the tree of a source stands from a character to another one, or to the end. -/
theorem isValid_of_node {id : NodeId} {node : Node}
    (there : (ofLexemes 0 (Lexeme.ofText source)).grown.node id = .ok node) :
    String.Pos.Raw.IsValid (String.ofList source) ⟨node.position⟩ ∧
      String.Pos.Raw.IsValid (String.ofList source) ⟨node.stop⟩ := by
  rcases cases_of_node source there with
    rfl | ⟨statement, member, first, _, rfl | ⟨leaf, held, rfl⟩⟩
  · have stop : (ofLexemes 0 (Lexeme.ofText source)).node.stop = Text.byteLength source := by
      simp [node, Node.stop, ofLexemes]
    have start := Text.isValid_byteLength [] source
    have last := Text.isValid_byteLength source []
    rw [List.append_nil] at last
    exact ⟨start, stop ▸ last⟩
  · have origin := origin_of_mem member
    obtain ⟨last, there, stops, _⟩ :=
      origin.exists_stop (Lexeme.pairwise_tokensFrom 0 (Lexeme.ofText source))
    have stop := Statement.stop_node (start_le_stop_of_mem_ofLexemes member) first
      (some (ofLexemes 0 (Lexeme.ofText source)).root)
    have head : statement.head ∈ statement.leaves := by
      rw [statement.leaves_eq]
      exact List.mem_cons_self ..
    have start : (statement.node first (some (ofLexemes 0 (Lexeme.ofText source)).root)).position =
        statement.head.position := statement.start_eq
    rw [start, stop, stops]
    exact ⟨(isValid_of_mem_tokensFrom (origin.leaves_sublist.subset head)).1,
      (isValid_of_mem_tokensFrom there).2⟩
  · exact isValid_of_mem_tokensFrom ((origin_of_mem member).leaves_sublist.subset held)

/-- A leaf has nothing to cover but itself. -/
theorem covers_leaf (tokens : List Token) (diagnostics : List Diagnostic) (leaf : Token)
    (parent : Option NodeId) : (leaf.node parent).Covers tokens diagnostics [] := by
  have kind := leaf.isExpression_kind_content (γ := NodeId)
  refine ⟨by simp, .nil, fun label => ?_, fun instruction => ?_⟩
  · rw [show leaf.content.kind = NodeKind.label from label] at kind
    contradiction
  · rw [show leaf.content.kind = NodeKind.instruction from instruction] at kind
    contradiction

end Program

/-- Each node of the tree of a source covers exactly what it was read from: the root the source, a
label its name and colon, an instruction its line or, where an error is told on that, what was read
of it. The nodes below a node lie side by side within it. -/
theorem covers_parseSource (file : String) (source : List Char) :
    let run := parseSource file source .debug
    ∃ tree, run.1 = .ok tree ∧
      tree.Covers source (surfacedTokens file source) run.2.diagnostics.toList := by
  intro run
  let program := Program.ofLexemes 0 (Lexeme.ofText source)
  have whole : program.stop = Text.byteLength source := by
    simp [program, Program.ofLexemes]
  refine ⟨program.grown, fst_parseSource_debug file source, ?_, ?_, ?_, ?_⟩
  · exact ⟨program.node, program.node_root_grown, rfl, whole⟩
  · intro id node there
    rcases Program.cases_of_node source there with
      rfl | ⟨statement, member, first, row, rfl | ⟨leaf, _, rfl⟩⟩
    · exact Program.covers_root file source
    · obtain ⟨leaves, _⟩ := Forest.holdsAt_append.mp row
      have found := Forest.mapM_node_range' leaves
      rw [List.length_map] at found
      refine ⟨_, ?_, Program.covers_statement file member first (some program.root)⟩
      rw [Statement.node, Statement.children_data]
      exact found
    · refine ⟨[], ?_, Program.covers_leaf _ _ leaf _⟩
      rw [Token.node, Token.seed, Token.leaf_eq_content, Token.children_content]
      rfl
  · intro id node there
    exact (Program.isValid_of_node source there).1
  · intro id node there
    exact (Program.isValid_of_node source there).2

end Assembly8085
