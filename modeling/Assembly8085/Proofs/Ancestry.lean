import Assembly8085.Proofs.Ascent
import Assembly8085.Proofs.Coverage
import Assembly8085.Proofs.Histories

/-!
# Ancestors and descendants

A walk upwards goes along the parents that nodes name, and what is below a node is found along the
children that nodes list. In a tree that was grown without a fault both are the same ways, once up
and once down, and there is one way at most from a node to one below it. So a walk upwards finds the
next node above that is wanted. In a tree that was read, what is above a node and is a statement is
the statement that it was read in.
-/
namespace Assembly8085

namespace SyntaxTree

variable {tree : SyntaxTree} {wanted : Node → Bool}

/-- From a node to one below it, from children to children: the nodes that are come to, the last one
among them. Without a step a node leads to itself. -/
inductive Descends (tree : SyntaxTree) : NodeId → List NodeId → NodeId → Prop
  /-- No step is taken. -/
  | here (id : NodeId) : Descends tree id [] id
  /-- The first step is to a child. -/
  | down {top child bottom : NodeId} {children path : List NodeId}
    (listed : tree.children top = .ok children) (member : child ∈ children)
    (below : Descends tree child path bottom) : Descends tree top (child :: path) bottom

/-- A node is another one or below it. -/
def Contains (tree : SyntaxTree) (top id : NodeId) : Prop := ∃ path, tree.Descends top path id

/-- There is a node of a number, and it is wanted. -/
def Satisfies (tree : SyntaxTree) (wanted : Node → Bool) (id : NodeId) : Prop :=
  ∃ node, tree.node id = .ok node ∧ wanted node = true

/-- A node that is there is wanted if it is. -/
theorem satisfies_iff {id : NodeId} {node : Node} (there : tree.node id = .ok node) :
    tree.Satisfies wanted id ↔ wanted node = true := by
  simp [Satisfies, there]

/-- The children of a node are those that are listed. -/
theorem mem_childrenOf_iff {child top : NodeId} :
    child ∈ tree.childrenOf top ↔
      ∃ children, tree.children top = .ok children ∧ child ∈ children := by
  rw [children]
  cases there : tree.node top with
  | error fault =>
    have none : tree.nodes[top]? = none := by
      rw [← Option.not_isSome_iff_eq_none, Option.isSome_iff_exists]
      rintro ⟨node, found⟩
      rw [Forest.node_eq_ok_iff.mpr found] at there
      contradiction
    simp [Forest.childrenOf, none, Except.map]
  | ok node => simp [childrenOf_of_node there, Except.map]

/-- One more step leads to a child of the last node. -/
theorem Descends.concat {top bottom child : NodeId} {path : List NodeId}
    (descends : tree.Descends top path bottom) (member : child ∈ tree.childrenOf bottom) :
    tree.Descends top (path ++ [child]) child := by
  induction descends with
  | here id =>
    obtain ⟨children, listed, among⟩ := mem_childrenOf_iff.mp member
    exact .down listed among (.here child)
  | down listed among _ ih => exact .down listed among (ih member)

/-- The last step, if there is one, is to a child. -/
theorem Descends.cases_last {top bottom : NodeId} {path : List NodeId}
    (descends : tree.Descends top path bottom) :
    (path = [] ∧ top = bottom) ∨ ∃ front parent, path = front ++ [bottom] ∧
      tree.Descends top front parent ∧ bottom ∈ tree.childrenOf parent := by
  induction descends with
  | here id => exact .inl ⟨rfl, rfl⟩
  | @down top child bottom children path listed member below ih =>
    right
    rcases ih with ⟨rfl, rfl⟩ | ⟨front, parent, rfl, inner, last⟩
    · exact ⟨[], top, rfl, .here top, mem_childrenOf_iff.mpr ⟨children, listed, member⟩⟩
    · exact ⟨child :: front, parent, rfl, .down listed member inner, last⟩

/-- A node that names a parent is there. -/
theorem exists_node_of_parent? {id parent : NodeId} (linked : tree.parent? id = some parent) :
    ∃ node, tree.node id = .ok node ∧ node.parent = some parent := by
  obtain ⟨node, there, named⟩ := Option.bind_eq_some_iff.mp linked
  exact ⟨node, Forest.node_eq_ok_iff.mpr there, named⟩

end SyntaxTree

open SyntaxTree

namespace Forest.Consistent

variable {tree : SyntaxTree} (consistent : tree.Consistent) {wanted : Node → Bool}

include consistent

/-- Where parents and children agree, the parent that a node names is there. -/
theorem lt_size_of_parent? {child parent : Nat} (linked : tree.parent? child = some parent) :
    parent < tree.nodes.size := by
  have member := (consistent.linked child parent).mp linked
  refine Nat.lt_of_not_le fun beyond => ?_
  simp [childrenOf, Array.getElem?_eq_none beyond] at member

/-- Where parents and children agree, numbers fall along children and rise along parents. -/
theorem graded : tree.Graded where
  older := consistent.older
  younger := fun child parent linked =>
    ⟨consistent.older parent child ((consistent.linked child parent).mp linked),
      Nat.le_of_lt (consistent.lt_size_of_parent? linked)⟩

/-- Where parents and children agree, a walk upwards from a node does not fail. -/
theorem exists_ancestor (wanted : Node → Bool) {id : Nat} (inside : id < tree.nodes.size) :
    ∃ found, tree.ancestor wanted id = .ok found := by
  cases result : tree.ancestor wanted id with
  | ok found => exact ⟨found, rfl⟩
  | error fault =>
    obtain ⟨_, leads⟩ := consistent.graded.ancestor_eq_error inside result
    exfalso
    cases leads with
    | refl => exact Nat.lt_irrefl _ inside
    | tail _ linked => exact Nat.lt_irrefl _ (consistent.lt_size_of_parent? linked)

/-- A node is no younger than one that leads to it. -/
theorem le_of_descends {top bottom : Nat} {path : List NodeId}
    (descends : tree.Descends top path bottom) : bottom ≤ top := by
  induction descends with
  | here id => exact Nat.le_refl _
  | down listed member _ ih =>
    have falls := consistent.older _ _ (mem_childrenOf_iff.mpr ⟨_, listed, member⟩)
    exact Nat.le_of_lt (Nat.lt_of_le_of_lt ih falls)

/-- There is one way at most from a node to another one. -/
theorem descends_unique {top bottom : NodeId} {path other : List NodeId}
    (first : tree.Descends top path bottom) (second : tree.Descends top other bottom) :
    path = other := by
  -- A way that has steps does not lead back to where it starts.
  have apart {front : List NodeId} {parent last : NodeId} (inner : tree.Descends top front parent)
      (final : last ∈ tree.childrenOf parent) : top ≠ last := by
    have falls := consistent.older parent last final
    have reached := consistent.le_of_descends inner
    exact Nat.ne_of_gt (Nat.lt_of_lt_of_le falls reached)
  induction path using List.reverseRecOn generalizing bottom other with
  | nil =>
    obtain ⟨_, rfl⟩ | ⟨front, parent, same, _, _⟩ := first.cases_last
    · obtain ⟨rfl, _⟩ | ⟨_, _, _, inner, final⟩ := second.cases_last
      · rfl
      · exact absurd rfl (apart inner final)
    · simp at same
  | append_singleton front last ih =>
    obtain ⟨none, _⟩ | ⟨_, parent, same, inner, final⟩ := first.cases_last
    · simp at none
    · obtain ⟨rfl, rfl⟩ := List.append_singleton_inj.mp same
      obtain ⟨_, rfl⟩ | ⟨rest, another, rfl, otherInner, otherFinal⟩ := second.cases_last
      · exact absurd rfl (apart inner final)
      · have one := (consistent.linked last parent).mpr final
        have two := (consistent.linked last another).mpr otherFinal
        obtain rfl := Option.some.inj (one.symm.trans two)
        rw [ih inner otherInner]

/-- What a walk upwards from a node comes to, so does one from a node below it, if nothing is wanted
on the way. -/
theorem climbs_of_descends {top bottom : NodeId} {path : List NodeId}
    (descends : tree.Descends top path bottom)
    (free : ∀ passed ∈ path, ¬ tree.Satisfies wanted passed)
    {result : Except TreeFault (Option NodeId)} (climbs : tree.Climbs wanted top result) :
    tree.Climbs wanted bottom result := by
  induction descends with
  | here id => exact climbs
  | @down top child bottom children path listed member below ih =>
    have linked := (consistent.linked child top).mpr
      (mem_childrenOf_iff.mpr ⟨children, listed, member⟩)
    obtain ⟨node, there, named⟩ := exists_node_of_parent? linked
    have wrong := free child (List.mem_cons_self ..)
    rw [satisfies_iff there, Bool.not_eq_true] at wrong
    exact ih (fun passed later => free passed (List.mem_cons_of_mem _ later))
      (.on there wrong named climbs)

/-- A walk upwards comes to a node exactly if that is wanted and leads to where the walk starts with
nothing on the way that is wanted. -/
theorem climbs_some_iff {top id : NodeId} :
    tree.Climbs wanted id (.ok (some top)) ↔
      tree.Satisfies wanted top ∧ ∃ path, tree.Descends top path id ∧
        ∀ passed ∈ path, ¬ tree.Satisfies wanted passed := by
  constructor
  · intro climbs
    generalize same : Except.ok (some top) = result at climbs
    induction climbs with
    | lost => contradiction
    | @found id node there right =>
      obtain rfl : top = id := Option.some.inj (Except.ok.inj same)
      exact ⟨⟨node, there, right⟩, [], .here top, by simp⟩
    | top => simp at same
    | @on id parent node result there wrong named _ ih =>
      obtain ⟨right, path, descends, free⟩ := ih same
      have linked := (parent?_of_node there).trans named
      refine ⟨right, path ++ [id], descends.concat ((consistent.linked id parent).mp linked), ?_⟩
      intro passed member
      rcases List.mem_append.mp member with before | last
      · exact free passed before
      · rw [List.mem_singleton.mp last, satisfies_iff there, wrong]
        exact Bool.false_ne_true
  · rintro ⟨⟨node, there, right⟩, path, descends, free⟩
    exact consistent.climbs_of_descends descends free (.found there right)

/-- A walk upwards that comes to nothing has met all nodes that lead to where it starts. -/
theorem not_satisfies_of_climbs_none {top id : NodeId} (climbs : tree.Climbs wanted id (.ok none))
    (contains : tree.Contains top id) : ¬ tree.Satisfies wanted top := by
  generalize same : Except.ok none = result at climbs
  induction climbs with
  | lost => contradiction
  | found => simp at same
  | @top id node there wrong free =>
    obtain ⟨path, descends⟩ := contains
    obtain ⟨_, rfl⟩ | ⟨_, parent, _, _, last⟩ := descends.cases_last
    · rw [satisfies_iff there, wrong]
      exact Bool.false_ne_true
    · have linked := (consistent.linked id parent).mpr last
      rw [parent?_of_node there, free] at linked
      contradiction
  | @on id parent node result there wrong named _ ih =>
    obtain ⟨path, descends⟩ := contains
    obtain ⟨_, rfl⟩ | ⟨front, other, _, inner, last⟩ := descends.cases_last
    · rw [satisfies_iff there, wrong]
      exact Bool.false_ne_true
    · have linked := (consistent.linked id other).mpr last
      rw [parent?_of_node there, named] at linked
      obtain rfl := Option.some.inj linked
      exact ih ⟨front, inner⟩ same

/-- A walk upwards from a node finds a node exactly if that is the next one above that is wanted. -/
theorem ancestor_eq_some_iff {top id : Nat} (inside : id < tree.nodes.size) :
    tree.ancestor wanted id = .ok (some top) ↔
      tree.Satisfies wanted top ∧ ∃ path, tree.Descends top path id ∧
        ∀ passed ∈ path, ¬ tree.Satisfies wanted passed := by
  rw [← consistent.graded.climbs_iff inside, consistent.climbs_some_iff]

/-- A walk upwards from a node finds nothing exactly if nothing above is wanted. -/
theorem ancestor_eq_none_iff {id : Nat} (inside : id < tree.nodes.size) :
    tree.ancestor wanted id = .ok none ↔
      ∀ top, tree.Contains top id → ¬ tree.Satisfies wanted top := by
  constructor
  · intro nothing top
    have climbs := (consistent.graded.climbs_iff inside).mpr nothing
    exact consistent.not_satisfies_of_climbs_none climbs
  · intro unwanted
    obtain ⟨found, result⟩ := consistent.exists_ancestor wanted inside
    cases found with
    | none => exact result
    | some top =>
      obtain ⟨right, path, descends, _⟩ := (consistent.ancestor_eq_some_iff inside).mp result
      exact absurd right (unwanted top ⟨path, descends⟩)

/-- Of the children of one node, none is below another one. -/
theorem eq_of_contains {root statement other : Nat} (listed : statement ∈ tree.childrenOf root)
    (otherListed : other ∈ tree.childrenOf root) (contains : tree.Contains other statement) :
    other = statement := by
  obtain ⟨path, descends⟩ := contains
  obtain ⟨_, same⟩ | ⟨front, parent, _, inner, last⟩ := descends.cases_last
  · exact same
  · have one := (consistent.linked statement root).mpr listed
    have two := (consistent.linked statement parent).mpr last
    obtain rfl := Option.some.inj (one.symm.trans two)
    have falls := consistent.older root other otherListed
    have reached := consistent.le_of_descends inner
    exact absurd falls (Nat.not_lt.mpr reached)

end Forest.Consistent

/-- A statement of a tree that holds a node and lies around it. -/
structure SyntaxTree.Encloses (tree : SyntaxTree) (statement id : NodeId) : Prop where
  /-- It is one of the statements of the tree. -/
  listed : statement ∈ tree.statements
  /-- It is the node or above it. -/
  contains : tree.Contains statement id
  /-- No other statement of the tree is. -/
  single : ∀ other ∈ tree.statements, tree.Contains other id → other = statement
  /-- The node lies within it. -/
  within : ∃ outer inner, tree.node statement = .ok outer ∧ tree.node id = .ok inner ∧
    outer.position ≤ inner.position ∧ inner.stop ≤ outer.stop

namespace Program

variable {position : Nat} {source : List Char}

/-- A node of the tree of a text is the root, or one of the statements, or a leaf that is the child
of a statement and lies within it. -/
theorem exists_statement_above {id : NodeId} {node : Node}
    (there : (ofLexemes position (Lexeme.ofText source)).grown.node id = .ok node)
    (below : id ≠ (ofLexemes position (Lexeme.ofText source)).grown.root) :
    let tree := (ofLexemes position (Lexeme.ofText source)).grown
    ∃ statement outer, tree.parent? statement = some tree.root ∧
      tree.node statement = .ok outer ∧ outer.kind.isStatement = true ∧
      (statement = id ∨
        (tree.parent? id = some statement ∧ node.kind.isStatement = false)) ∧
      outer.position ≤ node.position ∧ node.stop ≤ outer.stop := by
  intro tree
  have named := parent?_of_node there
  rcases cases_of_node source there with
    rfl | ⟨statement, member, first, row, rfl | ⟨leaf, held, rfl⟩⟩
  · have inside := SyntaxTree.exists_node_iff.mp ⟨_, there⟩
    exact absurd ((parent?_grown_eq_none_iff _ inside).mp named) below
  · exact ⟨id, _, named, there, statement.isStatement_kind_node .., .inl rfl, Nat.le_refl _,
      Nat.le_refl _⟩
  · obtain ⟨_, itself, _⟩ := Forest.holdsAt_append.mp row
    rw [List.length_map] at itself
    have above : tree.node (statement.id first) = .ok (statement.node first (some tree.root)) :=
      itself
    have forward := start_le_stop_of_mem_ofLexemes member
    obtain ⟨starts, stops⟩ := (leaves_within member).2 leaf held
    refine ⟨statement.id first, _, parent?_of_node above, above,
      statement.isStatement_kind_node .., .inr ⟨named, ?_⟩, starts, ?_⟩
    · exact NodeKind.isStatement_eq_false (leaf.isExpression_kind_content (γ := NodeId))
    · rw [Statement.stop_node forward]
      exact stops

/-- The statements of the tree of a program are the children of its root. -/
theorem statements_grown_eq_childrenOf (program : Program) :
    program.grown.statements = program.grown.childrenOf program.grown.root := by
  rw [childrenOf_of_node program.node_root_grown, statements_grown]
  rfl

/-- A walk upwards from a node below the root of the tree of a text finds the statement that the
node is read in. -/
theorem exists_encloses {id : Nat}
    (inside : id < (ofLexemes position (Lexeme.ofText source)).grown.nodes.size)
    (below : id ≠ (ofLexemes position (Lexeme.ofText source)).grown.root) :
    let tree := (ofLexemes position (Lexeme.ofText source)).grown
    ∃ statement, tree.ancestor (·.kind.isStatement) id = .ok (some statement) ∧
      tree.Encloses statement id := by
  intro tree
  have consistent : tree.Consistent :=
    consistent_of_tree (tree_eq (wellFormed_ofLexemes position _))
  obtain ⟨node, there⟩ := exists_node_iff.mpr inside
  obtain ⟨statement, outer, top, above, kind, place, starts, stops⟩ :=
    exists_statement_above there below
  have listed := (consistent.linked statement tree.root).mp top
  have own : tree.statements = tree.childrenOf tree.root := statements_grown_eq_childrenOf _
  have found : tree.Climbs (·.kind.isStatement) statement (.ok (some statement)) :=
    .found above kind
  refine ⟨statement, ?_, own ▸ listed, ?_, fun other member contains => ?_,
    outer, node, above, there, starts, stops⟩
  · refine (consistent.graded.climbs_iff inside).mp ?_
    rcases place with rfl | ⟨linked, wrong⟩
    · exact found
    · exact .on there wrong ((parent?_of_node there).symm.trans linked) found
  · rcases place with rfl | ⟨linked, _⟩
    · exact ⟨[], .here statement⟩
    · have member := (consistent.linked id statement).mp linked
      exact ⟨[] ++ [id], (Descends.here statement).concat member⟩
  · rw [own] at member
    rcases place with rfl | ⟨linked, _⟩
    · exact consistent.eq_of_contains listed member contains
    · obtain ⟨path, descends⟩ := contains
      obtain ⟨_, rfl⟩ | ⟨front, parent, _, inner, last⟩ := descends.cases_last
      · -- A child of the root is not the child of a statement as well.
        have one := (consistent.linked other tree.root).mpr member
        have falls := consistent.older tree.root statement listed
        obtain rfl := Option.some.inj (one.symm.trans linked)
        exact absurd falls (Nat.lt_irrefl _)
      · have one := (consistent.linked id parent).mpr last
        obtain rfl := Option.some.inj (one.symm.trans linked)
        exact consistent.eq_of_contains listed member ⟨front, inner⟩

end Program

/-- **Ancestors and descendants.** In a tree that was grown without a fault, a walk upwards from a
node does not fail. It finds a node exactly if that one is wanted and the way down from it to where
the walk starts, of which there is only one, meets none that is wanted, and it finds nothing exactly
if no node from which a way leads down to there is wanted. In a tree that a session has read,
whatever was asked of it before, a walk upwards from a node below the root finds the one statement
that the node is in, and the node lies within that. -/
theorem ancestor_iff_descends :
    (∀ seeds forest root tree, Forest.empty.plantAll seeds = .ok forest →
      forest.finish root = .ok tree → ∀ (wanted : Node → Bool) (id : Nat), id < tree.nodes.size →
        (∃ found, tree.ancestor wanted id = .ok found) ∧
        (∀ top, tree.ancestor wanted id = .ok (some top) ↔
          tree.Satisfies wanted top ∧ ∃ path, tree.Descends top path id ∧
            ∀ passed ∈ path, ¬ tree.Satisfies wanted passed) ∧
        (tree.ancestor wanted id = .ok none ↔
          ∀ top, tree.Contains top id → ¬ tree.Satisfies wanted top) ∧
        ∀ top path other, tree.Descends top path id → tree.Descends top other id →
          path = other) ∧
    ∀ file source mode calls tree,
      let session := (Session.ofSource file source mode).after calls
      (session.readTree.1 = .ok tree ∨ session.parse.1 = .ok tree) →
        ∀ id : Nat, id < tree.nodes.size → id ≠ tree.root →
          ∃ statement, tree.ancestor (·.kind.isStatement) id = .ok (some statement) ∧
            tree.Encloses statement id := by
  constructor
  · intro seeds forest root tree planted finished wanted id inside
    have consistent := Forest.consistent_of_finish planted finished
    exact ⟨consistent.exists_ancestor wanted inside,
      fun top => consistent.ancestor_eq_some_iff inside,
      consistent.ancestor_eq_none_iff inside, fun top path other => consistent.descends_unique⟩
  · intro file source mode calls tree session found id inside below
    rw [Session.fst_parse, or_self] at found
    obtain rfl := Session.eq_grown_of_readTree found
    obtain ⟨before, rest, _, _, ahead⟩ :=
      (Session.placed_after (Session.placed_ofSource file source mode) calls).1
    rw [Session.program, ahead] at inside below ⊢
    exact Program.exists_encloses inside below

/-- A number behind the instruction that it is an operand of, in a tree grown by hand and in the
same tree as it is read. -/
theorem ancestor_iff_descends_operand :
    let seeds : List Seed := [⟨.identifier ['b'], 0, 1⟩, ⟨.integer 1, 2, 1⟩,
      ⟨.instruction 0 [1], 0, 3⟩, ⟨.source [2], 0, 3⟩]
    ∃ forest tree, Forest.empty.plantAll seeds = .ok forest ∧ forest.finish 3 = .ok tree ∧
      (tree.ancestor (·.kind = .source) 1 = .ok (some 3) ↔
        tree.Satisfies (·.kind = .source) 3 ∧ ∃ path, tree.Descends 3 path 1 ∧
          ∀ passed ∈ path, ¬ tree.Satisfies (·.kind = .source) passed) ∧
      (parseSource "a" "b 1".toList .debug).1 = .ok tree ∧
      ∃ statement, tree.ancestor (·.kind.isStatement) 1 = .ok (some statement) ∧
        tree.Encloses statement 1 := by
  intro seeds
  let tree : SyntaxTree :=
    { nodes := #[
        { data := .identifier ['b'], position := 0, length := 1, parent := some 2 },
        { data := .integer 1, position := 2, length := 1, parent := some 2 },
        { data := .instruction 0 [1], position := 0, length := 3, parent := some 3 },
        { data := .source [2], position := 0, length := 3, parent := none }],
      root := 3 }
  let lexemes : List Lexeme :=
    [.token .identifier ['b'], .token .space [' '], .token .integer ['1']]
  have munched : Lexeme.Munched lexemes := by decide
  have cut : Lexeme.ofText "b 1".toList = lexemes := Lexeme.ofText_flatMap munched
  have found : (parseSource "a" "b 1".toList .debug).1 = .ok tree := by
    rw [fst_parseSource_debug, cut]
    exact congrArg Except.ok (by decide)
  refine ⟨tree.toForest, tree, rfl, rfl, ?_, found, ?_⟩
  · exact (ancestor_iff_descends.1 seeds tree.toForest 3 tree rfl rfl (·.kind = .source) 1
      (by decide)).2.1 3
  · exact ancestor_iff_descends.2 "a" "b 1".toList .debug [] tree (.inr found) 1 (by decide)
      (by decide)

end Assembly8085
