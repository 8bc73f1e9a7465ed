import Assembly8085.SyntaxTree.Walk

/-!
# Planting and walking

A forest is looked at as the list of its nodes. Nodes that stand in a row are described by the
number of the first one; a new parent changes nothing but the links of its children. A walk
downwards is bounded by the number of its node, and that bound is never met where children are
older than their parents, so there a walk satisfies its own equation.
-/
namespace Assembly8085

/-- The node as a child of another. -/
def Node.under (node : Node) (parent : NodeId) : Node := { node with parent := some parent }

namespace Forest

/-- The forest whose nodes are those of a list. -/
def ofList (nodes : List Node) : Forest := ⟨nodes.toArray⟩

/-- There are as many nodes as the list has. -/
@[simp] theorem size_nodes_ofList (nodes : List Node) :
    (ofList nodes).nodes.size = nodes.length := by
  simp [ofList]

/-- A node is found exactly at the place that is its number. -/
theorem node_eq_ok_iff {forest : Forest} {id : NodeId} {found : Node} :
    forest.node id = .ok found ↔ forest.nodes[id]? = some found := by
  unfold Forest.node
  split <;> simp_all

/-- The node behind the first ones of a list has their number. -/
theorem node_ofList (before after : List Node) (node : Node) :
    (ofList (before ++ node :: after)).node before.length = .ok node := by
  rw [node_eq_ok_iff]
  simp [ofList]

/-- What is looked up of nodes goes by the list of what they have of it. -/
theorem map_node_ofList {β : Type} {f : Node → β} {first second : List Node}
    (same : first.map f = second.map f) (id : NodeId) :
    ((ofList first).node id).map f = ((ofList second).node id).map f := by
  have found (nodes : List Node) : ((ofList nodes).node id).map f =
      (nodes.map f)[id]?.elim (.error (.outOfRange (nodes.map f).length id)) .ok := by
    simp only [node, ofList, List.getElem?_toArray, List.getElem?_map, List.length_map,
      List.size_toArray]
    cases nodes[id]? <;> rfl
  rw [found, found, same]

/-- A link changes the node that it makes a child, and no other. -/
theorem link_ofList (before after : List Node) (node : Node) (parent : NodeId) :
    (ofList (before ++ node :: after)).link parent before.length =
      ofList (before ++ node.under parent :: after) := by
  simp [link, ofList, Node.under, List.modify_eq_take_drop]

/-- One more node stands behind all others. -/
theorem push_ofList (nodes : List Node) (seed : Seed) :
    (ofList nodes).push seed = ofList (nodes ++ [{ toSeed := seed, parent := none }]) := by
  simp [push, ofList]

/-- Nodes stand in a row, the first one at a number. -/
def HoldsAt (forest : Forest) (base : NodeId) : List Node → Prop
  | [] => True
  | node :: others => forest.node base = .ok node ∧ forest.HoldsAt (base + 1) others

/-- Two rows of nodes are one row if the second starts where the first ends. -/
theorem holdsAt_append {forest : Forest} {base : NodeId} {first second : List Node} :
    forest.HoldsAt base (first ++ second) ↔
      forest.HoldsAt base first ∧ forest.HoldsAt (base + first.length) second := by
  induction first generalizing base with
  | nil => simp [HoldsAt]
  | cons node others ih =>
    simp only [List.cons_append, HoldsAt, ih, List.length_cons, and_assoc]
    rw [Nat.add_assoc, Nat.add_comm 1]

/-- A part of the list of all nodes is a row. -/
theorem holdsAt_ofList (before nodes after : List Node) :
    (ofList (before ++ nodes ++ after)).HoldsAt before.length nodes := by
  induction nodes generalizing before with
  | nil => trivial
  | cons node others ih =>
    refine ⟨by simpa using node_ofList before (others ++ after) node, ?_⟩
    simpa using ih (before ++ [node])

/-- All nodes are a row that starts at zero. -/
theorem holdsAt_zero (nodes : List Node) : (ofList nodes).HoldsAt 0 nodes := by
  simpa using holdsAt_ofList [] nodes []

/-- A node fits a family that its kind belongs to. -/
theorem misfit?_eq_none {forest : Forest} {family : NodeKind → Bool}
    {fault : NodeKind → TreeFault} {id : NodeId} {node : Node}
    (there : forest.node id = .ok node) (fits : family node.kind = true) :
    forest.misfit? family fault id = none := by
  simp [misfit?, there, fits]

/-- Nodes in a row fit a family that all their kinds belong to. -/
theorem findSome?_misfit?_range' {forest : Forest} {family : NodeKind → Bool}
    (fault : NodeKind → TreeFault) {base : NodeId} {nodes : List Node}
    (row : forest.HoldsAt base nodes) (fits : ∀ node ∈ nodes, family node.kind = true) :
    (List.range' base nodes.length).findSome? (forest.misfit? family fault) = none := by
  induction nodes generalizing base with
  | nil => rfl
  | cons node others ih =>
    rw [List.length_cons, List.range'_succ, List.findSome?_cons,
      misfit?_eq_none row.1 (fits node (List.mem_cons_self ..))]
    exact ih row.2 fun other member => fits other (List.mem_cons_of_mem _ member)

/-- A node without a parent is adopted, and so are the ones after it. -/
theorem adopt_cons (before after : List Node) (node : Node) (free : node.parent = none)
    (parent : NodeId) (others : List NodeId) :
    (ofList (before ++ node :: after)).adopt parent (before.length :: others) =
      (ofList (before ++ node.under parent :: after)).adopt parent others := by
  rw [adopt, node_ofList]
  simp [free, link_ofList]

/-- Nodes in a row that have no parents are adopted, and so are the ones after them. -/
theorem adopt_range' (before nodes after : List Node) (free : ∀ node ∈ nodes, node.parent = none)
    (parent : NodeId) (others : List NodeId) :
    (ofList (before ++ nodes ++ after)).adopt parent
        (List.range' before.length nodes.length ++ others) =
      (ofList (before ++ nodes.map (·.under parent) ++ after)).adopt parent others := by
  induction nodes generalizing before with
  | nil => rfl
  | cons node rest ih =>
    have first := adopt_cons before (rest ++ after) node (free node (List.mem_cons_self ..)) parent
      (List.range' (before.length + 1) rest.length ++ others)
    have later := ih (before ++ [node.under parent])
      fun other member => free other (List.mem_cons_of_mem _ member)
    simp only [List.append_assoc, List.cons_append, List.length_append, List.length_cons,
      List.length_nil, Nat.zero_add, List.nil_append, List.map_cons,
      List.range'_succ] at first later ⊢
    rw [first, later]

/-- Children are older than their parents. -/
def Ordered (forest : Forest) : Prop :=
  ∀ (id : Nat) (node : Node), forest.node id = .ok node →
    ∀ child : Nat, child ∈ node.data.children → child < id

/-- A forest is in order if in the list of its nodes each child is older than its parent. -/
theorem ordered_ofList {nodes : List Node}
    (older : ∀ placed ∈ nodes.zipIdx, ∀ child : Nat, child ∈ placed.1.data.children →
      child < placed.2) :
    (ofList nodes).Ordered := by
  intro id node there child member
  have place := node_eq_ok_iff.mp there
  exact older (node, id) (List.mem_zipIdx_iff_getElem?.mpr (by simpa [ofList] using place)) child
    member

end Forest

namespace NodeData

variable {γ δ ε : Type}

/-- The data with each child replaced by what a function makes of it. -/
def map (f : γ → δ) : NodeData γ → NodeData δ
  | .source statements => .source (statements.map f)
  | .instruction target operands => .instruction (f target) (operands.map f)
  | .label name => .label (f name)
  | .identifier text => .identifier text
  | .integer value => .integer value

/-- A walk over the children depends on what is found for them alone. -/
theorem traverse_congr {find other : γ → Except ε δ} {data : NodeData γ}
    (same : ∀ child ∈ data.children, find child = other child) :
    data.traverse find = data.traverse other := by
  have each (children : List γ) (same : ∀ child ∈ children, find child = other child) :
      children.mapM find = children.mapM other := by
    induction children with
    | nil => rfl
    | cons child rest ih =>
      rw [List.mapM_cons, List.mapM_cons, same child (List.mem_cons_self ..),
        ih fun next member => same next (List.mem_cons_of_mem _ member)]
  cases data with
  | source statements => simp only [traverse, each statements same]
  | instruction target operands =>
    simp only [traverse, same target (List.mem_cons_self ..),
      each operands fun child member => same child (List.mem_cons_of_mem _ member)]
  | label name => simp only [traverse, same name (List.mem_cons_self ..)]
  | identifier text => rfl
  | integer value => rfl

end NodeData

namespace SyntaxTree

variable {α : Type}

/-- More levels than the number of the node make no difference where children are older. -/
theorem foldWithin_eq_fold {tree : SyntaxTree} (ordered : tree.Ordered)
    (combine : NodeId → NodeData α → α) (levels id : Nat) (enough : id < levels) :
    tree.foldWithin combine levels id = tree.fold combine id := by
  induction id using Nat.strongRecOn generalizing levels with
  | ind id ih =>
    obtain ⟨levels, rfl⟩ : ∃ fewer, levels = fewer + 1 := ⟨levels - 1, by omega⟩
    rw [fold, foldWithin, foldWithin]
    cases there : tree.node id with
    | error fault => rfl
    | ok node =>
      have same : node.data.traverse (tree.foldWithin combine levels) =
          node.data.traverse (tree.foldWithin combine id) := by
        apply NodeData.traverse_congr
        intro child member
        have older := ordered id node there child member
        rw [ih child older levels (by omega), ih child older id older]
      simp only [bind, Except.bind, same]

/-- A walk finds for a node what it makes of its data, once it has found what belongs to each
child. -/
theorem fold_eq {tree : SyntaxTree} (ordered : tree.Ordered)
    {combine : NodeId → NodeData α → α} {id : NodeId} {node : Node} {data : NodeData α}
    (there : tree.node id = .ok node) (found : node.data.traverse (tree.fold combine) = .ok data) :
    tree.fold combine id = .ok (combine id data) := by
  have below : node.data.traverse (tree.foldWithin combine id) = .ok data := by
    rw [← found]
    apply NodeData.traverse_congr
    intro child member
    exact foldWithin_eq_fold ordered combine id child (ordered id node there child member)
  rw [fold, foldWithin, there]
  simp only [bind, Except.bind, below]
  rfl

end SyntaxTree

end Assembly8085
