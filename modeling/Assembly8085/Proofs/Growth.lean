import Assembly8085.Proofs.Forest

/-!
# Growth of a forest

A forest holds the relation of parents and children twice: each node names its parent, and each
node lists its children. What one planting does to either is said once; from it follows that the
two agree in every forest that was grown without a fault, whatever was planted in it.
-/
namespace Assembly8085.Forest

/-- The parent of the node of a number, if there is such a node and it has one. -/
def parent? (forest : Forest) (id : NodeId) : Option NodeId :=
  forest.nodes[id]?.bind (·.parent)

/-- The children of the node of a number; where there is no node, there are no children. -/
def childrenOf (forest : Forest) (id : NodeId) : List NodeId :=
  (forest.nodes[id]?.map (·.data.children)).getD []

/-- The kind of the node of a number, if there is such a node. -/
def kind? (forest : Forest) (id : NodeId) : Option NodeKind := forest.nodes[id]?.map (·.kind)

/-- There is a node of a number, and its kind is of a family. -/
def Belongs (forest : Forest) (family : NodeKind → Bool) (id : NodeId) : Prop :=
  ∃ kind, forest.kind? id = some kind ∧ family kind = true

/-- Each child that a node is to have is there, and is of the family that its slot is for. -/
def Fits (forest : Forest) : NodeData NodeId → Prop
  | .source statements => ∀ id ∈ statements, forest.Belongs NodeKind.isStatement id
  | .instruction target operands =>
    forest.Belongs (· = .identifier) target ∧
      ∀ id ∈ operands, forest.Belongs NodeKind.isExpression id
  | .label name => forest.Belongs (· = .identifier) name
  | .identifier _ | .integer _ => True

/-- Parents and children agree. -/
structure Consistent (forest : Forest) : Prop where
  /-- A node is the parent of exactly its children. -/
  linked : ∀ child parent,
    forest.parent? child = some parent ↔ child ∈ forest.childrenOf parent
  /-- Children are older than their parents. -/
  older : ∀ (parent child : Nat), child ∈ forest.childrenOf parent → child < parent
  /-- No node is a child twice. -/
  nodup : ∀ parent, (forest.childrenOf parent).Nodup
  /-- All children fit their slots. -/
  fits : ∀ (id : Nat) (node : Node), forest.nodes[id]? = some node → forest.Fits node.data

/-- A node is no misfit exactly if it is there and of the family. -/
theorem misfit?_eq_none_iff {forest : Forest} {family : NodeKind → Bool}
    {fault : NodeKind → TreeFault} {id : NodeId} :
    forest.misfit? family fault id = none ↔ forest.Belongs family id := by
  unfold misfit? node Belongs kind?
  cases forest.nodes[id]? <;> simp

/-- There is no misfit among the children of a node exactly if they all fit. -/
theorem misfitIn?_eq_none_iff {forest : Forest} {data : NodeData NodeId} :
    forest.misfitIn? data = none ↔ forest.Fits data := by
  cases data <;> simp [misfitIn?, Fits, misfit?_eq_none_iff]

/-- A child that fits is there. -/
theorem Fits.kind?_ne_none {forest : Forest} {data : NodeData NodeId} (fits : forest.Fits data)
    {child : NodeId} (member : child ∈ data.children) : forest.kind? child ≠ none := by
  have there {family : NodeKind → Bool} (belongs : forest.Belongs family child) :
      forest.kind? child ≠ none := by
    obtain ⟨kind, found, _⟩ := belongs
    simp [found]
  cases data with
  | source statements => exact there (fits child member)
  | instruction target operands =>
    rcases List.mem_cons.mp member with rfl | operand
    · exact there fits.1
    · exact there (fits.2 child operand)
  | label name =>
    obtain rfl := List.mem_singleton.mp member
    exact there fits
  | identifier text => contradiction
  | integer value => contradiction

/-- What fits a forest fits any other one that has its nodes with their kinds. -/
theorem Fits.mono {forest after : Forest} {data : NodeData NodeId} (fits : forest.Fits data)
    (kept : ∀ id kind, forest.kind? id = some kind → after.kind? id = some kind) :
    after.Fits data := by
  have each {family : NodeKind → Bool} {id : NodeId} (belongs : forest.Belongs family id) :
      after.Belongs family id := by
    obtain ⟨kind, found, right⟩ := belongs
    exact ⟨kind, kept id kind found, right⟩
  cases data with
  | source statements => exact fun id member => each (fits id member)
  | instruction target operands =>
    exact ⟨each fits.1, fun id member => each (fits.2 id member)⟩
  | label name => exact each fits
  | identifier text => trivial
  | integer value => trivial

/-- A link changes the parent of one node. -/
theorem getElem?_link (forest : Forest) (parent child id : Nat) :
    (forest.link parent child).nodes[id]? =
      if id = child then forest.nodes[id]?.map (·.under parent) else forest.nodes[id]? := by
  simp only [link, Array.getElem?_modify, eq_comm (a := id)]
  rfl

/-- A link changes no kind. -/
theorem kind?_link (forest : Forest) (parent child id : NodeId) :
    (forest.link parent child).kind? id = forest.kind? id := by
  rw [kind?, getElem?_link]
  split
  · rw [Option.map_map]
    rfl
  · rfl

/-- However far adoption comes, no node is added. -/
theorem size_nodes_adopt (forest : Forest) (parent : NodeId) (children : List NodeId) :
    (forest.adopt parent children).2.nodes.size = forest.nodes.size := by
  induction children generalizing forest with
  | nil => rfl
  | cons child others ih =>
    rw [adopt]
    split
    · rfl
    · split
      · rfl
      · rw [ih, size_nodes_link]

/-- Nodes get a parent, which none of them had, and nothing but that changes. -/
structure Adopts (forest : Forest) (parent : NodeId) (adopted : List NodeId) (after : Forest) :
    Prop where
  /-- The nodes are all different. -/
  nodup : adopted.Nodup
  /-- The nodes are there and had no parent. -/
  parentless : ∀ child ∈ adopted, ∃ node, forest.nodes[child]? = some node ∧ node.parent = none
  /-- The nodes have the parent; all else is as before. -/
  changed : ∀ id : Nat, after.nodes[id]? =
    if id ∈ adopted then forest.nodes[id]?.map (·.under parent) else forest.nodes[id]?

/-- Where no nodes get a parent, nothing changes. -/
theorem adopts_nil (forest : Forest) (parent : NodeId) : forest.Adopts parent [] forest :=
  ⟨List.nodup_nil, by simp, by simp⟩

/-- A node without a parent gets one in front of the others. -/
theorem Adopts.cons {forest after : Forest} {parent child : NodeId} {others : List NodeId}
    {node : Node} (there : forest.nodes[child]? = some node) (free : node.parent = none)
    (behind : (forest.link parent child).Adopts parent others after) :
    forest.Adopts parent (child :: others) after := by
  -- Among the others the child would be found with the parent that it just got.
  have single : child ∉ others := by
    intro again
    obtain ⟨found, here, none⟩ := behind.parentless child again
    rw [getElem?_link, if_pos rfl, there] at here
    obtain rfl := Option.some.inj here
    contradiction
  refine ⟨List.nodup_cons.mpr ⟨single, behind.nodup⟩, ?_, ?_⟩
  · intro id member
    rcases List.mem_cons.mp member with rfl | later
    · exact ⟨node, there, free⟩
    · obtain ⟨found, here, none⟩ := behind.parentless id later
      have other : id ≠ child := fun same => single (same ▸ later)
      rw [getElem?_link, if_neg other] at here
      exact ⟨found, here, none⟩
  · intro id
    rw [behind.changed id, getElem?_link]
    by_cases same : id = child
    · subst same
      simp [single]
    · simp [same]

namespace Adopts

variable {forest after : Forest} {parent : NodeId} {adopted : List NodeId}
  (adopts : forest.Adopts parent adopted after)

include adopts

/-- The nodes adopted had no parent. -/
theorem parent?_eq_none {id : NodeId} (member : id ∈ adopted) : forest.parent? id = none := by
  obtain ⟨node, there, none⟩ := adopts.parentless id member
  simp [parent?, there, none]

/-- The nodes adopted have the parent, and the other ones those that they had. -/
theorem parent?_eq (id : NodeId) :
    after.parent? id = if id ∈ adopted then some parent else forest.parent? id := by
  rw [parent?, adopts.changed id]
  split
  · rename_i member
    obtain ⟨node, there, _⟩ := adopts.parentless id member
    rw [there]
    rfl
  · rfl

/-- Each node keeps its children. -/
theorem childrenOf_eq (id : NodeId) : after.childrenOf id = forest.childrenOf id := by
  rw [childrenOf, adopts.changed id]
  split
  · rw [Option.map_map]
    rfl
  · rfl

end Adopts

/-- Children that are adopted are all different and had no parent, and nothing but that
changes. -/
theorem adopt_ok {forest after : Forest} {parent : NodeId} {children : List NodeId}
    (adopted : forest.adopt parent children = (.ok (), after)) :
    forest.Adopts parent children after := by
  induction children generalizing forest with
  | nil =>
    obtain rfl : forest = after := (Prod.mk.inj adopted).2
    exact forest.adopts_nil parent
  | cons child others ih =>
    rw [adopt] at adopted
    cases there : forest.node child with
    | error fault =>
      rw [there] at adopted
      simp at adopted
    | ok node =>
      rw [node_eq_ok_iff] at there
      simp only [node_eq_ok_iff.mpr there] at adopted
      split at adopted
      · simp at adopted
      · rename_i free
        exact .cons there (Option.not_isSome_iff_eq_none.mp free) (ih adopted)

/-- What a planting that succeeds needs, and what it does: the children are there, fit, are all
different and have no parent, and they get the new node as their parent. -/
structure Planted (forest : Forest) (seed : Seed) (after : Forest) : Prop where
  /-- The children fit. -/
  fits : forest.Fits seed.data
  /-- The children are all different. -/
  nodup : seed.data.children.Nodup
  /-- The children had no parent. -/
  parentless : ∀ child ∈ seed.data.children, forest.parent? child = none
  /-- The new node is the last one and has no parent. -/
  last : after.nodes[forest.nodes.size]? = some { toSeed := seed, parent := none }
  /-- The children have the new node as their parent; all else is as before. -/
  changed : ∀ id : Nat, id ≠ forest.nodes.size → after.nodes[id]? =
    if id ∈ seed.data.children then forest.nodes[id]?.map (·.under forest.nodes.size)
    else forest.nodes[id]?

/-- A planting that succeeds gives the number of the new node. -/
theorem planted_of_plant {forest after : Forest} {seed : Seed} {id : NodeId}
    (planted : forest.plant seed = (.ok id, after)) :
    id = forest.nodes.size ∧ forest.Planted seed after := by
  unfold plant at planted
  split at planted
  · simp at planted
  · rename_i noMisfit
    split at planted
    · simp at planted
    · rename_i linked adopted
      obtain ⟨same, rfl⟩ := Prod.mk.inj planted
      have adopts := adopt_ok adopted
      have size : linked.nodes.size = forest.nodes.size := by
        rw [← forest.size_nodes_adopt forest.nodes.size seed.data.children, adopted]
      refine ⟨(Except.ok.inj same).symm, misfitIn?_eq_none_iff.mp noMisfit, adopts.nodup,
        fun child member => adopts.parent?_eq_none member, ?_, ?_⟩
      · simp [push, ← size]
      · intro other different
        rw [← adopts.changed other, push, Array.getElem?_push, if_neg (size ▸ different)]

namespace Planted

variable {forest after : Forest} {seed : Seed} (planted : forest.Planted seed after)

include planted

/-- The new node is a child of none so far, so it is not its own child either. -/
theorem size_not_mem : forest.nodes.size ∉ seed.data.children := by
  intro member
  exact planted.fits.kind?_ne_none member (by simp [kind?])

/-- A node keeps its kind. -/
theorem kind?_eq {id : NodeId} (other : id ≠ forest.nodes.size) :
    after.kind? id = forest.kind? id := by
  rw [kind?, planted.changed id other]
  split
  · rw [Option.map_map]
    rfl
  · rfl

/-- A node keeps its children, and the new one has those that it was planted with. -/
theorem childrenOf_eq (id : NodeId) :
    after.childrenOf id =
      if id = forest.nodes.size then seed.data.children else forest.childrenOf id := by
  split
  · rename_i same
    subst same
    simp [childrenOf, planted.last]
  · rename_i other
    rw [childrenOf, planted.changed id other]
    split
    · rw [Option.map_map]
      rfl
    · rfl

/-- The children of the new node have it as their parent, and it has none. -/
theorem parent?_eq (id : NodeId) :
    after.parent? id =
      if id = forest.nodes.size then none
      else if id ∈ seed.data.children then some forest.nodes.size else forest.parent? id := by
  split
  · rename_i same
    subst same
    simp [parent?, planted.last]
  · rename_i other
    rw [parent?, planted.changed id other]
    split
    · rename_i member
      have there := planted.fits.kind?_ne_none member
      cases found : forest.nodes[id]? with
      | none => simp [kind?, found] at there
      | some node => rfl
    · rfl

/-- Parents and children still agree. -/
theorem consistent (before : forest.Consistent) : after.Consistent := by
  have range {child : Nat} (member : child ∈ seed.data.children) : child < forest.nodes.size := by
    simpa [kind?] using planted.fits.kind?_ne_none member
  have nobody (id : Nat) : forest.nodes.size ∉ forest.childrenOf id := by
    intro member
    have linked := (before.linked _ _).mpr member
    simp [parent?] at linked
  have childless : forest.childrenOf forest.nodes.size = [] := by simp [childrenOf]
  have kept (id : NodeId) (kind : NodeKind) (found : forest.kind? id = some kind) :
      after.kind? id = some kind := by
    have other : id ≠ forest.nodes.size := by
      rintro rfl
      simp [kind?] at found
    rw [planted.kind?_eq other, found]
  refine ⟨?_, ?_, ?_, ?_⟩
  · intro child parent
    rw [planted.parent?_eq, planted.childrenOf_eq]
    by_cases new : child = forest.nodes.size
    · subst new
      by_cases self : parent = forest.nodes.size
      · simp [self, planted.size_not_mem]
      · simp [self, nobody parent]
    · by_cases adopted : child ∈ seed.data.children
      · have free := planted.parentless child adopted
        have linked := before.linked child parent
        rw [free] at linked
        by_cases self : parent = forest.nodes.size
        · simp [new, adopted, self]
        · simpa [new, adopted, self, eq_comm (a := forest.nodes.size)] using linked
      · by_cases self : parent = forest.nodes.size
        · subst self
          have linked := before.linked child forest.nodes.size
          rw [childless] at linked
          simpa [new, adopted] using linked
        · simp [new, adopted, self, before.linked]
  · intro parent child member
    rw [planted.childrenOf_eq] at member
    split at member
    · rename_i self
      subst self
      exact range member
    · exact before.older parent child member
  · intro parent
    rw [planted.childrenOf_eq]
    split
    · exact planted.nodup
    · exact before.nodup parent
  · intro id node there
    by_cases new : id = forest.nodes.size
    · rw [new, planted.last] at there
      obtain rfl := Option.some.inj there
      exact planted.fits.mono kept
    · rw [planted.changed id new] at there
      split at there
      · obtain ⟨earlier, found, rfl⟩ := Option.map_eq_some_iff.mp there
        exact (before.fits id earlier found).mono kept
      · exact (before.fits id node there).mono kept

end Planted

/-- Parents and children agree where there are no nodes. -/
theorem consistent_empty : empty.Consistent where
  linked := by simp [parent?, childrenOf, empty]
  older := by simp [childrenOf, empty]
  nodup := by simp [childrenOf, empty]
  fits := by simp [empty]

/-- Parents and children agree in a forest to which nodes were added without a fault. -/
theorem consistent_of_plantAll {forest after : Forest} {seeds : List Seed}
    (before : forest.Consistent) (planted : forest.plantAll seeds = .ok after) :
    after.Consistent := by
  induction seeds generalizing forest with
  | nil =>
    obtain rfl := Except.ok.inj planted
    exact before
  | cons seed others ih =>
    rw [plantAll] at planted
    split at planted
    · simp at planted
    · rename_i id next here
      exact ih ((planted_of_plant here).2.consistent before) planted

/-- A finished tree has the nodes of its forest. -/
theorem toForest_of_finish {forest : Forest} {root : NodeId} {tree : SyntaxTree}
    (finished : forest.finish root = .ok tree) : tree.toForest = forest := by
  unfold finish at finished
  split at finished
  · simp at finished
  · split at finished
    · simp at finished
    · obtain rfl := Except.ok.inj finished
      rfl

/-- Parents and children agree in a finished tree of nodes that were added without a fault. -/
theorem consistent_of_finish {forest : Forest} {seeds : List Seed} {root : NodeId}
    {tree : SyntaxTree} (planted : empty.plantAll seeds = .ok forest)
    (finished : forest.finish root = .ok tree) : tree.Consistent := by
  rw [toForest_of_finish finished]
  exact consistent_of_plantAll consistent_empty planted

/-- Where nodes can be added one after the other, so can the first of them. -/
theorem exists_plantAll_of_append {forest after : Forest} {early late : List Seed}
    (planted : forest.plantAll (early ++ late) = .ok after) :
    ∃ between, forest.plantAll early = .ok between := by
  induction early generalizing forest with
  | nil => exact ⟨forest, rfl⟩
  | cons seed others ih =>
    rw [List.cons_append, plantAll] at planted
    rw [plantAll]
    split at planted
    · contradiction
    · exact ih planted

end Assembly8085.Forest

namespace Assembly8085.SyntaxTree

variable {tree : SyntaxTree}

/-- A number is that of a node exactly if it is below the number of nodes. -/
theorem exists_node_iff {id : Nat} : (∃ node, tree.node id = .ok node) ↔ id < tree.nodes.size := by
  simp only [Forest.node_eq_ok_iff, ← Option.isSome_iff_exists, Option.isSome_iff_ne_none, Ne,
    Array.getElem?_eq_none_iff, Nat.not_le]

/-- The children of a node that is there are those that it holds. -/
theorem childrenOf_of_node {id : NodeId} {node : Node} (there : tree.node id = .ok node) :
    tree.childrenOf id = node.data.children := by
  simp [Forest.childrenOf, Forest.node_eq_ok_iff.mp there]

/-- The parent of a node that is there is the one that it names. -/
theorem parent?_of_node {id : NodeId} {node : Node} (there : tree.node id = .ok node) :
    tree.parent? id = node.parent := by
  simp [Forest.parent?, Forest.node_eq_ok_iff.mp there]

end Assembly8085.SyntaxTree
