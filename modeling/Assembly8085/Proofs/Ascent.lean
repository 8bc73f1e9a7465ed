import Mathlib.Logic.Relation
import Assembly8085.Proofs.Faults
import Assembly8085.SyntaxTree.Print

/-!
# Walks after failed plantings

A failed planting may tie nodes to one that is not there, and what the next node is has nothing to
do with them. So parents and children need not agree in what is grown then. But numbers still fall
from a node to its children, and they still rise from a node to its parent, up to the number that
the next node would get. Therefore walks come to an end whatever was planted.
-/
namespace Assembly8085

namespace Forest

variable {forest : Forest}

/-- Numbers fall along children and rise along parents. -/
structure Graded (forest : Forest) : Prop where
  /-- Children are older than the node that lists them. -/
  older : ∀ (parent child : Nat), child ∈ forest.childrenOf parent → child < parent
  /-- A parent is younger than its child, and is at most the node that comes next. -/
  younger : ∀ (child parent : Nat), forest.parent? child = some parent →
    child < parent ∧ parent ≤ forest.nodes.size

/-- Where there are no nodes, there is nothing to fall or to rise. -/
theorem graded_empty : empty.Graded where
  older := by simp [childrenOf, empty]
  younger := by simp [parent?, empty]

/-- A planting adds a node, or leaves the forest as it was, or stalls. -/
theorem cases_of_plant (forest : Forest) (seed : Seed) :
    forest.Planted seed (forest.plant seed).2 ∨ (forest.plant seed).2 = forest ∨
      ∃ fault tied, forest.Stalled forest.nodes.size seed.data.children fault tied
        (forest.plant seed).2 := by
  cases made : forest.plant seed with
  | mk result after =>
    cases result with
    | ok id => exact .inl (planted_of_plant made).2
    | error fault =>
      rcases misfit_or_stalled_of_plant made with ⟨_, same⟩ | ⟨_, tied, stalled⟩
      · exact .inr (.inl same)
      · exact .inr (.inr ⟨fault, tied, stalled⟩)

/-- A node that is adopted is there. -/
theorem Adopts.lt_size {parent : NodeId} {adopted : List NodeId} {after : Forest}
    (adopts : forest.Adopts parent adopted after) {child : Nat} (member : child ∈ adopted) :
    child < forest.nodes.size := by
  obtain ⟨node, there, _⟩ := adopts.parentless child member
  exact (Array.getElem?_eq_some_iff.mp there).1

/-- Adoption neither adds nodes nor takes any away. -/
theorem Adopts.size_nodes {parent : NodeId} {adopted : List NodeId} {after : Forest}
    (adopts : forest.Adopts parent adopted after) : after.nodes.size = forest.nodes.size := by
  have same (id : Nat) : after.nodes.size ≤ id ↔ forest.nodes.size ≤ id := by
    rw [← Array.getElem?_eq_none_iff, ← Array.getElem?_eq_none_iff, adopts.changed id]
    split <;> simp
  have here := (same forest.nodes.size).mpr (Nat.le_refl _)
  have there := (same after.nodes.size).mp (Nat.le_refl _)
  omega

/-- A new node is the last one. -/
theorem Planted.size_lt {seed : Seed} {after : Forest} (planted : forest.Planted seed after) :
    forest.nodes.size < after.nodes.size :=
  (Array.getElem?_eq_some_iff.mp planted.last).1

namespace Graded

variable (graded : forest.Graded)

include graded

/-- Numbers fall and rise when a node has been added. -/
theorem planted {seed : Seed} {after : Forest} (planted : forest.Planted seed after) :
    after.Graded := by
  have range {child : Nat} (member : child ∈ seed.data.children) : child < forest.nodes.size := by
    simpa [kind?] using planted.fits.kind?_ne_none member
  have size := planted.size_lt
  refine ⟨fun parent child member => ?_, fun child parent linked => ?_⟩
  · rw [planted.childrenOf_eq] at member
    split at member
    · rename_i self
      exact self ▸ range member
    · exact graded.older parent child member
  · rw [planted.parent?_eq] at linked
    split at linked
    · contradiction
    · split at linked
      · rename_i member
        obtain rfl := Option.some.inj linked
        exact ⟨range member, Nat.le_of_lt size⟩
      · obtain ⟨rises, bound⟩ := graded.younger child parent linked
        exact ⟨rises, by omega⟩

/-- Numbers fall and rise when an adoption has stalled. -/
theorem stalled {children tied : List NodeId} {fault : TreeFault} {after : Forest}
    (stalled : forest.Stalled forest.nodes.size children fault tied after) : after.Graded := by
  refine ⟨fun parent child member => ?_, fun child parent linked => ?_⟩
  · rw [stalled.childrenOf_eq] at member
    exact graded.older parent child member
  · rw [stalled.size_nodes]
    rw [stalled.parent?_eq] at linked
    split at linked
    · rename_i member
      obtain rfl := Option.some.inj linked
      exact ⟨stalled.lt_size member, Nat.le_refl _⟩
    · exact graded.younger child parent linked

/-- Numbers fall and rise behind each planting, whatever comes of it. -/
theorem plant (seed : Seed) : (forest.plant seed).2.Graded := by
  rcases forest.cases_of_plant seed with planted | same | ⟨fault, tied, stalled⟩
  · exact graded.planted planted
  · rw [same]
    exact graded
  · exact graded.stalled stalled

/-- Numbers fall and rise behind all plantings, whatever comes of each. -/
theorem plantOn (seeds : List Seed) : (forest.plantOn seeds).Graded := by
  induction seeds generalizing forest with
  | nil => exact graded
  | cons seed others ih => exact ih (graded.plant seed)

end Graded

/-- A planting leaves each parent that a node has, whatever comes of it. -/
theorem parent?_plant {child parent : NodeId} (linked : forest.parent? child = some parent)
    (seed : Seed) : (forest.plant seed).2.parent? child = some parent := by
  rcases forest.cases_of_plant seed with planted | same | ⟨fault, tied, stalled⟩
  · have old : child ≠ forest.nodes.size := by
      rintro rfl
      simp [parent?] at linked
    have other : child ∉ seed.data.children := by
      intro member
      rw [planted.parentless child member] at linked
      contradiction
    rw [planted.parent?_eq, if_neg old, if_neg other, linked]
  · rw [same, linked]
  · have other : child ∉ tied := by
      intro member
      rw [stalled.parent?_eq_none member] at linked
      contradiction
    rw [stalled.parent?_eq, if_neg other, linked]

/-- Plantings leave each parent that a node has, whatever comes of each. -/
theorem parent?_plantOn {child parent : NodeId} (linked : forest.parent? child = some parent)
    (seeds : List Seed) : (forest.plantOn seeds).parent? child = some parent := by
  induction seeds generalizing forest with
  | nil => exact linked
  | cons seed others ih => exact ih (parent?_plant linked seed)

/-- Plantings in a row are the first ones and then the others. -/
theorem plantOn_append (forest : Forest) (early late : List Seed) :
    forest.plantOn (early ++ late) = (forest.plantOn early).plantOn late := by
  induction early generalizing forest with
  | nil => rfl
  | cons seed others ih => exact ih (forest.plant seed).2

end Forest

/-- A walk over the children comes through if it does so for each of them. -/
theorem NodeData.exists_traverse {γ δ ε : Type} {find : γ → Except ε δ} {data : NodeData γ}
    (each : ∀ child ∈ data.children, ∃ found, find child = .ok found) :
    ∃ result, data.traverse find = .ok result := by
  have row (children : List γ) (each : ∀ child ∈ children, ∃ found, find child = .ok found) :
      ∃ found, children.mapM find = .ok found := by
    induction children with
    | nil => exact ⟨[], rfl⟩
    | cons child others ih =>
      obtain ⟨first, here⟩ := each child (List.mem_cons_self ..)
      obtain ⟨rest, behind⟩ := ih fun other member => each other (List.mem_cons_of_mem _ member)
      exact ⟨first :: rest, by rw [List.mapM_cons, here, behind]; rfl⟩
  cases data with
  | source statements =>
    obtain ⟨found, here⟩ := row statements each
    exact ⟨.source found, by rw [traverse, here]; rfl⟩
  | instruction target operands =>
    obtain ⟨first, here⟩ := each target (List.mem_cons_self ..)
    obtain ⟨found, behind⟩ := row operands fun child member =>
      each child (List.mem_cons_of_mem _ member)
    exact ⟨.instruction first found, by rw [traverse, here, behind]; rfl⟩
  | label name =>
    obtain ⟨found, here⟩ := each name (List.mem_cons_self ..)
    exact ⟨.label found, by rw [traverse, here]; rfl⟩
  | identifier text => exact ⟨.identifier text, rfl⟩
  | integer value => exact ⟨.integer value, rfl⟩

namespace SyntaxTree

variable {tree : SyntaxTree} {wanted : Node → Bool}

/-- What a walk upwards comes to, however many steps it takes. It looks at a node; if that is not
wanted, it goes on with the parent. -/
inductive Climbs (tree : SyntaxTree) (wanted : Node → Bool) :
    NodeId → Except TreeFault (Option NodeId) → Prop
  /-- There is no node to look at. -/
  | lost {id : NodeId} {fault : TreeFault} (missing : tree.node id = .error fault) :
    Climbs tree wanted id (.error fault)
  /-- The node is wanted. -/
  | found {id : NodeId} {node : Node} (there : tree.node id = .ok node)
    (right : wanted node = true) : Climbs tree wanted id (.ok (some id))
  /-- The node is not wanted and has no parent. -/
  | top {id : NodeId} {node : Node} (there : tree.node id = .ok node)
    (wrong : wanted node = false) (free : node.parent = none) : Climbs tree wanted id (.ok none)
  /-- The node is not wanted and has a parent. -/
  | on {id parent : NodeId} {node : Node} {result : Except TreeFault (Option NodeId)}
    (there : tree.node id = .ok node) (wrong : wanted node = false)
    (linked : node.parent = some parent) (behind : Climbs tree wanted parent result) :
    Climbs tree wanted id result

/-- A walk upwards comes to one thing at most. -/
theorem Climbs.unique {id : NodeId} {first second : Except TreeFault (Option NodeId)}
    (here : tree.Climbs wanted id first) (there : tree.Climbs wanted id second) :
    first = second := by
  induction here with
  | lost missing => cases there <;> simp_all
  | found found right => cases there <;> simp_all
  | top found wrong free => cases there <;> simp_all
  | on found wrong linked _ ih =>
    cases there with
    | on again _ same behind =>
      obtain rfl := Except.ok.inj (found.symm.trans again)
      obtain rfl := Option.some.inj (linked.symm.trans same)
      exact ih behind
    | _ => simp_all

end SyntaxTree

/-- Where numbers rise, a walk upwards that has one step more than there are numbers left ends by
its rules. -/
theorem Forest.Graded.climbs_ancestorWithin {tree : SyntaxTree} (graded : tree.Graded)
    (wanted : Node → Bool) (steps id : Nat) (inside : id ≤ tree.nodes.size)
    (enough : tree.nodes.size < id + steps) :
    tree.Climbs wanted id (tree.ancestorWithin wanted steps id) := by
  induction steps generalizing id with
  | zero => omega
  | succ steps ih =>
    rw [SyntaxTree.ancestorWithin]
    cases there : tree.node id with
    | error fault => exact .lost there
    | ok node =>
      dsimp only
      split
      · exact .found there (by assumption)
      · rename_i wrong
        rw [Bool.not_eq_true] at wrong
        cases linked : node.parent with
        | none => exact .top there wrong linked
        | some parent =>
          have rises := graded.younger id parent
            ((SyntaxTree.parent?_of_node there).trans linked)
          exact .on there wrong linked (ih parent rises.2 (by omega))

/-- Where numbers rise, the walk upwards from a node ends by its rules. -/
theorem Forest.Graded.climbs_iff {tree : SyntaxTree} (graded : tree.Graded) {wanted : Node → Bool}
    {id : Nat} (inside : id < tree.nodes.size) {result : Except TreeFault (Option NodeId)} :
    tree.Climbs wanted id result ↔ tree.ancestor wanted id = result := by
  have climbs := graded.climbs_ancestorWithin wanted (tree.nodes.size + 1) id
    (Nat.le_of_lt inside) (by omega)
  constructor
  · exact climbs.unique
  · rintro rfl
    exact climbs

namespace SyntaxTree

variable {tree : SyntaxTree} {wanted : Node → Bool}

/-- Links from children to parents lead from one number to another. -/
def Leads (tree : SyntaxTree) : NodeId → NodeId → Prop :=
  Relation.ReflTransGen fun child parent => tree.parent? child = some parent

/-- A walk upwards that fails has been led to a number without a node. -/
theorem Climbs.leads {id : NodeId} {fault : TreeFault}
    (climbs : tree.Climbs wanted id (.error fault)) :
    ∃ last, tree.Leads id last ∧ tree.node last = .error fault := by
  generalize failed : Except.error fault = result at climbs
  induction climbs with
  | lost missing =>
    obtain rfl := Except.error.inj failed
    exact ⟨_, .refl, missing⟩
  | found => contradiction
  | top => contradiction
  | on there _ linked _ ih =>
    obtain ⟨last, leads, missing⟩ := ih failed
    exact ⟨last, .head ((parent?_of_node there).trans linked) leads, missing⟩

end SyntaxTree

namespace Forest.Graded

variable {tree : SyntaxTree} (graded : tree.Graded)

include graded

/-- Links from children to parents lead no further than to the number that comes next. -/
theorem le_size_of_leads {id last : Nat} (inside : id < tree.nodes.size)
    (leads : tree.Leads id last) : last ≤ tree.nodes.size := by
  cases leads with
  | refl => exact Nat.le_of_lt inside
  | tail _ linked => exact (graded.younger _ _ linked).2

/-- A walk upwards from a node fails only where it is led to the number that comes next. -/
theorem ancestor_eq_error {wanted : Node → Bool} {id : Nat} {fault : TreeFault}
    (inside : id < tree.nodes.size) (failed : tree.ancestor wanted id = .error fault) :
    fault = .outOfRange tree.nodes.size tree.nodes.size ∧ tree.Leads id tree.nodes.size := by
  obtain ⟨last, leads, missing⟩ := ((graded.climbs_iff inside).mpr failed).leads
  have bound := graded.le_size_of_leads inside leads
  have beyond : tree.nodes.size ≤ last := by
    rw [← Nat.not_lt, ← SyntaxTree.exists_node_iff, missing]
    simp
  obtain rfl : last = tree.nodes.size := Nat.le_antisymm bound beyond
  refine ⟨?_, leads⟩
  simpa [node, eq_comm] using missing

/-- A node that is there has children that are there, and all of them are older. -/
theorem ordered : tree.Ordered := by
  intro id node there child member
  refine graded.older id child ?_
  simpa [childrenOf, node_eq_ok_iff.mp there] using member

/-- A walk downwards from a node makes something of the node and of what it has found for its
children. -/
theorem exists_fold {α : Type} (combine : NodeId → NodeData α → α) {id : Nat}
    (inside : id < tree.nodes.size) :
    ∃ node data, tree.node id = .ok node ∧ node.data.traverse (tree.fold combine) = .ok data ∧
      tree.fold combine id = .ok (combine id data) := by
  induction id using Nat.strongRecOn with
  | ind id ih =>
    obtain ⟨node, there⟩ := SyntaxTree.exists_node_iff.mpr inside
    have each : ∀ child ∈ node.data.children, ∃ found, tree.fold combine child = .ok found := by
      intro child member
      have falls := graded.ordered id node there child member
      obtain ⟨_, data, _, _, found⟩ := ih child falls (Nat.lt_trans falls inside)
      exact ⟨_, found⟩
    obtain ⟨data, found⟩ := NodeData.exists_traverse each
    exact ⟨node, data, there, found, SyntaxTree.fold_eq graded.ordered there found⟩

end Forest.Graded

/-- A tree in which each walk from a node comes to an end. -/
structure SyntaxTree.Walkable (tree : SyntaxTree) : Prop where
  /-- Children are older than the node that lists them. -/
  older : ∀ (parent child : Nat), child ∈ tree.childrenOf parent → child < parent
  /-- A parent is younger than its child, and its number is at most the number of nodes. -/
  younger : ∀ (child parent : Nat), tree.parent? child = some parent →
    child < parent ∧ parent ≤ tree.nodes.size
  /-- The walk upwards ends, whatever is wanted, and comes to one thing. -/
  climbs : ∀ (wanted : Node → Bool) (id : Nat), id < tree.nodes.size →
    ∀ result, tree.Climbs wanted id result ↔ tree.ancestor wanted id = result
  /-- It fails only where parents lead to the number of nodes, at which there is none. -/
  lost : ∀ (wanted : Node → Bool) (id : Nat) (fault : TreeFault), id < tree.nodes.size →
    tree.ancestor wanted id = .error fault →
    fault = .outOfRange tree.nodes.size tree.nodes.size ∧ tree.Leads id tree.nodes.size
  /-- The children of a node are found. -/
  children : ∀ id : Nat, id < tree.nodes.size → ∃ ids, tree.children id = .ok ids
  /-- Each walk downwards ends, whatever it makes of nodes, and it makes that of each node and of
  what it has made of the children. -/
  folds : ∀ {α : Type} (combine : NodeId → NodeData α → α) (id : Nat), id < tree.nodes.size →
    ∃ node data, tree.node id = .ok node ∧ node.data.traverse (tree.fold combine) = .ok data ∧
      tree.fold combine id = .ok (combine id data)
  /-- Each node is printed. -/
  printed : ∀ id : Nat, id < tree.nodes.size → ∃ text, tree.printFrom id = .ok text
  /-- The nodes below each node are listed. -/
  listed : ∀ id : Nat, id < tree.nodes.size → ∃ nodes, tree.preorder id = .ok nodes

/-- Where numbers fall along children and rise along parents, each walk comes to an end. -/
theorem Forest.Graded.walkable {tree : SyntaxTree} (graded : tree.Graded) : tree.Walkable := by
  have walks {α : Type} (combine : NodeId → NodeData α → α) (id : Nat)
      (inside : id < tree.nodes.size) : ∃ found, tree.fold combine id = .ok found := by
    obtain ⟨_, _, _, _, found⟩ := graded.exists_fold combine inside
    exact ⟨_, found⟩
  refine
    { older := graded.older
      younger := graded.younger
      climbs := fun wanted id inside result => graded.climbs_iff inside
      lost := fun wanted id fault => graded.ancestor_eq_error
      children := fun id inside => ?_
      folds := fun combine id => graded.exists_fold combine
      printed := fun id inside => walks _ id inside
      listed := fun id inside => walks _ id inside }
  obtain ⟨node, there⟩ := SyntaxTree.exists_node_iff.mpr inside
  exact ⟨node.data.children, by rw [SyntaxTree.children, there]; rfl⟩

/-- **Walks after failed plantings.** Whatever is planted, and whichever plantings fail, a parent
that a node has is never changed. In a tree that is finished then, numbers fall along children and
rise along parents up to the number of nodes. So each walk from a node ends. One upwards fails only
if it is led to the number of nodes, and those downwards do not fail at all. -/
theorem Forest.walkable_plantOn (seeds : List Seed) :
    (∀ early late, seeds = early ++ late → ∀ child parent,
      (empty.plantOn early).parent? child = some parent →
        (empty.plantOn seeds).parent? child = some parent) ∧
    ∀ root tree, (empty.plantOn seeds).finish root = .ok tree →
      tree.toForest = empty.plantOn seeds ∧ tree.Walkable := by
  constructor
  · rintro early late rfl child parent linked
    rw [plantOn_append]
    exact parent?_plantOn linked late
  · intro root tree finished
    have whole := toForest_of_finish finished
    have graded : tree.Graded := whole ▸ graded_empty.plantOn seeds
    exact ⟨whole, graded.walkable⟩

/-- A name that a failed planting has tied to a node that is not there: the walk upwards from it is
led there, and those downwards come through. -/
theorem Forest.walkable_plantOn_tied :
    let seeds : List Seed := [⟨.identifier ['x'], 0, 1⟩, ⟨.identifier ['y'], 2, 1⟩,
      ⟨.instruction 0 [0], 0, 1⟩]
    ∃ tree, (empty.plantOn seeds).finish 1 = .ok tree ∧ tree.Walkable ∧
      tree.ancestor (fun _ => false) 0 = .error (.outOfRange 2 2) ∧ tree.Leads 0 2 ∧
      tree.printFrom 0 = .ok ['x'] := by
  intro seeds
  have walkable := ((walkable_plantOn seeds).2 1 _ rfl).2
  exact ⟨_, rfl, walkable, rfl, (walkable.lost (fun _ => false) 0 _ (by decide) rfl).2, rfl⟩

end Assembly8085
