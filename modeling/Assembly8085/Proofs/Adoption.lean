import Assembly8085.Proofs.Faults

/-!
# What can be planted

Each child of a node has a slot, and each slot is for a family of kinds. A node can be planted
exactly if its children are there, fit their slots, are all different and have no parent. Whatever
was planted so, the parents that nodes name and the children that nodes list are one relation.
-/
namespace Assembly8085

namespace NodeData

variable {γ : Type}

/-- The children in source order, each with the family of kinds that its slot is for. -/
def slots : NodeData γ → List (γ × (NodeKind → Bool))
  | .source statements => statements.map fun id => (id, NodeKind.isStatement)
  | .instruction target operands =>
    (target, fun kind => kind = .identifier) :: operands.map fun id => (id, NodeKind.isExpression)
  | .label name => [(name, fun kind => kind = .identifier)]
  | .identifier _ | .integer _ => []

/-- The slots are those of the children. -/
theorem map_fst_slots (data : NodeData γ) : data.slots.map Prod.fst = data.children := by
  cases data <;> simp [slots, children, Function.comp_def]

end NodeData

namespace Forest

variable {forest : Forest} {seed : Seed}

/-- Children fit exactly if each belongs to the family that its slot is for. -/
theorem fits_iff_slots {data : NodeData NodeId} :
    forest.Fits data ↔ ∀ slot ∈ data.slots, forest.Belongs slot.2 slot.1 := by
  cases data <;> simp [Fits, NodeData.slots]

/-- What is wrong with a node that cannot be planted. -/
inductive Refuses (forest : Forest) (seed : Seed) : Prop
  /-- A child is not there. -/
  | missing (child : Nat) (member : child ∈ seed.data.children)
      (beyond : forest.nodes.size ≤ child)
  /-- A child is of a kind that its slot is not for. -/
  | misplaced (child : NodeId) (family : NodeKind → Bool) (kind : NodeKind)
      (slot : (child, family) ∈ seed.data.slots) (known : forest.kind? child = some kind)
      (wrong : family kind = false)
  /-- A child is listed twice. -/
  | repeated (child : NodeId) (twice : 2 ≤ seed.data.children.count child)
  /-- A child has a parent already. -/
  | taken (child parent : NodeId) (member : child ∈ seed.data.children)
      (linked : forest.parent? child = some parent)

/-- A child that does not fit is not there or is of another kind. -/
theorem refuses_of_not_fits (misfit : ¬ forest.Fits seed.data) : forest.Refuses seed := by
  rw [fits_iff_slots] at misfit
  obtain ⟨⟨child, family⟩, unmet⟩ := Classical.not_forall.mp misfit
  obtain ⟨slot, stranger⟩ := Classical.not_imp.mp unmet
  have member : child ∈ seed.data.children := by
    rw [← NodeData.map_fst_slots]
    exact List.mem_map_of_mem slot
  cases known : forest.kind? child with
  | none => exact .missing child member (by simpa [kind?] using known)
  | some kind =>
    refine .misplaced child family kind slot known ?_
    cases right : family kind with
    | false => rfl
    | true => exact absurd ⟨kind, known, right⟩ stranger

/-- A child at which an adoption stalls is listed twice or has a parent. -/
theorem Stalled.refuses {parent : NodeId} {tied : List NodeId} {fault : TreeFault} {after : Forest}
    (stalled : forest.Stalled parent seed.data.children fault tied after) :
    forest.Refuses seed := by
  obtain ⟨child, others, children, _, reason⟩ := stalled.refused
  rcases reason with again | before
  · refine .repeated child ?_
    have once := List.count_pos_iff.mpr again
    rw [children, List.count_append, List.count_cons_self]
    omega
  · obtain ⟨other, linked⟩ := Option.ne_none_iff_exists'.mp before
    refine .taken child other ?_ linked
    rw [children]
    exact List.mem_append_right _ (List.mem_cons_self ..)

/-- Nothing is wrong with a node that is planted. -/
theorem Planted.not_refuses {after : Forest} (planted : forest.Planted seed after) :
    ¬ forest.Refuses seed := by
  rintro (⟨child, member, beyond⟩ | ⟨child, family, kind, slot, known, wrong⟩ | ⟨child, twice⟩ |
    ⟨child, parent, member, linked⟩)
  · have there := planted.fits.kind?_ne_none member
    simp [kind?, beyond] at there
  · obtain ⟨same, here, right⟩ := fits_iff_slots.mp planted.fits _ slot
    obtain rfl := Option.some.inj (known.symm.trans here)
    exact Bool.false_ne_true (wrong.symm.trans right)
  · have once := planted.nodup.count (a := child)
    split at once <;> omega
  · have free := planted.parentless child member
    rw [linked] at free
    contradiction

/-- A planting fails exactly if something is wrong with the node. -/
theorem exists_fault_iff_refuses :
    (∃ fault, (forest.plant seed).1 = .error fault) ↔ forest.Refuses seed := by
  cases made : forest.plant seed with
  | mk result after =>
    cases result with
    | ok id =>
      have sound := (planted_of_plant made).2.not_refuses
      simp [sound]
    | error fault =>
      refine iff_of_true ⟨fault, rfl⟩ ?_
      rcases misfit_or_stalled_of_plant made with ⟨misfit, _⟩ | ⟨_, tied, stalled⟩
      · apply refuses_of_not_fits
        rw [← misfitIn?_eq_none_iff, misfit]
        exact Option.some_ne_none fault
      · exact stalled.refuses

/-- A planting puts what was planted behind what the other nodes hold. -/
theorem Planted.map_toSeed {after : Forest} (planted : forest.Planted seed after) :
    after.nodes.toList.map Node.toSeed = forest.nodes.toList.map Node.toSeed ++ [seed] := by
  apply List.ext_getElem?
  intro id
  rw [List.getElem?_map, Array.getElem?_toList]
  by_cases new : id = forest.nodes.size
  · subst new
    simp [planted.last]
  · have kept : after.nodes[id]?.map Node.toSeed = forest.nodes[id]?.map Node.toSeed := by
      rw [planted.changed id new]
      split
      · rw [Option.map_map]
        rfl
      · rfl
    rw [kept]
    rcases Nat.lt_or_gt_of_ne new with old | beyond
    · rw [List.getElem?_append_left (by simpa using old)]
      simp
    · rw [List.getElem?_eq_none (by simp; omega), Array.getElem?_eq_none (by omega)]
      rfl

/-- The nodes of a forest that was grown without a fault hold what was planted, in order. -/
theorem map_toSeed_of_plantAll {before after : Forest} {seeds : List Seed}
    (planted : before.plantAll seeds = .ok after) :
    after.nodes.toList.map Node.toSeed = before.nodes.toList.map Node.toSeed ++ seeds := by
  induction seeds generalizing before with
  | nil =>
    obtain rfl := Except.ok.inj planted
    exact (List.append_nil _).symm
  | cons seed others ih =>
    rw [plantAll] at planted
    split at planted
    · contradiction
    · rename_i id next here
      rw [ih planted, (planted_of_plant here).2.map_toSeed, List.append_assoc]
      rfl

/-- The root of a finished tree is a node without a parent. -/
theorem root_of_finish {root : NodeId} {tree : SyntaxTree}
    (finished : forest.finish root = .ok tree) :
    tree.root = root ∧ (∃ node, tree.node root = .ok node) ∧ tree.parent? root = none := by
  have whole := toForest_of_finish finished
  unfold finish at finished
  split at finished
  · contradiction
  · rename_i node there
    split at finished
    · contradiction
    · rename_i free
      obtain rfl := Except.ok.inj finished
      refine ⟨rfl, ⟨node, there⟩, ?_⟩
      rw [parent?, node_eq_ok_iff.mp there]
      exact Option.not_isSome_iff_eq_none.mp free

end Forest

/-- A tree that was grown without a fault: the parents that nodes name and the children that nodes
list agree, and all nodes are what they were planted as. -/
structure SyntaxTree.Grown (tree : SyntaxTree) (seeds : List Seed) (root : NodeId) : Prop where
  /-- The nodes hold what was planted, in order. -/
  planted : tree.nodes.toList.map Node.toSeed = seeds
  /-- A node is the parent of exactly its children. -/
  linked : ∀ child parent, tree.parent? child = some parent ↔ child ∈ tree.childrenOf parent
  /-- No node lists a child twice. -/
  nodup : ∀ parent, (tree.childrenOf parent).Nodup
  /-- Children are older than their parents. -/
  older : ∀ (parent child : Nat), child ∈ tree.childrenOf parent → child < parent
  /-- No two nodes list the same child. -/
  single : ∀ child first second, child ∈ tree.childrenOf first → child ∈ tree.childrenOf second →
    first = second
  /-- Each child is there and is of the family that its slot is for. -/
  families : ∀ id node, tree.node id = .ok node →
    ∀ child family, (child, family) ∈ node.data.slots →
      ∃ kind, tree.kind? child = some kind ∧ family kind = true
  /-- The root is the one that was chosen. -/
  chosen : tree.root = root
  /-- It is there. -/
  there : ∃ node, tree.node root = .ok node
  /-- It has no parent. -/
  free : tree.parent? root = none

/-- **Growing without a fault.** In a tree that is finished after plantings that all succeeded,
parents and children are one relation, in which each child is listed once by one younger node and
fits its slot, and the root is nobody's child. A planting fails, in any forest at all, exactly if a
child is not there, is of a kind that its slot is not for, is listed twice or has a parent. -/
theorem Forest.grown_of_finish (seeds : List Seed) (root : NodeId) :
    (∀ forest tree, empty.plantAll seeds = .ok forest → forest.finish root = .ok tree →
      tree.Grown seeds root) ∧
    ∀ (forest : Forest) (seed : Seed),
      (∃ fault, (forest.plant seed).1 = .error fault) ↔ forest.Refuses seed := by
  refine ⟨fun forest tree planted finished => ?_, fun forest seed => exists_fault_iff_refuses⟩
  have consistent := consistent_of_finish planted finished
  have held := map_toSeed_of_plantAll planted
  rw [← toForest_of_finish finished] at held
  obtain ⟨chosen, there, free⟩ := root_of_finish finished
  refine
    { planted := held
      linked := consistent.linked
      nodup := consistent.nodup
      older := consistent.older
      single := fun child first second inFirst inSecond => ?_
      families := fun id node found child family slot => ?_
      chosen := chosen
      there := there
      free := free }
  · have one := (consistent.linked child first).mpr inFirst
    have other := (consistent.linked child second).mpr inSecond
    exact Option.some.inj (one.symm.trans other)
  · have fits := consistent.fits id node (node_eq_ok_iff.mp found)
    exact fits_iff_slots.mp fits (child, family) slot

/-- A label behind an instruction with a name and a number, below a source, and a planting that
names one node as target and as operand. -/
theorem Forest.grown_of_finish_labelled :
    let seeds : List Seed := [
      ⟨.identifier ['m'], 0, 1⟩, ⟨.integer 1, 2, 1⟩, ⟨.instruction 0 [1], 0, 4⟩,
      ⟨.identifier ['a'], 4, 1⟩, ⟨.label 3, 4, 2⟩, ⟨.source [2, 4], 0, 6⟩]
    ∃ forest tree, empty.plantAll seeds = .ok forest ∧ forest.finish 5 = .ok tree ∧
      tree.Grown seeds 5 ∧
      (∃ fault, ((⟨#[⟨⟨.identifier ['m'], 0, 1⟩, none⟩]⟩ : Forest).plant
        ⟨.instruction 0 [0], 0, 1⟩).1 = .error fault) := by
  intro seeds
  refine ⟨_, _, rfl, rfl, (grown_of_finish seeds 5).1 _ _ rfl rfl, ?_⟩
  exact ((grown_of_finish seeds 5).2 _ _).mpr (.repeated 0 (by decide))

end Assembly8085
