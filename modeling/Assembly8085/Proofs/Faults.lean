import Assembly8085.Proofs.Growth

/-!
# Failed plantings

A planting that fails over a child that does not fit leaves the forest as it was. One that fails
over a child that has a parent does not: the children in front of that one have been adopted, by a
node that is not there and whose number the next node gets. If the forest goes on to be used, these
are the only links that say more than the lists of children do.
-/
namespace Assembly8085.Forest

/-- What becomes of a forest if the adoption of children comes to one that has a parent: the ones in
front of it are tied to theirs. -/
structure Stalled (forest : Forest) (parent : NodeId) (children : List NodeId) (fault : TreeFault)
    (tied : List NodeId) (after : Forest) : Prop extends forest.Adopts parent tied after where
  /-- The child behind those tied had a parent before, or is one of them. -/
  refused : ∃ child others, children = tied ++ child :: others ∧ fault = .hasParent child ∧
    (child ∈ tied ∨ forest.parent? child ≠ none)

/-- Adoption that fails has come to a child that has a parent, provided that all of them are
there. -/
theorem exists_stalled_of_adopt {forest after : Forest} {parent : NodeId}
    {children : List NodeId} {fault : TreeFault}
    (there : ∀ child ∈ children, forest.kind? child ≠ none)
    (failed : forest.adopt parent children = (.error fault, after)) :
    ∃ tied, forest.Stalled parent children fault tied after := by
  induction children generalizing forest with
  | nil => simp [adopt] at failed
  | cons child others ih =>
    obtain ⟨node, here⟩ : ∃ node, forest.nodes[child]? = some node := by
      have found := there child (List.mem_cons_self ..)
      rwa [kind?, Ne, Option.map_eq_none_iff, ← Ne, Option.ne_none_iff_exists'] at found
    rw [adopt, node_eq_ok_iff.mpr here] at failed
    simp only at failed
    split at failed
    · rename_i taken
      obtain ⟨reason, rfl⟩ := Prod.mk.inj failed
      refine ⟨[], forest.adopts_nil parent, child, others, rfl, (Except.error.inj reason).symm,
        .inr ?_⟩
      rw [parent?, here]
      exact Option.isSome_iff_ne_none.mp taken
    · rename_i free
      obtain ⟨tied, stalled⟩ := ih (fun other member => by
        rw [kind?_link]
        exact there other (List.mem_cons_of_mem _ member)) failed
      obtain ⟨last, rest, rfl, rfl, reason⟩ := stalled.refused
      refine ⟨child :: tied, stalled.toAdopts.cons here (Option.not_isSome_iff_eq_none.mp free),
        last, rest, rfl, rfl, ?_⟩
      rcases reason with again | before
      · exact .inl (List.mem_cons_of_mem _ again)
      · by_cases same : last = child
        · exact .inl (List.mem_cons.mpr (.inl same))
        · refine .inr ?_
          rwa [parent?, getElem?_link, if_neg same, ← parent?] at before

namespace Stalled

variable {forest after : Forest} {parent : NodeId} {children tied : List NodeId}
  {fault : TreeFault} (stalled : forest.Stalled parent children fault tied after)

include stalled

/-- The forest is as it was exactly if no node has been tied. -/
theorem eq_iff : after = forest ↔ tied = [] := by
  constructor
  · rintro rfl
    cases tied with
    | nil => rfl
    | cons first others =>
      have linked := stalled.parent?_eq first
      rw [if_pos (List.mem_cons_self ..), stalled.parent?_eq_none (List.mem_cons_self ..)] at linked
      contradiction
  · rintro rfl
    have same : after.nodes = forest.nodes := by
      apply Array.ext_getElem?
      intro id
      simpa using stalled.changed id
    cases after
    cases forest
    exact congrArg Forest.mk same

/-- No node has been tied exactly if the first child had a parent. -/
theorem eq_nil_iff :
    tied = [] ↔ ∃ first, children.head? = some first ∧ forest.parent? first ≠ none := by
  obtain ⟨child, others, rfl, _, reason⟩ := stalled.refused
  cases tied with
  | nil => simpa using reason
  | cons first more =>
    have free := stalled.parent?_eq_none (List.mem_cons_self ..)
    simp [free]

end Stalled

/-- A planting that fails has found a child that does not fit and changed nothing, or has found one
that has a parent. -/
theorem misfit_or_stalled_of_plant {forest after : Forest} {seed : Seed} {fault : TreeFault}
    (failed : forest.plant seed = (.error fault, after)) :
    (forest.misfitIn? seed.data = some fault ∧ after = forest) ∨
      (forest.misfitIn? seed.data = none ∧
        ∃ tied, forest.Stalled forest.nodes.size seed.data.children fault tied after) := by
  unfold plant at failed
  split at failed
  · rename_i misfit
    obtain ⟨same, rfl⟩ := Prod.mk.inj failed
    exact .inl ⟨misfit.trans (congrArg some (Except.error.inj same)), rfl⟩
  · rename_i noMisfit
    have fits := misfitIn?_eq_none_iff.mp noMisfit
    split at failed
    · rename_i adopted
      obtain ⟨same, rfl⟩ := Prod.mk.inj failed
      obtain rfl := Except.error.inj same
      exact .inr ⟨noMisfit, exists_stalled_of_adopt (fun child => fits.kind?_ne_none) adopted⟩
    · simp at failed

/-- A planting that fails leaves the forest as it was exactly if a child does not fit or the first
one has a parent. -/
theorem eq_iff_of_plant {forest after : Forest} {seed : Seed} {fault : TreeFault}
    (failed : forest.plant seed = (.error fault, after)) :
    after = forest ↔ forest.misfitIn? seed.data ≠ none ∨
      ∃ first, seed.data.children.head? = some first ∧ forest.parent? first ≠ none := by
  rcases misfit_or_stalled_of_plant failed with ⟨misfit, same⟩ | ⟨noMisfit, tied, stalled⟩
  · simp [same, misfit]
  · rw [stalled.eq_iff, stalled.eq_nil_iff]
    simp [noMisfit]

/-- A planting fails, and makes a node the child of another although it does. -/
def Strays (forest : Forest) (seed : Seed) (child parent : NodeId) : Prop :=
  (∃ fault, (forest.plant seed).1 = .error fault) ∧ forest.parent? child = none ∧
    (forest.plant seed).2.parent? child = some parent

/-- A planting makes a node a stray child exactly if it fails and leaves the forest other than it
was. -/
theorem exists_strays_iff {forest : Forest} {seed : Seed} :
    (∃ child parent, forest.Strays seed child parent) ↔
      (∃ fault, (forest.plant seed).1 = .error fault) ∧ (forest.plant seed).2 ≠ forest := by
  constructor
  · rintro ⟨child, parent, failed, before, after⟩
    refine ⟨failed, fun same => ?_⟩
    rw [same, before] at after
    contradiction
  · rintro ⟨⟨fault, failed⟩, other⟩
    have planted : forest.plant seed = (.error fault, (forest.plant seed).2) :=
      Prod.ext failed rfl
    rcases misfit_or_stalled_of_plant planted with ⟨_, same⟩ | ⟨_, tied, stalled⟩
    · exact absurd same other
    · obtain ⟨child, member⟩ := List.exists_mem_of_ne_nil tied (mt stalled.eq_iff.mpr other)
      refine ⟨child, forest.nodes.size, ⟨fault, failed⟩, stalled.parent?_eq_none member, ?_⟩
      rw [stalled.parent?_eq, if_pos member]

/-- Links and lists of children agree but for strays, which no list of children holds. -/
structure Accounted (forest : Forest) (stray : NodeId → NodeId → Prop) : Prop where
  /-- A node is the parent of its children and of the strays that are tied to it. -/
  linked : ∀ child parent, forest.parent? child = some parent ↔
    child ∈ forest.childrenOf parent ∨ stray child parent
  /-- Strays are not among the children. -/
  apart : ∀ child parent, stray child parent → child ∉ forest.childrenOf parent

/-- Where there are no nodes, there are no strays. -/
theorem accounted_empty : empty.Accounted fun _ _ => False where
  linked := by simp [parent?, childrenOf, empty]
  apart := by simp

/-- A number without a node has no children. -/
theorem childrenOf_size (forest : Forest) : forest.childrenOf forest.nodes.size = [] := by
  simp [childrenOf]

namespace Accounted

variable {forest : Forest} {stray : NodeId → NodeId → Prop} (before : forest.Accounted stray)

include before

/-- A planting that succeeds makes no stray. -/
theorem planted {after : Forest} {seed : Seed} (planted : forest.Planted seed after) :
    after.Accounted stray := by
  have orphan (parent : NodeId) :
      ¬ (forest.nodes.size ∈ forest.childrenOf parent ∨ stray forest.nodes.size parent) := by
    rw [← before.linked]
    simp [parent?]
  refine ⟨fun child parent => ?_, fun child parent strayed => ?_⟩
  · have linked := before.linked child parent
    rw [planted.parent?_eq, planted.childrenOf_eq]
    by_cases new : child = forest.nodes.size
    · subst new
      obtain ⟨none, apart⟩ := not_or.mp (orphan parent)
      by_cases self : parent = forest.nodes.size
      · simp [self, planted.size_not_mem, self ▸ apart]
      · simp [self, none, apart]
    · by_cases adopted : child ∈ seed.data.children
      · rw [planted.parentless child adopted] at linked
        by_cases self : parent = forest.nodes.size
        · simp [new, adopted, self]
        · simpa [new, adopted, self, eq_comm (a := forest.nodes.size)] using linked
      · by_cases self : parent = forest.nodes.size
        · rw [self, childrenOf_size] at linked
          simpa [new, adopted, self] using linked
        · simpa [new, adopted, self] using linked
  · have linked := (before.linked child parent).mpr (.inr strayed)
    rw [planted.childrenOf_eq]
    split
    · intro member
      rw [planted.parentless child member] at linked
      contradiction
    · exact before.apart child parent strayed

/-- The strays that a stalled adoption makes come to those that there are. -/
theorem stalled {after : Forest} {children tied : List NodeId} {fault : TreeFault}
    (stalled : forest.Stalled forest.nodes.size children fault tied after) :
    after.Accounted fun child parent => stray child parent ∨
      (forest.parent? child = none ∧ after.parent? child = some parent) := by
  refine ⟨fun child parent => ?_, fun child parent strayed => ?_⟩
  · have linked := before.linked child parent
    rw [stalled.childrenOf_eq, ← or_assoc, ← linked, stalled.parent?_eq]
    by_cases member : child ∈ tied
    · simp [member, stalled.parent?_eq_none member]
    · have old : ¬ (forest.parent? child = none ∧ forest.parent? child = some parent) := by
        rintro ⟨free, tie⟩
        rw [free] at tie
        contradiction
      simp [member, old]
  · rw [stalled.childrenOf_eq]
    rcases strayed with old | ⟨free, tie⟩
    · exact before.apart child parent old
    · rw [stalled.parent?_eq] at tie
      split at tie
      · obtain rfl := Option.some.inj tie
        simp [childrenOf_size]
      · rw [free] at tie
        contradiction

/-- Whether or not a planting succeeds, its strays come to those that there are. -/
theorem plant (seed : Seed) :
    (forest.plant seed).2.Accounted fun child parent =>
      stray child parent ∨ forest.Strays seed child parent := by
  cases made : forest.plant seed with
  | mk result after =>
    cases result with
    | ok id =>
      have none (child parent : NodeId) : ¬ forest.Strays seed child parent := by
        rintro ⟨⟨fault, failed⟩, _⟩
        rw [made] at failed
        contradiction
      simpa [none] using before.planted (planted_of_plant made).2
    | error fault =>
      have strays (child parent : NodeId) : forest.Strays seed child parent ↔
          forest.parent? child = none ∧ after.parent? child = some parent := by
        simp [Strays, made]
      simp only [strays]
      rcases misfit_or_stalled_of_plant made with ⟨_, rfl⟩ | ⟨_, tied, stalled⟩
      · have none (child parent : NodeId) :
            ¬ (after.parent? child = none ∧ after.parent? child = some parent) := by
          rintro ⟨free, tied⟩
          rw [free] at tied
          contradiction
        simpa [none] using before
      · exact before.stalled stalled

end Accounted

/-- Adds nodes one after the other, and goes on with what is left where one cannot be added. -/
def plantOn (forest : Forest) : List Seed → Forest
  | [] => forest
  | seed :: others => (forest.plant seed).2.plantOn others

/-- One of several plantings fails, and makes a node the child of another although it does. -/
def Strayed (forest : Forest) (seeds : List Seed) (child parent : NodeId) : Prop :=
  ∃ early seed late, seeds = early ++ seed :: late ∧
    (forest.plantOn early).Strays seed child parent

/-- Strays come from the first planting or from those behind it. -/
theorem strayed_cons {forest : Forest} {seed : Seed} {others : List Seed}
    {child parent : NodeId} :
    forest.Strayed (seed :: others) child parent ↔
      forest.Strays seed child parent ∨ (forest.plant seed).2.Strayed others child parent := by
  constructor
  · rintro ⟨early, failing, late, same, strays⟩
    cases early with
    | nil =>
      obtain ⟨rfl, rfl⟩ := List.cons.inj same
      exact .inl strays
    | cons first more =>
      obtain ⟨rfl, rfl⟩ := List.cons.inj same
      exact .inr ⟨more, failing, late, rfl, strays⟩
  · rintro (strays | ⟨early, failing, late, rfl, strays⟩)
    · exact ⟨[], seed, others, rfl, strays⟩
    · exact ⟨seed :: early, failing, late, rfl, strays⟩

/-- However many plantings fail, their strays come to those that there are. -/
theorem Accounted.plantOn {forest : Forest} {stray : NodeId → NodeId → Prop}
    (before : forest.Accounted stray) (seeds : List Seed) :
    (forest.plantOn seeds).Accounted fun child parent =>
      stray child parent ∨ forest.Strayed seeds child parent := by
  induction seeds generalizing forest stray with
  | nil => simpa [Strayed, Forest.plantOn] using before
  | cons seed others ih =>
    have later := ih (before.plant seed)
    simpa only [Forest.plantOn, strayed_cons, or_assoc] using later

/-- **Failed plantings.** Whatever has been planted before, and whichever plantings failed, one that
fails over a child that does not fit changes nothing, and one that fails over a child that has a
parent ties the children in front of that one to a node that is not there. So it leaves the forest
as it was exactly if a child does not fit or the first one has a parent. In a tree that is finished
later, the links are those of the lists of children and the ones that failed plantings left, and
those two are the same exactly if each failed planting left the forest as it was. -/
theorem linked_plantOn (seeds : List Seed) :
    let forest := empty.plantOn seeds
    (∀ seed fault after, forest.plant seed = (.error fault, after) →
      ((forest.misfitIn? seed.data = some fault ∧ after = forest) ∨
        ∃ tied, forest.Stalled forest.nodes.size seed.data.children fault tied after) ∧
      (after = forest ↔ forest.misfitIn? seed.data ≠ none ∨
        ∃ first, seed.data.children.head? = some first ∧ forest.parent? first ≠ none)) ∧
    ∀ root tree, forest.finish root = .ok tree →
      (∀ child parent, tree.parent? child = some parent ↔
        child ∈ tree.childrenOf parent ∨ empty.Strayed seeds child parent) ∧
      ((∀ child parent, tree.parent? child = some parent ↔ child ∈ tree.childrenOf parent) ↔
        ∀ early seed late, seeds = early ++ seed :: late →
          (∃ fault, ((empty.plantOn early).plant seed).1 = .error fault) →
          ((empty.plantOn early).plant seed).2 = empty.plantOn early) := by
  intro forest
  constructor
  · intro seed fault after failed
    refine ⟨?_, eq_iff_of_plant failed⟩
    exact (misfit_or_stalled_of_plant failed).imp_right And.right
  · intro root tree finished
    have accounted := accounted_empty.plantOn seeds
    simp only [false_or] at accounted
    rw [toForest_of_finish finished]
    refine ⟨accounted.linked, ?_⟩
    constructor
    · intro agree early seed late same failed
      refine Classical.byContradiction fun other => ?_
      obtain ⟨child, parent, strays⟩ := exists_strays_iff.mpr ⟨failed, other⟩
      have strayed : empty.Strayed seeds child parent := ⟨early, seed, late, same, strays⟩
      have linked := (accounted.linked child parent).mpr (.inr strayed)
      exact accounted.apart child parent strayed ((agree child parent).mp linked)
    · intro unchanged child parent
      rw [accounted.linked, or_iff_left]
      rintro ⟨early, seed, late, same, strays⟩
      obtain ⟨failed, other⟩ := exists_strays_iff.mp ⟨child, parent, strays⟩
      exact other (unchanged early seed late same failed)

/-- A name is given twice to an instruction, once as its target and once as its operand, and then a
node is added that has no children. The planting that fails changes the forest, and the tree that is
finished has a link to a node without children. -/
theorem linked_to_childless :
    let name : Seed := ⟨.identifier ['x'], 0, 1⟩
    let twice : Seed := ⟨.instruction 0 [0], 0, 1⟩
    let other : Seed := ⟨.identifier ['y'], 2, 1⟩
    let forest := empty.plantOn [name]
    (forest.plant twice).1 = .error (.hasParent 0) ∧ (forest.plant twice).2 ≠ forest ∧
      ∃ tree, (empty.plantOn [name, twice, other]).finish 1 = .ok tree ∧
        tree.parent? 0 = some 1 ∧ 0 ∉ tree.childrenOf 1 := by
  refine ⟨rfl, by decide, _, rfl, rfl, by decide⟩

end Assembly8085.Forest
